-- The command line: from arguments, an input and the environment to what is
-- printed and the code to leave with.

import SyntaxAtlas.CommandLine.Arguments
import SyntaxAtlas.CommandLine.Workspace
import SyntaxAtlas.Render

namespace SyntaxAtlas.CommandLine

/-- The name that errors of the command line start with. -/
def programName : String := "syntaxlens"

/-! ## The environment -/

/-- The variables of the environment, and whether errors go to a terminal. -/
structure Environment where
  settings : List (String × String) := []
  terminal : Bool := false
deriving DecidableEq, Repr

namespace Environment

/-- The value of a variable, empty when it is not set. -/
def value (e : Environment) (name : String) : String := (e.settings.lookup name).getD ""

/-- The words that turn colour off. -/
def colorOff : List String := ["0", "false", "no", "never"]

/-- Colour is used on a terminal, unless a variable turns it off. -/
def usesColor (e : Environment) : Bool :=
  if !(e.value "NO_COLOR").isEmpty then false
  else if colorOff.contains (Text.lowerCase (e.value "SYNTAXLENS_COLOR")) then false
  else e.terminal

/-- Whether the trees of the stages are to be dumped. -/
def wantsDump (e : Environment) : Bool := !(e.value "SYNTAXLENS_DUMP_CST").isEmpty

end Environment

/-! ## Input -/

/-- Line ends of every kind as line feeds. -/
def unifyLineEnds : List Char → List Char
  | [] => []
  | '\r' :: '\n' :: cs => '\n' :: unifyLineEnds cs
  | c :: cs => (if c = '\r' then '\n' else c) :: unifyLineEnds cs

/-- Where the input comes from, and what was found there. -/
inductive Input
  | standard (bytes : List UInt8)
  | file (path : String) (found : Found)
deriving DecidableEq, Repr

/-- Why there is no source. -/
inductive InputFault
  | notFound (path : String)
  | nameTooLong (path : String)
  | notText (fault : Text.Utf8Fault)
deriving DecidableEq, Repr

def InputFault.message : InputFault → String
  | notFound path => "file not found: " ++ path
  | nameTooLong path =>
    "could not read input: [Errno 36] File name too long: " ++ Text.debugQuoted path
  | notText fault => "input is not valid UTF-8: " ++ fault.message

/-- Reads the source and its name. A file has all its line ends made one. -/
def Input.read : Input → Except InputFault (String × String)
  | standard bytes =>
    match Text.decode bytes with
    | .ok source => .ok (standardFile, source)
    | .error fault => .error (.notText fault)
  | file path .nothing => .error (.notFound path)
  | file path .nameTooLong => .error (.nameTooLong path)
  | file path (.file bytes) =>
    match Text.decode bytes with
    | .ok source => .ok (path, String.ofList (unifyLineEnds source.toList))
    | .error fault => .error (.notText fault)

/-! ## Output -/

/-- What the command line answers: the code to leave with and the texts of the
two outputs. -/
structure Response where
  exit : Nat
  output : String
  errors : String
  dumps : List (String × String) := []
deriving DecidableEq, Repr

/-- The line that tells of an error on the standard output. -/
def errorLine (message : String) : String :=
  (JsonValue.object [("error", .text message)]).write .spaced 0 ++ "\n"

/-- The log. Without debugging only warnings are shown, and only their text. -/
def logText (verbose : Bool) (events : List Event) : String :=
  if verbose then String.join (events.map fun e => e.line ++ "\n")
  else String.join ((events.filter (·.level == .warning)).map fun e => e.message ++ "\n")

/-- The answer to an input that cannot be read. -/
def refuseInput (fault : InputFault) : Response where
  exit := 1
  output := errorLine fault.message
  errors := programName ++ ": error: " ++ fault.message ++ "\n"

/-- The answer to a source that was rejected. -/
def refuseSource (color : Bool) (log file source : String) (e : SourceError) : Response where
  exit := 1
  output := errorLine e.text
  errors := log ++ (Report.add { sources := [(file, source)] } e).format color ++ "\n"

/-- How a source is to be rendered. -/
def Arguments.options (args : Arguments) : RenderOptions where
  fold := !args.noFold
  showMissing := args.showMissing

/-- What is printed for a source. -/
def produce (host : Host) (args : Arguments) (place : DumpPlace) (file source : String) :
    Traced (Except RenderFailure String) :=
  match args.format with
  | .sexpr =>
    (treeTraced host standardBudget args.options place file source).andThen fun p =>
    (host.take (.write p.root false)).andThen fun _ => { value := .ok (p.root.form false).pretty }
  | .json =>
    (recordsTraced host standardBudget args.options place file source).andThen fun records =>
      encodeTraced host records args.indent

/-- Answers arguments and an input, unless something ends the run. -/
def respond (host : Host) (args : Arguments) (input : Input) (env : Environment)
    (place : DumpPlace) : Except Escape Response :=
  match input.read with
  | .error fault => .ok (refuseInput fault)
  | .ok (file, source) =>
    let run := produce host args place file source
    let log := logText args.verbose run.events
    match run.value with
    | .ok text => .ok { exit := 0, output := text ++ "\n", errors := log, dumps := run.dumps }
    | .error (.rejected r) => .ok (refuseSource env.usesColor log file source (r.error file source))
    | .error (.escaped e) => .error e

/-! ## Runs -/

/-- A short reminder of the arguments. -/
def usage : String :=
  "usage: " ++ programName
    ++ " [-h] [--no-fold] [--show-missing] [--format \x7bjson,sexpr\x7d] [--indent INDENT] [-v] [file]"

/-- What is said about arguments that cannot be taken. -/
def usageError (fault : UsageFault) : String := programName ++ ": error: " ++ fault.message

/-- The answer when there is nothing to do. -/
def Stop.response : Stop → Response
  | .help => { exit := 0, output := usage ++ "\n", errors := "" }
  | .fault f => { exit := 2, output := "", errors := usage ++ "\n" ++ usageError f ++ "\n" }

/-- The last line of the errors. Empty lines at the end do not count. -/
def Response.lastError (r : Response) : String :=
  let backwards := r.errors.toList.reverse.dropWhile (· == '\n')
  String.ofList (backwards.takeWhile (· != '\n')).reverse

/-- Where a workspace takes dumps. -/
def Workspace.dumpPlace (w : Workspace) (env : Environment) : DumpPlace :=
  if !env.wantsDump then .nowhere
  else if w.isFile dumpDirectory then .occupied
  else .directory ([Stage.parsed, .folded].filter fun s =>
    w.isDirectory (w.whole (dumpDirectory ++ "/" ++ s.file)))

/-- Runs the command line in a workspace. -/
def run (host : Host) (w : Workspace) (env : Environment) (standardInput : List UInt8)
    (texts : List String) : Except Escape Response :=
  match Arguments.ofTexts texts with
  | .error stop => .ok stop.response
  | .ok args =>
    let input := match args.file with
      | none => .standard standardInput
      | some path => .file (w.shown path) (w.find path)
    respond host args input env (w.dumpPlace env)

end SyntaxAtlas.CommandLine
