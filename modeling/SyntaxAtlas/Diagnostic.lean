-- Diagnostics: an error with the line of the source it is about, and carets
-- under the place. Colour only adds escape sequences.

import SyntaxAtlas.Location

namespace SyntaxAtlas

/-! ## Colour -/

/-- A style of the terminal. -/
inductive TextStyle
  | bold | red | blue | cyan
deriving DecidableEq, Repr

def TextStyle.sequence : TextStyle → String
  | bold => "\x1b[1m"
  | red => "\x1b[31m"
  | blue => "\x1b[34m"
  | cyan => "\x1b[36m"

/-- Ends all styles. -/
def TextStyle.reset : String := "\x1b[0m"

/-- A text in some styles, or plain without colour. -/
def styled (color : Bool) (styles : List TextStyle) (text : String) : String :=
  if color then String.join (styles.map (·.sequence)) ++ text ++ TextStyle.reset else text

/-! ## Errors -/

/-- One error to report. -/
structure Diagnostic where
  message : String
  location : Option Location
  code : Option String := none
  help : Option String := none
  note : Option String := none
  label : Option String := none
deriving DecidableEq, Repr

/-- An empty text is as good as none. -/
def given (text : Option String) : Option String := text.filter (!·.isEmpty)

namespace Diagnostic

/-- The names of the known sources with their texts. -/
abbrev Sources := List (String × String)

def blanks (n : Nat) : String := String.ofList (List.replicate n ' ')

/-- The first line: the code and the message. -/
def headline (color : Bool) (d : Diagnostic) : String :=
  let code := match given d.code with
    | some c => "[" ++ c ++ "]"
    | none => ""
  styled color [.bold, .red] ("error" ++ code) ++ styled color [.bold] (": " ++ d.message)

/-- A line of advice behind the snippet. -/
def adviceLine (color : Bool) (pad name text : String) : String :=
  styled color [.bold, .cyan] (pad ++ "= ") ++ styled color [.bold] (name ++ ": ") ++ text

/-- The help and the note, each on a line, with an empty line in front. -/
def advice (color : Bool) (gutter : Nat) (d : Diagnostic) : List String :=
  let pad := blanks (gutter + 1)
  let lines := ((given d.help).map (adviceLine color pad "help")).toList
    ++ ((given d.note).map (adviceLine color pad "note")).toList
  if lines.isEmpty then [] else styled color [.bold, .blue] (pad ++ "|") :: lines

/-- The line of a snippet, empty when there is no such line. -/
def snippetLine (source : String) (line : Int) : List Char :=
  if line < 1 then [] else (Text.snippetLines source.toList).getD (line - 1).toNat []

/-- The number of carets: the bytes up to the end of the location, when it
ends on its own line. -/
def caretCount (l : Location) : Nat :=
  if l.column < l.endColumn ∧ (l.endLine = 0 ∨ l.endLine = l.line) then
    (l.endColumn - l.column).toNat
  else 1

/-- The blanks and carets under a line. -/
def carets (code : List Char) (l : Location) : String :=
  let before := Text.takeBytes ((max l.column 1) - 1).toNat code
  blanks before.length ++ String.ofList (List.replicate (caretCount l) '^')

/-- The lines of a snippet: place, line and carets. -/
def snippet (color : Bool) (gutter : Nat) (source : String) (label : Option String)
    (l : Location) : List String :=
  let rule := styled color [.bold, .blue]
  let code := snippetLine source l.line
  let suffix := match given label with
    | some text => " " ++ text
    | none => ""
  [rule (blanks gutter ++ "--> ") ++ l.text,
    rule (blanks (gutter + 1) ++ "|"),
    rule (toString l.line ++ " | ") ++ String.ofList code,
    rule (blanks (gutter + 1) ++ "| ") ++ styled color [.bold, .red] (carets code l ++ suffix)]

/-- The lines of a diagnostic. Without a known source there is no snippet. -/
def lines (color : Bool) (sources : Sources) (d : Diagnostic) : List String :=
  let arrow := styled color [.bold, .blue] " --> "
  d.headline color ::
    match d.location with
    | none => (arrow ++ "<unknown location>") :: d.advice color 1
    | some l =>
      match sources.lookup l.file with
      | none => (arrow ++ l.text) :: d.advice color 1
      | some source =>
        let gutter := (toString l.line).length
        snippet color gutter source d.label l ++ d.advice color gutter

def format (color : Bool) (sources : Sources) (d : Diagnostic) : String :=
  String.intercalate "\n" (d.lines color sources)

end Diagnostic

/-! ## Errors of a source -/

/-- An error in a source, with the source when it is at hand. -/
structure SourceError where
  message : String
  location : Option Location := none
  code : String := "E0001"
  source : Option String := none
  help : Option String := none
  label : Option String := none
  note : Option String := none
deriving DecidableEq, Repr

/-- A message with the place it is about. -/
def located (message : String) (location : Option Location) : String :=
  match location with
  | some l => message ++ " at " ++ l.text
  | none => message

namespace SourceError

def text (e : SourceError) : String := located e.message e.location

def diagnostic (e : SourceError) : Diagnostic where
  message := e.message
  location := e.location
  code := some e.code
  help := e.help
  note := e.note
  label := e.label

/-- An error of folding. It has a code of its own and no source. -/
def folding (message : String) (location : Option Location) : SourceError :=
  { message, location, code := "E0002" }

end SourceError

/-! ## Reports -/

/-- The sources and the errors that were reported. -/
structure Report where
  sources : Diagnostic.Sources := []
  errors : List Diagnostic := []
deriving DecidableEq, Repr

namespace Report

/-- Keeps the source of an error, unless its file is known already. -/
def addSource (r : Report) (e : SourceError) : Diagnostic.Sources :=
  match e.source, e.location with
  | some text, some l =>
    if (r.sources.lookup l.file).isSome then r.sources else r.sources ++ [(l.file, text)]
  | _, _ => r.sources

def add (r : Report) (e : SourceError) : Report :=
  { sources := r.addSource e, errors := r.errors ++ [e.diagnostic] }

/-- All errors, with an empty line between two of them. -/
def format (r : Report) (color : Bool) : String :=
  String.intercalate "\n\n" (r.errors.map (·.format color r.sources))

/-- The names of the known files, in order. -/
def files (r : Report) : List String :=
  (r.sources.map (·.1)).mergeSort fun a b => decide (a ≤ b)

end Report

/-- An error by itself, with its own source. -/
def SourceError.format (e : SourceError) (color : Bool) : String :=
  (({} : Report).add e).format color

end SyntaxAtlas
