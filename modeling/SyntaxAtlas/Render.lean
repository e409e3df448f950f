-- Rendering: a source is parsed, folded if asked for, and listed as records.
-- What happens on the way is kept as events, and the trees of the stages can
-- be dumped. Each stage takes room on the host that the program runs on. Where
-- the host is short of it the run ends there, and nothing on the way takes that
-- up: only a sequence that cannot be folded is passed over.

import SyntaxAtlas.Event
import SyntaxAtlas.Folding
import SyntaxAtlas.Json
import SyntaxAtlas.Rejection
import SyntaxAtlas.Sexpr

namespace SyntaxAtlas

/-! ## Options -/

structure RenderOptions where
  fold : Bool := false
  showMissing : Bool := false
deriving DecidableEq, Repr

/-- The options of some names. Case does not matter, and other names are
ignored. -/
def RenderOptions.ofNames (names : List String) : RenderOptions :=
  let names := names.map Text.lowerCase
  { fold := names.contains "fold", showMissing := names.contains "showmissing" }

/-- A stage whose tree can be dumped. -/
inductive Stage
  | parsed | folded
deriving DecidableEq, Repr

def Stage.name : Stage → String
  | parsed => "parsed"
  | folded => "folded"

/-- The directory of the dumps. -/
def dumpDirectory : String := "cst_dump"

/-- The file of a stage in the directory of the dumps. -/
def Stage.file (s : Stage) : String := s.name ++ ".sexpr"

/-- Where the trees of the stages are dumped to. -/
inductive DumpPlace
  | nowhere
  /-- A directory, in which directories take up the places of some files. -/
  | directory (taken : List Stage)
  /-- A file takes up the place of the directory. -/
  | occupied
deriving DecidableEq, Repr

/-- Why a tree cannot be dumped. -/
def DumpPlace.obstacle? (place : DumpPlace) (stage : Stage) : Option String :=
  match place with
  | nowhere => none
  | occupied => some ("[Errno 17] File exists: '" ++ dumpDirectory ++ "'")
  | directory taken =>
    if taken.contains stage then
      some ("[Errno 21] Is a directory: '" ++ dumpDirectory ++ "/" ++ stage.file ++ "'")
    else none

/-! ## The host -/

/-- Work that takes room on the host, for the calls that are open at once or for
the texts that come of it. -/
inductive Work
  | parse (budget : Nat) (source : String)
  /-- Copying a tree, and folding the copy. -/
  | fold (t : Tree)
  /-- Listing the records of a tree. -/
  | list (t : Tree)
  /-- Writing a tree as an S-expression. -/
  | write (t : Tree) (trivia : Bool)
  /-- Writing records as JSON. -/
  | encode (records : List Record) (indent : Option Int)
deriving Repr

/-- What a host can be short of: room for one more open call, or memory. -/
inductive Shortage
  | calls
  | memory
deriving DecidableEq, Repr

/-- The host that the program runs on, by what it is short of for some work. -/
structure Host where
  shortage? : Work → Option Shortage

/-- A host that is short of nothing. -/
def Host.roomy : Host where
  shortage? _ := none

/-- A host that has room for so many open calls where a tree is copied, and
enough of all else. -/
def Host.ofRoom (room : Nat) : Host where
  shortage?
    | .fold t => if room < t.copyCalls then some .calls else none
    | _ => none

/-- What ends a run without an answer. -/
inductive Escape
  /-- A tree does not fit the catalog. -/
  | violated (v : Violation)
  /-- The host is short of something. -/
  | short (s : Shortage)
  /-- A number is too large for the size of a text. -/
  | oversized
deriving DecidableEq, Repr

def Escape.message : Escape → String
  | violated v => v.message
  | short .calls => "maximum recursion depth exceeded"
  | short .memory => ""
  | oversized => "cannot fit 'int' into an index-sized integer"

/-- Why there is no answer to a source: it was rejected, or the run ended. -/
inductive RenderFailure
  | rejected (r : Rejection)
  | escaped (e : Escape)
deriving DecidableEq, Repr

/-! ## Runs -/

/-- A result with what happened on the way and what was dumped. -/
structure Traced (α : Type) where
  events : List Event := []
  dumps : List (String × String) := []
  value : α

/-- Goes on with what comes next, unless the run has failed. -/
def Traced.andThen {α β : Type} (first : Traced (Except RenderFailure α))
    (next : α → Traced (Except RenderFailure β)) : Traced (Except RenderFailure β) :=
  match first.value with
  | .error f => { events := first.events, dumps := first.dumps, value := .error f }
  | .ok a =>
    let second := next a
    { events := first.events ++ second.events
      dumps := first.dumps ++ second.dumps
      value := second.value }

/-- Takes the room for some work. -/
def Host.take (host : Host) (work : Work) : Traced (Except RenderFailure Unit) where
  value := match host.shortage? work with
    | some s => .error (.escaped (.short s))
    | none => .ok ()

/-! ## Stages -/

/-- The events of some repairs. -/
def repairEvents (source : String) (repairs : List Repair) : List Event :=
  repairs.map (Event.ofRepair source.toList)

/-- Parses a source. -/
def parseTraced (host : Host) (budget : Nat) (file source : String) :
    Traced (Except RenderFailure Parsed) :=
  (host.take (.parse budget source)).andThen fun _ =>
    match parse budget file source with
    | .error (.rejected r) =>
      { events := repairEvents source r.repairs, value := .error (.rejected r) }
    | .error (.violated v) => { value := .error (.escaped (.violated v)) }
    | .ok p =>
      { events := repairEvents source p.repairs
          ++ (if p.recoveries = 0 then [] else [.recovered p.recoveries file])
        value := .ok p }

/-- Puts a tree with its trivia in the file of a stage, if nothing is in the way. -/
def putStage (place : DumpPlace) (stage : Stage) (t : Tree) : Traced (Except RenderFailure Unit) :=
  match place.obstacle? stage with
  | some obstacle => { events := [.dumpFailed stage.name obstacle], value := .ok () }
  | none => { dumps := [(stage.file, (t.form true).pretty)], value := .ok () }

/-- Dumps a tree. It is written once there is a directory, before its file is opened. -/
def dumpStage (host : Host) (place : DumpPlace) (stage : Stage) (t : Tree) :
    Traced (Except RenderFailure Unit) :=
  match place with
  | .nowhere => { value := .ok () }
  | .occupied => putStage place stage t
  | .directory _ => (host.take (.write t true)).andThen fun _ => putStage place stage t

/-- Folds a tree with the standard operators. A tree with a sequence that cannot
be folded stays as it is. -/
def foldTraced (host : Host) (p : Parsed) : Traced (Except RenderFailure Parsed) :=
  (host.take (.fold p.root)).andThen fun _ =>
    let run := p.root.foldAll .standard
    match run.failure with
    | none => { events := [.folded run.folded], value := .ok { p with root := run.result } }
    | some f =>
      match f.error (some p.lineMap) with
      | .ok e => { events := [.foldingFailed e.text], value := .ok p }
      | .error v => { value := .error (.escaped (.violated v)) }

/-- The tree of a source, folded if asked for. -/
def treeTraced (host : Host) (budget : Nat) (options : RenderOptions) (place : DumpPlace)
    (file source : String) : Traced (Except RenderFailure Parsed) :=
  (parseTraced host budget file source).andThen fun p =>
  (dumpStage host place .parsed p.root).andThen fun _ =>
    if options.fold then
      (foldTraced host p).andThen fun folded =>
      (dumpStage host place .folded folded.root).andThen fun _ => { value := .ok folded }
    else { value := .ok p }

/-- The records of a source. -/
def recordsTraced (host : Host) (budget : Nat) (options : RenderOptions) (place : DumpPlace)
    (file source : String) : Traced (Except RenderFailure (List Record)) :=
  (treeTraced host budget options place file source).andThen fun p =>
  (host.take (.list p.root)).andThen fun _ =>
    match p.root.records p.lineMap options.showMissing with
    | .error v => { value := .error (.escaped (.violated v)) }
    | .ok records => { events := [.visited records.length], value := .ok records }

/-- The sizes of texts have 64 bits, one of them for the sign. -/
def isSize (n : Int) : Bool := -0x8000000000000000 ≤ n && n ≤ 0x7fffffffffffffff

/-- Writes records as JSON. The indentation has to be a size. -/
def encodeTraced (host : Host) (records : List Record) (indent : Option Int) :
    Traced (Except RenderFailure String) :=
  (host.take (.encode records indent)).andThen fun _ =>
    if indent.all isSize then { value := .ok (encodeRecords records indent) }
    else { value := .error (.escaped .oversized) }

/-- The error of a source that was rejected. -/
def ParseFailure.error (file source : String) : ParseFailure → Except Violation SourceError
  | rejected r => .ok (r.error file source)
  | violated v => .error v

/-- Renders a source: its records, for which there is room as JSON too, or an event
that tells of the rejection. -/
def render (host : Host) (budget : Nat) (options : RenderOptions) (place : DumpPlace)
    (file source : String) : Traced (Except RenderFailure (List Record)) :=
  let run := (recordsTraced host budget options place file source).andThen fun records =>
    (host.take (.encode records none)).andThen fun _ => { value := .ok records }
  match run.value with
  | .error (.rejected r) =>
    { run with events := run.events ++ [.parseFailed (r.error file source).text] }
  | _ => run

end SyntaxAtlas
