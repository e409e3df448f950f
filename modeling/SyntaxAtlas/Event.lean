-- Events: what happens on the way from a source to its records, for a log.

import SyntaxAtlas.Recovery
import SyntaxAtlas.Text.Quoted

namespace SyntaxAtlas

/-- How much an event matters. -/
inductive Level
  | debug | warning
deriving DecidableEq, Repr

def Level.name : Level → String
  | debug => "DEBUG"
  | warning => "WARNING"

/-- Something worth a line in the log. -/
inductive Event
  | skipped (c : Char) (line column : Nat)
  | inserted (t before : Terminal)
  | dropped (t : Terminal) (text : String) (line column : Nat)
  | recovered (count : Nat) (file : String)
  | folded (count : Nat)
  | foldingFailed (reason : String)
  | parseFailed (reason : String)
  | visited (count : Nat)
  | dumpFailed (stage reason : String)
deriving DecidableEq, Repr

namespace Event

def level : Event → Level
  | dumpFailed .. => .warning
  | _ => .debug

/-- The part of the program that an event comes from. -/
def origin : Event → String
  | skipped .. | inserted .. | dropped .. | recovered .. => "syntaxlens.frontend.parser"
  | folded _ => "syntaxlens.frontend.folding"
  | foldingFailed _ | parseFailed _ | dumpFailed .. => "syntaxlens.engine.driver"
  | visited _ => "syntaxlens.tree.visitor"

def place (line column : Nat) : String := toString line ++ ":" ++ toString column

def message : Event → String
  | skipped c line column =>
    "Skipping unexpected character " ++ Text.debugQuoted (String.singleton c) ++ " at "
      ++ place line column
  | inserted t before => "Inserting missing " ++ t.name ++ " before " ++ before.name
  | dropped t text line column =>
    "Dropping unexpected " ++ t.name ++ " " ++ Text.debugQuoted text ++ " at "
      ++ place line column
  | recovered count file =>
    "Recovered from " ++ toString count ++ " syntax error(s) in " ++ file
  | folded count => "Folded " ++ toString count ++ " operator sequence(s)"
  | foldingFailed reason => "Folding failed, keeping unfolded tree: " ++ reason
  | parseFailed reason => "Parse failed: " ++ reason
  | visited count => "Visited " ++ toString count ++ " nodes"
  | dumpFailed stage reason =>
    "Could not write CST dump for stage '" ++ stage ++ "': " ++ reason

/-- An event as a line of the log. -/
def line (e : Event) : String := e.level.name ++ " " ++ e.origin ++ ": " ++ e.message

/-! ## Places in the log -/

/-- The line and column of a character offset. In the log lines end at line
feeds only, and columns count characters. -/
def lineColumn (source : List Char) (offset : Nat) : Nat × Nat :=
  let before := source.take offset
  (before.count '\n' + 1, (before.reverse.takeWhile (· != '\n')).length + 1)

/-- The event of a repair. -/
def ofRepair (source : List Char) : Repair → Event
  | .skipped c offset => let (line, column) := lineColumn source offset; .skipped c line column
  | .inserted t before => .inserted t before
  | .dropped l =>
    let (line, column) := lineColumn source l.start
    .dropped l.terminal l.text line column

end Event

end SyntaxAtlas
