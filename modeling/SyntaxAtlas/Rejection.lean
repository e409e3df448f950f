-- What a rejected source is told: the fault, where it is, and what would have
-- been right.

import SyntaxAtlas.Diagnostic
import SyntaxAtlas.Parse

namespace SyntaxAtlas

namespace Fault

def message : Fault → String
  | stray c _ => "unexpected character '" ++ String.singleton c ++ "'"
  | unexpected l _ => "unexpected '" ++ l.text ++ "'"
  | unfinished _ => "unexpected end of input"

def label : Fault → String
  | stray .. => "unexpected character"
  | unexpected .. => "unexpected token"
  | unfinished _ => "input ends here"

/-- Where the fault is, in characters. -/
def offset (size : Nat) : Fault → Nat
  | stray _ offset => offset
  | unexpected l _ => l.start
  | unfinished _ => size

def expected : Fault → List Terminal
  | stray .. => []
  | unexpected _ expected => expected
  | unfinished expected => expected

end Fault

/-- At most this many terminals are listed. -/
def listedTerminals : Nat := 8

/-- The terminals that would have been right, by the order of their names. -/
def expectation (expected : List Terminal) : Option String :=
  let sorted := expected.mergeSort fun s t => decide (s.name ≤ t.name)
  if sorted.isEmpty then none
  else
    let shown := String.intercalate ", " ((sorted.take listedTerminals).map (·.description))
    let more := if listedTerminals < sorted.length then ", ..." else ""
    some ("expected one of: " ++ shown ++ more)

/-- The error that reports a rejection. -/
def Rejection.error (r : Rejection) (file source : String) : SourceError :=
  let chars := source.toList
  let offset := byteOffset chars (r.fault.offset chars.length)
  { message := match r.gaveUpAfter with
      | some _ => "too many syntax errors; " ++ r.fault.message
      | none => r.fault.message
    location := some ((LineMap.ofSource source file).location offset)
    source := some source
    help := expectation r.fault.expected
    label := some r.fault.label
    note := r.gaveUpAfter.map fun n => "recovery gave up after " ++ toString n ++ " repairs" }

end SyntaxAtlas
