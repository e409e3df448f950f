-- Infix operators and their precedence groups. A group that stands earlier in
-- the table binds tighter.

import SyntaxAtlas.Datum
import SyntaxAtlas.Violation

namespace SyntaxAtlas

/-- How operators of one group combine side by side. -/
inductive Associativity
  | left | right | none
deriving DecidableEq, Repr

def Associativity.name : Associativity → String
  | left => "left" | right => "right" | none => "none"

def Associativity.ofName? (n : String) : Option Associativity :=
  [Associativity.left, .right, .none].find? (·.name == n)

/-- The associativity that data names. -/
def Associativity.named (d : Datum) : Except Violation Associativity :=
  match d.text?.bind ofName? with
  | some associativity => .ok associativity
  | Option.none => .error (.invalidAssociativity d.written)

/-- A precedence group. A higher rank binds tighter. -/
structure PrecedenceGroup where
  name : String
  rank : Nat
  associativity : Associativity
deriving DecidableEq, Repr

/-- The groups, tightest first, each with its operators. -/
structure OperatorTable where
  entries : List (PrecedenceGroup × List String)
deriving DecidableEq, Repr

namespace OperatorTable

/-- The table of some groups, tightest first. The loosest has rank one. -/
def ofGroups (groups : List (String × Associativity × List String)) : OperatorTable :=
  ⟨groups.zipIdx.map fun ((name, associativity, operators), i) =>
    (⟨name, groups.length - i, associativity⟩, operators)⟩

/-- The table of some groups whose associativity is given by name. -/
def ofNamedGroups (groups : List (String × Datum × List String)) :
    Except Violation OperatorTable :=
  ofGroups <$> groups.mapM fun (name, associativity, operators) =>
    (Associativity.named associativity).map fun a => (name, a, operators)

/-- The group of an operator. Of several that list it the loosest counts. -/
def group? (t : OperatorTable) (operator : String) : Option PrecedenceGroup :=
  (t.entries.reverse.find? (·.2.contains operator)).map (·.1)

/-- The operators of the language. -/
def standard : OperatorTable := ofGroups [
  ("BitwiseShiftPrecedence", .none, ["<<", ">>", "&<<", "&>>"]),
  ("MultiplicationPrecedence", .left, ["*", "/", "%", "&*", "&"]),
  ("AdditionPrecedence", .left, ["+", "-", "&+", "&-", "|", "^"]),
  ("RangeFormationPrecedence", .none, ["...", "..<"]),
  ("NilCoalescingPrecedence", .right, ["??"]),
  ("ComparisonPrecedence", .none, ["<", "<=", ">", ">=", "==", "!=", "===", "!==", "~="]),
  ("LogicalConjunctionPrecedence", .left, ["&&"]),
  ("LogicalDisjunctionPrecedence", .left, ["||"]),
  ("AssignmentPrecedence", .right,
    ["=", "*=", "/=", "%=", "+=", "-=", "<<=", ">>=", "&=", "|=", "^="])]

end OperatorTable

end SyntaxAtlas
