-- Violations: uses of the tree that its catalog rules out. They are faults of
-- a caller, never of a source text.

namespace SyntaxAtlas

/-- A use of the tree that the catalog rules out. -/
inductive Violation
  /-- A kind without an entry in the catalog. -/
  | unknownKind (kind : String)
  /-- A slot that the kind does not have. -/
  | noSlot (kind slot : String)
  /-- The node to replace is no child. -/
  | notChild (kind : String)
  /-- No slot from number `slot` on takes the child. -/
  | noSlotAccepts (kind child : String) (slot : Nat)
  /-- A choice holds one node. -/
  | choiceCount (kind : String) (count : Nat)
  /-- A rule name that belongs to no kind. -/
  | unknownRule (rule : String)
  /-- A list that starts with a separator. -/
  | separatorFirst (kind : String)
  /-- A rule that got fewer children than it has. -/
  | tooFewChildren (expected count : Nat)
  /-- A rule that got more children than it has. -/
  | tooManyChildren (expected : Nat)
  /-- A shape that cannot be listed. -/
  | unsupportedShape (shape kind : String)
  /-- A kind of trivia that cannot be shown. -/
  | unhandledTrivia (kind : String)
  /-- What stands in place of the name of a kind of trivia. -/
  | invalidTrivia (shown : String)
  /-- What stands in place of the name of an associativity. -/
  | invalidAssociativity (shown : String)
deriving DecidableEq, Repr

namespace Violation

/-- The code in front of a message about the catalog. -/
def code : String := "E9999"

/-- A message with a code in front. -/
def withCode (code message : String) : String := "[" ++ code ++ "] " ++ message

/-- A message with the code of the catalog in front. -/
def coded (message : String) : String := withCode code message

/-- Wrong names and a wrong number of children are reported plainly, all else
with the code. -/
def message : Violation → String
  | unknownKind kind => coded ("Unknown syntax node kind: " ++ kind)
  | noSlot kind slot => coded (kind ++ " has no slot named '" ++ slot ++ "'")
  | notChild kind => coded (kind ++ " does not contain the node being replaced")
  | noSlotAccepts kind child slot =>
    coded (kind ++ ": no slot accepts " ++ child ++ " after slot " ++ toString slot)
  | choiceCount kind count =>
    coded (kind ++ ": a choice holds exactly one node, got " ++ toString count)
  | unknownRule rule =>
    coded ("No syntax kind is registered for grammar rule '" ++ rule ++ "'")
  | separatorFirst kind => coded (kind ++ ": separator before the first element")
  | tooFewChildren expected count =>
    "not enough values to unpack (expected " ++ toString expected ++ ", got "
      ++ toString count ++ ")"
  | tooManyChildren expected =>
    "too many values to unpack (expected " ++ toString expected ++ ")"
  | unsupportedShape shape kind =>
    coded ("Unsupported structural shape " ++ shape ++ " for " ++ kind)
  | unhandledTrivia kind => coded ("Unhandled trivia kind: " ++ kind)
  | invalidTrivia shown => shown ++ " is not a valid TriviaKind"
  | invalidAssociativity shown => shown ++ " is not a valid Associativity"

end Violation

end SyntaxAtlas
