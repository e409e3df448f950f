-- Building nodes. The children of a grammar rule go into the slots of the kind
-- that the rule is named after. Some rules need more: separators move into a
-- slot of the element before them, an operator sequence becomes one node, and
-- a string is cut into its parts.

import SyntaxAtlas.Tree.Edit

namespace SyntaxAtlas.Tree

/-! ## Layouts -/

/-- The first slot that takes a child, from number `index` on: its number and
the slots behind it. -/
def findSlot (child : Tree) (index : Nat) :
    List Slot → Except Violation (Option (Nat × Slot × List Slot))
  | [] => .ok none
  | slot :: rest => do
    if ← slot.admits child then pure (some (index, slot, rest))
    else findSlot child (index + 1) rest

/-- Gives each child to the next slot that takes it. `index` is the number of
the first slot that is left. -/
def fillSlots (kind : Kind) (index : Nat) (slots : List Slot) :
    List Tree → Except Violation (List (String × Tree))
  | [] => .ok []
  | child :: rest => do
    match ← findSlot child index slots with
    | some (taken, slot, left) =>
      let filled ← fillSlots kind (taken + 1) left rest
      pure ((slot.name, child) :: filled)
    | none =>
      let shown ← child.description
      .error (.noSlotAccepts kind.name shown index)

/-- A node of a kind with the children in its slots. -/
def buildLayout (kind : Kind) (children : List Tree) : Except Violation Tree := do
  match kind.catalogued with
  | none => .error (.unknownKind kind.name)
  | some e => pure (layout kind (← fillSlots kind 0 e.shape.slots children))

/-! ## Rules that need more -/

/-- Adds a separator to the last element, and any other child as an element. -/
def addSeparated (kind : Kind) (separator : String) (elements : List Tree) (child : Tree) :
    Except Violation (List Tree) :=
  if child.isToken then
    match elements.getLast? with
    | none => .error (.separatorFirst kind.name)
    | some last => do
      let last ← last.setChild separator (some child)
      pure (elements.dropLast ++ [last])
  else .ok (elements ++ [child])

/-- A list whose separators stand in a slot of the element before them. -/
def buildSeparated (kind : Kind) (separator : String) (children : List Tree) :
    Except Violation Tree := do
  pure (collection kind (← children.foldlM (addSeparated kind separator) []))

/-- An operand by itself, or a flat sequence of operands and operators. -/
def buildExpression (children : List Tree) : Tree :=
  match children with
  | [operand] => operand
  | _ => layout .sequenceExpr [("elements", collection .exprList children)]

/-- The only child. -/
def single (children : List Tree) : Except Violation Tree :=
  match children with
  | [] => .error (.tooFewChildren 1 0)
  | [child] => .ok child
  | _ => .error (.tooManyChildren 1)

/-- The only two children. -/
def pair (children : List Tree) : Except Violation (Tree × Tree) :=
  match children with
  | [] => .error (.tooFewChildren 2 0)
  | [_] => .error (.tooFewChildren 2 1)
  | [first, second] => .ok (first, second)
  | _ => .error (.tooManyChildren 2)

/-- A string literal from its token. -/
def stringLiteral (t : Token) : Tree :=
  let (opening, segment, closing) := t.splitString
  let content := layout .stringSegment [("content", .token segment)]
  layout .stringLiteralExpr [
    ("openingQuote", .token opening),
    ("segments", collection .stringLiteralSegmentList [content]),
    ("closingQuote", .token closing)]

/-- Marks an operator token as one that stands before its operand. -/
def markPrefix : Tree → Tree
  | .token t => .token t.asPrefixOperator
  | t => t

/-- The slot that takes the separators of a list. -/
def separatorSlot? : Kind → Option String
  | .patternBindingList | .functionParameterList | .enumCaseElementList
  | .conditionElementList | .labeledExprList | .arrayElementList => some "trailingComma"
  | .importPathComponentList => some "trailingPeriod"
  | _ => none

/-! ## All rules -/

/-- Builds a node by the shape of its kind alone. -/
def buildByShape (kind : Kind) (children : List Tree) : Except Violation Tree :=
  match kind.catalogued with
  | none => .error (.unknownKind kind.name)
  | some ⟨_, _, .layout _⟩ => buildLayout kind children
  | some ⟨_, _, .collection _⟩ => .ok (collection kind children)
  | some ⟨_, _, .choice _⟩ =>
    match children with
    | [selected] => .ok (choice kind selected)
    | _ => .error (.choiceCount kind.name children.length)

/-- Builds the node of a kind from the children of its rule. -/
def buildKind (kind : Kind) (children : List Tree) : Except Violation Tree :=
  match kind with
  | .sourceFile => do
    let statements ← single children
    let endOfFile := ("endOfFileToken", .token .endOfFile)
    pure (layout .sourceFile
      (if statements.isVacant then [endOfFile] else [("statements", statements), endOfFile]))
  | .prefixOperatorExpr => do
    let (operator, operand) ← pair children
    buildLayout kind [operator.markPrefix, operand]
  | .stringLiteralExpr => do
    match ← single children with
    | .token t => pure (stringLiteral t)
    | child => buildLayout kind [child]
  | _ =>
    match separatorSlot? kind with
    | some separator => buildSeparated kind separator children
    | none => buildByShape kind children

/-- Builds what the rule of a name builds. -/
def buildRule (rule : String) (children : List Tree) : Except Violation Tree :=
  if rule == "expression" then .ok (buildExpression children) else
  match Kind.ofRule? rule with
  | some kind => buildKind kind children
  | none => .error (.unknownRule rule)

end SyntaxAtlas.Tree
