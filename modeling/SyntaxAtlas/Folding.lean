-- Folding: every flat operator sequence of a tree becomes nested infix nodes.
-- Inner sequences are folded before the ones around them. A failure keeps what
-- was folded before it.

import SyntaxAtlas.Diagnostic
import SyntaxAtlas.Operator.Precedence
import SyntaxAtlas.Tree

namespace SyntaxAtlas

/-! ## Failures -/

/-- Why a tree cannot be folded. Faults of the source have their place in it. -/
inductive FoldFailure
  | uneven (position : Int)
  | unknownOperator (operator : String) (position : Int)
  | adjacent (group : String) (position : Int)
  | violated (v : Violation)
deriving DecidableEq, Repr

/-- The error of a failure that is a fault of the source. -/
def FoldFailure.error (map : Option LineMap) : FoldFailure → Except Violation SourceError
  | uneven position =>
    located "operator sequence must alternate operands and operators" position
  | unknownOperator operator position =>
    located ("unknown infix operator '" ++ operator ++ "'") position
  | adjacent group position =>
    located ("adjacent operators are in non-associative precedence group '" ++ group ++ "'")
      position
  | violated v => .error v
where
  located (message : String) (position : Int) : Except Violation SourceError :=
    .ok (.folding message (map.map (·.location position)))

/-! ## One sequence -/

namespace Tree

/-- The spelling of an operator node. -/
def operatorText (t : Tree) : String :=
  let slot := match t with
    | .node .binaryOperatorExpr _ _ _ => "operator"
    | _ => "equal"
  match t.child? slot with
  | some (.token tok) => tok.text
  | _ => ""

/-- The infix node of an operator between two operands. It reaches from one to
the other. -/
def infixNode (left operator right : Tree) : Tree :=
  layoutAt ⟨left.start, right.stop⟩ .infixOperatorExpr
    [("leftOperand", left), ("operator", operator), ("rightOperand", right)]

/-- The tree of a nest of trees. -/
def ofNest : Nest Tree Tree → Tree
  | .operand t => t
  | .join left operator right => infixNode (ofNest left) operator (ofNest right)

/-- A run from its elements, which start behind the first operand. -/
def runOf : List Tree → List (Tree × Tree)
  | operator :: operand :: rest => (operator, operand) :: runOf rest
  | _ => []

/-- Folds one sequence. -/
def foldSequence (table : OperatorTable) (sequence : Tree) : Except FoldFailure Tree :=
  match ((sequence.child? "elements").map (·.items)).getD [] with
  | [] => .error (.uneven sequence.start)
  | first :: rest =>
    if rest.length % 2 = 1 then .error (.uneven sequence.start) else
    match Nest.ofRun (fun op => table.group? op.operatorText) first (runOf rest) with
    | .ok nest => .ok (ofNest nest)
    | .error (.unknown op) => .error (.unknownOperator op.operatorText op.start)
    | .error (.adjacent op group) => .error (.adjacent group.name op.start)

end Tree

/-! ## All sequences -/

/-- How far folding came: the result, the number of sequences folded, and the
failure that stopped it. -/
structure FoldRun (α : Type) where
  result : α
  folded : Nat := 0
  failure : Option FoldFailure := none

namespace FoldRun

/-- Folds a tree whose inner sequences are folded, if it is a sequence itself. -/
def outermost (table : OperatorTable) (run : FoldRun Tree) : FoldRun Tree :=
  match run.failure, run.result with
  | none, .node .sequenceExpr slots items state =>
    match Tree.foldSequence table (.node .sequenceExpr slots items state) with
    | .ok t => { result := t, folded := run.folded + 1 }
    | .error f => { run with failure := some f }
  | _, _ => run

/-- Goes on with what comes next, unless folding has failed. -/
def andThen {α β γ : Type} (first : FoldRun α) (unfolded : β) (next : Unit → FoldRun β)
    (put : α → β → γ) : FoldRun γ :=
  match first.failure with
  | some f => { result := put first.result unfolded, folded := first.folded, failure := some f }
  | none =>
    let second := next ()
    { result := put first.result second.result
      folded := first.folded + second.folded
      failure := second.failure }

def map {α β : Type} (f : α → β) (run : FoldRun α) : FoldRun β :=
  { result := f run.result, folded := run.folded, failure := run.failure }

end FoldRun

namespace Tree

mutual

/-- Folds the sequences below a tree. -/
def foldInside (table : OperatorTable) : Tree → FoldRun Tree
  | .node kind slots items state =>
    match kind.catalogued with
    | none =>
      { result := .node kind slots items state
        failure := some (.violated (.unknownKind kind.name)) }
    | some _ =>
      if kind.isLayout then (foldSlots table slots).map fun slots => .node kind slots items state
      else (foldItems table items).map fun items => .node kind slots items state
  | t => { result := t }

def foldSlots (table : OperatorTable) : List (String × Tree) → FoldRun (List (String × Tree))
  | [] => { result := [] }
  | (name, t) :: rest =>
    ((foldInside table t).outermost table).andThen rest (fun _ => foldSlots table rest)
      fun t rest => (name, t) :: rest

def foldItems (table : OperatorTable) : List Tree → FoldRun (List Tree)
  | [] => { result := [] }
  | t :: rest =>
    ((foldInside table t).outermost table).andThen rest (fun _ => foldItems table rest)
      fun t rest => t :: rest

end

/-- Folds every sequence of a tree, the tree itself as well. -/
def foldAll (table : OperatorTable) (t : Tree) : FoldRun Tree :=
  (foldInside table t).outermost table

/-! ## The copy -/

mutual

/-- The most calls that are open at once while a tree is copied for folding. A
node takes nine for itself and its slots or items, and a token takes two more
for its trivia. -/
def copyCalls : Tree → Nat
  | .token t => if t.leading.isEmpty && t.trailing.isEmpty then 13 else 15
  | .node _ slots items _ => 9 + max (slotCopyCalls slots) (itemCopyCalls items)
  | .foreign _ => 1

def slotCopyCalls : List (String × Tree) → Nat
  | [] => 0
  | (_, t) :: rest => max t.copyCalls (slotCopyCalls rest)

def itemCopyCalls : List Tree → Nat
  | [] => 0
  | t :: rest => max t.copyCalls (itemCopyCalls rest)

end

end Tree

end SyntaxAtlas
