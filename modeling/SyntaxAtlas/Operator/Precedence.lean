-- Precedence parsing: nesting a flat run of operands and operators. Operators
-- wait until one comes that binds no tighter.

import SyntaxAtlas.Operator

namespace SyntaxAtlas

/-- Operands joined by operators. -/
inductive Nest (α ω : Type)
  | operand (a : α)
  | join (left : Nest α ω) (operator : ω) (right : Nest α ω)
deriving DecidableEq, Repr

namespace Nest

variable {α ω : Type}

/-- Why a run cannot be nested, and the operator it fails at. -/
inductive Clash (ω : Type)
  /-- The operator has no group. -/
  | unknown (operator : ω)
  /-- The operator stands beside another one of its group, which combines with
  none. -/
  | adjacent (operator : ω) (group : PrecedenceGroup)
deriving DecidableEq, Repr

/-- The operands and the waiting operators, latest first. There is one operand
more than there are operators. -/
structure Work (α ω : Type) where
  operands : List (Nest α ω)
  waiting : List (ω × PrecedenceGroup)
deriving Repr

/-- Whether a waiting operator joins its operands before one of group `next`. -/
def goesFirst (waiting next : PrecedenceGroup) : Bool :=
  next.rank < waiting.rank || (waiting.rank == next.rank && next.associativity == .left)

/-- Whether two operators of one group may not stand side by side. -/
def mayNotMeet (waiting next : PrecedenceGroup) : Bool :=
  waiting == next && next.associativity == .none

/-- Joins the waiting operators that go before one of group `next`. -/
def joinBefore (operator : ω) (next : PrecedenceGroup) :
    List (Nest α ω) → List (ω × PrecedenceGroup) → Except (Clash ω) (Work α ω)
  | right :: left :: operands, (op, g) :: waiting =>
    if goesFirst g next then joinBefore operator next (join left op right :: operands) waiting
    else if mayNotMeet g next then .error (.adjacent operator next)
    else .ok ⟨right :: left :: operands, (op, g) :: waiting⟩
  | operands, waiting => .ok ⟨operands, waiting⟩

/-- Takes in an operator and the operand behind it. -/
def takeIn (group? : ω → Option PrecedenceGroup) (work : Work α ω) (next : ω × α) :
    Except (Clash ω) (Work α ω) :=
  match group? next.1 with
  | none => .error (.unknown next.1)
  | some g => do
    let work ← joinBefore next.1 g work.operands work.waiting
    pure ⟨operand next.2 :: work.operands, (next.1, g) :: work.waiting⟩

/-- Joins all that waits. -/
def joinAll (last : Nest α ω) : List (Nest α ω) → List (ω × PrecedenceGroup) → Nest α ω
  | left :: operands, (op, _) :: waiting => joinAll (join left op last) operands waiting
  | _, _ => last

/-- Nests a run: its first operand, and the operators with their operands. -/
def ofRun (group? : ω → Option PrecedenceGroup) (first : α) (rest : List (ω × α)) :
    Except (Clash ω) (Nest α ω) := do
  let work ← rest.foldlM (takeIn group?) ⟨[operand first], []⟩
  match work.operands with
  | [] => pure (operand first)
  | last :: operands => pure (joinAll last operands work.waiting)

end Nest

end SyntaxAtlas
