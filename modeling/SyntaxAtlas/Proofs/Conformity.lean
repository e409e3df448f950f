-- What it means for a tree to conform to the catalog: every filled slot takes
-- the child in it, every list holds elements of its kind, every choice holds
-- one of its alternatives, and operators stand between operands.

import SyntaxAtlas.Tree

namespace SyntaxAtlas

/-- A token of the kind that its terminal and text give, or an operator that is
marked as standing before its operand. -/
def Token.KindFits (t : Token) : Prop :=
  t.kind = .ofTerminal t.terminal t.text ∨
    t.terminal = .operator ∧ t.kind = .prefixOperator t.text

namespace Tree

/-! ## All trees inside a tree -/

mutual

/-- A tree and all trees inside it satisfy `P`. -/
def Everywhere (P : Tree → Prop) : Tree → Prop
  | .node kind slots items state =>
    P (.node kind slots items state) ∧
      if kind.isLayout then SlotsEverywhere P slots else ItemsEverywhere P items
  | t => P t

def SlotsEverywhere (P : Tree → Prop) : List (String × Tree) → Prop
  | [] => True
  | (_, t) :: rest => t.Everywhere P ∧ SlotsEverywhere P rest

def ItemsEverywhere (P : Tree → Prop) : List Tree → Prop
  | [] => True
  | t :: rest => t.Everywhere P ∧ ItemsEverywhere P rest

end

theorem slotsEverywhere_iff {P : Tree → Prop} {slots : List (String × Tree)} :
    SlotsEverywhere P slots ↔ ∀ c ∈ slots.map (·.2), c.Everywhere P := by
  induction slots with
  | nil => simp [SlotsEverywhere]
  | cons slot rest ih => simp [SlotsEverywhere, ih]

theorem itemsEverywhere_iff {P : Tree → Prop} {items : List Tree} :
    ItemsEverywhere P items ↔ ∀ c ∈ items, c.Everywhere P := by
  induction items with
  | nil => simp [ItemsEverywhere]
  | cons t rest ih => simp [ItemsEverywhere, ih]

theorem everywhere_node_iff {P : Tree → Prop} {kind : Kind} {slots : List (String × Tree)}
    {items : List Tree} {state : NodeState} :
    (Tree.node kind slots items state).Everywhere P ↔
      P (.node kind slots items state) ∧
        ∀ c ∈ (Tree.node kind slots items state).children, c.Everywhere P := by
  by_cases layout : kind.isLayout = true
  · simp only [Everywhere, children, layout, if_true, slotsEverywhere_iff]
  · simp only [Everywhere, children, layout, Bool.false_eq_true, if_false, itemsEverywhere_iff]

theorem Everywhere.self {P : Tree → Prop} {t : Tree} (h : t.Everywhere P) : P t := by
  cases t with
  | node kind slots items state => exact (everywhere_node_iff.1 h).1
  | token t => exact h
  | foreign value => exact h

mutual

theorem Everywhere.imp {P Q : Tree → Prop} (h : ∀ t, P t → Q t) :
    ∀ {t : Tree}, t.Everywhere P → t.Everywhere Q
  | .token _, all => h _ all
  | .foreign _, all => h _ all
  | .node kind slots items _, all => by
    refine ⟨h _ all.1, ?_⟩
    by_cases layout : kind.isLayout = true
    · simp only [Everywhere, layout, if_true] at all ⊢
      exact SlotsEverywhere.imp h all.2
    · simp only [Everywhere, layout, Bool.false_eq_true, if_false] at all ⊢
      exact ItemsEverywhere.imp h all.2

theorem SlotsEverywhere.imp {P Q : Tree → Prop} (h : ∀ t, P t → Q t) :
    ∀ {slots : List (String × Tree)}, SlotsEverywhere P slots → SlotsEverywhere Q slots
  | [], _ => trivial
  | _ :: _, all => ⟨all.1.imp h, all.2.imp h⟩

theorem ItemsEverywhere.imp {P Q : Tree → Prop} (h : ∀ t, P t → Q t) :
    ∀ {items : List Tree}, ItemsEverywhere P items → ItemsEverywhere Q items
  | [], _ => trivial
  | _ :: _, all => ⟨all.1.imp h, all.2.imp h⟩

end

/-! ## The tokens of children -/

theorem slotTokens_eq (slots : List (String × Tree)) :
    slotTokens slots = itemTokens (slots.map (·.2)) := by
  induction slots with
  | nil => rfl
  | cons slot rest ih => simp [slotTokens, itemTokens, ih]

theorem tokens_node (kind : Kind) (slots : List (String × Tree)) (items : List Tree)
    (state : NodeState) :
    (Tree.node kind slots items state).tokens =
      itemTokens (Tree.node kind slots items state).children := by
  by_cases layout : kind.isLayout = true
  · simp only [tokens, children, layout, if_true, slotTokens_eq]
  · simp only [tokens, children, layout, Bool.false_eq_true, if_false]

@[simp] theorem itemTokens_append (xs ys : List Tree) :
    itemTokens (xs ++ ys) = itemTokens xs ++ itemTokens ys := by
  induction xs with
  | nil => rfl
  | cons t xs ih => simp [itemTokens, ih]

/-! ## Conforming to the catalog -/

/-- A node that a list of `element`s may hold. The elements of an operator
sequence are expressions of any kind. -/
def IsElement (element : String) : Tree → Prop
  | .node kind _ _ _ =>
    kind.name = element ∨
      element = "Expr" ∧ (Catalog.describe kind).map (·.1) = some .expression
  | _ => False

/-- The children of a node are as the entry of its kind says. The filled slots
stand in the order of the entry. -/
def Fits : Tree → Prop
  | .token t => t.KindFits
  | .foreign _ => False
  | .node kind slots items _ =>
    match Catalog.describe kind with
    | none => False
    | some (_, .layout declared) =>
      items = [] ∧ (slots.map (·.1)).Sublist (declared.map (·.name)) ∧
        ∀ s ∈ slots, ∃ slot ∈ declared, slot.name = s.1 ∧ slot.admits s.2 = .ok true
    | some (_, .collection element) => slots = [] ∧ ∀ t ∈ items, t.IsElement element
    | some (_, .choice alternatives) =>
      slots = [] ∧ ∃ t, items = [t] ∧ Slot.admits ⟨kind.name, alternatives⟩ t = .ok true

/-! ## Operators between operands -/

/-- A node that is an infix operator. -/
def IsOperator : Tree → Prop
  | .node .binaryOperatorExpr _ _ _ | .node .assignmentExpr _ _ _ => True
  | _ => False

/-- A node that can stand beside an infix operator. -/
def IsOperand : Tree → Prop
  | .node kind slots items state => ¬ (Tree.node kind slots items state).IsOperator
  | _ => False

/-- Operands with an operator between each two. -/
def alternated (first : Tree) (run : List (Tree × Tree)) : List Tree :=
  first :: run.flatMap fun entry => [entry.1, entry.2]

/-- A node that is no operator sequence, or one that holds operands, two at
least, with an operator between each two. -/
def Alternates : Tree → Prop
  | .node .sequenceExpr slots _ _ =>
    ∃ first run state,
      slots = [("elements", .node .exprList [] (alternated first run) state)] ∧
      run ≠ [] ∧ first.IsOperand ∧ ∀ entry ∈ run, entry.1.IsOperator ∧ entry.2.IsOperand
  | _ => True

end Tree

end SyntaxAtlas
