-- Feeding a terminal comes to an end by itself. Every symbol has a weight, and a reduction makes
-- the stack lighter. Only a rule that is reduced from nothing adds weight, and behind it no
-- other such rule follows, so that one is paid for in advance.

import SyntaxAtlas.Proofs.Actions
import SyntaxAtlas.Proofs.Derivations
import SyntaxAtlas.Proofs.Feeding

namespace SyntaxAtlas

open Grammar

/-! ## Weights -/

/-- The weight of a rule. It is less than that of the symbols it is reduced from. Lists that can
be empty weigh least. -/
def Rule.weight : Rule → Nat
  | .start => 0
  | .node .sourceFile => 1
  | .node .codeBlockItemList | .node .declModifierList | .node .functionParameterList
  | .node .memberBlockItemList | .node .labeledExprList | .node .arrayElementList => 2
  | .repetition .codeBlockItems | .repetition .memberBlockItems => 3
  | .node .codeBlockItem | .node .memberBlockItem => 7
  | .group .blockItem => 8
  | .group .declaration | .group .statement | .node .conditionElementList => 9
  | .node .conditionElement => 10
  | .node .condition | .node .labeledExpr | .node .arrayElement => 11
  | .expression => 12
  | .group .prefixExpr | .node .patternBindingList => 13
  | .group .postfixExpr | .node .patternBinding => 14
  | .group _ | .repetition _ | .node .elseBody | .node .functionSignature
  | .node .enumCaseElementList | .node .importPathComponentList => 15
  | .node _ => 16

/-- What is paid in advance for a rule that is reduced from nothing. -/
def emptyReserve : Nat := 3

def Symbol.weight : Symbol → Nat
  | .terminal _ => 20
  | .rule r => r.weight

theorem Symbol.weight_le (s : Symbol) : s.weight ≤ 20 := by
  cases s with
  | terminal t => exact Nat.le_refl _
  | rule r =>
    simp only [weight]
    unfold Rule.weight
    split <;> decide

def bodyWeight (body : List Symbol) : Nat := (body.map Symbol.weight).sum

/-- A rule is lighter than each of its alternatives. It leaves enough for a rule that is reduced
from nothing where one can follow, and is itself paid for by that when its alternative is
empty. -/
theorem weight_lt : ∀ r ∈ rules, ∀ body ∈ alternatives r, r ≠ .start →
    if body = [] then r.weight < emptyReserve ∧ r.opens = false
    else r.weight + (if r.opens then emptyReserve else 0) < bodyWeight body := by
  decide +kernel

theorem bodyWeight_reverse (body : List Symbol) : bodyWeight body.reverse = bodyWeight body := by
  rw [bodyWeight, List.map_reverse, List.sum_reverse, bodyWeight]

theorem bodyWeight_append (body rest : List Symbol) :
    bodyWeight (body ++ rest) = bodyWeight body + bodyWeight rest := by
  simp [bodyWeight]

namespace Stack

def weight (stack : Stack) : Nat := bodyWeight (stack.map (·.tree.symbol))

theorem weight_cons (frame : Frame) (rest : Stack) :
    weight (frame :: rest) = frame.tree.symbol.weight + weight rest := rfl

theorem weight_le (stack : Stack) : stack.weight ≤ 20 * stack.length := by
  induction stack with
  | nil => exact Nat.le_refl _
  | cons frame rest ih =>
    have := frame.tree.symbol.weight_le
    rw [weight_cons, List.length_cons]
    omega

/-- The weight of a stack is that of the trees on top and that of what is below. -/
theorem weight_eq (stack : Stack) (n : Nat) :
    stack.weight = bodyWeight ((Stack.trees stack n).map ParseTree.symbol) +
      Stack.weight (stack.drop n) := by
  have split : stack.map (·.tree.symbol) =
      (stack.take n).map (·.tree.symbol) ++ (stack.drop n).map (·.tree.symbol) := by
    rw [← List.map_append, List.take_append_drop]
  have top : (Stack.trees stack n).map ParseTree.symbol =
      ((stack.take n).map (·.tree.symbol)).reverse := by
    rw [Stack.trees, List.map_reverse, List.map_map]
    rfl
  rw [weight, split, bodyWeight_append, top, bodyWeight_reverse, weight]

end Stack

/-! ## The potential of a stack -/

/-- What is paid in advance before a terminal: for a reduction from nothing that comes next. -/
def Row.reserve (row : Row) (t : Terminal) : Nat :=
  match row.action? t with
  | some (.reduce ⟨_, []⟩) => emptyReserve
  | _ => 0

theorem Row.reserve_le (row : Row) (t : Terminal) : row.reserve t ≤ emptyReserve := by
  unfold reserve
  split <;> simp

namespace Automaton

/-- An automaton in which no rule that is reduced from nothing follows behind other rules than
those that open. -/
def Opens (a : Automaton) : Prop :=
  ∀ state r n, (a.row state).goto? r = some n → r.opens = false →
    ∀ p ∈ (a.row n).reductions.map (·.1), p.body ≠ []

theorem Opens.reserve_le {a : Automaton} (opens : a.Opens) {state n : Nat} {r : Rule}
    (goto : (a.row state).goto? r = some n) (t : Terminal) :
    (a.row n).reserve t ≤ if r.opens then emptyReserve else 0 := by
  split
  · exact Row.reserve_le _ t
  · rename_i closed
    unfold Row.reserve
    split
    · rename_i rule action
      exact absurd rfl (opens state r n goto (by simpa using closed) _
        (reductions_of_action? action))
    · exact Nat.le_refl 0

/-- What can still be spent on reductions before a terminal. -/
def potential (a : Automaton) (t : Terminal) (stack : Stack) : Nat :=
  stack.weight + (a.row (Stack.state stack)).reserve t

/-- A reduction spends some. -/
theorem potential_reduce {a : Automaton} (sound : a.Sound) (opens : a.Opens) {t : Terminal}
    {p : Production} {stack next : Stack}
    (action : (a.row (Stack.state stack)).action? t = some (.reduce p))
    (notStart : p.rule ≠ .start) (reduced : Stack.reduce a p stack = some next) :
    a.potential t next < a.potential t stack := by
  have spelled := sound.production _ t p action
  have lighter := weight_lt p.rule (mem_rules_of_alternative spelled) p.body spelled notStart
  simp only [Stack.reduce] at reduced
  split at reduced
  · rename_i same
    obtain ⟨state, goto, rfl⟩ := Option.map_eq_some_iff.1 reduced
    have after := opens.reserve_le goto t
    have before := Stack.weight_eq stack p.body.length
    rw [same] at before
    have spent : a.potential t (⟨state, .node p.rule (Stack.trees stack p.body.length)⟩ ::
        stack.drop p.body.length) = p.rule.weight + Stack.weight (stack.drop p.body.length) +
          (a.row state).reserve t := rfl
    rw [spent, potential]
    split at lighter
    · -- a reduction from nothing is paid for by what was reserved for it
      rename_i empty
      have reserve : (a.row (Stack.state stack)).reserve t = emptyReserve := by
        obtain ⟨r, body⟩ := p
        obtain rfl : body = [] := empty
        rw [Row.reserve, action]
      rw [if_neg (by simp [lighter.2])] at after
      rw [empty] at before ⊢
      have nothing : bodyWeight [] = 0 := rfl
      omega
    · omega
  · cases reduced

/-- A terminal is fed with enough steps for every reduction. -/
theorem potential_lt_feedSteps (a : Automaton) (t : Terminal) (stack : Stack) :
    a.potential t stack < feedSteps stack := by
  have weight := stack.weight_le
  have reserve := (a.row (Stack.state stack)).reserve_le t
  simp only [potential, feedSteps, emptyReserve] at reserve ⊢
  omega

/-- Feeding goes through every reduction before the terminal, and steps are left behind them. -/
theorem feedWith_of_reduces {a : Automaton} (sound : a.Sound) (opens : a.Opens) {t : Terminal}
    {stack last : Stack} (reduces : Reduces a t stack last) (leaf : Leaf) {fuel : Nat}
    (enough : a.potential t stack < fuel) :
    ∃ left, a.feedWith t leaf fuel stack = a.feedWith t leaf (left + 1) last := by
  induction reduces generalizing fuel with
  | none stack => exact ⟨fuel - 1, by rw [show fuel - 1 + 1 = fuel by omega]⟩
  | @one stack next last p action notStart reduced _ ih =>
    have less := potential_reduce sound opens action notStart reduced
    obtain ⟨fuel, rfl⟩ : ∃ left, fuel = left + 1 := ⟨fuel - 1, by omega⟩
    obtain ⟨left, same⟩ := @ih fuel (by omega)
    refine ⟨left, ?_⟩
    rw [← same]
    conv_lhs => unfold feedWith
    simp only [action, notStart, if_false, reduced]

/-- A leaf is shifted where its terminal is shifted after some reductions. -/
theorem feed_of_shift {a : Automaton} (sound : a.Sound) (opens : a.Opens) {leaf : Leaf}
    {stack mid : Stack} {state : Nat} (reduces : Reduces a leaf.terminal stack mid)
    (action : (a.row (Stack.state mid)).action? leaf.terminal = some (.shift state)) :
    a.feed leaf stack = .shifted (⟨state, .leaf leaf⟩ :: mid) := by
  obtain ⟨left, same⟩ := feedWith_of_reduces sound opens reduces leaf
    (a.potential_lt_feedSteps leaf.terminal stack)
  rw [feed, same]
  unfold feedWith
  simp only [action]

/-- The input is accepted where the start rule is reached after some reductions. -/
theorem feed_of_accept {a : Automaton} (sound : a.Sound) (opens : a.Opens) {leaf : Leaf}
    {stack : Stack} {frame : Frame} {p : Production}
    (reduces : Reduces a leaf.terminal stack [frame])
    (action : (a.row frame.state).action? leaf.terminal = some (.reduce p))
    (start : p.rule = .start) : a.feed leaf stack = .accepted frame.tree := by
  obtain ⟨left, same⟩ := feedWith_of_reduces sound opens reduces leaf
    (a.potential_lt_feedSteps leaf.terminal stack)
  rw [feed, same]
  unfold feedWith
  simp only [Stack.state, action, start, if_true]

end Automaton

end SyntaxAtlas
