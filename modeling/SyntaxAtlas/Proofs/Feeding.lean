-- What feeding a terminal does to the stack: some reductions, and then a shift,
-- the end, or nothing. The stack stays a chain of derivations that the automaton
-- leads along, and its leaves stay in their order.

import SyntaxAtlas.Proofs.Tables

namespace SyntaxAtlas

/-! ## One terminal -/

/-- The reductions before a terminal. -/
inductive Reduces (a : Automaton) (t : Terminal) : Stack → Stack → Prop
  | none (stack : Stack) : Reduces a t stack stack
  | one {stack next last : Stack} {p : Grammar.Production}
      (action : (a.row (Stack.state stack)).action? t = some (.reduce p))
      (notStart : p.rule ≠ .start) (reduced : Stack.reduce a p stack = some next)
      (more : Reduces a t next last) : Reduces a t stack last

/-- What came of feeding a leaf: after some reductions it is shifted, or the start
rule is reached, or the stack stays. -/
def Fed.After (a : Automaton) (t : Terminal) (leaf : Leaf) (stack : Stack) : Fed → Prop
  | .shifted last => ∃ mid state, Reduces a t stack mid ∧
      (a.row (Stack.state mid)).action? t = some (.shift state) ∧
      last = ⟨state, .leaf leaf⟩ :: mid
  | .accepted tree => ∃ frame p, Reduces a t stack [frame] ∧
      (a.row frame.state).action? t = some (.reduce p) ∧ p.rule = .start ∧ tree = frame.tree
  | .stuck last => Reduces a t stack last

theorem Fed.After.before {a : Automaton} {t : Terminal} {leaf : Leaf} {stack next : Stack}
    {fed : Fed} {p : Grammar.Production}
    (action : (a.row (Stack.state stack)).action? t = some (.reduce p))
    (notStart : p.rule ≠ .start) (reduced : Stack.reduce a p stack = some next)
    (h : fed.After a t leaf next) : fed.After a t leaf stack := by
  cases fed with
  | shifted last =>
    obtain ⟨mid, state, more, shift, same⟩ := h
    exact ⟨mid, state, .one action notStart reduced more, shift, same⟩
  | accepted tree =>
    obtain ⟨frame, q, more, found, start, same⟩ := h
    exact ⟨frame, q, .one action notStart reduced more, found, start, same⟩
  | stuck last => exact .one action notStart reduced h

theorem feedWith_after (a : Automaton) (t : Terminal) (leaf : Leaf) (fuel : Nat) (stack : Stack) :
    (a.feedWith t leaf fuel stack).After a t leaf stack := by
  induction fuel generalizing stack with
  | zero => exact .none stack
  | succ fuel ih =>
    unfold Automaton.feedWith
    split
    · exact .none stack
    · rename_i state action
      exact ⟨stack, state, .none stack, action, rfl⟩
    · rename_i p action
      split
      · rename_i start
        split
        · rename_i frame
          exact ⟨frame, p, .none _, action, start, rfl⟩
        · exact .none _
      · rename_i notStart
        split
        · exact .none stack
        · rename_i next reduced
          exact (ih next).before action notStart reduced

theorem shift_of_action? {row : Row} {t : Terminal} {state : Nat}
    (h : row.action? t = some (.shift state)) : row.shifts.lookup t = some state := by
  unfold Row.action? at h
  split at h
  · rename_i state' found
    obtain rfl : state' = state := by simpa using h
    exact found
  · obtain ⟨_, _, other⟩ := Option.map_eq_some_iff.1 h
    cases other

/-! ## Stacks that parsing makes -/

namespace Stack

/-- Each frame is a derivation, and its state is where the state below leads over
it. -/
def Valid (a : Automaton) : Stack → Prop
  | [] => True
  | frame :: rest =>
    a.leads? (Stack.state rest) frame.tree.symbol = some frame.state ∧ Derived frame.tree ∧
      Valid a rest

theorem Valid.drop {a : Automaton} {stack : Stack} (valid : Valid a stack) (n : Nat) :
    Valid a (stack.drop n) := by
  induction n generalizing stack with
  | zero => exact valid
  | succ n ih =>
    cases stack with
    | nil => exact valid
    | cons frame rest => exact ih valid.2.2

theorem Valid.derived {a : Automaton} {stack : Stack} (valid : Valid a stack) :
    ∀ frame ∈ stack, Derived frame.tree := by
  induction stack with
  | nil => simp
  | cons frame rest ih =>
    intro f hf
    rcases List.mem_cons.1 hf with rfl | hf
    · exact valid.2.1
    · exact ih valid.2.2 f hf

end Stack

theorem allDerived_of_forall {ts : List ParseTree} (h : ∀ t ∈ ts, Derived t) : AllDerived ts := by
  induction ts with
  | nil => exact .nil
  | cons t ts ih =>
    exact .cons t ts (h t List.mem_cons_self) (ih fun u hu => h u (List.mem_cons_of_mem _ hu))

theorem ParseTree.yieldAll_append (ts us : List ParseTree) :
    ParseTree.yieldAll (ts ++ us) = ParseTree.yieldAll ts ++ ParseTree.yieldAll us := by
  induction ts with
  | nil => rfl
  | cons t ts ih => simp [ParseTree.yieldAll, ih]

namespace Stack

/-- The leaves of a stack are those below some trees and those of the trees. -/
theorem yield_eq_drop_append (stack : Stack) (n : Nat) :
    Stack.yield stack =
      Stack.yield (stack.drop n) ++ ParseTree.yieldAll (Stack.trees stack n) := by
  induction n generalizing stack with
  | zero => simp [Stack.trees, ParseTree.yieldAll]
  | succ n ih =>
    cases stack with
    | nil => simp [Stack.trees, ParseTree.yieldAll]
    | cons frame rest =>
      have trees : Stack.trees (frame :: rest) (n + 1) = Stack.trees rest n ++ [frame.tree] := by
        simp [Stack.trees]
      rw [trees, ParseTree.yieldAll_append, Stack.yield, ih rest, List.append_assoc]
      simp [ParseTree.yieldAll]

/-- A reduction puts a derivation in the place of its children. -/
theorem Valid.reduce {a : Automaton} (sound : a.Sound) {t : Terminal} {p : Grammar.Production}
    {stack next : Stack} (valid : Valid a stack)
    (action : (a.row (Stack.state stack)).action? t = some (.reduce p))
    (reduced : Stack.reduce a p stack = some next) :
    Valid a next ∧ Stack.yield next = Stack.yield stack := by
  simp only [Stack.reduce] at reduced
  split at reduced
  · rename_i spelled
    obtain ⟨state, goto, rfl⟩ := Option.map_eq_some_iff.1 reduced
    have children : AllDerived (Stack.trees stack p.body.length) := by
      apply allDerived_of_forall
      intro u hu
      obtain ⟨frame, hf, rfl⟩ := List.mem_map.1 (List.mem_reverse.1 hu)
      exact valid.derived frame (List.mem_of_mem_take hf)
    refine ⟨⟨goto, .node _ _ ?_ children, valid.drop _⟩, ?_⟩
    · rw [spelled]
      exact sound.production _ t p action
    · rw [Stack.yield, ParseTree.yield, yield_eq_drop_append stack p.body.length]
  · cases reduced

theorem Valid.reduces {a : Automaton} (sound : a.Sound) {t : Terminal} {stack last : Stack}
    (valid : Valid a stack) (reduces : Reduces a t stack last) :
    Valid a last ∧ Stack.yield last = Stack.yield stack := by
  induction reduces with
  | none => exact ⟨valid, rfl⟩
  | one action _ reduced _ ih =>
    obtain ⟨valid', same⟩ := valid.reduce sound action reduced
    obtain ⟨valid'', same'⟩ := ih valid'
    exact ⟨valid'', same'.trans same⟩

theorem Valid.shifted {a : Automaton} (sound : a.Sound) {leaf : Leaf} {stack last : Stack}
    (valid : Valid a stack) (h : a.feed leaf stack = .shifted last) :
    Valid a last ∧ Stack.yield last = Stack.yield stack ++ [leaf] := by
  have after := feedWith_after a leaf.terminal leaf (Automaton.feedSteps stack) stack
  rw [← Automaton.feed, h] at after
  obtain ⟨mid, state, reduces, action, rfl⟩ := after
  obtain ⟨valid', same⟩ := valid.reduces sound reduces
  refine ⟨⟨shift_of_action? action, .leaf leaf, valid'⟩, ?_⟩
  rw [Stack.yield, same]
  rfl

theorem Valid.stuck {a : Automaton} (sound : a.Sound) {leaf : Leaf} {stack last : Stack}
    (valid : Valid a stack) (h : a.feed leaf stack = .stuck last) :
    Valid a last ∧ Stack.yield last = Stack.yield stack := by
  have after := feedWith_after a leaf.terminal leaf (Automaton.feedSteps stack) stack
  rw [← Automaton.feed, h] at after
  exact valid.reduces sound after

/-- What is accepted derives a whole file from the leaves of the stack. -/
theorem Valid.accepted {a : Automaton} (sound : a.Sound) {leaf : Leaf} {stack : Stack}
    {tree : ParseTree} (valid : Valid a stack) (h : a.feed leaf stack = .accepted tree) :
    Derived tree ∧ tree.symbol = .rule (.node .sourceFile) ∧ tree.yield = Stack.yield stack := by
  have after := feedWith_after a leaf.terminal leaf (Automaton.feedSteps stack) stack
  rw [← Automaton.feed, h] at after
  obtain ⟨frame, p, reduces, action, start, rfl⟩ := after
  obtain ⟨⟨leads, derived, _⟩, same⟩ := valid.reduces sound reduces
  refine ⟨derived, sound.start _ _ _ p leads action start, ?_⟩
  rw [← same, Stack.yield, Stack.yield, List.nil_append]

end Stack

end SyntaxAtlas
