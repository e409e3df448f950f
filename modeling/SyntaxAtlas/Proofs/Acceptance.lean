-- The automaton accepts the words of the grammar and no others. What is accepted is derived
-- since each frame of the stack is a derivation. What is derived has a greedy derivation, and
-- that one is a run: where it ends a production, the row reduces it.

import SyntaxAtlas.Proofs.Joining
import SyntaxAtlas.Proofs.Certificate

namespace SyntaxAtlas

open Grammar

namespace Automaton

/-! ## Whole inputs -/

/-- Feeds leaves as long as each of them is shifted. -/
def feedAll (a : Automaton) : List Leaf → Stack → Option Stack
  | [], stack => some stack
  | leaf :: rest, stack =>
    match a.feed leaf stack with
    | .shifted next => feedAll a rest next
    | _ => none

/-- Feeds leaves and the end of the input, and gives the tree that is accepted. -/
def accept? (a : Automaton) (leaves : List Leaf) : Option ParseTree :=
  (a.feedAll leaves []).bind fun stack =>
    match a.feedEnd stack with
    | .accepted tree => some tree
    | _ => none

theorem feedAll_valid {a : Automaton} (sound : a.Sound) {leaves : List Leaf} {stack last : Stack}
    (valid : Stack.Valid a stack) (fed : a.feedAll leaves stack = some last) :
    Stack.Valid a last ∧ Stack.yield last = Stack.yield stack ++ leaves := by
  induction leaves generalizing stack with
  | nil =>
    obtain rfl : stack = last := by simpa [feedAll] using fed
    exact ⟨valid, (List.append_nil _).symm⟩
  | cons leaf rest ih =>
    rw [feedAll] at fed
    split at fed
    · rename_i next shifted
      obtain ⟨valid', yield⟩ := valid.shifted sound shifted
      obtain ⟨valid'', yield'⟩ := ih valid' fed
      exact ⟨valid'', by rw [yield', yield, List.append_assoc, List.singleton_append]⟩
    · cases fed

/-- What is accepted is a derivation of the leaves. -/
theorem derived_of_accept? {a : Automaton} (sound : a.Sound) {leaves : List Leaf}
    {tree : ParseTree} (accepted : a.accept? leaves = some tree) :
    Derived tree ∧ tree.symbol = .rule (.node .sourceFile) ∧ tree.yield = leaves := by
  obtain ⟨stack, fed, ended⟩ := Option.bind_eq_some_iff.1 accepted
  obtain ⟨valid, yield⟩ := @feedAll_valid a sound leaves [] stack trivial fed
  split at ended
  · rename_i tree' atEnd
    obtain rfl : tree' = tree := by simpa using ended
    obtain ⟨derived, symbol, same⟩ := valid.accepted sound atEnd
    exact ⟨derived, symbol, by rw [same, yield, Stack.yield, List.nil_append]⟩
  · cases ended

end Automaton

/-! ## Runs -/

theorem Reduces.trans {a : Automaton} {t : Terminal} {stack mid last : Stack}
    (first : Reduces a t stack mid) (second : Reduces a t mid last) : Reduces a t stack last := by
  induction first with
  | none => exact second
  | one action notStart reduced _ ih => exact .one action notStart reduced (ih second)

/-- A run over some leaves in front of a terminal: each leaf is shifted after some reductions,
and some reductions come at the end. -/
def Passes (a : Automaton) (next : Terminal) : List Leaf → Stack → Stack → Prop
  | [], stack, last => Reduces a next stack last
  | leaf :: rest, stack, last => ∃ mid n, Reduces a leaf.terminal stack mid ∧
      (a.row (Stack.state mid)).action? leaf.terminal = some (.shift n) ∧
      Passes a next rest (⟨n, .leaf leaf⟩ :: mid) last

section

variable {a : Automaton} {next : Terminal}

/-- One run behind another. The first stands in front of what the second starts with. -/
theorem Passes.append {first others : List Leaf} {stack mid last : Stack}
    (head : Passes a ((others.map Leaf.terminal).headD next) first stack mid)
    (tail : Passes a next others mid last) : Passes a next (first ++ others) stack last := by
  induction first generalizing stack with
  | nil =>
    cases others with
    | nil => exact head.trans tail
    | cons leaf rest =>
      obtain ⟨mid', n, reduces, action, more⟩ := tail
      exact ⟨mid', n, head.trans reduces, action, more⟩
  | cons leaf rest ih =>
    obtain ⟨mid', n, reduces, action, more⟩ := head
    exact ⟨mid', n, reduces, action, ih more⟩

theorem Passes.reduces {leaves : List Leaf} {stack mid last : Stack}
    (passes : Passes a next leaves stack mid) (reduces : Reduces a next mid last) :
    Passes a next leaves stack last := by
  rw [← List.append_nil leaves]
  exact @Passes.append a next leaves [] stack mid last passes reduces

/-- A run feeds its leaves, and leaves the reductions at its end. -/
theorem Passes.fed {a : Automaton} (sound : a.Sound) (opens : a.Opens) {leaves : List Leaf}
    {stack last : Stack} (passes : Passes a next leaves stack last) :
    ∃ mid, a.feedAll leaves stack = some mid ∧ Reduces a next mid last := by
  induction leaves generalizing stack with
  | nil => exact ⟨stack, rfl, passes⟩
  | cons leaf rest ih =>
    obtain ⟨mid, n, reduces, action, more⟩ := passes
    obtain ⟨stack', fed, ends⟩ := ih more
    refine ⟨stack', ?_, ends⟩
    rw [Automaton.feedAll, Automaton.feed_of_shift sound opens reduces action]
    exact fed

/-- Frames over a stack that spell a body are reduced. -/
theorem Stack.reduce_frames {p : Production} {frames stack : Stack} {n : Nat}
    (spelled : (frames.map (·.tree.symbol)).reverse = p.body)
    (goto : (a.row (Stack.state stack)).goto? p.rule = some n) :
    ∃ trees, Stack.reduce a p (frames ++ stack) = some (⟨n, .node p.rule trees⟩ :: stack) := by
  have size : p.body.length = frames.length := by simp [← spelled]
  have popped : (Stack.trees (frames ++ stack) p.body.length).map ParseTree.symbol = p.body := by
    rw [Stack.trees, size, List.take_left, List.map_reverse, List.map_map]
    exact spelled
  have below : (frames ++ stack).drop p.body.length = stack := by rw [size, List.drop_left]
  refine ⟨Stack.trees (frames ++ stack) p.body.length, ?_⟩
  simp only [Stack.reduce, popped, if_true, below, goto, Option.map_some]

end

/-! ## Greedy derivations as runs -/

/-- What follows a rule where it is entered has the terminal. -/
def Symbol.FollowedBy (follow : Nat → Rule → TerminalSet) (state : Nat) (next : Terminal) :
    Symbol → Prop
  | .terminal _ => True
  | .rule r => (follow state r).has next = true

/-- Behind a symbol on the way comes what the rest starts with, or what is behind all. -/
theorem followedBy_of_behind? {a : Automaton} {follow : Nat → Rule → TerminalSet}
    {after : TerminalSet} {state last : Nat} {s : Symbol} {rest : List Symbol}
    (walked : Automaton.behind? a.row follow after state (s :: rest) = some last)
    {others : List Terminal} {next : Terminal} (starts : StartsAs rest others)
    (mem : after.has next = true) :
    ∃ n, a.leads? state s = some n ∧ Automaton.behind? a.row follow after n rest = some last ∧
      s.FollowedBy follow state (others.headD next) := by
  rw [Automaton.behind?, Automaton.leads?_row] at walked
  obtain ⟨n, leads, walked⟩ := Option.bind_eq_some_iff.1 walked
  cases s with
  | terminal t => exact ⟨n, leads, walked, trivial⟩
  | rule r =>
    simp only [Option.ite_none_right_eq_some] at walked
    refine ⟨n, leads, walked.2, TerminalSet.has_of_subset walked.1 ?_⟩
    rw [TerminalSet.has_or, Bool.or_eq_true_iff]
    cases others with
    | nil => exact .inr (by rw [if_pos (starts.1 rfl)]; exact mem)
    | cons t others => exact .inl (starts.2 t rfl)

mutual

/-- A greedy derivation of a symbol is a run from every state that leads over the symbol and is
followed by what stands behind. -/
theorem Greedy.passes {a : Automaton} {follow : Nat → Rule → TerminalSet}
    (complete : a.Complete follow) {s : Symbol} {word : List Terminal} {next : Terminal} :
    Greedy s word next → ∀ {leaves : List Leaf} {stack : Stack} {n : Nat},
      leaves.map Leaf.terminal = word → a.leads? (Stack.state stack) s = some n →
      s.FollowedBy follow (Stack.state stack) next →
      ∃ tree : ParseTree, tree.symbol = s ∧ Passes a next leaves stack (⟨n, tree⟩ :: stack)
  | .terminal t next, leaves, stack, n, spelled, leads, _ => by
    obtain ⟨leaf, rfl, rfl⟩ : ∃ leaf, leaves = [leaf] ∧ leaf.terminal = t := by
      simpa [List.map_eq_singleton_iff] using spelled
    have action : (a.row (Stack.state stack)).action? leaf.terminal = some (.shift n) := by
      change (a.row (Stack.state stack)).shifts.lookup leaf.terminal = some n at leads
      rw [Row.action?, leads]
    exact ⟨.leaf leaf, rfl, stack, n, .none stack, action, .none _⟩
  | @Greedy.rule r body _ _ isForm all ends, leaves, stack, n, spelled, leads, followed => by
    have checked := complete.carries _ r n leads body isForm
    rw [Automaton.carries] at checked
    split at checked
    · cases checked
    · rename_i last walked
      obtain ⟨frames, symbols, top, passes⟩ := all.passes complete spelled walked followed
      obtain ⟨trees, reduced⟩ := Stack.reduce_frames (p := ⟨r, body⟩) symbols leads
      have action := Automaton.action?_of_reducesBefore checked followed ends
      rw [← top] at action
      have one := Reduces.one action (complete.notStart _ r n leads) reduced (.none _)
      exact ⟨_, rfl, passes.reduces one⟩

/-- Over a body it is a run that puts a frame for each symbol on the stack. -/
theorem GreedyAll.passes {a : Automaton} {follow : Nat → Rule → TerminalSet}
    (complete : a.Complete follow) {body : List Symbol} {word : List Terminal} {next : Terminal} :
    GreedyAll body word next → ∀ {leaves : List Leaf} {stack : Stack} {after : TerminalSet}
      {last : Nat}, leaves.map Leaf.terminal = word →
      Automaton.behind? a.row follow after (Stack.state stack) body = some last →
      after.has next = true →
      ∃ frames : Stack, (frames.map (·.tree.symbol)).reverse = body ∧
        Stack.state (frames ++ stack) = last ∧ Passes a next leaves stack (frames ++ stack)
  | .nil next, leaves, stack, after, last, spelled, walked, _ => by
    obtain rfl : leaves = [] := List.map_eq_nil_iff.1 spelled
    exact ⟨[], rfl, by simpa [Automaton.behind?] using walked, .none stack⟩
  | .cons (s := s) head tail, leaves, stack, after, last, spelled, walked, mem => by
    obtain ⟨first, others, rfl, isFirst, isOthers⟩ := List.map_eq_append_iff.1 spelled
    obtain ⟨n, leads, walked', followed⟩ := followedBy_of_behind? walked tail.startsAs mem
    obtain ⟨tree, symbol, passes⟩ := head.passes complete isFirst leads followed
    obtain ⟨frames, symbols, top, passes'⟩ := @GreedyAll.passes a follow complete _ _ _ tail
      others (⟨n, tree⟩ :: stack) _ _ isOthers walked' mem
    refine ⟨frames ++ [⟨n, tree⟩], ?_, ?_, ?_⟩
    · simp [symbols, symbol]
    · rwa [List.append_assoc, List.singleton_append]
    · rw [List.append_assoc, List.singleton_append]
      exact Passes.append (isOthers ▸ passes) passes'

end

/-- Leaves that spell a greedy derivation of a file are accepted. -/
theorem accept?_of_greedy {a : Automaton} (sound : a.Sound)
    {follow : Nat → Rule → TerminalSet} (complete : a.Complete follow) {leaves : List Leaf}
    (greedy : Greedy (.rule (.node .sourceFile)) (leaves.map Leaf.terminal) .endOfInput) :
    ∃ tree, a.accept? leaves = some tree := by
  have starts := complete.starts
  rw [Automaton.startsRight, Automaton.leads?_row] at starts
  split at starts
  · cases starts
  · rename_i n leads
    rw [Bool.and_eq_true, beq_iff_eq] at starts
    obtain ⟨tree, _, passes⟩ :=
      @Greedy.passes a follow complete _ _ _ greedy leaves [] n rfl leads starts.1
    obtain ⟨mid, fed, ends⟩ := passes.fed sound complete.opens
    have accepted := @Automaton.feed_of_accept a sound complete.opens (.inserted .endOfInput)
      _ _ _ ends starts.2 rfl
    refine ⟨tree, ?_⟩
    rw [Automaton.accept?, fed, Option.bind_some, Automaton.feedEnd, accepted]

/-- The automaton accepts leaves exactly when the grammar derives a file from their terminals,
and the tree it makes is a derivation of the leaves. -/
theorem accepts_exactly_the_grammar (leaves : List Leaf) :
    ((Automaton.ofGrammar.accept? leaves).isSome = true ↔
      Derives (.node .sourceFile) (leaves.map Leaf.terminal)) ∧
    ∀ tree, Automaton.ofGrammar.accept? leaves = some tree →
      Derived tree ∧ tree.symbol = .rule (.node .sourceFile) ∧ tree.yield = leaves := by
  have derivation : ∀ tree, Automaton.ofGrammar.accept? leaves = some tree →
      Derived tree ∧ tree.symbol = .rule (.node .sourceFile) ∧ tree.yield = leaves :=
    fun tree accepted => Automaton.derived_of_accept? Automaton.ofGrammar_sound accepted
  refine ⟨⟨fun accepted => ?_, fun derives => ?_⟩, derivation⟩
  · obtain ⟨tree, accepted⟩ := Option.isSome_iff_exists.1 accepted
    obtain ⟨derived, symbol, yield⟩ := derivation tree accepted
    exact ⟨tree, derived, symbol, by rw [yield]⟩
  · exact Option.isSome_iff_exists.2 (accept?_of_greedy Automaton.ofGrammar_sound
      Automaton.ofGrammar_complete (greedy_of_derives derives))

/-- Two statements side by side, `a` and `(b)`, which the parser reads as a call. -/
def sideBySide : ParseTree :=
  let operand := [Rule.expression, .group .prefixExpr, .group .postfixExpr, .group .primaryExpr]
  let name (text : String) (start : Nat) : ParseTree :=
    .within (operand ++ [.node .declReferenceExpr]) (.leaf (.read .identifier text start))
  .within [.node .sourceFile, .node .codeBlockItemList] (.node (.repetition .codeBlockItems) [
    .within [.repetition .codeBlockItems, .node .codeBlockItem, .group .blockItem] (name "a" 0),
    .within ([.node .codeBlockItem, .group .blockItem] ++ operand) (.node (.node .tupleExpr) [
      .leaf (.read (.mark .leftParen) "(" 2),
      .within [.node .labeledExprList, .node .labeledExpr] (name "b" 3),
      .leaf (.read (.mark .rightParen) ")" 4)])])

theorem accepts_sideBySide :
    ∃ tree, Automaton.ofGrammar.accept? sideBySide.yield = some tree ∧ Derived tree ∧
      tree.symbol = .rule (.node .sourceFile) ∧ tree.yield = sideBySide.yield := by
  have derived : Derived sideBySide := by
    repeat' first
      | exact Derived.leaf _ | exact AllDerived.nil | apply AllDerived.cons
      | refine Derived.node _ _ (by decide) ?_
  obtain ⟨accepts, derivation⟩ := accepts_exactly_the_grammar sideBySide.yield
  obtain ⟨tree, accepted⟩ := Option.isSome_iff_exists.1
    (accepts.2 ⟨sideBySide, derived, rfl, rfl⟩)
  exact ⟨tree, accepted, derivation tree accepted⟩

end SyntaxAtlas
