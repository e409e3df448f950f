-- Feeding a terminal always comes to one of three ends: the terminal is shifted, the file is
-- accepted, or the row on top has no action for it. The items of the states say why. An item
-- whose dot stands inside a body was handed on over each symbol in front of the dot, so a stack
-- that was led along holds these symbols, and the state below them leads over the rule.

import SyntaxAtlas.Proofs.Certificate
import SyntaxAtlas.Proofs.Run

namespace SyntaxAtlas

open Grammar

/-! ## Items -/

namespace Automaton

theorem testBit_of_isPart {set whole : ItemSet} (part : isPart set whole = true) {k : Nat}
    (mem : set.testBit k = true) : whole.testBit k = true := by
  unfold isPart at part
  rw [beq_iff_eq] at part
  rw [← part, Nat.testBit_or, mem, Bool.true_or]

theorem testBit_frontItems (k : Nat) :
    frontItems.testBit k = true ↔ ∃ e ∈ numbered, e.2.rule ≠ .start ∧ 8 * e.1 = k := by
  unfold frontItems
  rw [testBit_foldl_bits]
  simp

/-- The items of a body take no more room than is left for them. -/
theorem length_body_lt {i : Nat} {p : Production} (mem : (i, p) ∈ numbered) :
    p.body.length < 8 := by
  have short : ∀ q ∈ productions, q.body.length < 8 := by decide +kernel
  exact short p (List.mem_of_getElem? (mem_numbered.1 mem))

/-- The dot stands before the symbol at its place in the body. -/
theorem getElem?_of_testBit_dotted {s : Symbol} {i d : Nat} {p : Production}
    (mem : (i, p) ∈ numbered) (small : d < 8) (dot : (dotted s).testBit (8 * i + d) = true) :
    p.body[d]? = some s := by
  obtain ⟨⟨j, q⟩, known, ⟨t, e⟩, place, rfl, same⟩ := (testBit_dotted s _).1 dot
  have short : q.body.length < 8 := length_body_lt known
  have inside : e < q.body.length := List.snd_lt_of_mem_zipIdx place
  rw [List.mk_mem_zipIdx_iff_getElem?] at place
  obtain ⟨rfl, rfl⟩ : j = i ∧ e = d := by simp only at same; omega
  rw [mem_numbered] at mem known
  rw [mem, Option.some.injEq] at known
  rw [known]
  exact place

/-! ## Rows that do what their items say -/

/-- An automaton whose rows do what the items of the states say. -/
structure Safe (a : Automaton) (items : Nat → ItemSet) : Prop where
  starts : 0 < a.rows.size
  fresh : isPart (items 0) (1 ||| frontItems) = true
  moves : ∀ state s n, a.leads? state s = some n →
    handsOn items dotted a.rows.size state s n = true
  ends : ∀ state, ∀ e ∈ (a.row state).reductions, reducesRight items state e = true
  leads : ∀ state, state < a.rows.size → leadsOn (a.row state) (items state) = true

section Items

variable {a : Automaton} {items : Nat → ItemSet}

/-- The dot of an item in the start state is in front. -/
theorem Safe.dot_zero (safe : a.Safe items) {i d : Nat} (small : d < 8)
    (item : (items 0).testBit (8 * i + d) = true) : d = 0 := by
  have bit := testBit_of_isPart safe.fresh item
  rw [Nat.testBit_or, Bool.or_eq_true, testBit_frontItems] at bit
  rcases bit with one | ⟨e, _, _, same⟩
  · have := Nat.testBit_one_eq_true_iff_self_eq_zero.1 one
    omega
  · omega

/-- An item came over the symbol before its dot, or has the dot in front. -/
theorem Safe.moved (safe : a.Safe items) {state n k : Nat} {s : Symbol}
    (leads : a.leads? state s = some n) (item : (items n).testBit k = true) :
    (∃ j, k = j + 1 ∧ (items state).testBit j = true ∧ (dotted s).testBit j = true) ∨
      ∃ e ∈ numbered, e.2.rule ≠ .start ∧ 8 * e.1 = k := by
  have hands := safe.moves state s n leads
  unfold handsOn at hands
  rw [Bool.and_eq_true] at hands
  have bit := testBit_of_isPart hands.2 item
  rw [Nat.testBit_or, Bool.or_eq_true, testBit_frontItems] at bit
  rcases bit with bit | front
  · left
    rw [Nat.testBit_shiftLeft, Bool.and_eq_true, decide_eq_true_eq, Nat.testBit_and,
      Bool.and_eq_true] at bit
    exact ⟨k - 1, by omega, bit.2.1, bit.2.2⟩
  · exact .inr front

/-- The state on top of a stack has a row. -/
theorem Safe.state_lt (safe : a.Safe items) {stack : Stack} (valid : Stack.Valid a stack) :
    Stack.state stack < a.rows.size := by
  cases stack with
  | nil => exact safe.starts
  | cons frame rest =>
    have hands := safe.moves _ _ _ valid.1
    unfold handsOn at hands
    rw [Bool.and_eq_true, Bool.and_eq_true, decide_eq_true_eq] at hands
    exact hands.1.2

/-- A row leads over the rule of an item whose dot is in front. -/
theorem Safe.goto (safe : a.Safe items) {state i : Nat} {p : Production}
    (inside : state < a.rows.size) (mem : (i, p) ∈ numbered) (notStart : p.rule ≠ .start)
    (item : (items state).testBit (8 * i) = true) : ∃ n, (a.row state).goto? p.rule = some n := by
  have leads := safe.leads state inside
  unfold leadsOn at leads
  have legal : p ∈ productions := List.mem_of_getElem? (mem_numbered.1 mem)
  obtain ⟨r, known, listed⟩ := List.mem_flatMap.1 legal
  obtain ⟨body, _, rfl⟩ := List.mem_map.1 listed
  have here := List.all_eq_true.1 leads r known
  have opens : items state &&& openings r ≠ 0 := by
    intro nothing
    have bit : (openings r).testBit (8 * i) = true := by
      unfold openings
      rw [testBit_foldl_bits]
      exact .inr ⟨(i, ⟨r, body⟩), mem, rfl, rfl⟩
    have both := congrArg (Nat.testBit · (8 * i)) nothing
    simp only [Nat.testBit_and, item, bit, Nat.zero_testBit] at both
    cases both
  rw [Bool.or_eq_true, Bool.or_eq_true, beq_iff_eq, beq_iff_eq] at here
  rcases here with (start | nothing) | isSome
  · exact absurd start notStart
  · exact absurd nothing opens
  · exact Option.isSome_iff_exists.1 isSome

/-- A production is reduced where one of its items has the dot behind the body. -/
theorem Safe.ended (safe : a.Safe items) {state : Nat} {t : Terminal} {p : Production}
    (action : (a.row state).action? t = some (.reduce p)) :
    (∃ i, (i, p) ∈ numbered ∧ (items state).testBit (8 * i + p.body.length) = true) ∧
      (p.rule = .start → t = .endOfInput) := by
  unfold Row.action? at action
  split at action
  · cases action
  · obtain ⟨⟨q, set⟩, found, same⟩ := Option.map_eq_some_iff.1 action
    cases same
    have right := safe.ends state (p, set) (List.mem_of_find?_eq_some found)
    unfold reducesRight at right
    rw [Bool.and_eq_true, List.any_eq_true, Bool.or_eq_true, bne_iff_ne, beq_iff_eq] at right
    obtain ⟨⟨⟨i, q⟩, mem, here⟩, start⟩ := right
    rw [Bool.and_eq_true, beq_iff_eq] at here
    obtain ⟨bit, rfl⟩ := here
    refine ⟨⟨i, mem, bit⟩, fun isStart => ?_⟩
    have before : set.has t = true := by simpa using List.find?_some found
    obtain rfl : set = .of .endOfInput := by simpa [isStart] using start
    unfold TerminalSet.has TerminalSet.of at before
    rw [Nat.one_shiftLeft, Nat.testBit_two_pow, decide_eq_true_eq] at before
    cases t with
    | endOfInput => rfl
    | _ => simp only [Terminal.code] at before; omega

end Items

/-! ## What stands below an item -/

section Stacks

variable {a : Automaton} {items : Nat → ItemSet} {stack : Stack} {i d : Nat} {p : Production}

/-- A stack that was led to an item holds the symbols in front of the dot, and below them is a
state with the item whose dot is in front. -/
theorem Safe.below (safe : a.Safe items) (valid : Stack.Valid a stack) (mem : (i, p) ∈ numbered)
    (inside : d ≤ p.body.length)
    (item : (items (Stack.state stack)).testBit (8 * i + d) = true) :
    (Stack.trees stack d).map ParseTree.symbol = p.body.take d ∧
      (items (Stack.state (stack.drop d))).testBit (8 * i) = true := by
  have short := length_body_lt mem
  induction d generalizing stack with
  | zero => exact ⟨by simp [Stack.trees], item⟩
  | succ d ih =>
    cases stack with
    | nil =>
      have := safe.dot_zero (by omega) item
      omega
    | cons frame rest =>
      obtain ⟨leads, _, valid'⟩ := valid
      rcases safe.moved leads item with ⟨j, same, before, dot⟩ | ⟨e, _, _, same⟩
      · obtain rfl : j = 8 * i + d := by omega
        obtain ⟨symbols, front⟩ := ih valid' (by omega) before
        have last := getElem?_of_testBit_dotted mem (by omega) dot
        refine ⟨?_, front⟩
        have trees : Stack.trees (frame :: rest) (d + 1) = Stack.trees rest d ++ [frame.tree] := by
          simp [Stack.trees]
        rw [trees, List.map_append, symbols, List.take_add_one, last]
        rfl
      · omega

/-- Where a production is to be reduced, its body is on the stack. -/
theorem Safe.spelled (safe : a.Safe items) (valid : Stack.Valid a stack) {t : Terminal}
    (action : (a.row (Stack.state stack)).action? t = some (.reduce p)) :
    (Stack.trees stack p.body.length).map ParseTree.symbol = p.body := by
  obtain ⟨⟨i, mem, item⟩, _⟩ := safe.ended action
  have below := safe.below valid mem (Nat.le_refl _) item
  rw [below.1, List.take_length]

/-- A production but that of the start rule can be reduced. -/
theorem Safe.reduces (safe : a.Safe items) (valid : Stack.Valid a stack) {t : Terminal}
    (action : (a.row (Stack.state stack)).action? t = some (.reduce p))
    (notStart : p.rule ≠ .start) : ∃ next, Stack.reduce a p stack = some next := by
  obtain ⟨⟨i, mem, item⟩, _⟩ := safe.ended action
  have front := (safe.below valid mem (Nat.le_refl _) item).2
  obtain ⟨n, goto⟩ := safe.goto (safe.state_lt (valid.drop _)) mem notStart front
  unfold Stack.reduce
  rw [if_pos (safe.spelled valid action), goto]
  exact ⟨_, rfl⟩

/-- The start rule is reached with the whole file on the stack, at the end of the input. -/
theorem Safe.accepts (safe : a.Safe items) (valid : Stack.Valid a stack) {t : Terminal}
    (action : (a.row (Stack.state stack)).action? t = some (.reduce p)) (start : p.rule = .start) :
    t = .endOfInput ∧ ∃ frame, stack = [frame] := by
  obtain ⟨⟨i, mem, item⟩, atEnd⟩ := safe.ended action
  obtain ⟨symbols, front⟩ := safe.below valid mem (Nat.le_refl _) item
  refine ⟨atEnd start, ?_⟩
  have whole : p.body = [.rule (.node .sourceFile)] := by
    have legal : ∀ q ∈ productions, q.rule = .start → q.body = [.rule (.node .sourceFile)] := by
      decide +kernel
    exact legal p (List.mem_of_getElem? (mem_numbered.1 mem)) start
  rw [whole] at symbols front
  cases stack with
  | nil => cases symbols
  | cons frame rest =>
    -- no state that another leads to has the item of the start rule with the dot in front
    cases rest with
    | nil => exact ⟨frame, rfl⟩
    | cons below rest =>
      obtain ⟨leads, _⟩ := valid.2.2
      rcases safe.moved leads front with ⟨j, same, _, dot⟩ | ⟨⟨e, q⟩, known, other, same⟩
      · obtain ⟨⟨k, q⟩, known, ⟨s, d⟩, place, _, here⟩ := (testBit_dotted _ _).1 dot
        have short := length_body_lt known
        have inside := List.snd_lt_of_mem_zipIdx place
        simp only at here inside
        omega
      · obtain rfl : e = i := by simp only at same; omega
        rw [mem_numbered] at mem known
        rw [mem, Option.some.injEq] at known
        exact absurd (known ▸ start) other

end Stacks

end Automaton

/-! ## The whole of a feed -/

/-- Feeding a leaf, without a bound on the steps. A reduction must find its body on the stack and
a state to go to, and the start rule is reached with one tree, at the end of the input. -/
inductive Drives (a : Automaton) (leaf : Leaf) : Stack → Fed → Prop
  | shift {stack : Stack} {state : Nat}
      (action : (a.row (Stack.state stack)).action? leaf.terminal = some (.shift state)) :
      Drives a leaf stack (.shifted (⟨state, .leaf leaf⟩ :: stack))
  | accept {frame : Frame} {p : Production}
      (action : (a.row frame.state).action? leaf.terminal = some (.reduce p))
      (start : p.rule = .start) (atEnd : leaf.terminal = .endOfInput) :
      Drives a leaf [frame] (.accepted frame.tree)
  | refuse {stack : Stack}
      (action : (a.row (Stack.state stack)).action? leaf.terminal = none) :
      Drives a leaf stack (.stuck stack)
  | reduce {stack next : Stack} {p : Production} {fed : Fed}
      (action : (a.row (Stack.state stack)).action? leaf.terminal = some (.reduce p))
      (notStart : p.rule ≠ .start) (reduced : Stack.reduce a p stack = some next)
      (more : Drives a leaf next fed) : Drives a leaf stack fed

theorem Drives.refused {a : Automaton} {leaf : Leaf} {stack mid : Stack}
    (drives : Drives a leaf stack (.stuck mid)) :
    (a.row (Stack.state mid)).action? leaf.terminal = none := by
  generalize same : Fed.stuck mid = fed at drives
  induction drives with
  | shift => cases same
  | accept => cases same
  | refuse action =>
    cases same
    exact action
  | reduce _ _ _ _ ih => exact ih same

theorem Drives.atEnd {a : Automaton} {leaf : Leaf} {stack : Stack} {tree : ParseTree}
    (drives : Drives a leaf stack (.accepted tree)) : leaf.terminal = .endOfInput := by
  generalize same : Fed.accepted tree = fed at drives
  induction drives with
  | shift => cases same
  | accept _ _ atEnd => exact atEnd
  | refuse => cases same
  | reduce _ _ _ _ ih => exact ih same

namespace Automaton

/-- An automaton on which feeding always comes to its end: it reduces productions of the grammar,
each reduction makes the stack lighter, and none of them fails. -/
structure Reliable (a : Automaton) (items : Nat → ItemSet) : Prop where
  sound : a.Sound
  opens : a.Opens
  safe : a.Safe items

variable {a : Automaton} {items : Nat → ItemSet} {stack next : Stack} {leaf : Leaf}

theorem feedWith_drives (reliable : a.Reliable items) (leaf : Leaf) {fuel : Nat}
    (valid : Stack.Valid a stack) (enough : a.potential leaf.terminal stack < fuel) :
    Drives a leaf stack (a.feedWith leaf.terminal leaf fuel stack) := by
  induction fuel generalizing stack with
  | zero => omega
  | succ fuel ih =>
    unfold feedWith
    split
    · rename_i action
      exact .refuse action
    · rename_i state action
      exact .shift action
    · rename_i p action
      split
      · rename_i start
        obtain ⟨atEnd, frame, rfl⟩ := reliable.safe.accepts valid action start
        exact .accept action start atEnd
      · rename_i notStart
        obtain ⟨next, reduced⟩ := reliable.safe.reduces valid action notStart
        have less := potential_reduce reliable.sound reliable.opens action notStart reduced
        rw [reduced]
        exact .reduce action notStart reduced
          (ih (valid.reduce reliable.sound action reduced).1 (by omega))

/-- On a stack that parsing makes, feeding a leaf comes to its end by itself. -/
theorem feed_drives (reliable : a.Reliable items) (leaf : Leaf) (valid : Stack.Valid a stack) :
    Drives a leaf stack (a.feed leaf stack) :=
  feedWith_drives reliable leaf valid (a.potential_lt_feedSteps leaf.terminal stack)

theorem feedEnd_drives (reliable : a.Reliable items) (valid : Stack.Valid a stack) :
    Drives a (.inserted .endOfInput) stack (a.feedEnd stack) :=
  feed_drives reliable (.inserted .endOfInput) valid

/-! ## What the parser takes -/

theorem feed_of_action?_none (none : (a.row (Stack.state stack)).action? leaf.terminal = none) :
    a.feed leaf stack = .stuck stack := by
  unfold feed feedSteps
  rw [show 100 * (stack.length + 1) = 100 * stack.length + 99 + 1 by omega]
  unfold feedWith
  rw [none]

/-- What can be shifted is among the terminals that the parser takes. -/
theorem mem_acceptable_of_ne_stuck {t : Terminal}
    (known : t ∈ Terminal.endOfInput :: Terminal.lexical)
    (fed : ∀ mid, a.feed (.inserted t) stack ≠ .stuck mid) : t ∈ a.acceptable stack := by
  unfold acceptable rowTerminals Row.terminals
  rw [List.mem_filter, List.mem_filter]
  refine ⟨⟨known, ?_⟩, ?_⟩
  · rw [Option.isSome_iff_ne_none]
    intro none
    exact fed stack (feed_of_action?_none none)
  · unfold takes
    split
    · rename_i mid stuck
      exact absurd stuck (fed mid)
    · rfl

theorem ne_stuck_of_mem_acceptable {t : Terminal} (mem : t ∈ a.acceptable stack) (mid : Stack) :
    a.feed (.inserted t) stack ≠ .stuck mid := by
  intro stuck
  have takes := (List.mem_filter.1 mem).2
  unfold Automaton.takes at takes
  rw [stuck] at takes
  cases takes

/-- A terminal that can be read is taken exactly where it is shifted. -/
theorem mem_acceptable_iff_shifted (reliable : a.Reliable items) (valid : Stack.Valid a stack)
    {t : Terminal} (lexical : t ∈ Terminal.lexical) :
    t ∈ a.acceptable stack ↔ ∃ next, a.feed (.inserted t) stack = .shifted next := by
  constructor
  · intro mem
    have drives := feed_drives reliable (.inserted t) valid
    rcases fed : a.feed (.inserted t) stack with next | tree | mid
    · exact ⟨next, rfl⟩
    · rw [fed] at drives
      obtain rfl : t = .endOfInput := drives.atEnd
      exact absurd lexical (by decide)
    · exact absurd fed (ne_stuck_of_mem_acceptable mem mid)
  · rintro ⟨next, fed⟩
    refine mem_acceptable_of_ne_stuck (List.mem_cons_of_mem _ lexical) ?_
    intro mid stuck
    rw [fed] at stuck
    cases stuck

/-- The end of the input is taken exactly where the file is accepted. -/
theorem endOfInput_mem_acceptable_iff (reliable : a.Reliable items) :
    Terminal.endOfInput ∈ a.acceptable stack ↔ ∃ tree, a.feedEnd stack = .accepted tree := by
  constructor
  · intro mem
    rcases fed : a.feedEnd stack with next | tree | mid
    · exact absurd fed (Recovery.feedEnd_ne_shifted reliable.sound stack next)
    · exact ⟨tree, rfl⟩
    · exact absurd fed (ne_stuck_of_mem_acceptable mem mid)
  · rintro ⟨tree, fed⟩
    refine mem_acceptable_of_ne_stuck List.mem_cons_self ?_
    intro mid stuck
    unfold feedEnd at fed
    rw [fed] at stuck
    cases stuck

end Automaton

end SyntaxAtlas
