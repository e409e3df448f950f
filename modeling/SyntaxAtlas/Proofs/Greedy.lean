-- Greedy derivations. The grammar can read some texts in more than one way: `a (b)` is one
-- item or two. The parser prefers to shift, so it takes the way in which nothing ends that
-- could go on. That way is a relation here: a symbol derives a word in front of a terminal.

import SyntaxAtlas.Proofs.Actions
import SyntaxAtlas.Proofs.Derivations

namespace SyntaxAtlas

open Automaton (firstOf firstSets nullableRules isNullable settle)

/-! ## Sets of terminals -/

namespace TerminalSet

@[simp] theorem has_zero (t : Terminal) : TerminalSet.has 0 t = false := Nat.zero_testBit _

@[simp] theorem has_or (s u : TerminalSet) (t : Terminal) :
    TerminalSet.has (s ||| u) t = (TerminalSet.has s t || TerminalSet.has u t) :=
  Nat.testBit_or ..

theorem has_of_subset {s u : TerminalSet} (h : s ||| u = u) {t : Terminal}
    (mem : TerminalSet.has s t = true) : TerminalSet.has u t = true := by
  rw [← h, has_or, mem, Bool.true_or]

theorem not_has_of_disjoint {s u : TerminalSet} (h : s &&& u = 0) {t : Terminal}
    (mem : TerminalSet.has u t = true) : TerminalSet.has s t = false := by
  have bit := congrArg (Nat.testBit · t.code) h
  simp only [Nat.testBit_and, Nat.zero_testBit] at bit
  unfold TerminalSet.has at mem ⊢
  simpa [mem] using bit

@[simp] theorem has_of_self (t : Terminal) : TerminalSet.has (.of t) t = true := by
  simp [TerminalSet.has, TerminalSet.of, Nat.one_shiftLeft]

end TerminalSet

/-- A terminal is known, or it has a name of its own. -/
theorem Terminal.mem_known (t : Terminal) : t ∈ known ∨ ∃ n, t = .other n := by
  cases t with
  | keyword k =>
    exact .inl (List.mem_append_left _ (List.mem_append_left _
      (List.mem_append_left _ (List.mem_map_of_mem (Keyword.mem_all k)))))
  | mark m =>
    exact .inl (List.mem_append_left _ (List.mem_append_left _
      (List.mem_append_right _ (List.mem_map_of_mem (Mark.mem_all m)))))
  | other n => exact .inr ⟨n, rfl⟩
  | identifier | integer | float | operator | string | endOfInput | stringQuote | stringSegment
  | endOfFile => exact .inl (by decide)

/-! ## Where the parser goes on -/

namespace Grammar

/-- The terminals before which something at the end of a body might go on, by what is known of
the rules. -/
def openEndOf (ends : List TerminalSet) : List Symbol → TerminalSet
  | [] => 0
  | s :: rest =>
    openEndOf ends rest |||
      if isNullable nullableRules rest then
        match s with
        | .terminal _ => 0
        | .rule r => ends.getD r.code 0
      else 0

/-- One more round of what is known. -/
def moreOpenEnds (ends : List TerminalSet) : List TerminalSet :=
  rules.map fun r => (alternatives r).foldl (fun set body =>
    set ||| goesOn ⟨r, body⟩ ||| openEndOf ends body) 0

/-- The terminals before which something at the end of each rule might go on, by the number of
the rule. -/
def openEnds : List TerminalSet := settle (· == ·) moreOpenEnds 100 (rules.map fun _ => 0)

end Grammar

open Grammar

/-- The terminals before which something at the end of a symbol might go on. -/
def Symbol.openEnd : Symbol → TerminalSet
  | .terminal _ => 0
  | .rule r => openEnds.getD r.code 0

theorem openEndOf_cons (s : Symbol) (rest : List Symbol) :
    openEndOf openEnds (s :: rest) = openEndOf openEnds rest |||
      if isNullable nullableRules rest then s.openEnd else 0 := by
  cases s <;> rfl

theorem openEndOf_single (s : Symbol) : openEndOf openEnds [s] = s.openEnd := by
  have empty : isNullable nullableRules [] = true := rfl
  have nothing : openEndOf openEnds [] = 0 := rfl
  rw [openEndOf_cons, empty, nothing]
  simp

/-- What starts an alternative starts the rule, and a rule with an empty alternative can be
empty. -/
theorem firsts_closed : ∀ r ∈ rules, ∀ body ∈ alternatives r,
    firstOf firstSets body ||| firsts r = firsts r ∧
      (isNullable nullableRules body = true → nullableRules.has r = true) := by
  decide +kernel

/-- What might go on at the end of an alternative might go on at the end of the rule. -/
theorem openEnds_closed : ∀ r ∈ rules, ∀ body ∈ alternatives r,
    (goesOn ⟨r, body⟩ ||| openEndOf openEnds body) ||| Symbol.openEnd (.rule r) =
      Symbol.openEnd (.rule r) := by
  decide +kernel

-- from here on the sets are known by these facts alone
attribute [local irreducible] openEnds firstSets nullableRules

/-! ## Greedy derivations -/

mutual

/-- A symbol derives a word in front of a terminal, and no production in it ends before a
terminal that it could go on with. -/
inductive Greedy : Symbol → List Terminal → Terminal → Prop
  | terminal (t next : Terminal) : Greedy (.terminal t) [t] next
  | rule {r : Rule} {body : List Symbol} {word : List Terminal} {next : Terminal}
      (spelled : body ∈ alternatives r) (all : GreedyAll body word next)
      (ends : (goesOn ⟨r, body⟩).has next = false) : Greedy (.rule r) word next

inductive GreedyAll : List Symbol → List Terminal → Terminal → Prop
  | nil (next : Terminal) : GreedyAll [] [] next
  | cons {s : Symbol} {rest : List Symbol} {first others : List Terminal} {next : Terminal}
      (head : Greedy s first (others.headD next)) (tail : GreedyAll rest others next) :
      GreedyAll (s :: rest) (first ++ others) next

end

theorem greedy_terminal_iff {t next : Terminal} {word : List Terminal} :
    Greedy (.terminal t) word next ↔ word = [t] := by
  constructor
  · rintro ⟨⟩
    rfl
  · rintro rfl
    exact .terminal t next

theorem greedy_rule_iff {r : Rule} {next : Terminal} {word : List Terminal} :
    Greedy (.rule r) word next ↔
      ∃ body ∈ alternatives r, GreedyAll body word next ∧
        (goesOn ⟨r, body⟩).has next = false := by
  constructor
  · rintro (_ | ⟨spelled, all, ends⟩)
    exact ⟨_, spelled, all, ends⟩
  · rintro ⟨body, spelled, all, ends⟩
    exact .rule spelled all ends

@[simp] theorem greedyAll_nil_iff {next : Terminal} {word : List Terminal} :
    GreedyAll [] word next ↔ word = [] := by
  constructor
  · rintro ⟨⟩
    rfl
  · rintro rfl
    exact .nil next

theorem greedyAll_cons_iff {s : Symbol} {rest : List Symbol} {next : Terminal}
    {word : List Terminal} :
    GreedyAll (s :: rest) word next ↔
      ∃ first others, word = first ++ others ∧ Greedy s first (others.headD next) ∧
        GreedyAll rest others next := by
  constructor
  · rintro (_ | ⟨head, tail⟩)
    exact ⟨_, _, rfl, head, tail⟩
  · rintro ⟨first, others, rfl, head, tail⟩
    exact .cons head tail

@[simp] theorem greedyAll_single_iff {s : Symbol} {next : Terminal} {word : List Terminal} :
    GreedyAll [s] word next ↔ Greedy s word next := by
  simp [greedyAll_cons_iff]

/-! ## First terminals -/

/-- A word is empty where the symbols may be, or else it starts as they do. -/
def StartsAs (body : List Symbol) (word : List Terminal) : Prop :=
  (word = [] → isNullable nullableRules body = true) ∧
    ∀ t ∈ word.head?, (firstOf firstSets body).has t = true

theorem StartsAs.cons {s : Symbol} {rest : List Symbol} {first others : List Terminal}
    (head : StartsAs [s] first) (tail : StartsAs rest others) :
    StartsAs (s :: rest) (first ++ others) := by
  rcases first with _ | ⟨t, first⟩
  · -- an empty front is of a rule that may be empty, so the rest shows through
    have empty := head.1 rfl
    cases s with
    | terminal t => simp [isNullable] at empty
    | rule r =>
      have nullable : nullableRules.has r = true := by simpa [isNullable] using empty
      refine ⟨fun none => ?_, fun t ht => ?_⟩
      · simpa [isNullable, nullable] using tail.1 none
      · simp [firstOf, nullable, tail.2 t ht]
  · refine ⟨by simp, fun u hu => ?_⟩
    have starts := head.2 u hu
    cases s with
    | terminal t => simpa [firstOf] using starts
    | rule r =>
      have here : (firstSets.getD r.code 0).has u = true := by
        simpa [firstOf, isNullable] using starts
      rw [firstOf, TerminalSet.has_or, here, Bool.true_or]

theorem StartsAs.rule {r : Rule} {body : List Symbol} {word : List Terminal}
    (spelled : body ∈ alternatives r) (h : StartsAs body word) : StartsAs [.rule r] word := by
  obtain ⟨first, nullable⟩ := firsts_closed r (mem_rules_of_alternative spelled) body spelled
  constructor
  · intro none
    simpa [isNullable] using nullable (h.1 none)
  · intro t ht
    rw [firstOf, TerminalSet.has_or]
    exact Bool.or_eq_true_iff.2 (.inl (TerminalSet.has_of_subset first (h.2 t ht)))

mutual

theorem Greedy.startsAs {s : Symbol} {word : List Terminal} {next : Terminal} :
    Greedy s word next → StartsAs [s] word
  | .terminal t next => ⟨by simp, by simp [firstOf]⟩
  | .rule spelled all _ => all.startsAs.rule spelled

theorem GreedyAll.startsAs {body : List Symbol} {word : List Terminal} {next : Terminal} :
    GreedyAll body word next → StartsAs body word
  | .nil next => ⟨fun _ => rfl, by simp⟩
  | .cons head tail => head.startsAs.cons tail.startsAs

end

/-- What cannot be empty derives no empty word. -/
theorem GreedyAll.ne_nil {body : List Symbol} {word : List Terminal} {next : Terminal}
    (h : GreedyAll body word next) (solid : isNullable nullableRules body = false) : word ≠ [] := by
  intro none
  simp [h.startsAs.1 none] at solid

theorem Greedy.ne_nil {r : Rule} {word : List Terminal} {next : Terminal}
    (h : Greedy (.rule r) word next) (solid : nullableRules.has r = false) : word ≠ [] :=
  GreedyAll.ne_nil (greedyAll_single_iff.2 h) (by simp [isNullable, solid])

theorem Greedy.first {r : Rule} {word : List Terminal} {next t : Terminal}
    (h : Greedy (.rule r) word next) (starts : t ∈ word.head?) : (firsts r).has t = true := by
  have here := h.startsAs.2 t starts
  simpa [firstOf, firsts] using here

/-! ## In front of another terminal -/

/-- The terminal behind a word depends on what is behind it only where the word is empty. -/
theorem headD_congr {α : Type} {word : List α} (next next' : α) (h : word ≠ []) :
    word.headD next = word.headD next' := by
  cases word with
  | nil => exact absurd rfl h
  | cons t rest => rfl

mutual

/-- A greedy derivation stays one in front of a terminal that nothing at its end goes on
with. -/
theorem Greedy.before {s : Symbol} {word : List Terminal} {next next' : Terminal} :
    Greedy s word next → s.openEnd.has next' = false → Greedy s word next'
  | .terminal t _, _ => .terminal t next'
  | @Greedy.rule r body _ _ spelled all _, closed => by
    have known := openEnds_closed r (mem_rules_of_alternative spelled) body spelled
    have split : ((goesOn ⟨r, body⟩) ||| openEndOf openEnds body).has next' = false := by
      rw [← known, TerminalSet.has_or, Bool.or_eq_false_iff] at closed
      exact closed.1
    rw [TerminalSet.has_or, Bool.or_eq_false_iff] at split
    exact .rule spelled (all.before split.2) split.1

theorem GreedyAll.before {body : List Symbol} {word : List Terminal} {next next' : Terminal} :
    GreedyAll body word next → (openEndOf openEnds body).has next' = false →
      GreedyAll body word next'
  | .nil _, _ => .nil next'
  | @GreedyAll.cons s rest _ others _ head tail, closed => by
    rw [openEndOf_cons, TerminalSet.has_or, Bool.or_eq_false_iff] at closed
    refine .cons ?_ (tail.before closed.1)
    by_cases none : others = []
    · -- nothing is behind the first symbol, so it stands in front of the new terminal
      have end' := closed.2
      rw [if_pos (tail.startsAs.1 none)] at end'
      rw [none]
      exact head.before end'
    · rw [headD_congr next' next none]
      exact head

end

end SyntaxAtlas
