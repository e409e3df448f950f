-- Folding keeps the order of a sequence. Whatever the groups of the operators are, the nest
-- that comes out has the operands and operators of the run, one behind the other.

import SyntaxAtlas.Proofs.Precedence

namespace SyntaxAtlas

/-! ## Nesting keeps the run -/

namespace Nest

variable {α ω : Type}

/-- More behind the last operand is more behind all that waits. -/
theorem joinAll_append {n m : Nest α ω} {more : List (ω × α)} (first : m.first = n.first)
    (rest : m.rest = n.rest ++ more) (operands : List (Nest α ω))
    (waiting : List (ω × PrecedenceGroup)) :
    (joinAll m operands waiting).first = (joinAll n operands waiting).first ∧
      (joinAll m operands waiting).rest = (joinAll n operands waiting).rest ++ more := by
  induction operands generalizing n m waiting with
  | nil => exact ⟨first, rest⟩
  | cons left operands ih =>
    rcases waiting with _ | ⟨⟨op, g⟩, waiting⟩
    · exact ⟨first, rest⟩
    · exact ih (by simp [Nest.first]) (by simp [Nest.rest, first, rest]) waiting

/-- Joining some before an operator is joining them all, in the end. -/
theorem joinBefore_joinAll {operator : ω} {next : PrecedenceGroup} {last : Nest α ω}
    {operands : List (Nest α ω)} {waiting : List (ω × PrecedenceGroup)} {work : Work α ω}
    (joined : joinBefore operator next (last :: operands) waiting = .ok work) :
    ∃ last' operands', work.operands = last' :: operands' ∧
      joinAll last' operands' work.waiting = joinAll last operands waiting := by
  induction operands generalizing last waiting with
  | nil =>
    rw [joinBefore, Except.ok.injEq] at joined
    · subst joined
      exact ⟨last, [], rfl, rfl⟩
    · rintro _ _ _ _ _ _ ⟨⟩
  | cons left operands ih =>
    rcases waiting with _ | ⟨⟨op, g⟩, waiting⟩
    · cases joined
      exact ⟨last, left :: operands, rfl, rfl⟩
    · rw [joinBefore] at joined
      split at joined
      · exact ih joined
      · split at joined
        · cases joined
        · cases joined
          exact ⟨last, left :: operands, rfl, rfl⟩

theorem takeIn_run {group? : ω → Option PrecedenceGroup} {last : Nest α ω}
    {operands : List (Nest α ω)} {waiting : List (ω × PrecedenceGroup)} {next : ω × α}
    {work : Work α ω} (taken : takeIn group? ⟨last :: operands, waiting⟩ next = .ok work) :
    ∃ last' operands', work.operands = last' :: operands' ∧
      (joinAll last' operands' work.waiting).first = (joinAll last operands waiting).first ∧
      (joinAll last' operands' work.waiting).rest =
        (joinAll last operands waiting).rest ++ [next] := by
  unfold takeIn at taken
  split at taken
  · cases taken
  · rename_i g known
    rcases joined : joinBefore next.1 g (last :: operands) waiting with e | mid
    · simp [joined, bind, Except.bind] at taken
    · simp only [joined, bind, Except.bind, pure, Except.pure, Except.ok.injEq] at taken
      subst taken
      obtain ⟨last', operands', shown, same⟩ := joinBefore_joinAll joined
      rw [← same, shown]
      exact ⟨_, _, rfl, joinAll_append (m := join last' next.1 (operand next.2)) (n := last')
        (by simp [Nest.first]) (by simp [Nest.rest, Nest.first]) operands' mid.waiting⟩

/-- Whatever the groups are, a nest of a run has its operands and operators in their order. -/
theorem ofRun_run {group? : ω → Option PrecedenceGroup} {start : α} {run : List (ω × α)}
    {n : Nest α ω} (nested : ofRun group? start run = .ok n) : n.first = start ∧ n.rest = run := by
  suffices all : ∀ (run : List (ω × α)) (last : Nest α ω) (operands : List (Nest α ω))
      (waiting : List (ω × PrecedenceGroup)) (work : Work α ω),
      run.foldlM (takeIn group?) ⟨last :: operands, waiting⟩ = .ok work →
        ∃ last' operands', work.operands = last' :: operands' ∧
          (joinAll last' operands' work.waiting).first = (joinAll last operands waiting).first ∧
          (joinAll last' operands' work.waiting).rest =
            (joinAll last operands waiting).rest ++ run by
    unfold ofRun at nested
    rcases folded : run.foldlM (takeIn group?) ⟨[operand start], []⟩ with e | work
    · simp [folded, bind, Except.bind] at nested
    · obtain ⟨last, operands, shown, first, rest⟩ := all run _ _ _ work folded
      simp only [folded, shown, bind, Except.bind, pure, Except.pure, Except.ok.injEq] at nested
      subst nested
      exact ⟨first, rest⟩
  intro run
  induction run with
  | nil =>
    rintro last operands waiting work ⟨⟩
    exact ⟨last, operands, rfl, rfl, by simp⟩
  | cons next run ih =>
    intro last operands waiting work folded
    rw [List.foldlM_cons] at folded
    rcases taken : takeIn group? ⟨last :: operands, waiting⟩ next with e | mid
    · simp [taken, bind, Except.bind] at folded
    · rw [taken] at folded
      obtain ⟨last', operands', shown, first, rest⟩ := takeIn_run taken
      obtain ⟨operands, waiting⟩ := mid
      obtain rfl := shown
      obtain ⟨last'', operands'', shown', first', rest'⟩ := ih _ _ _ _ folded
      exact ⟨last'', operands'', shown', first'.trans first, by rw [rest', rest]; simp⟩

end Nest

namespace Tree

theorem exists_run {rest : List Tree} (even : rest.length % 2 = 0) :
    ∃ run : List (Tree × Tree), rest = run.flatMap fun entry => [entry.1, entry.2] := by
  match rest with
  | [] => exact ⟨[], rfl⟩
  | [t] => simp at even
  | operator :: operand :: rest =>
    have even' : rest.length % 2 = 0 := by
      simp only [List.length_cons] at even
      omega
    obtain ⟨run, rfl⟩ := exists_run even'
    exact ⟨(operator, operand) :: run, rfl⟩

/-- What a sequence folds to is a nest of its elements, in their order. -/
theorem foldSequence_nest {table : OperatorTable} {sequence t : Tree} {elements : List Tree}
    (holds : (sequence.child? "elements").map Tree.items = some elements)
    (folded : foldSequence table sequence = .ok t) :
    ∃ n : Nest Tree Tree, elements = alternated n.first n.rest ∧ t = ofNest n := by
  cases elements with
  | nil => simp [foldSequence, holds] at folded
  | cons first rest =>
    by_cases even : rest.length % 2 = 0
    · obtain ⟨run, rfl⟩ := exists_run even
      simp only [foldSequence, holds, Option.getD_some, length_alternated, runOf_alternated]
        at folded
      rw [if_neg (by omega)] at folded
      split at folded
      · rename_i n nested
        cases folded
        obtain ⟨rfl, rfl⟩ := Nest.ofRun_run nested
        exact ⟨n, rfl, rfl⟩
      · cases folded
      · cases folded
    · have uneven : rest.length % 2 = 1 := by omega
      simp [foldSequence, holds, uneven] at folded

end Tree

end SyntaxAtlas
