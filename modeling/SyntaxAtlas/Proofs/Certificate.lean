-- What looking through the rows of the automaton shows: it has an action wherever a greedy
-- derivation needs one, and wherever a rule is reduced from nothing the way there is open.

import SyntaxAtlas.Proofs.Greedy
import SyntaxAtlas.Proofs.Potential

namespace SyntaxAtlas

open Grammar

namespace Automaton

/-! ## The action of a row -/

theorem leads?_row (a : Automaton) (state : Nat) (s : Symbol) :
    (a.row state).leads? s = a.leads? state s := by
  cases s <;> rfl

theorem shiftSet_foldl {shifts : List (Terminal × Nat)} {set : TerminalSet} {t : Terminal}
    (h : set.has t = true ∨ t ∈ shifts.map (·.1)) :
    TerminalSet.has (shifts.foldl (fun set e => set ||| .of e.1) set) t = true := by
  induction shifts generalizing set with
  | nil => simpa using h
  | cons e rest ih =>
    rw [List.foldl_cons]
    apply ih
    rcases h with h | h
    · exact .inl (by rw [TerminalSet.has_or, h, Bool.true_or])
    · rcases List.mem_cons.1 h with rfl | h
      · exact .inl (by simp)
      · exact .inr h

/-- Outside of what a row shifts nothing is shifted. -/
theorem lookup_of_not_shiftSet {row : Row} {t : Terminal} (h : (shiftSet row).has t = false) :
    row.shifts.lookup t = none := by
  rw [List.lookup_eq_none_iff]
  rintro ⟨t', n⟩ mem
  rw [bne_iff_ne]
  rintro rfl
  have known : (shiftSet row).has t = true := shiftSet_foldl (.inr (List.mem_map_of_mem mem))
  rw [known] at h
  cases h

theorem find?_of_givesFor {want taken : TerminalSet} {p : Production}
    {reductions : List (Production × TerminalSet)} {t : Terminal}
    (gives : givesFor want p taken reductions = true) (mem : want.has t = true) :
    taken.has t = false ∧ (reductions.find? fun e => e.2.has t).map (·.1) = some p := by
  induction reductions generalizing taken with
  | nil =>
    rw [givesFor, beq_iff_eq] at gives
    rw [gives, TerminalSet.has_zero] at mem
    cases mem
  | cons e rest ih =>
    obtain ⟨q, set⟩ := e
    rw [givesFor] at gives
    split at gives
    · rename_i same
      rw [Bool.and_eq_true, beq_iff_eq, beq_iff_eq] at gives
      have here := TerminalSet.has_of_subset gives.1 mem
      refine ⟨?_, by simp [here, same]⟩
      exact TerminalSet.not_has_of_disjoint (Nat.and_comm .. ▸ gives.2) mem
    · obtain ⟨free, found⟩ := ih gives
      rw [TerminalSet.has_or, Bool.or_eq_false_iff] at free
      exact ⟨free.1, by simp [free.2, found]⟩

theorem has_without {set out : TerminalSet} {t : Terminal} (mem : set.has t = true)
    (quiet : out.has t = false) : (without set out).has t = true := by
  unfold TerminalSet.has at *
  simp [without, mem, quiet]

theorem action?_of_reducesBefore {row : Row} {p : Production} {set : TerminalSet} {t : Terminal}
    (reduces : reducesBefore row p set = true) (mem : set.has t = true)
    (quiet : (goesOn p).has t = false) : row.action? t = some (.reduce p) := by
  obtain ⟨free, found⟩ := find?_of_givesFor reduces (has_without mem quiet)
  obtain ⟨⟨q, before⟩, first, rfl⟩ := Option.map_eq_some_iff.1 found
  rw [Row.action?, lookup_of_not_shiftSet free]
  simp only [first, Option.map_some]

/-! ## All rows -/

/-- An automaton that has an action wherever a greedy derivation needs one. -/
structure Complete (a : Automaton) (follow : Nat → Rule → TerminalSet) : Prop where
  opens : a.Opens
  notStart : ∀ state r n, (a.row state).goto? r = some n → r ≠ .start
  carries : ∀ state r n, (a.row state).goto? r = some n → ∀ body ∈ alternatives r,
    carries a.row follow state r body = true
  starts : startsRight a.row follow = true

theorem get?_foldl_modify {α : Type} (xs : List α) (k n : Nat) (map : NumberMap α)
    (few : k + xs.length ≤ 2 ^ NumberMap.keyBits) :
    ((xs.zipIdx k).foldl (fun map (x, i) => map.modify i fun _ => x) map).get? n =
      if k ≤ n then xs[n - k]?.or (map.get? n) else map.get? n := by
  induction xs generalizing k map with
  | nil => simp
  | cons x xs ih =>
    rw [List.length_cons] at few
    rw [List.zipIdx_cons, List.foldl_cons, ih (k + 1) _ (by omega)]
    unfold NumberMap.modify
    rw [NumberMap.get?_alter _ _ _ (by omega)]
    rcases Nat.lt_trichotomy n k with before | rfl | behind
    · rw [if_neg (by omega), if_neg (by omega), if_neg (by omega)]
    · rw [if_neg (by omega), if_pos rfl, if_pos (Nat.le_refl n), Nat.sub_self]
      rfl
    · obtain ⟨m, rfl⟩ : ∃ m, n = k + 1 + m := ⟨n - (k + 1), by omega⟩
      rw [if_pos (by omega), if_neg (by omega), if_pos (by omega), Nat.add_sub_cancel_left,
        show k + 1 + m - k = m + 1 by omega, List.getElem?_cons_succ]

theorem mappedRow_eq {a : Automaton} (few : a.rows.size ≤ 2 ^ NumberMap.keyBits) :
    a.mappedRow = a.row := by
  funext state
  rw [mappedRow, rowMap, get?_foldl_modify _ _ _ _ (by simpa using few), row,
    Array.getD_eq_getD_getElem?]
  simp

theorem complete_of_isComplete {a : Automaton} {follow : Nat → Rule → TerminalSet}
    (checked : isComplete a follow = true) : Complete a follow := by
  rw [isComplete, Bool.and_eq_true, Bool.and_eq_true, decide_eq_true_eq] at checked
  obtain ⟨⟨few, starts⟩, rows⟩ := checked
  rw [mappedRow_eq few] at starts rows
  have entry : ∀ state r n, (a.row state).goto? r = some n → r ≠ .start ∧
      (r.opens = true ∨ ∀ e ∈ (a.row n).reductions, e.1.body ≠ []) ∧
      ∀ body ∈ alternatives r, Automaton.carries a.row follow state r body = true := by
    intro state r n goto
    have mem : (r, n) ∈ (a.row state).gotos := mem_of_lookup goto
    have known : (a.row state, state) ∈ a.rows.toList.zipIdx := by
      rw [List.mk_mem_zipIdx_iff_getElem?, Array.getElem?_toList, row,
        Array.getD_eq_getD_getElem?]
      rcases found : a.rows[state]? with _ | here
      · rw [row, Array.getD_eq_getD_getElem?, found] at mem
        cases mem
      · rfl
    have here := List.all_eq_true.1 (List.all_eq_true.1 rows _ known) _ mem
    simpa [entersRight, and_assoc] using here
  refine ⟨?_, fun state r n goto => (entry state r n goto).1,
    fun state r n goto => (entry state r n goto).2.2, starts⟩
  intro state r n goto closed p mem
  obtain ⟨e, he, rfl⟩ := List.mem_map.1 mem
  rcases (entry state r n goto).2.1 with opens | solid
  · rw [opens] at closed
    cases closed
  · exact solid e he

end Automaton

/-- The automaton of the grammar has an action wherever a greedy derivation needs one. -/
theorem Automaton.ofGrammar_complete :
    Complete ofGrammar fun state r => follows.at (hop state r) :=
  complete_of_isComplete ofGrammar_evaluated.1

end SyntaxAtlas
