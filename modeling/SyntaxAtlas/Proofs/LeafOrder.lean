-- The leaves of a parse tree are the lexemes that its run read, in the order of
-- the source and without overlap, and the missing tokens between them.

import SyntaxAtlas.Proofs.Reading
import SyntaxAtlas.Proofs.Run

namespace SyntaxAtlas

open Lexeme (Cursor)

/-! ## Leaves in order -/

/-- Leaves in the order of a source, from one offset up to another. Those that were
read satisfy `P`, the others may be put in. -/
def Ordered (P : Lexeme → Prop) : Nat → List Leaf → Nat → Prop
  | i, [], j => i ≤ j
  | i, .inserted t :: rest, j => t ∈ Recovery.insertable ∧ Ordered P i rest j
  | i, .read t text start :: rest, j =>
    i ≤ start ∧ P ⟨t, text, start⟩ ∧ Ordered P (Lexeme.stop ⟨t, text, start⟩) rest j

theorem Ordered.mono {P : Lexeme → Prop} {i j k : Nat} {leaves : List Leaf}
    (h : Ordered P i leaves j) (le : j ≤ k) : Ordered P i leaves k := by
  induction leaves generalizing i with
  | nil => exact Nat.le_trans h le
  | cons l rest ih =>
    cases l with
    | inserted t => exact ⟨h.1, ih h.2⟩
    | read t text start => exact ⟨h.1, h.2.1, ih h.2.2⟩

theorem Ordered.append {P : Lexeme → Prop} {i j k : Nat} {leaves more : List Leaf}
    (h : Ordered P i leaves j) (behind : ∀ i' ≤ j, Ordered P i' more k) :
    Ordered P i (leaves ++ more) k := by
  induction leaves generalizing i with
  | nil => exact behind i h
  | cons l rest ih =>
    cases l with
    | inserted t => exact ⟨h.1, ih h.2⟩
    | read t text start => exact ⟨h.1, h.2.1, ih h.2.2⟩

theorem Ordered.append_inserted {P : Lexeme → Prop} {i j : Nat} {leaves : List Leaf}
    (h : Ordered P i leaves j) {ts : List Terminal} (all : ∀ t ∈ ts, t ∈ Recovery.insertable) :
    Ordered P i (leaves ++ ts.map .inserted) j := by
  apply h.append
  induction ts with
  | nil => exact fun _ le => le
  | cons t ts ih =>
    exact fun i' le => ⟨all t List.mem_cons_self,
      ih (fun u hu => all u (List.mem_cons_of_mem _ hu)) i' le⟩

theorem Ordered.concat_read {P : Lexeme → Prop} {i j k : Nat} {leaves : List Leaf} {l : Lexeme}
    (h : Ordered P i leaves j) (after : j ≤ l.start) (read : P l) (stop : l.stop ≤ k) :
    Ordered P i (leaves ++ [Recovery.leaf l]) k :=
  h.append fun _ le => ⟨Nat.le_trans le after, read, stop⟩

theorem Ordered.imp {P Q : Lexeme → Prop} (pq : ∀ l, P l → Q l) {i j : Nat} {leaves : List Leaf}
    (h : Ordered P i leaves j) : Ordered Q i leaves j := by
  induction leaves generalizing i with
  | nil => exact h
  | cons l rest ih =>
    cases l with
    | inserted t => exact ⟨h.1, ih h.2⟩
    | read t text start => exact ⟨h.1, pq _ h.2.1, ih h.2.2⟩

theorem Ordered.mem_inserted {P : Lexeme → Prop} {i j : Nat} {leaves : List Leaf}
    (h : Ordered P i leaves j) : ∀ t, .inserted t ∈ leaves → t ∈ Recovery.insertable := by
  induction leaves generalizing i with
  | nil => simp
  | cons leaf rest ih =>
    intro t ht
    cases leaf with
    | inserted u =>
      rcases List.mem_cons.1 ht with same | ht
      · cases same
        exact h.1
      · exact ih h.2 t ht
    | read u text start => exact ih h.2.2 t (by simpa using ht)

/-- Every leaf was put in or read. -/
theorem Ordered.mem {P : Lexeme → Prop} {i j : Nat} {leaves : List Leaf}
    (h : Ordered P i leaves j) : ∀ t text start, .read t text start ∈ leaves →
      P ⟨t, text, start⟩ := by
  induction leaves generalizing i with
  | nil => simp
  | cons leaf rest ih =>
    intro t text start hl
    cases leaf with
    | inserted u => exact ih h.2 t text start (by simpa using hl)
    | read u text' start' =>
      rcases List.mem_cons.1 hl with same | hl
      · cases same
        exact h.2.1
      · exact ih h.2.2 t text start hl

namespace Recovery

/-! ## What a run keeps -/

/-- A lexeme that a situation of a run reads. -/
def ReadIn (a : Automaton) (budget : Nat) (source : List Char) (l : Lexeme) : Prop :=
  ∃ x, Reached a budget source x ∧ x.Reads a l

/-- The cursor is a place of the source, the stack is a chain of derivations, and
its leaves lie in order before the cursor. -/
structure Kept (a : Automaton) (budget : Nat) (source : List Char) (x : Situation) : Prop where
  within : source.drop x.cursor.offset = x.cursor.rest
  valid : Stack.Valid a x.stack
  ordered : Ordered (ReadIn a budget source) 0 (Stack.yield x.stack) x.cursor.offset

/-- What a situation reads stands in the source from its cursor on. -/
theorem Kept.holds {a : Automaton} {budget : Nat} {source : List Char} {x : Situation}
    (kept : Kept a budget source x) :
    (x.reading a).Holds (wanted a x.stack) source x.cursor.offset :=
  Lexeme.read_holds _ source x.cursor kept.within

theorem stop_le_of_scans {w : Lexeme.Wanted} {source : List Char} {l : Lexeme} {after : Cursor}
    (scans : Lexeme.Scans w source l after) :
    l.stop ≤ after.offset ∧ source.drop after.offset = after.rest := by
  obtain ⟨n, _, text, rfl⟩ := scans.scanned
  refine ⟨?_, rfl⟩
  simp only [Lexeme.stop, Cursor.at, text, String.length_ofList, List.length_take]
  omega

/-- What does not fit lies behind the leaves of the stack that it leaves. -/
theorem Kept.unfit {a : Automaton} (sound : a.Sound) {budget : Nat} {source : List Char}
    {x : Situation} {l : Lexeme} {after : Cursor} {mid : Stack} (kept : Kept a budget source x)
    (unfit : Unfit a x l after mid) :
    Stack.Valid a mid ∧ Stack.yield mid = Stack.yield x.stack ∧ x.cursor.offset ≤ l.start ∧
      l.stop ≤ after.offset ∧ source.drop after.offset = after.rest := by
  have holds := kept.holds
  cases unfit with
  | stuck read fed =>
    rw [read] at holds
    obtain ⟨valid, same⟩ := kept.valid.stuck sound fed
    exact ⟨valid, same, holds.1.le, stop_le_of_scans holds.2⟩
  | misplaced read =>
    rw [read] at holds
    exact ⟨kept.valid, rfl, holds.1.le, stop_le_of_scans holds.2.2⟩

theorem Unfit.readIn {a : Automaton} {budget : Nat} {source : List Char} {x : Situation}
    {l : Lexeme} {after : Cursor} {mid : Stack} (unfit : Unfit a x l after mid)
    (reached : Reached a budget source x) : ReadIn a budget source l := by
  cases unfit with
  | stuck read _ => exact ⟨x, reached, after, Or.inl read⟩
  | misplaced read => exact ⟨x, reached, after, Or.inr read⟩

theorem insertOn_eq_some {a : Automaton} {stack next : Stack} {t t' : Terminal}
    (h : insertOn a stack t = some (t', next)) :
    t' = t ∧ a.feed (.inserted t) stack = .shifted next := by
  unfold insertOn at h
  split at h
  · rename_i fed
    obtain ⟨rfl, rfl⟩ : t = t' ∧ _ = next := by simpa using h
    exact ⟨rfl, fed⟩
  · cases h

theorem insertBefore_eq_some {a : Automaton} {stack last : Stack} {l : Lexeme} {t t' : Terminal}
    (h : insertBefore a stack l t = some (t', last)) :
    t' = t ∧ ∃ next, a.feed (.inserted t) stack = .shifted next ∧
      a.feed (leaf l) next = .shifted last := by
  obtain ⟨⟨u, next⟩, inserted, followed⟩ := Option.bind_eq_some_iff.1 h
  obtain ⟨rfl, fed⟩ := insertOn_eq_some inserted
  simp only at followed
  split at followed
  · rename_i fed'
    obtain ⟨rfl, rfl⟩ : u = t' ∧ _ = last := by simpa using followed
    exact ⟨rfl, next, fed, fed'⟩
  · cases followed

theorem insertable_of_mem_candidates {named : List Nat} {offset : Nat} {t : Terminal}
    (h : t ∈ candidates named offset) : t ∈ insertable := (List.mem_filter.1 h).1

/-- The stack behind a missing token that was found. -/
theorem valid_of_insertOn {a : Automaton} (sound : a.Sound) {stack next : Stack}
    (valid : Stack.Valid a stack) {named : List Nat} {offset : Nat} {t : Terminal}
    (found : (candidates named offset).findSome? (insertOn a stack) = some (t, next)) :
    t ∈ candidates named offset ∧ Stack.Valid a next ∧
      Stack.yield next = Stack.yield stack ++ [.inserted t] := by
  obtain ⟨u, candidate, inserted⟩ := List.exists_of_findSome?_eq_some found
  obtain ⟨rfl, fed⟩ := insertOn_eq_some inserted
  exact ⟨candidate, valid.shifted sound fed⟩

/-- The stack behind a missing token that was found, and the lexeme that follows it. -/
theorem valid_of_insertBefore {a : Automaton} (sound : a.Sound) {stack last : Stack}
    (valid : Stack.Valid a stack) {named : List Nat} {offset : Nat} {l : Lexeme} {t : Terminal}
    (found : (candidates named offset).findSome? (insertBefore a stack l) = some (t, last)) :
    t ∈ candidates named offset ∧ Stack.Valid a last ∧
      Stack.yield last = Stack.yield stack ++ [.inserted t] ++ [leaf l] := by
  obtain ⟨u, candidate, inserted⟩ := List.exists_of_findSome?_eq_some found
  obtain ⟨rfl, next, fed, fed'⟩ := insertBefore_eq_some inserted
  obtain ⟨valid', same⟩ := valid.shifted sound fed
  rw [← same]
  exact ⟨candidate, valid'.shifted sound fed'⟩

/-- One step keeps what a run keeps. -/
theorem Kept.step {a : Automaton} (sound : a.Sound) {budget : Nat} {source : List Char}
    {x y : Situation} (reached : Reached a budget source x) (kept : Kept a budget source x)
    (step : Step a x y) : Kept a budget source y := by
  cases step with
  | @shifted l after stack read fed =>
    have holds := kept.holds
    rw [read] at holds
    obtain ⟨stop, within⟩ := stop_le_of_scans holds.2
    obtain ⟨valid, same⟩ := kept.valid.shifted sound fed
    refine ⟨within, valid, ?_⟩
    rw [same]
    exact kept.ordered.concat_read holds.1.le ⟨x, reached, after, Or.inl read⟩ stop
  | @inserted l after mid stack t left unfit paid found =>
    obtain ⟨valid, same, start, stop, within⟩ := kept.unfit sound unfit
    obtain ⟨candidate, valid', same'⟩ := valid_of_insertBefore sound valid found
    refine ⟨within, valid', ?_⟩
    rw [same', same]
    have all : ∀ u ∈ [t], u ∈ insertable := by
      simpa using insertable_of_mem_candidates candidate
    have put := kept.ordered.append_inserted all
    exact put.concat_read start (unfit.readIn reached) stop
  | @dropped l after mid left unfit paid none =>
    obtain ⟨valid, same, start, stop, within⟩ := kept.unfit sound unfit
    refine ⟨within, valid, ?_⟩
    rw [same]
    exact kept.ordered.mono (Nat.le_trans start (Nat.le_trans (Nat.le_add_right _ _) stop))
  | @skipped c offset after left read paid =>
    have holds := kept.holds
    rw [read] at holds
    obtain ⟨gap, _, _, _, rfl⟩ := holds
    exact ⟨rfl, kept.valid, kept.ordered.mono (Nat.le_succ_of_le gap.le)⟩

theorem Reached.kept {a : Automaton} (sound : a.Sound) {budget : Nat} {source : List Char}
    {x : Situation} (reached : Reached a budget source x) : Kept a budget source x := by
  induction reached with
  | start => exact ⟨rfl, trivial, Nat.le_refl 0⟩
  | step before step ih => exact ih.step sound before step

/-! ## The whole tree -/

theorem Finishes.derived {a : Automaton} (sound : a.Sound) {size : Nat} {stack : Stack}
    {s s' : Session} {tree : ParseTree} (valid : Stack.Valid a stack)
    (finishes : Finishes a size stack s tree s') :
    Derived tree ∧ tree.symbol = .rule (.node .sourceFile) ∧
      ∃ ts : List Terminal, (∀ t ∈ ts, t ∈ insertable) ∧
        tree.yield = Stack.yield stack ++ ts.map .inserted := by
  induction finishes with
  | accepted fed =>
    obtain ⟨derived, file, same⟩ := valid.accepted sound fed
    exact ⟨derived, file, [], by simp, by simpa using same⟩
  | reduced fed _ ih =>
    obtain ⟨valid', same⟩ := valid.stuck sound fed
    rw [← same]
    exact ih valid'
  | @inserted _ _ _ _ _ t _ _ _ found _ ih =>
    obtain ⟨candidate, valid', same⟩ := valid_of_insertOn sound valid found
    obtain ⟨derived, file, ts, all, yield⟩ := ih valid'
    refine ⟨derived, file, t :: ts, ?_, by simp [yield, same]⟩
    simpa using ⟨insertable_of_mem_candidates candidate, all⟩

/-- A parse that succeeds gives a derivation of a file, whose leaves are what was
read, in order. -/
theorem parse_ordered {a : Automaton} (sound : a.Sound) {budget : Nat} {source : List Char}
    {tree : ParseTree} {s : Session} (h : parse a budget source = .ok (tree, s)) :
    Derived tree ∧ tree.symbol = .rule (.node .sourceFile) ∧
      ∃ stop, Ordered (ReadIn a budget source) 0 tree.yield stop := by
  obtain ⟨x, reached, _, finishes⟩ := parse_runs sound h
  have kept := reached.kept sound
  obtain ⟨derived, file, ts, all, yield⟩ := finishes.derived sound kept.valid
  refine ⟨derived, file, x.cursor.offset, ?_⟩
  rw [yield]
  exact kept.ordered.append_inserted all

end Recovery

end SyntaxAtlas
