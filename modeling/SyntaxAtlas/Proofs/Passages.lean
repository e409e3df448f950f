-- Passages: what a parse makes of each stretch of its source. A stretch is a lexeme that
-- the tree holds, a gap, a lexeme that was dropped, or a character that was skipped. The
-- stretches follow one another without a break, so they account for the whole source.

import SyntaxAtlas.Proofs.Accounting
import SyntaxAtlas.Proofs.Gaps
import Mathlib.Logic.Relation

namespace SyntaxAtlas

open Lexeme (Cursor Gap Scans NothingAt)

namespace Lexeme

theorem Scans.after_eq {w : Wanted} {source : List Char} {l : Lexeme} {after : Cursor}
    (scans : Scans w source l after) : l.start < l.stop ∧ after = .at source l.stop := by
  obtain ⟨n, scanned, text, rfl⟩ := scans.scanned
  have length : l.text.length = n + 1 := by
    rw [text, String.length_ofList, List.length_take]
    exact Nat.min_eq_left (scan_le scanned)
  rw [stop, length]
  exact ⟨by omega, rfl⟩

/-- Gaps end within the source. -/
theorem scan_gap_le {w : Wanted} {source : List Char} {i n : Nat}
    (scanned : scan w (source.drop i) = some (none, n + 1)) : i + (n + 1) ≤ source.length := by
  have := scan_le scanned
  rw [List.length_drop] at this
  omega

theorem Gap.le_length {w : Wanted} {source : List Char} {i j : Nat} (gap : Gap w source i j)
    (le : i ≤ source.length) : j ≤ source.length := by
  induction gap with
  | none => exact le
  | one scanned _ ih => exact ih (scan_gap_le scanned)

end Lexeme

/-! ## Passages -/

/-- What a parse makes of a stretch of its source. -/
inductive Passage
  | kept (l : Lexeme)
  | gap (start stop : Nat)
  | dropped (l : Lexeme)
  | skipped (c : Char) (offset : Nat)

namespace Passage

def start : Passage → Nat
  | kept l | dropped l => l.start
  | gap start _ => start
  | skipped _ offset => offset

def stop : Passage → Nat
  | kept l | dropped l => l.stop
  | gap _ stop => stop
  | skipped _ offset => offset + 1

/-- The lexeme that the tree holds. -/
def kept? : Passage → Option Lexeme
  | kept l => some l
  | _ => none

/-- The repair that leaves a stretch out of the tree. -/
def repair? : Passage → Option Repair
  | dropped l => some (.dropped l)
  | skipped c offset => some (.skipped c offset)
  | _ => none

/-- What the source says of a passage. -/
def HoldsIn (source : List Char) : Passage → Prop
  | kept l | dropped l => ∃ w after, Scans w source l after
  | gap start stop =>
    ∃ w n, Lexeme.scan w (source.drop start) = some (none, n + 1) ∧ stop = start + (n + 1)
  | skipped c offset =>
    source.drop offset = c :: source.drop (offset + 1) ∧ ∃ w, NothingAt w source offset

theorem HoldsIn.bounds {source : List Char} {p : Passage} (holds : p.HoldsIn source) :
    p.start < p.stop ∧ p.stop ≤ source.length := by
  cases p with
  | kept l =>
    obtain ⟨w, after, scans⟩ := holds
    exact ⟨scans.after_eq.1, scans.stop_le_length⟩
  | gap start stop =>
    obtain ⟨w, n, scanned, rfl⟩ := holds
    exact ⟨Nat.lt_add_of_pos_right (Nat.succ_pos n), Lexeme.scan_gap_le scanned⟩
  | dropped l =>
    obtain ⟨w, after, scans⟩ := holds
    exact ⟨scans.after_eq.1, scans.stop_le_length⟩
  | skipped c offset =>
    have room := congrArg List.length holds.1
    rw [List.length_drop, List.length_cons] at room
    exact ⟨Nat.lt_succ_self offset, by simp only [stop]; omega⟩

/-- Passages that follow one another from one offset to another. -/
def Tile : Nat → List Passage → Nat → Prop
  | i, [], j => i = j
  | i, p :: ps, j => p.start = i ∧ Tile p.stop ps j

theorem tile_append {i k : Nat} {ps qs : List Passage} :
    Tile i (ps ++ qs) k ↔ ∃ j, Tile i ps j ∧ Tile j qs k := by
  induction ps generalizing i with
  | nil => simp [Tile]
  | cons p ps ih => simp [Tile, ih, and_assoc]

theorem Tile.le {source : List Char} {i j : Nat} {ps : List Passage} (tile : Tile i ps j)
    (holds : ∀ p ∈ ps, p.HoldsIn source) : i ≤ j := by
  induction ps generalizing i with
  | nil => exact Nat.le_of_eq tile
  | cons p ps ih =>
    have := (holds p List.mem_cons_self).bounds.1
    have := ih tile.2 fun q hq => holds q (List.mem_cons_of_mem _ hq)
    have := tile.1
    omega

theorem Tile.le_start {source : List Char} {i j : Nat} {ps : List Passage} (tile : Tile i ps j)
    (holds : ∀ p ∈ ps, p.HoldsIn source) : ∀ p ∈ ps, i ≤ p.start := by
  induction ps generalizing i with
  | nil => simp
  | cons p ps ih =>
    rw [List.forall_mem_cons] at holds ⊢
    obtain ⟨rfl, tile⟩ := tile
    refine ⟨Nat.le_refl _, fun q hq => ?_⟩
    exact Nat.le_trans (Nat.le_of_lt holds.1.bounds.1) (ih tile holds.2 q hq)

/-- Two passages do not overlap. -/
theorem Tile.apart {source : List Char} {i j : Nat} {ps : List Passage} (tile : Tile i ps j)
    (holds : ∀ p ∈ ps, p.HoldsIn source) {p q : Passage} (hp : p ∈ ps) (hq : q ∈ ps) :
    p = q ∨ p.stop ≤ q.start ∨ q.stop ≤ p.start := by
  induction ps generalizing i with
  | nil => cases hp
  | cons r ps ih =>
    rw [List.forall_mem_cons] at holds
    have behind := tile.2.le_start holds.2
    rcases List.mem_cons.1 hp with rfl | hp'
    · rcases List.mem_cons.1 hq with rfl | hq'
      · exact .inl rfl
      · exact .inr (.inl (behind q hq'))
    · rcases List.mem_cons.1 hq with rfl | hq'
      · exact .inr (.inr (behind p hp'))
      · exact ih tile.2 holds.2 hp' hq'

/-- Passages that the source tells of stay within it. -/
theorem Tile.le_length {source : List Char} {i j : Nat} {ps : List Passage} (tile : Tile i ps j)
    (holds : ∀ p ∈ ps, p.HoldsIn source) (le : i ≤ source.length) : j ≤ source.length := by
  induction ps generalizing i with
  | nil =>
    rw [← show i = j from tile]
    exact le
  | cons p ps ih =>
    exact ih tile.2 (fun q hq => holds q (List.mem_cons_of_mem _ hq))
      (holds p List.mem_cons_self).bounds.2

end Passage

/-- Gaps are passages, and each of them that a reading comes through is one. -/
theorem Lexeme.gap_tile {w : Lexeme.Wanted} {source : List Char} {i k : Nat}
    (gap : Gap w source i k) : ∃ ps, Passage.Tile i ps k ∧
      (∀ p ∈ ps, p.HoldsIn source ∧ p.kept? = none ∧ p.repair? = none) ∧
      ((∀ n, Lexeme.scan w (source.drop k) ≠ some (none, n + 1)) →
        ∀ j n, Gap w source i j → Lexeme.scan w (source.drop j) = some (none, n + 1) →
          .gap j (j + (n + 1)) ∈ ps) := by
  induction gap with
  | none i =>
    refine ⟨[], rfl, by simp, fun stays j n through scanned => ?_⟩
    cases through with
    | none => exact absurd scanned (stays n)
    | one first _ => exact absurd first (stays _)
  | @one i k n scanned _ ih =>
    obtain ⟨ps, tile, holds, all⟩ := ih
    refine ⟨.gap i (i + (n + 1)) :: ps, ⟨rfl, tile⟩, ?_, fun stays j m through found => ?_⟩
    · rintro p hp
      rcases List.mem_cons.1 hp with rfl | hp
      · exact ⟨⟨w, n, scanned, rfl⟩, rfl, rfl⟩
      · exact holds p hp
    · cases through with
      | none =>
        rw [scanned] at found
        cases found
        exact List.mem_cons_self
      | one first more =>
        rw [scanned] at first
        cases first
        exact List.mem_cons_of_mem _ (all stays j m more found)

/-! ## Accounts of a whole stretch -/

/-- The lexeme that a leaf was read from. -/
def Leaf.lexeme? : Leaf → Option Lexeme
  | .read t text start => some ⟨t, text, start⟩
  | .inserted _ => none

/-- Passages that account for a source up to an offset. They hold what the leaves were read
from, and what the repairs left out. -/
structure Accounts (source : List Char) (ps : List Passage) (stop : Nat) (leaves : List Leaf)
    (repairs : List Repair) : Prop where
  tile : Passage.Tile 0 ps stop
  holds : ∀ p ∈ ps, p.HoldsIn source
  kept : ps.filterMap Passage.kept? = leaves.filterMap Leaf.lexeme?
  lost : ps.filterMap Passage.repair? = repairs.filter (!·.isInserted)

namespace Accounts

variable {source : List Char} {ps : List Passage} {i : Nat} {leaves : List Leaf}
  {repairs : List Repair}

theorem append {more : List Passage} {j : Nat} (h : Accounts source ps i leaves repairs)
    (leaves' : List Leaf) (repairs' : List Repair) (tile : Passage.Tile i more j)
    (holds : ∀ p ∈ more, p.HoldsIn source)
    (kept : more.filterMap Passage.kept? = leaves'.filterMap Leaf.lexeme?)
    (lost : more.filterMap Passage.repair? = repairs'.filter (!·.isInserted)) :
    Accounts source (ps ++ more) j (leaves ++ leaves') (repairs ++ repairs') where
  tile := Passage.tile_append.2 ⟨i, h.tile, tile⟩
  holds p hp := (List.mem_append.1 hp).elim (h.holds p) (holds p)
  kept := by rw [List.filterMap_append, List.filterMap_append, h.kept, kept]
  lost := by rw [List.filterMap_append, List.filter_append, h.lost, lost]

/-- Gaps and what comes behind them. -/
theorem passage (h : Accounts source ps i leaves repairs) {w : Lexeme.Wanted} (p : Passage)
    (leaves' : List Leaf) (repairs' : List Repair) (gap : Gap w source i p.start)
    (stays : ∀ n, Lexeme.scan w (source.drop p.start) ≠ some (none, n + 1))
    (holds : p.HoldsIn source) (kept : p.kept?.toList = leaves'.filterMap Leaf.lexeme?)
    (lost : p.repair?.toList = repairs'.filter (!·.isInserted)) :
    ∃ more, Accounts source (ps ++ more) p.stop (leaves ++ leaves') (repairs ++ repairs') ∧
      ∀ j n, Gap w source i j → Lexeme.scan w (source.drop j) = some (none, n + 1) →
        .gap j (j + (n + 1)) ∈ more := by
  obtain ⟨qs, tile, gaps, all⟩ := Lexeme.gap_tile gap
  have noneKept : qs.filterMap Passage.kept? = [] :=
    List.filterMap_eq_nil_iff.2 fun q hq => (gaps q hq).2.1
  have noneLost : qs.filterMap Passage.repair? = [] :=
    List.filterMap_eq_nil_iff.2 fun q hq => (gaps q hq).2.2
  refine ⟨qs ++ [p], h.append leaves' repairs' (Passage.tile_append.2 ⟨_, tile, rfl, rfl⟩) ?_ ?_ ?_, ?_⟩
  · intro q hq
    rcases List.mem_append.1 hq with hq | hq
    · exact (gaps q hq).1
    · rwa [List.mem_singleton.1 hq]
  · rw [List.filterMap_append, noneKept, ← kept]
    rcases p.kept?.eq_none_or_eq_some with none | ⟨l, some⟩ <;> simp [*]
  · rw [List.filterMap_append, noneLost, ← lost]
    rcases p.repair?.eq_none_or_eq_some with none | ⟨l, some⟩ <;> simp [*]
  · exact fun j n through scanned => List.mem_append_left _ (all stays j n through scanned)

theorem mem_lost (h : Accounts source ps i leaves repairs) {r : Repair}
    (notPut : r.isInserted = false) : r ∈ repairs ↔ ∃ p ∈ ps, p.repair? = some r := by
  have same : r ∈ repairs.filter (!·.isInserted) ↔ r ∈ ps.filterMap Passage.repair? := by
    rw [h.lost]
  simpa [List.mem_filter, List.mem_filterMap, notPut] using same

theorem mem_dropped (h : Accounts source ps i leaves repairs) {l : Lexeme} :
    .dropped l ∈ repairs ↔ .dropped l ∈ ps := by
  rw [h.mem_lost rfl]
  constructor
  · rintro ⟨p, mem, same⟩
    cases p <;> cases same
    exact mem
  · exact fun mem => ⟨_, mem, rfl⟩

theorem mem_skipped (h : Accounts source ps i leaves repairs) {c : Char} {offset : Nat} :
    .skipped c offset ∈ repairs ↔ .skipped c offset ∈ ps := by
  rw [h.mem_lost rfl]
  constructor
  · rintro ⟨p, mem, same⟩
    cases p <;> cases same
    exact mem
  · exact fun mem => ⟨_, mem, rfl⟩

end Accounts

/-! ## The accounts of a run -/

namespace Recovery

variable {a : Automaton} {budget : Nat} {source : List Char}

/-- A stretch that a situation passes over on its way to what it reads. -/
def Situation.PassesOver (a : Automaton) (source : List Char) (x : Situation) (i j : Nat) : Prop :=
  ∃ n, Gap (wanted a x.stack) source x.cursor.offset i ∧
    Lexeme.scan (wanted a x.stack) (source.drop i) = some (none, n + 1) ∧ j = i + (n + 1)

theorem Unfit.passage {x : Situation} {l : Lexeme} {after : Cursor} {mid : Stack}
    (unfit : Unfit a x l after mid) (kept : Kept a budget source x) :
    Gap (wanted a x.stack) source x.cursor.offset l.start ∧
      (∀ n, Lexeme.scan (wanted a x.stack) (source.drop l.start) ≠ some (none, n + 1)) ∧
      ∃ w, Scans w source l after := by
  have holds := kept.holds
  cases unfit with
  | stuck read fed =>
    rw [read] at holds
    obtain ⟨_, scanned, _⟩ := holds.2.scanned
    exact ⟨holds.1, fun n gap => by simp [scanned] at gap, _, holds.2⟩
  | misplaced read =>
    rw [read] at holds
    exact ⟨holds.1, fun n => holds.2.1 none n, _, holds.2.2⟩

/-- One step goes on with the accounts. -/
theorem Accounts.step (sound : a.Sound) {x y : Situation} {ps : List Passage}
    (kept : Kept a budget source x)
    (h : Accounts source ps x.cursor.offset (Stack.yield x.stack) x.session.repairs)
    (step : Step a x y) : ∃ more,
      Accounts source (ps ++ more) y.cursor.offset (Stack.yield y.stack) y.session.repairs ∧
      ∀ i j, x.PassesOver a source i j → .gap i j ∈ more := by
  have met : ∀ {more : List Passage}, (∀ j n, Gap (wanted a x.stack) source x.cursor.offset j →
      Lexeme.scan (wanted a x.stack) (source.drop j) = some (none, n + 1) →
        .gap j (j + (n + 1)) ∈ more) → ∀ i j, x.PassesOver a source i j → .gap i j ∈ more := by
    rintro more all i _ ⟨n, through, scanned, rfl⟩
    exact all i n through scanned
  cases step with
  | @shifted l after stack read fed =>
    have holds := kept.holds
    rw [read] at holds
    obtain ⟨_, scanned, _⟩ := holds.2.scanned
    obtain ⟨more, accounts, all⟩ := h.passage (.kept l) [leaf l] [] holds.1
      (fun n gap => by simp [Passage.start, scanned] at gap) ⟨_, _, holds.2⟩ rfl rfl
    rw [holds.2.after_eq.2, (kept.valid.shifted sound fed).2]
    rw [List.append_nil] at accounts
    exact ⟨more, accounts, met all⟩
  | @inserted l after mid stack t left unfit paid found =>
    obtain ⟨gap, stays, w, scans⟩ := unfit.passage kept
    obtain ⟨more, accounts, all⟩ := h.passage (.kept l) [.inserted t, leaf l]
      [.inserted t l.terminal] gap stays ⟨_, _, scans⟩ rfl rfl
    obtain ⟨valid, same, _⟩ := kept.unfit sound unfit
    obtain ⟨_, _, same'⟩ := valid_of_insertBefore sound valid found
    rw [scans.after_eq.2, same', same, List.append_assoc]
    exact ⟨more, accounts, met all⟩
  | @dropped l after mid left unfit paid none =>
    obtain ⟨gap, stays, w, scans⟩ := unfit.passage kept
    obtain ⟨more, accounts, all⟩ := h.passage (.dropped l) [] [.dropped l] gap stays
      ⟨_, _, scans⟩ rfl rfl
    rw [scans.after_eq.2, (kept.unfit sound unfit).2.1]
    rw [List.append_nil] at accounts
    exact ⟨more, accounts, met all⟩
  | @skipped c offset after left read paid =>
    have holds := kept.holds
    rw [read] at holds
    obtain ⟨gap, nothing, _, here, rfl⟩ := holds
    obtain ⟨more, accounts, all⟩ := h.passage (.skipped c offset) [] [.skipped c offset] gap
      (fun n => nothing none n) ⟨here, _, nothing⟩ rfl rfl
    rw [List.append_nil] at accounts
    exact ⟨more, accounts, met all⟩

/-- At the end of the source only gaps are left. -/
theorem Accounts.last {x : Situation} {ps : List Passage} (kept : Kept a budget source x)
    (h : Accounts source ps x.cursor.offset (Stack.yield x.stack) x.session.repairs)
    (read : x.reading a = .finished) : ∃ more,
      Accounts source (ps ++ more) source.length (Stack.yield x.stack) x.session.repairs ∧
      ∀ i j, x.PassesOver a source i j → .gap i j ∈ more := by
  have holds := kept.holds
  rw [read] at holds
  obtain ⟨stop, gap, empty⟩ := holds
  obtain ⟨more, tile, gaps, all⟩ := Lexeme.gap_tile gap
  have within := h.tile.le_length h.holds (Nat.zero_le _)
  obtain rfl : stop = source.length :=
    Nat.le_antisymm (gap.le_length within) (List.drop_eq_nil_iff.1 empty)
  have accounts := h.append [] [] tile (fun p hp => (gaps p hp).1)
    (List.filterMap_eq_nil_iff.2 fun q hq => (gaps q hq).2.1)
    (List.filterMap_eq_nil_iff.2 fun q hq => (gaps q hq).2.2)
  rw [List.append_nil, List.append_nil] at accounts
  refine ⟨more, accounts, ?_⟩
  rintro i _ ⟨n, through, scanned, rfl⟩
  refine all (fun m found => ?_) i n through scanned
  have := Lexeme.scan_gap_le found
  omega

/-- Missing tokens at the end of the input stand for no text. -/
theorem Finishes.accounts_eq (sound : a.Sound) {size stop : Nat} {stack : Stack} {s s' : Session}
    {tree : ParseTree} {ps : List Passage} (valid : Stack.Valid a stack)
    (h : Accounts source ps stop (Stack.yield stack) s.repairs)
    (finishes : Finishes a size stack s tree s') :
    Accounts source ps stop tree.yield s'.repairs := by
  induction finishes with
  | accepted fed =>
    rw [(valid.accepted sound fed).2.2]
    exact h
  | reduced fed _ ih =>
    obtain ⟨valid', same⟩ := valid.stuck sound fed
    exact ih valid' (same ▸ h)
  | @inserted stack next s s' tree t left _ paid found _ ih =>
    obtain ⟨_, valid', same⟩ := valid_of_insertOn sound valid found
    have put : Accounts source (ps ++ []) stop _ _ :=
      h.append [.inserted t] [.inserted t .endOfInput] rfl (by simp) rfl rfl
    rw [List.append_nil, ← same] at put
    exact ih valid' put

/-! ## One run -/

theorem Unfit.unique {x : Situation} {l l' : Lexeme} {after after' : Cursor} {mid mid' : Stack}
    (h : Unfit a x l after mid) (h' : Unfit a x l' after' mid') :
    l = l' ∧ after = after' ∧ mid = mid' := by
  cases h with
  | stuck read fed =>
    cases h' with
    | stuck read' fed' =>
      obtain ⟨rfl, rfl⟩ := Lexeme.Reading.wanted.inj (read.symm.trans read')
      exact ⟨rfl, rfl, Fed.stuck.inj (fed.symm.trans fed')⟩
    | misplaced read' => cases read.symm.trans read'
  | misplaced read =>
    cases h' with
    | stuck read' fed' => cases read.symm.trans read'
    | misplaced read' =>
      obtain ⟨rfl, rfl⟩ := Lexeme.Reading.misplaced.inj (read.symm.trans read')
      exact ⟨rfl, rfl, rfl⟩

theorem Unfit.not_shifted {x : Situation} {l l' : Lexeme} {after after' : Cursor}
    {mid stack : Stack} (h : Unfit a x l after mid) (read : x.reading a = .wanted l' after')
    (fed : a.feed (leaf l') x.stack = .shifted stack) : False := by
  cases h with
  | stuck read' fed' =>
    obtain ⟨rfl, rfl⟩ := Lexeme.Reading.wanted.inj (read.symm.trans read')
    cases fed.symm.trans fed'
  | misplaced read' => cases read.symm.trans read'

theorem Unfit.not_stray {x : Situation} {l : Lexeme} {after after' : Cursor} {mid : Stack}
    {c : Char} {offset : Nat} (h : Unfit a x l after mid)
    (read : x.reading a = .stray c offset after') : False := by
  cases h with
  | stuck read' => cases read.symm.trans read'
  | misplaced read' => cases read.symm.trans read'

theorem Unfit.not_finished {x : Situation} {l : Lexeme} {after : Cursor} {mid : Stack}
    (h : Unfit a x l after mid) (finished : x.reading a = .finished) : False := by
  cases h with
  | stuck read => cases read.symm.trans finished
  | misplaced read => cases read.symm.trans finished

/-- A situation is left in one way only. -/
theorem Step.unique {x y z : Situation} (h : Step a x y) (h' : Step a x z) : y = z := by
  cases h with
  | shifted read fed =>
    cases h' with
    | shifted read' fed' =>
      obtain ⟨rfl, rfl⟩ := Lexeme.Reading.wanted.inj (read.symm.trans read')
      rw [Fed.shifted.inj (fed.symm.trans fed')]
    | inserted unfit => exact (unfit.not_shifted read fed).elim
    | dropped unfit => exact (unfit.not_shifted read fed).elim
    | skipped read' => cases read.symm.trans read'
  | inserted unfit paid found =>
    cases h' with
    | shifted read fed => exact (unfit.not_shifted read fed).elim
    | inserted unfit' paid' found' =>
      obtain ⟨rfl, rfl, rfl⟩ := unfit.unique unfit'
      obtain ⟨rfl, rfl⟩ := Prod.mk.inj (Option.some.inj (found.symm.trans found'))
      rw [Nat.succ.inj (paid.symm.trans paid')]
    | dropped unfit' _ none =>
      obtain ⟨rfl, rfl, rfl⟩ := unfit.unique unfit'
      cases found.symm.trans none
    | skipped read => exact (unfit.not_stray read).elim
  | dropped unfit paid none =>
    cases h' with
    | shifted read fed => exact (unfit.not_shifted read fed).elim
    | inserted unfit' _ found =>
      obtain ⟨rfl, rfl, rfl⟩ := unfit.unique unfit'
      cases found.symm.trans none
    | dropped unfit' paid' =>
      obtain ⟨rfl, rfl, rfl⟩ := unfit.unique unfit'
      rw [Nat.succ.inj (paid.symm.trans paid')]
    | skipped read => exact (unfit.not_stray read).elim
  | skipped read paid =>
    cases h' with
    | shifted read' fed => cases read.symm.trans read'
    | inserted unfit => exact (unfit.not_stray read).elim
    | dropped unfit => exact (unfit.not_stray read).elim
    | skipped read' paid' =>
      obtain ⟨rfl, rfl, rfl⟩ := Lexeme.Reading.stray.inj (read.symm.trans read')
      rw [Nat.succ.inj (paid.symm.trans paid')]

theorem Step.not_finished {x y : Situation} (h : Step a x y) : x.reading a ≠ .finished := by
  intro finished
  cases h with
  | shifted read fed => cases read.symm.trans finished
  | inserted unfit => exact unfit.not_finished finished
  | dropped unfit => exact unfit.not_finished finished
  | skipped read => cases read.symm.trans finished

theorem Reached.steps {x : Situation} (reached : Reached a budget source x) :
    Relation.ReflTransGen (Step a) ⟨⟨0, source⟩, [], { left := budget }⟩ x := by
  induction reached with
  | start => exact .refl
  | step _ step ih => exact ih.tail step

/-- All situations of a run lie before the one at the end of the source. -/
theorem Reached.before_finished {x z : Situation} (reached : Reached a budget source x)
    (last : Reached a budget source z) (finished : z.reading a = .finished) :
    Relation.ReflTransGen (Step a) x z := by
  rcases Relation.ReflTransGen.total_of_right_unique (fun _ _ _ h h' => h.unique h')
    reached.steps last.steps with before | behind
  · exact before
  · rcases behind.cases_head with rfl | ⟨y, step, _⟩
    · exact .refl
    · exact absurd finished step.not_finished

/-- From every situation of a run the accounts go on to the end of the source. -/
theorem Accounts.finish (sound : a.Sound) {x z : Situation} {ps : List Passage}
    (reached : Reached a budget source x)
    (h : Accounts source ps x.cursor.offset (Stack.yield x.stack) x.session.repairs)
    (before : Relation.ReflTransGen (Step a) x z) (finished : z.reading a = .finished) :
    ∃ more, Accounts source (ps ++ more) source.length (Stack.yield z.stack) z.session.repairs ∧
      ∀ i j, x.PassesOver a source i j → .gap i j ∈ more := by
  induction before using Relation.ReflTransGen.head_induction_on generalizing ps with
  | refl => exact Accounts.last (reached.kept sound) h finished
  | head step _ ih =>
    obtain ⟨more, accounts, met⟩ := Accounts.step sound (reached.kept sound) h step
    obtain ⟨rest, whole, _⟩ := ih (reached.step step) accounts
    refine ⟨more ++ rest, by rwa [← List.append_assoc], fun i j passes => ?_⟩
    exact List.mem_append_left _ (met i j passes)

theorem Reached.exists_accounts (sound : a.Sound) {x : Situation}
    (reached : Reached a budget source x) : ∃ ps,
      Accounts source ps x.cursor.offset (Stack.yield x.stack) x.session.repairs := by
  induction reached with
  | start => exact ⟨[], rfl, by simp, rfl, rfl⟩
  | step before step ih =>
    obtain ⟨ps, accounts⟩ := ih
    obtain ⟨more, accounts, _⟩ := Accounts.step sound (before.kept sound) accounts step
    exact ⟨_, accounts⟩

/-- A stretch of the source that a parse passes over. -/
def Ignored (a : Automaton) (budget : Nat) (source : List Char) (i j : Nat) : Prop :=
  ∃ x, Reached a budget source x ∧ x.PassesOver a source i j

/-- The passages of a parse that succeeds account for the whole source. What it passes over is
one of them. -/
theorem parse_passages (sound : a.Sound) {tree : ParseTree} {s : Session}
    (h : parse a budget source = .ok (tree, s)) :
    (∃ ps, Accounts source ps source.length tree.yield s.repairs) ∧
      ∀ i j, Ignored a budget source i j →
        ∃ ps, Accounts source ps source.length tree.yield s.repairs ∧ .gap i j ∈ ps := by
  obtain ⟨z, last, finished, finishes⟩ := parse_runs sound h
  have valid := (last.kept sound).valid
  constructor
  · obtain ⟨ps, accounts⟩ := last.exists_accounts sound
    obtain ⟨more, whole, _⟩ := Accounts.finish sound last accounts .refl finished
    exact ⟨_, finishes.accounts_eq sound valid whole⟩
  · rintro i j ⟨x, reached, passes⟩
    obtain ⟨ps, accounts⟩ := reached.exists_accounts sound
    obtain ⟨more, whole, met⟩ := Accounts.finish sound reached accounts
      (reached.before_finished last finished) finished
    exact ⟨_, finishes.accounts_eq sound valid whole, List.mem_append_right _ (met i j passes)⟩

end Recovery

end SyntaxAtlas
