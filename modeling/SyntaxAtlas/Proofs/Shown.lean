-- What trivia shows. In each gap between two tokens the pieces of trivia show the passages of
-- the parse as what they are, so reading and cutting agree in the whole source.

import SyntaxAtlas.Proofs.Pieces

namespace SyntaxAtlas

open Trivia (locate split)

/-! ## The text of a gap -/

theorem drop_eq_between (source : List Char) {i j : Nat} (le : i ≤ j) :
    source.drop i = between source i j ++ source.drop j := by
  have behind : source.drop j = (source.drop i).drop (j - i) := by
    rw [List.drop_drop]
    congr 1
    omega
  rw [behind, between, List.take_append_drop]

theorem drop_between (source : List Char) (i j n : Nat) :
    (between source i j).drop n = between source (i + n) j := by
  rw [between, between, List.drop_take, List.drop_drop, Nat.sub_sub]

theorem length_between {source : List Char} {i j : Nat} (le : j ≤ source.length) :
    (between source i j).length = j - i := by
  rw [between, List.length_take, List.length_drop]
  omega

/-! ## The passages of a gap -/

/-- What is entered as dropped at the places of a passage. -/
def Passage.MarkedBy (entries : Trivia.Dropped) : Passage → Prop
  | dropped l => entries.end? l.start = some (l.stop : Int)
  | p => ∀ o : Nat, p.start ≤ o → o < p.stop → entries.end? o = none

/-- The pieces of the source from one place to another, and where they stand. -/
def piecesBetween (entries : Trivia.Dropped) (source : List Char) (i j : Nat) :
    List (Nat × TriviaPiece) :=
  locate i (split entries i (between source i j))

variable {source : List Char} {entries : Trivia.Dropped} {h : Nat}

theorem split_gap {i j : Nat} (holds : (Passage.gap i j).HoldsIn source)
    (free : (Passage.gap i j).MarkedBy entries) (le : j ≤ h) (within : h ≤ source.length) :
    ∃ qs, split entries i (between source i h) = qs ++ split entries j (between source j h) ∧
      i + (triviaText qs).length = j ∧ ShowGap source i qs := by
  obtain ⟨w, n, scanned, rfl⟩ := holds
  have whole := drop_eq_between source (Nat.le_trans (Nat.le_add_right i (n + 1)) le)
  have length := length_between (i := i) within
  have room : n + 1 ≤ (between source i h).length := by omega
  have rest := drop_between source i h (n + 1)
  unfold ShowGap
  rcases Lexeme.scan_gap.1 scanned with comment | ⟨noComment, blank⟩
  · rw [comment]
    rw [whole] at comment
    obtain ⟨k, piece, isComment⟩ := Trivia.piece?_comment (Comment.length?_of_append comment room)
    have cut := Trivia.split_piece (free i (Nat.le_refl i) (by simp [Passage.stop])) piece
    rw [rest] at cut
    refine ⟨[_], cut, ?_, _, rfl, isComment⟩
    rw [Trivia.length_triviaText_cons, String.length_ofList, List.length_take, Nat.min_eq_left room]
    rfl
  · rw [noComment]
    rw [whole] at blank
    have run := (Lexeme.blankLength_eq_some.1 blank).2
    have inside := Lexeme.length_takeWhile_of_append (p := Lexeme.isBlank) (run ▸ room)
    obtain ⟨qs, cut, length, blanks⟩ := Trivia.split_blanks (inside.trans run) free
    rw [rest] at cut
    exact ⟨qs, cut, by rw [length], blanks⟩

theorem split_droppedLexeme {l : Lexeme} (holds : (Passage.dropped l).HoldsIn source)
    (marked : (Passage.dropped l).MarkedBy entries) (le : l.stop ≤ h) (within : h ≤ source.length) :
    ∃ text, text.length = l.stop - l.start ∧
      Trivia.Joins .unexpectedText text (split entries l.stop (between source l.stop h))
        (split entries l.start (between source l.start h)) := by
  have lt : l.start < l.stop := holds.bounds.1
  obtain ⟨n, stop⟩ : ∃ n, l.stop = l.start + (n + 1) := ⟨l.stop - l.start - 1, by omega⟩
  have length := length_between (i := l.start) within
  have nonempty : between source l.start h ≠ [] := by
    rw [← List.length_pos_iff]
    omega
  have found : entries.end? l.start = some ((l.start + (n + 1) : Nat) : Int) := stop ▸ marked
  refine ⟨(between source l.start h).take (n + 1), ?_, ?_⟩
  · rw [List.length_take]
    omega
  · rw [Trivia.split_dropped found nonempty, drop_between, stop]
    exact Trivia.joins_consUnexpected _ _

/-- A character that starts nothing is no blank, and no comment starts there. -/
theorem not_gap_of_nothingAt {w : Lexeme.Wanted} {c : Char} {cs : List Char} {o : Nat}
    (here : source.drop o = c :: cs) (nothing : Lexeme.NothingAt w source o) :
    Lexeme.isBlank c = false ∧ Comment.length? (c :: cs) = none := by
  unfold Lexeme.NothingAt at nothing
  rw [here] at nothing
  constructor
  · rw [Bool.eq_false_iff]
    intro blank
    have run : Lexeme.blankLength (c :: cs) = some ((cs.takeWhile Lexeme.isBlank).length + 1) := by
      rw [Lexeme.blankLength_eq_some, List.takeWhile_cons_of_pos blank]
      simp
    apply nothing none
    rw [Lexeme.scan_silent (Lexeme.mem_silent_of_isBlank blank), run]
    rfl
  · rw [Option.eq_none_iff_forall_ne_some]
    intro n comment
    have := (Comment.length?_bounds comment).1
    apply nothing none (n - 1)
    rw [Nat.sub_add_cancel (by omega)]
    exact Lexeme.scan_gap.2 (.inl comment)

theorem split_skippedCharacter {c : Char} {o : Nat} (holds : (Passage.skipped c o).HoldsIn source)
    (free : (Passage.skipped c o).MarkedBy entries) (lt : o < h)
    (next : ∀ d ∈ (between source (o + 1) h).head?, d ∈ Lexeme.silent →
      entries.end? (o + 1 : Nat) = none) :
    ∃ k, k.isStray = true ∧ Trivia.Joins k [c]
      (split entries (o + 1 : Nat) (between source (o + 1) h))
      (split entries o (between source o h)) := by
  obtain ⟨here, w, nothing⟩ := holds
  obtain ⟨loud, noComment⟩ := not_gap_of_nothingAt here nothing
  have text : between source o h = c :: between source (o + 1) h := by
    have width : h - o = h - (o + 1) + 1 := by omega
    rw [between, here, width, List.take_succ_cons]
    rfl
  have unmarked : entries.end? o = none := free o (Nat.le_refl o) (Nat.lt_succ_self o)
  rw [text]
  rcases mark : Trivia.markKind? c with _ | k
  · refine ⟨.unexpectedText, rfl, ?_⟩
    have behind : source.drop (o + 1) = between source (o + 1) h ++ source.drop h :=
      drop_eq_between source lt
    rw [behind, ← List.cons_append] at noComment
    rw [Trivia.split_stray unmarked
      (Trivia.piece?_none loud mark (Comment.length?_none_of_append noComment))]
    exact Trivia.joins_consUnexpected _ _
  · exact ⟨k, (Trivia.piece?_mark [] mark).2, Trivia.split_mark mark unmarked fun head =>
      next c head (Trivia.mem_silent_of_mark mark)⟩

/-- A character that starts no lexeme is not the first one of a dropped lexeme. -/
theorem not_dropped_of_silent {p : Passage} {c : Char} {cs : List Char}
    (holds : p.HoldsIn source) (here : source.drop p.start = c :: cs) (quiet : c ∈ Lexeme.silent)
    (marked : p.MarkedBy entries) (notKept : p.kept? = none) : entries.end? p.start = none := by
  have bounds := holds.bounds
  cases p with
  | kept l => cases notKept
  | gap i j => exact marked i (Nat.le_refl i) bounds.1
  | skipped d o => exact marked o (Nat.le_refl o) bounds.1
  | dropped l =>
    obtain ⟨w, after, scans⟩ := holds
    obtain ⟨n, scanned, _⟩ := scans.scanned
    rw [show source.drop l.start = c :: cs from here, Lexeme.scan_silent quiet] at scanned
    simp at scanned

/-- The pieces from a passage on show it, and what the pieces behind it show. -/
theorem shows_first {p : Passage} (holds : p.HoldsIn source) (marked : p.MarkedBy entries)
    (notKept : p.kept? = none) (le : p.stop ≤ h) (within : h ≤ source.length)
    (next : ∀ d ∈ (between source p.stop h).head?, d ∈ Lexeme.silent →
      entries.end? p.stop = none) :
    p.ShownBy source (piecesBetween entries source p.start h) ∧
      ∀ q : Passage, q.ShownBy source (piecesBetween entries source p.stop h) →
        q.ShownBy source (piecesBetween entries source p.start h) := by
  have bounds := holds.bounds
  cases p with
  | kept l => cases notKept
  | gap i j =>
    obtain ⟨qs, cut, length, shows⟩ := split_gap holds marked le within
    have located : piecesBetween entries source i h =
        locate i qs ++ piecesBetween entries source j h := by
      rw [piecesBetween, cut, Trivia.locate_append, length, piecesBetween]
    rw [show Passage.start (.gap i j) = i from rfl, located]
    exact ⟨⟨qs, (List.prefix_append _ _).isInfix, length, shows⟩,
      fun q shown => shown.mono (List.suffix_append _ _).isInfix⟩
  | dropped l =>
    obtain ⟨text, length, joins⟩ := split_droppedLexeme holds marked le within
    have lt : l.start < l.stop := bounds.1
    have stop : (Passage.dropped l).start + text.length = l.stop :=
      (congrArg (l.start + ·) length).trans (Nat.add_sub_of_le (Nat.le_of_lt lt))
    refine ⟨?_, fun q shown => Passage.ShownBy.joins ?_ joins rfl⟩
    · obtain ⟨q, mem, kind, fits⟩ := Passage.exists_of_joins joins l.start
      exact ⟨l.start, q, mem, kind, Nat.le_refl _, by omega⟩
    · rw [stop]
      exact shown
  | skipped c o =>
    obtain ⟨k, stray, joins⟩ := split_skippedCharacter holds marked le next
    refine ⟨?_, fun q shown => Passage.ShownBy.joins ?_ joins stray⟩
    · obtain ⟨q, mem, kind, fits⟩ := Passage.exists_of_joins joins o
      exact ⟨o, q, mem, kind ▸ stray, Nat.le_refl _, Nat.lt_add_of_pos_right fits⟩
    · exact shown

/-- The pieces of a gap show all passages in it. -/
theorem split_shows {ps : List Passage} {g : Nat} (tile : Passage.Tile g ps h)
    (within : h ≤ source.length) (holds : ∀ p ∈ ps, p.HoldsIn source)
    (marked : ∀ p ∈ ps, p.MarkedBy entries) (notKept : ∀ p ∈ ps, p.kept? = none) :
    ∀ p ∈ ps, p.ShownBy source (piecesBetween entries source g h) := by
  induction ps generalizing g with
  | nil => simp
  | cons p ps ih =>
    obtain ⟨rfl, tile⟩ := tile
    rw [List.forall_mem_cons] at holds marked notKept
    have behind := ih tile holds.2 marked.2 notKept.2
    have le : p.stop ≤ h := tile.le holds.2
    have next : ∀ d ∈ (between source p.stop h).head?, d ∈ Lexeme.silent →
        entries.end? p.stop = none := by
      intro d head quiet
      obtain ⟨ds, text⟩ := List.head?_eq_some_iff.1 head
      cases ps with
      | nil =>
        rw [show p.stop = h from tile, between_self] at text
        cases text
      | cons q qs =>
        obtain ⟨start, _⟩ := tile
        have here := drop_eq_between source le
        rw [text, ← start] at here
        rw [← start]
        exact not_dropped_of_silent (holds.2 q List.mem_cons_self) here quiet
          (marked.2 q List.mem_cons_self) (notKept.2 q List.mem_cons_self)
    obtain ⟨own, others⟩ := shows_first holds.1 marked.1 notKept.1 le within next
    rw [List.forall_mem_cons]
    exact ⟨own, fun q hq => others q (behind q hq)⟩

/-! ## What is entered as dropped -/

theorem Trivia.Dropped.mem_of_end? {entries : Trivia.Dropped} {x y : Int}
    (found : entries.end? x = some y) : (x, y) ∈ entries := by
  obtain ⟨⟨x', y'⟩, first, rfl⟩ := Option.map_eq_some_iff.1 found
  have same := List.find?_some first
  obtain rfl := eq_of_beq same
  exact List.mem_reverse.1 (List.mem_of_find?_eq_some first)

theorem Trivia.Dropped.exists_end? {entries : Trivia.Dropped} {x y : Int}
    (mem : (x, y) ∈ entries) : ∃ y', entries.end? x = some y' := by
  rcases found : entries.reverse.find? (·.1 == x) with _ | d
  · have := List.find?_eq_none.1 found (x, y) (List.mem_reverse.2 mem)
    simp at this
  · exact ⟨d.2, by rw [Trivia.Dropped.end?, found]; rfl⟩

section Entries

variable {ps : List Passage} {stop budget : Nat} {leaves : List Leaf} {s : Session}

/-- What is entered as dropped are the lexemes that were. -/
theorem Accounts.mem_dropped_iff (accounts : Accounts source ps stop leaves s.repairs)
    (balanced : Session.Balanced budget leaves s) {x y : Int} : (x, y) ∈ s.dropped ↔
      ∃ l : Lexeme, .dropped l ∈ ps ∧ ((l.start : Int), (l.stop : Int)) = (x, y) := by
  rw [balanced.dropped, List.mem_map]
  refine exists_congr fun l => and_congr_left fun _ => ?_
  rw [← accounts.mem_dropped, List.mem_filterMap]
  constructor
  · rintro ⟨r, mem, same⟩
    cases r <;> cases same
    exact mem
  · exact fun mem => ⟨_, mem, rfl⟩

/-- No entry starts inside another passage. -/
theorem Accounts.end?_eq_none (accounts : Accounts source ps stop leaves s.repairs)
    (balanced : Session.Balanced budget leaves s) {p : Passage} (hp : p ∈ ps)
    (other : ∀ l, p ≠ .dropped l) {o : Nat} (lo : p.start ≤ o) (hi : o < p.stop) :
    s.dropped.end? o = none := by
  rw [Option.eq_none_iff_forall_ne_some]
  intro y found
  obtain ⟨l, hl, same⟩ :=
    (accounts.mem_dropped_iff balanced).1 (Trivia.Dropped.mem_of_end? found)
  have start : l.start = o := Int.ofNat.inj (Prod.mk.inj same).1
  have lt : l.start < l.stop := (accounts.holds _ hl).bounds.1
  rcases accounts.tile.apart accounts.holds hp hl with rfl | before | behind
  · exact other l rfl
  · have : p.stop ≤ l.start := before
    omega
  · have : l.stop ≤ p.start := behind
    omega

/-- Where a dropped lexeme starts stands its own entry. -/
theorem Accounts.end?_dropped (accounts : Accounts source ps stop leaves s.repairs)
    (balanced : Session.Balanced budget leaves s) {l : Lexeme} (hl : .dropped l ∈ ps) :
    s.dropped.end? l.start = some l.stop := by
  obtain ⟨y, found⟩ :=
    Trivia.Dropped.exists_end? ((accounts.mem_dropped_iff balanced).2 ⟨l, hl, rfl⟩)
  obtain ⟨l', hl', same⟩ :=
    (accounts.mem_dropped_iff balanced).1 (Trivia.Dropped.mem_of_end? found)
  obtain ⟨start, rfl⟩ := Prod.mk.inj same
  have start : l'.start = l.start := Int.ofNat.inj start
  have lt : l.start < l.stop := (accounts.holds _ hl).bounds.1
  have lt' : l'.start < l'.stop := (accounts.holds _ hl').bounds.1
  rcases accounts.tile.apart accounts.holds hl hl' with same | before | behind
  · obtain rfl := Passage.dropped.inj same
    exact found
  · have : l.stop ≤ l'.start := before
    omega
  · have : l'.stop ≤ l.start := behind
    omega

/-- The entries of the dropped lexemes mark all passages as they are. -/
theorem Accounts.marked (accounts : Accounts source ps stop leaves s.repairs)
    (balanced : Session.Balanced budget leaves s) : ∀ p ∈ ps, p.MarkedBy s.dropped := by
  intro p hp
  cases p with
  | dropped l => exact accounts.end?_dropped balanced hp
  | kept l => exact fun o => accounts.end?_eq_none balanced hp (by rintro _ ⟨⟩)
  | gap i j => exact fun o => accounts.end?_eq_none balanced hp (by rintro _ ⟨⟩)
  | skipped c o => exact fun o => accounts.end?_eq_none balanced hp (by rintro _ ⟨⟩)

end Entries

end SyntaxAtlas
