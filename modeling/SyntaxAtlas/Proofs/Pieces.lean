-- Pieces of trivia and what they show. Text is cut in the same places in which it was read:
-- a comment is one piece, a run of blanks is made of blank pieces, and what the parse left
-- out is shown as stray.

import SyntaxAtlas.Proofs.Passages

namespace SyntaxAtlas

/-! ## Kinds of pieces -/

namespace TriviaKind

/-- A kind of blanks and line ends. -/
def isBlank : TriviaKind → Bool
  | spaces | tabs | verticalTabs | formfeeds | newlines | carriageReturns
  | carriageReturnLineFeeds => true
  | _ => false

def isComment : TriviaKind → Bool
  | lineComment | blockComment | docLineComment | docBlockComment => true
  | _ => false

/-- A kind of text that belongs to no token and to no gap. -/
def isStray : TriviaKind → Bool
  | unexpectedText | backslashes | pounds => true
  | _ => false

/-- Each kind is of one sort. -/
theorem isStray_eq (k : TriviaKind) :
    k.isStray = !(k.isBlank || k.isComment) ∧ (k.isBlank && k.isComment) = false := by
  cases k <;> decide

end TriviaKind

namespace Trivia

/-! ## The piece at the start of a text -/

theorem pairRun_le (text : List Char) :
    pairRun text ≤ (text.takeWhile Lexeme.isBlank).length := by
  fun_induction pairRun text with
  | case1 cs ih =>
    rw [List.takeWhile_cons_of_pos (by decide), List.takeWhile_cons_of_pos (by decide)]
    simp only [List.length_cons]
    omega
  | case2 => exact Nat.zero_le _

theorem length_takeWhile_mono {p q : Char → Bool} (imp : ∀ c, p c = true → q c = true)
    (text : List Char) : (text.takeWhile p).length ≤ (text.takeWhile q).length := by
  induction text with
  | nil => exact Nat.le_refl _
  | cons c cs ih =>
    by_cases taken : p c = true
    · rw [List.takeWhile_cons_of_pos taken, List.takeWhile_cons_of_pos (imp c taken)]
      exact Nat.succ_le_succ ih
    · rw [List.takeWhile_cons_of_neg taken]
      exact Nat.zero_le _

theorem pairRun_cons {c : Char} {cs : List Char} (apart : c ≠ '\r') : pairRun (c :: cs) = 0 := by
  unfold pairRun
  split
  · rename_i same
    exact absurd (List.cons.inj same).1 apart
  · rfl

theorem piece?_cons {c : Char} {cs : List Char} (apart : c ≠ '\r') :
    piece? (c :: cs) = match runKind? c with
      | some kind => some (kind, charRun c (c :: cs))
      | none => comment? (c :: cs) := by
  cases run : runKind? c <;> simp only [piece?, pairRun_cons apart, run]

theorem charRun_cons (c : Char) (cs : List Char) :
    charRun c (c :: cs) = (cs.takeWhile (· == c)).length + 1 := by
  simp [charRun]

/-- A blank starts a piece of blanks only. -/
theorem piece?_blank {c : Char} {cs : List Char} (blank : Lexeme.isBlank c = true) :
    ∃ k n, piece? (c :: cs) = some (k, n + 1) ∧ k.isBlank = true ∧
      n + 1 ≤ ((c :: cs).takeWhile Lexeme.isBlank).length := by
  have runs : Lexeme.silent.all (fun d => !Lexeme.isBlank d ||
      (runKind? d).any TriviaKind.isBlank) = true := by decide
  have run := List.all_eq_true.1 runs c (Lexeme.mem_silent_of_isBlank blank)
  rw [blank, Bool.not_true, Bool.false_or] at run
  rcases kind : runKind? c with _ | k
  · rw [kind] at run
    cases run
  rcases pairs : pairRun (c :: cs) with _ | n
  · refine ⟨k, (cs.takeWhile (· == c)).length, ?_, ?_, ?_⟩
    · simp only [piece?, pairs, kind, charRun_cons]
    · rwa [kind] at run
    · rw [← charRun_cons]
      refine length_takeWhile_mono (fun d same => ?_) (c :: cs)
      rwa [eq_of_beq same]
  · refine ⟨.carriageReturnLineFeeds, n, ?_, rfl, ?_⟩
    · simp only [piece?, pairs]
    · rw [← pairs]
      exact pairRun_le (c :: cs)

/-- A comment is a piece of its own. -/
theorem piece?_comment {text : List Char} {n : Nat} (comment : Comment.length? text = some n) :
    ∃ k, piece? text = some (k, n) ∧ k.isComment = true := by
  rcases Comment.length?_eq_some.1 comment with block | line
  · obtain ⟨cs, m, rfl, closed, rfl⟩ := Comment.blockLength_eq_some.1 block
    refine ⟨if Comment.isDocBlock ('/' :: '*' :: cs) then .docBlockComment else .blockComment,
      ?_, by split <;> rfl⟩
    rw [piece?_cons (by decide)]
    simp [runKind?, comment?, Comment.lineLength, block]
  · obtain ⟨cs, rfl, rfl⟩ := Comment.lineLength_eq_some.1 line
    refine ⟨if Comment.isDocLine ('/' :: '/' :: cs) then .docLineComment else .lineComment,
      ?_, by split <;> rfl⟩
    rw [piece?_cons (by decide)]
    simp [runKind?, comment?, line]

/-- The kind of a run of backslashes or pounds. -/
def markKind? (c : Char) : Option TriviaKind :=
  if c = '\\' then some .backslashes else if c = '#' then some .pounds else none

theorem piece?_mark {c : Char} {k : TriviaKind} (cs : List Char) (mark : markKind? c = some k) :
    piece? (c :: cs) = some (k, (cs.takeWhile (· == c)).length + 1) ∧ k.isStray = true := by
  unfold markKind? at mark
  split at mark
  · subst c
    obtain rfl := Option.some.inj mark
    exact ⟨by rw [piece?_cons (by decide), ← charRun_cons]; rfl, rfl⟩
  · split at mark
    · subst c
      obtain rfl := Option.some.inj mark
      exact ⟨by rw [piece?_cons (by decide), ← charRun_cons]; rfl, rfl⟩
    · cases mark

theorem mem_silent_of_mark {c : Char} {k : TriviaKind} (mark : markKind? c = some k) :
    c ∈ Lexeme.silent := by
  unfold markKind? at mark
  split at mark
  · subst c
    decide
  · split at mark
    · subst c
      decide
    · cases mark

/-- What starts no gap and is no mark starts no piece. -/
theorem piece?_none {c : Char} {cs : List Char} (loud : Lexeme.isBlank c = false)
    (noMark : markKind? c = none) (noComment : Comment.length? (c :: cs) = none) :
    piece? (c :: cs) = none := by
  have apart : ∀ d, Lexeme.isBlank d = true ∨ (markKind? d).isSome = true → c ≠ d := by
    rintro d (blank | mark) rfl
    · rw [loud] at blank
      cases blank
    · rw [noMark] at mark
      cases mark
  have vertical : c.toNat ≠ 0x0b := fun same => apart '\x0b' (by decide) (Char.toNat_inj.1 same)
  have formfeed : c.toNat ≠ 0x0c := fun same => apart '\x0c' (by decide) (Char.toNat_inj.1 same)
  have noRun : runKind? c = none := by
    simp [runKind?, apart '\n' (by decide), apart '\r' (by decide), apart ' ' (by decide),
      apart '\t' (by decide), apart '\\' (by decide), apart '#' (by decide),
      vertical, formfeed]
  obtain ⟨noBlock, noLine⟩ := Comment.length?_eq_none.1 noComment
  rw [piece?_cons (apart '\r' (by decide)), noRun]
  simp [comment?, noLine, noBlock]

/-! ## The first pieces of a text -/

theorem split_dropped {dropped : Dropped} {i n : Nat} {text : List Char}
    (found : dropped.end? i = some ((i + (n + 1) : Nat) : Int)) (nonempty : text ≠ []) :
    split dropped i text = consUnexpected (text.take (n + 1))
      (split dropped (i + (n + 1) : Nat) (text.drop (n + 1))) := by
  obtain ⟨c, cs, rfl⟩ := List.exists_cons_of_ne_nil nonempty
  have width : (((i + (n + 1) : Nat) : Int) - i).toNat = n + 1 := by omega
  rw [split, found, Option.map_some, width]
  simp

theorem split_piece {dropped : Dropped} {i n : Nat} {text : List Char} {k : TriviaKind}
    (free : dropped.end? i = none) (piece : piece? text = some (k, n + 1)) :
    split dropped i text = ⟨k, String.ofList (text.take (n + 1))⟩ ::
      split dropped (i + (n + 1) : Nat) (text.drop (n + 1)) := by
  cases text with
  | nil => cases piece
  | cons c cs =>
    rw [split, free]
    simp [piece]

theorem split_stray {dropped : Dropped} {i : Nat} {c : Char} {cs : List Char}
    (free : dropped.end? i = none) (none : piece? (c :: cs) = none) :
    split dropped i (c :: cs) = consUnexpected [c] (split dropped (i + 1 : Nat) cs) := by
  rw [split, free]
  simp [none]

theorem length_drop_takeWhile {p : Char → Bool} {text : List Char} {n : Nat}
    (le : n ≤ (text.takeWhile p).length) :
    ((text.drop n).takeWhile p).length = (text.takeWhile p).length - n := by
  induction n generalizing text with
  | zero => rfl
  | succ n ih =>
    cases text with
    | nil => simp at le
    | cons c cs =>
      by_cases taken : p c = true
      · rw [List.takeWhile_cons_of_pos taken, List.length_cons] at le ⊢
        rw [List.drop_succ_cons, ih (by omega)]
        omega
      · rw [List.takeWhile_cons_of_neg taken] at le
        simp at le

theorem length_triviaText_cons (q : TriviaPiece) (qs : List TriviaPiece) :
    (triviaText (q :: qs)).length = q.text.length + (triviaText qs).length := by
  simp only [← String.length_toList, toList_triviaText, List.flatMap_cons, List.length_append]

/-- A run of blanks is cut into pieces of blanks. -/
theorem split_blanks {dropped : Dropped} {i n : Nat} {text : List Char}
    (run : (text.takeWhile Lexeme.isBlank).length = n)
    (free : ∀ o : Nat, i ≤ o → o < i + n → dropped.end? o = none) :
    ∃ qs, split dropped i text = qs ++ split dropped (i + n : Nat) (text.drop n) ∧
      (triviaText qs).length = n ∧ ∀ q ∈ qs, q.kind.isBlank = true := by
  induction n using Nat.strong_induction_on generalizing i text with
  | _ n ih =>
    rcases Nat.eq_zero_or_pos n with rfl | positive
    · exact ⟨[], rfl, rfl, by simp⟩
    · obtain ⟨c, cs, rfl⟩ : ∃ c cs, text = c :: cs := by
        cases text with
        | nil => simp at run; omega
        | cons c cs => exact ⟨c, cs, rfl⟩
      have blank : Lexeme.isBlank c = true := by
        refine Classical.byContradiction fun loud => ?_
        rw [List.takeWhile_cons_of_neg loud, List.length_nil] at run
        omega
      obtain ⟨k, m, piece, isBlank, le⟩ := @piece?_blank c cs blank
      have left := length_drop_takeWhile le
      obtain ⟨qs, others, length, blanks⟩ := ih (n - (m + 1)) (by omega) (i := i + (m + 1))
        (left.trans (by rw [run])) fun o lo hi => free o (by omega) (by omega)
      refine ⟨⟨k, String.ofList ((c :: cs).take (m + 1))⟩ :: qs, ?_, ?_, ?_⟩
      · rw [split_piece (free i (Nat.le_refl i) (by omega)) piece, others, List.drop_drop]
        have stop : i + (m + 1) + (n - (m + 1)) = i + n := by omega
        have rest : m + 1 + (n - (m + 1)) = n := by omega
        rw [stop, rest, List.cons_append]
      · have room := (List.takeWhile_sublist (p := Lexeme.isBlank) (l := c :: cs)).length_le
        rw [length_triviaText_cons, length, String.length_ofList, List.length_take]
        omega
      · rintro q hq
        rcases List.mem_cons.1 hq with rfl | hq
        · exact isBlank
        · exact blanks q hq

/-! ## Text in front of pieces -/

/-- Text of a kind in front of pieces: a piece of its own, or the beginning of the first
piece if that is of the same kind. -/
inductive Joins (k : TriviaKind) (text : List Char) : List TriviaPiece → List TriviaPiece → Prop
  | alone (qs : List TriviaPiece) : Joins k text qs (⟨k, String.ofList text⟩ :: qs)
  | first (next : String) (qs : List TriviaPiece) :
    Joins k text (⟨k, next⟩ :: qs) (⟨k, String.ofList text ++ next⟩ :: qs)

theorem joins_consUnexpected (text : List Char) (qs : List TriviaPiece) :
    Joins .unexpectedText text qs (consUnexpected text qs) := by
  unfold consUnexpected
  split
  · exact .first _ _
  · exact .alone _

theorem ofList_cons (c : Char) (cs : List Char) :
    String.ofList (c :: cs) = String.ofList [c] ++ String.ofList cs := by
  rw [← String.ofList_append, List.singleton_append]

/-- A mark joins the run of marks behind it. -/
theorem split_mark {dropped : Dropped} {i : Nat} {c : Char} {cs : List Char} {k : TriviaKind}
    (mark : markKind? c = some k) (free : dropped.end? i = none)
    (next : cs.head? = some c → dropped.end? (i + 1 : Nat) = none) :
    Joins k [c] (split dropped (i + 1 : Nat) cs) (split dropped i (c :: cs)) := by
  have here := split_piece free (piece?_mark cs mark).1
  by_cases more : cs.head? = some c
  · obtain ⟨ds, rfl⟩ := List.head?_eq_some_iff.1 more
    have behind := split_piece (next more) (piece?_mark ds mark).1
    rw [List.takeWhile_cons_of_pos (by simp), List.length_cons, List.take_succ_cons,
      List.drop_succ_cons, ofList_cons] at here
    have stop : i + ((ds.takeWhile (· == c)).length + 1 + 1) =
        i + 1 + ((ds.takeWhile (· == c)).length + 1) := by omega
    rw [stop] at here
    rw [behind, here]
    exact .first _ _
  · have alone : cs.takeWhile (· == c) = [] := by
      cases cs with
      | nil => rfl
      | cons d ds =>
        refine List.takeWhile_cons_of_neg fun same => more ?_
        rw [List.head?_cons, eq_of_beq same]
    rw [alone] at here
    rw [here]
    exact .alone _

/-! ## Where pieces stand -/

/-- Pieces with the places where they stand, in characters, from a place on. -/
def locate : Nat → List TriviaPiece → List (Nat × TriviaPiece)
  | _, [] => []
  | i, q :: qs => (i, q) :: locate (i + q.text.length) qs

theorem locate_append (i : Nat) (ps qs : List TriviaPiece) :
    locate i (ps ++ qs) = locate i ps ++ locate (i + (triviaText ps).length) qs := by
  induction ps generalizing i with
  | nil => rfl
  | cons p ps ih =>
    rw [List.cons_append, locate, ih, locate, length_triviaText_cons, Nat.add_assoc]
    rfl

end Trivia

/-! ## What pieces show -/

/-- The pieces of a gap: a single one for a comment, and some for a run of blanks. -/
def ShowGap (source : List Char) (i : Nat) (qs : List TriviaPiece) : Prop :=
  match Comment.length? (source.drop i) with
  | some _ => ∃ q, qs = [q] ∧ q.kind.isComment = true
  | none => ∀ q ∈ qs, q.kind.isBlank = true

/-- How pieces show a passage. A gap has its own pieces from its start to its stop. A dropped
lexeme lies within one piece of unexpected text, and a skipped character within a piece of
stray text. -/
def Passage.ShownBy (source : List Char) (shown : List (Nat × TriviaPiece)) : Passage → Prop
  | kept _ => True
  | gap i j => ∃ qs, Trivia.locate i qs <:+: shown ∧ i + (triviaText qs).length = j ∧
      ShowGap source i qs
  | dropped l => ∃ i q, (i, q) ∈ shown ∧ q.kind = .unexpectedText ∧
      i ≤ l.start ∧ l.stop ≤ i + q.text.length
  | skipped _ offset => ∃ i q, (i, q) ∈ shown ∧ q.kind.isStray = true ∧
      i ≤ offset ∧ offset < i + q.text.length

namespace Passage

variable {source : List Char}

theorem ShownBy.mono {shown shown' : List (Nat × TriviaPiece)} {p : Passage}
    (h : p.ShownBy source shown) (inside : shown <:+: shown') : p.ShownBy source shown' := by
  cases p with
  | kept l => trivial
  | gap i j =>
    obtain ⟨qs, located, rest⟩ := h
    exact ⟨qs, located.trans inside, rest⟩
  | dropped l =>
    obtain ⟨i, q, mem, rest⟩ := h
    exact ⟨i, q, inside.subset mem, rest⟩
  | skipped c offset =>
    obtain ⟨i, q, mem, rest⟩ := h
    exact ⟨i, q, inside.subset mem, rest⟩

theorem not_stray_of_showGap {i : Nat} {qs : List TriviaPiece} (h : ShowGap source i qs) :
    ∀ q ∈ qs, q.kind.isStray = false := by
  intro q hq
  unfold ShowGap at h
  split at h
  · obtain ⟨q', rfl, comment⟩ := h
    rw [List.mem_singleton.1 hq, (TriviaKind.isStray_eq _).1, comment]
    simp
  · rw [(TriviaKind.isStray_eq _).1, h q hq]
    rfl

/-- A piece that grows at its front still shows what it showed. -/
theorem ShownBy.grow {shown : List (Nat × TriviaPiece)} {p : Passage} {i j : Nat}
    {q q' : TriviaPiece} (h : p.ShownBy source ((j, q) :: shown)) (kind : q'.kind = q.kind)
    (stray : q.kind.isStray = true) (start : i ≤ j)
    (stop : i + q'.text.length = j + q.text.length) : p.ShownBy source ((i, q') :: shown) := by
  cases p with
  | kept l => trivial
  | gap start' stop' =>
    obtain ⟨qs, located, length, shows⟩ := h
    refine ⟨qs, ?_, length, shows⟩
    rcases List.infix_cons_iff.1 located with front | behind
    · cases qs with
      | nil => exact List.nil_infix
      | cons r rs =>
        obtain ⟨same, _⟩ := List.cons_prefix_cons.1 front
        obtain ⟨rfl, rfl⟩ := Prod.mk.inj same
        rw [not_stray_of_showGap shows r List.mem_cons_self] at stray
        cases stray
    · exact behind.trans (List.suffix_cons _ _).isInfix
  | dropped l =>
    obtain ⟨i', r, mem, unexpected, lo, hi⟩ := h
    rcases List.mem_cons.1 mem with same | mem
    · obtain ⟨rfl, rfl⟩ := Prod.mk.inj same
      exact ⟨i, q', List.mem_cons_self, kind.trans unexpected, by omega, by omega⟩
    · exact ⟨i', r, List.mem_cons_of_mem _ mem, unexpected, lo, hi⟩
  | skipped c offset =>
    obtain ⟨i', r, mem, isStray, lo, hi⟩ := h
    rcases List.mem_cons.1 mem with same | mem
    · obtain ⟨rfl, rfl⟩ := Prod.mk.inj same
      exact ⟨i, q', List.mem_cons_self, kind ▸ isStray, by omega, by omega⟩
    · exact ⟨i', r, List.mem_cons_of_mem _ mem, isStray, lo, hi⟩

/-- Stray text in front of pieces leaves what they show. -/
theorem ShownBy.joins {k : TriviaKind} {text : List Char} {qs qs' : List TriviaPiece} {i : Nat}
    {p : Passage} (h : p.ShownBy source (Trivia.locate (i + text.length) qs))
    (joins : Trivia.Joins k text qs qs') (stray : k.isStray = true) :
    p.ShownBy source (Trivia.locate i qs') := by
  cases joins with
  | alone => 
    refine h.mono ?_
    rw [Trivia.locate, String.length_ofList]
    exact (List.suffix_cons _ _).isInfix
  | first next qs =>
    have length : (String.ofList text ++ next).length = text.length + next.length := by
      simp [String.length_append, String.length_ofList]
    rw [Trivia.locate] at h ⊢
    rw [length, ← Nat.add_assoc]
    exact h.grow rfl stray (Nat.le_add_right _ _) (by rw [length, Nat.add_assoc])

/-- Stray text in front of pieces stands in the first of them. -/
theorem exists_of_joins {k : TriviaKind} {text : List Char} {qs qs' : List TriviaPiece}
    (joins : Trivia.Joins k text qs qs') (i : Nat) :
    ∃ q, (i, q) ∈ Trivia.locate i qs' ∧ q.kind = k ∧ text.length ≤ q.text.length := by
  cases joins with
  | alone =>
    exact ⟨_, List.mem_cons_self, rfl, by simp [String.length_ofList]⟩
  | first next qs =>
    exact ⟨_, List.mem_cons_self, rfl, by simp [String.length_append, String.length_ofList]⟩

end Passage

end SyntaxAtlas
