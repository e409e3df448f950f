-- Line breaks are counted twice, by the pieces of a gap and by the rows of a source. The
-- counts agree, but for a pair `\r\n` that a run of carriage returns takes in half.

import SyntaxAtlas.Proofs.Partition
import SyntaxAtlas.Proofs.Rows
import Mathlib.Data.List.Infix

namespace SyntaxAtlas

/-! ## The two counts -/

/-- The line breaks that pieces of trivia show. -/
def lineBreaks (pieces : List TriviaPiece) : Nat :=
  ((pieces.filter TriviaPiece.isNewline).map TriviaPiece.count).sum

/-- A carriage return in front of a pair `\r\n`. The run that starts there takes the carriage
return of the pair too. -/
def tearsPair (text : List Char) : Bool := ['\r', '\r', '\n'].isPrefixOf text

/-- The pairs `\r\n` that a run of carriage returns tears. -/
def tornPairs (text : List Char) : Nat := text.tails.countP tearsPair

theorem lineBreaks_cons (q : TriviaPiece) (qs : List TriviaPiece) :
    lineBreaks (q :: qs) = (if q.isNewline then q.count else 0) + lineBreaks qs := by
  unfold lineBreaks
  by_cases newline : q.isNewline = true
  · rw [List.filter_cons_of_pos newline, if_pos newline, List.map_cons, List.sum_cons]
  · rw [List.filter_cons_of_neg newline, if_neg newline, Nat.zero_add]

theorem lineBreaks_consUnexpected (text : List Char) (qs : List TriviaPiece) :
    lineBreaks (Trivia.consUnexpected text qs) = lineBreaks qs := by
  have joins := Trivia.joins_consUnexpected text qs
  generalize Trivia.consUnexpected text qs = qs' at joins
  have other : ∀ text, TriviaPiece.isNewline ⟨.unexpectedText, text⟩ = false := fun _ => rfl
  cases joins with
  | alone => simp [lineBreaks_cons, other]
  | first next qs => simp [lineBreaks_cons, other]

theorem tornPairs_cons (c : Char) (cs : List Char) :
    tornPairs (c :: cs) = (if tearsPair (c :: cs) then 1 else 0) + tornPairs cs := by
  rw [tornPairs, List.tails_cons, List.countP_cons, Nat.add_comm]
  rfl

/-- No pair is torn in a text where none comes behind a carriage return. -/
theorem tornPairs_eq_zero {text : List Char} :
    tornPairs text = 0 ↔ ¬ ['\r', '\r', '\n'] <:+: text := by
  rw [tornPairs, List.countP_eq_zero]
  constructor
  · rintro none ⟨before, behind, rfl⟩
    apply none (['\r', '\r', '\n'] ++ behind)
    · rw [List.mem_tails, List.append_assoc]
      exact List.suffix_append _ _
    · exact List.isPrefixOf_iff_prefix.2 (List.prefix_append _ _)
  · intro none tail mem tears
    apply none
    have front : ['\r', '\r', '\n'] <+: tail := List.isPrefixOf_iff_prefix.1 tears
    exact front.isInfix.trans ((List.mem_tails _ _).1 mem).isInfix

/-- What the rows of a text and the torn pairs come to. -/
def rowsAndTorn (text : List Char) : Nat := (Text.rows text).length + tornPairs text

theorem length_rows_cons (c : Char) (cs : List Char) :
    (Text.rows (c :: cs)).length =
      (if Text.endsLine c cs then 1 else 0) + (Text.rows cs).length := by
  rw [Text.rows_cons]
  split
  · rw [List.length_cons, Nat.add_comm]
  · rcases rows : Text.rows cs with _ | ⟨row, rest⟩
    · exact absurd rows (Text.rows_ne_nil cs)
    · simp [Text.extendRow]

theorem rowsAndTorn_cons (c : Char) (cs : List Char) :
    rowsAndTorn (c :: cs) = (if Text.endsLine c cs then 1 else 0) +
      (if tearsPair (c :: cs) then 1 else 0) + rowsAndTorn cs := by
  rw [rowsAndTorn, length_rows_cons, tornPairs_cons, rowsAndTorn]
  omega

/-! ## Runs -/

theorem tearsPair_of_ne {c : Char} (other : c ≠ '\r') (cs : List Char) :
    tearsPair (c :: cs) = false := by
  have apart : ('\r' == c) = false := by simpa using fun same => other same.symm
  simp [tearsPair, List.isPrefixOf, apart]

theorem tearsPair_carriage (d : Char) (cs : List Char) :
    tearsPair ('\r' :: d :: cs) = (d == '\r' && cs.head? == some '\n') := by
  rcases cs with _ | ⟨e, es⟩
  · simp [tearsPair, List.isPrefixOf]
  · simp [tearsPair, List.isPrefixOf, Bool.beq_comm (a := '\r'), Bool.beq_comm (a := '\n')]

theorem rowsAndTorn_feed (cs : List Char) : rowsAndTorn ('\n' :: cs) = 1 + rowsAndTorn cs := by
  have ends : Text.endsLine '\n' cs = true := rfl
  rw [rowsAndTorn_cons, tearsPair_of_ne (by decide), ends]
  simp

theorem rowsAndTorn_quiet {c : Char} (feed : c ≠ '\n') (carriage : c ≠ '\r') (cs : List Char) :
    rowsAndTorn (c :: cs) = rowsAndTorn cs := by
  have quiet : Text.endsLine c cs = false := by simp [Text.endsLine, feed, carriage]
  rw [rowsAndTorn_cons, tearsPair_of_ne carriage, quiet]
  simp

/-- In a run of one character each counts the same. -/
theorem rowsAndTorn_run {c : Char} {w : Nat}
    (each : ∀ cs, rowsAndTorn (c :: cs) = w + rowsAndTorn cs) (text : List Char) :
    rowsAndTorn text =
      w * Trivia.charRun c text + rowsAndTorn (text.drop (Trivia.charRun c text)) := by
  induction text with
  | nil => rfl
  | cons d text ih =>
    by_cases same : d = c
    · subst same
      have longer : Trivia.charRun d (d :: text) = Trivia.charRun d text + 1 := by
        simp [Trivia.charRun]
      rw [longer, List.drop_succ_cons, each, ih, Nat.mul_add, Nat.mul_one]
      omega
    · have none : Trivia.charRun c (d :: text) = 0 := by simp [Trivia.charRun, same]
      rw [none, Nat.mul_zero, Nat.zero_add, List.drop_zero]

theorem rowsAndTorn_pairs (text : List Char) :
    rowsAndTorn text =
      Trivia.pairRun text / 2 + rowsAndTorn (text.drop (Trivia.pairRun text)) := by
  fun_induction Trivia.pairRun text with
  | case1 cs ih =>
    have half : (Trivia.pairRun cs + 2) / 2 = Trivia.pairRun cs / 2 + 1 := by omega
    have first : Text.endsLine '\r' ('\n' :: cs) = false ∧ tearsPair ('\r' :: '\n' :: cs) = false :=
      ⟨rfl, rfl⟩
    have pair : rowsAndTorn ('\r' :: '\n' :: cs) = 1 + rowsAndTorn cs := by
      rw [rowsAndTorn_cons, rowsAndTorn_feed, first.1, first.2]
      simp
    rw [half, pair, ih]
    simp only [List.drop_succ_cons]
    omega
  | case2 => simp

/-- A run of carriage returns that is not one of pairs. In front of a line feed its last
character ends no line, and tears the pair. -/
theorem rowsAndTorn_carriage (cs : List Char) :
    rowsAndTorn ('\r' :: cs) + (if cs.head? == some '\n' then 1 else 0) =
      Trivia.charRun '\r' ('\r' :: cs) +
        rowsAndTorn (('\r' :: cs).drop (Trivia.charRun '\r' ('\r' :: cs))) := by
  have longer : ∀ ds : List Char,
      Trivia.charRun '\r' ('\r' :: ds) = Trivia.charRun '\r' ds + 1 := by
    intro ds
    simp [Trivia.charRun]
  induction cs with
  | nil => rfl
  | cons d cs ih =>
    rw [longer, List.drop_succ_cons, rowsAndTorn_cons, tearsPair_carriage]
    by_cases carriage : d = '\r'
    · subst carriage
      have ends : Text.endsLine '\r' ('\r' :: cs) = true := rfl
      have next : (('\r' :: cs).head? == some '\n') = false := rfl
      rw [ends, next, beq_self_eq_true, Bool.true_and, if_pos rfl]
      simp only [Bool.false_eq_true, if_false]
      omega
    · have alone : Trivia.charRun '\r' (d :: cs) = 0 := by simp [Trivia.charRun, carriage]
      have kept : (d == '\r') = false := beq_false_of_ne carriage
      have next : Text.endsLine '\r' (d :: cs) = !((d :: cs).head? == some '\n') := rfl
      rw [alone, kept, next]
      cases (d :: cs).head? == some '\n' <;> simp [Nat.add_comm]

/-! ## Pieces and rows -/

theorem count_take {k : TriviaKind} (single : k ≠ .carriageReturnLineFeeds) {text : List Char}
    {n : Nat} (le : n ≤ text.length) :
    TriviaPiece.count ⟨k, String.ofList (text.take n)⟩ = n := by
  have whole : TriviaPiece.count ⟨k, String.ofList (text.take n)⟩ = (text.take n).length := by
    rw [← String.length_ofList]
    cases k <;> first | rfl | exact absurd rfl single
  rw [whole, List.length_take, Nat.min_eq_left le]

theorem charRun_le (c : Char) (text : List Char) : Trivia.charRun c text ≤ text.length :=
  (List.takeWhile_sublist (p := (· == c))).length_le

theorem lineBreaks_singleton (q : TriviaPiece) :
    lineBreaks [q] = if q.isNewline then q.count else 0 := by
  rw [lineBreaks_cons]
  rfl

/-- A run of one character shows what it adds to the rows and torn pairs. -/
theorem rowsAndTorn_charRun {c : Char} {cs : List Char} {k : TriviaKind}
    (noPair : Trivia.pairRun (c :: cs) = 0) (run : Trivia.runKind? c = some k) :
    rowsAndTorn (c :: cs) =
      lineBreaks [⟨k, String.ofList ((c :: cs).take (Trivia.charRun c (c :: cs)))⟩] +
        rowsAndTorn ((c :: cs).drop (Trivia.charRun c (c :: cs))) := by
  have unit := Trivia.unit_of_runKind run
  have single : k ≠ .carriageReturnLineFeeds := by
    rintro rfl
    cases unit
  rw [lineBreaks_singleton, count_take single (charRun_le c (c :: cs))]
  by_cases feed : c = '\n'
  · subst feed
    obtain rfl : TriviaKind.newlines = k := Option.some.inj run
    have all := rowsAndTorn_run rowsAndTorn_feed ('\n' :: cs)
    rw [Nat.one_mul] at all
    exact all
  · by_cases carriage : c = '\r'
    · subst carriage
      obtain rfl : TriviaKind.carriageReturns = k := Option.some.inj run
      have all := rowsAndTorn_carriage cs
      have next : (cs.head? == some '\n') = false := by
        rw [Bool.eq_false_iff]
        intro head
        obtain ⟨ds, rfl⟩ := List.head?_eq_some_iff.1 (eq_of_beq head)
        cases noPair
      rw [next] at all
      exact all
    · have quiet : k.isNewline = false := by
        cases k <;> first | rfl | cases unit <;> contradiction
      have none : ∀ ds, rowsAndTorn (c :: ds) = 0 + rowsAndTorn ds := by
        intro ds
        rw [rowsAndTorn_quiet feed carriage, Nat.zero_add]
      have all := rowsAndTorn_run none (c :: cs)
      rw [Nat.zero_mul] at all
      rw [TriviaPiece.isNewline, quiet]
      exact all

theorem length_pairRun_le (text : List Char) : Trivia.pairRun text ≤ text.length :=
  Nat.le_trans (Trivia.pairRun_le text) (List.takeWhile_sublist _).length_le

/-- The piece at the start of a text shows what it adds to the rows and torn pairs. A comment
has line breaks that it does not show. -/
theorem rowsAndTorn_piece {text : List Char} (noSlash : '/' ∉ text) {k : TriviaKind} {n : Nat}
    (piece : Trivia.piece? text = some (k, n)) :
    rowsAndTorn text =
      lineBreaks [⟨k, String.ofList (text.take n)⟩] + rowsAndTorn (text.drop n) := by
  rcases Trivia.piece?_cases piece with ⟨rfl, rfl, _⟩ | ⟨c, cs, rfl, noPair, run, rfl⟩ | comment
  · have pairs : TriviaPiece.count
        ⟨.carriageReturnLineFeeds, String.ofList (text.take (Trivia.pairRun text))⟩ =
        Trivia.pairRun text / 2 := by
      simp [TriviaPiece.count, Nat.min_eq_left (length_pairRun_le text)]
    rw [lineBreaks_singleton, pairs]
    exact rowsAndTorn_pairs text
  · exact rowsAndTorn_charRun noPair run
  · have slash : '/' ∈ text := by
      rcases Trivia.comment?_cases comment with ⟨line, _⟩ | ⟨block, _⟩
      · obtain ⟨cs, rfl, _⟩ := Comment.lineLength_eq_some.1 line
        exact List.mem_cons_self
      · obtain ⟨cs, _, rfl, _⟩ := Comment.blockLength_eq_some.1 block
        exact List.mem_cons_self
    exact absurd slash noSlash

/-- What starts no piece is no blank, and so no line end. -/
theorem loud_of_stray {c : Char} {cs : List Char}
    (stray : ∀ k n, Trivia.piece? (c :: cs) ≠ some (k, n + 1)) : Lexeme.isBlank c = false := by
  rw [Bool.eq_false_iff]
  intro blank
  obtain ⟨k, n, piece, _⟩ := @Trivia.piece?_blank c cs blank
  exact stray k n piece

/-- The pieces of a text without comments show as many line breaks as its rows and torn pairs
say. -/
theorem lineBreaks_split {text : List Char} (noSlash : '/' ∉ text) (offset : Int) :
    lineBreaks (Trivia.split [] offset text) + 1 = rowsAndTorn text := by
  fun_induction Trivia.split [] offset text with
  | case1 => rfl
  | case2 offset c cs n found _ => cases found
  | case3 offset c cs k n piece _ ih =>
    have behind : '/' ∉ cs.drop n :=
      fun mem => noSlash (List.mem_cons_of_mem c (List.mem_of_mem_drop mem))
    have here := rowsAndTorn_piece noSlash piece
    rw [lineBreaks_singleton, List.drop_succ_cons, ← ih behind] at here
    rw [lineBreaks_cons, here, Nat.add_assoc]
  | case4 offset c cs _ stray ih =>
    have loud := loud_of_stray stray
    have feed : c ≠ '\n' := by
      rintro rfl
      cases loud
    have carriage : c ≠ '\r' := by
      rintro rfl
      cases loud
    rw [lineBreaks_consUnexpected, rowsAndTorn_quiet feed carriage,
      ih fun mem => noSlash (List.mem_cons_of_mem c mem)]

/-- The line breaks that trivia shows against the rows of a text. In a text without a slash,
and so in any text of blanks, there is one row more than line breaks, but each pair `\r\n`
behind a carriage return shows one line break too many. The two counts agree exactly if
there is no such pair. -/
theorem lineBreaks_eq_rows (file : String) (base : Int) {source : String}
    (noSlash : '/' ∉ source.toList) :
    lineBreaks (Trivia.cut [] base source.toList) + 1 =
        (LineMap.ofSource source file).rows.length + tornPairs source.toList ∧
      (lineBreaks (Trivia.cut [] base source.toList) =
          (LineMap.ofSource source file).rows.length - 1 ↔
        ¬ ['\r', '\r', '\n'] <:+: source.toList) := by
  have count : lineBreaks (Trivia.cut [] base source.toList) + 1 =
      (LineMap.ofSource source file).rows.length + tornPairs source.toList := by
    rw [Trivia.cut, if_pos (show Trivia.Dropped.leadForward [] = true from rfl),
      lineBreaks_split noSlash, rowsAndTorn, rows_ofSource, List.length_map]
  have some : 0 < (LineMap.ofSource source file).rows.length := by
    rw [rows_ofSource, List.length_map, List.length_pos_iff]
    exact Text.rows_ne_nil source.toList
  refine ⟨count, ?_⟩
  rw [← tornPairs_eq_zero]
  omega

/-- Two carriage returns in front of a line feed show three line breaks between three rows. -/
theorem lineBreaks_of_torn_pair :
    '/' ∉ "\r\r\n".toList ∧ lineBreaks (Trivia.cut [] 0 "\r\r\n".toList) = 3 ∧
      (LineMap.ofSource "\r\r\n" standardFile).rows.length = 3 := by
  have noSlash : '/' ∉ "\r\r\n".toList := by decide
  have rows : (LineMap.ofSource "\r\r\n" standardFile).rows.length = 3 := by decide
  have torn : tornPairs "\r\r\n".toList = 1 := by decide
  obtain ⟨count, _⟩ := lineBreaks_eq_rows standardFile 0 noSlash
  rw [rows, torn] at count
  exact ⟨noSlash, by omega, rows⟩

end SyntaxAtlas
