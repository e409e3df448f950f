-- The pieces of a gap part its text in a canonical way. Each piece is formed as its kind
-- says, and no two pieces side by side could have been one.

import SyntaxAtlas.Proofs.Pieces
import SyntaxAtlas.Trivia.Split
import Mathlib.Data.List.Chain

namespace SyntaxAtlas

/-! ## Counted pieces -/

/-- What a piece that is counted is a run of. -/
def TriviaKind.unit : TriviaKind → List Char
  | .spaces => [' ']
  | .tabs => ['\t']
  | .verticalTabs => [Char.ofNat 0x0b]
  | .formfeeds => [Char.ofNat 0x0c]
  | .newlines => ['\n']
  | .carriageReturns => ['\r']
  | .carriageReturnLineFeeds => ['\r', '\n']
  | .backslashes => ['\\']
  | .pounds => ['#']
  | _ => []

/-- A piece that is counted is told by its kind and count. -/
def TriviaPiece.Uniform (q : TriviaPiece) : Prop :=
  q.kind.isCounted = true → q.text.toList = (List.replicate q.count q.kind.unit).flatten

namespace Trivia

theorem uniform_of_run {k : TriviaKind} {text : List Char} {n : Nat}
    (run : k.isCounted = true → text = (List.replicate n k.unit).flatten) :
    TriviaPiece.Uniform ⟨k, String.ofList text⟩ := by
  intro counted
  have length : text.length = n * k.unit.length := by
    rw [run counted]
    simp
  have count : TriviaPiece.count ⟨k, String.ofList text⟩ = n := by
    by_cases pairs : k = .carriageReturnLineFeeds
    · subst pairs
      simp [TriviaPiece.count, length, TriviaKind.unit]
    · have single : ∀ k : TriviaKind, k.isCounted = true → k ≠ .carriageReturnLineFeeds →
          k.unit.length = 1 := by
        intro k
        cases k <;> decide
      have whole : TriviaPiece.count ⟨k, String.ofList text⟩ = text.length := by
        rw [← String.length_ofList]
        cases k <;> first | rfl | exact absurd rfl pairs
      rw [whole, length, single k counted pairs, Nat.mul_one]
  rw [count, String.toList_ofList]
  exact run counted

theorem take_pairRun (text : List Char) :
    text.take (pairRun text) = (List.replicate (pairRun text / 2) ['\r', '\n']).flatten := by
  fun_induction pairRun text with
  | case1 cs ih =>
    have half : (pairRun cs + 2) / 2 = pairRun cs / 2 + 1 := by omega
    rw [half, List.replicate_succ, List.flatten_cons, ← ih]
    rfl
  | case2 => rfl

/-- A run of pairs goes on as far as it can. -/
theorem pairRun_maximal (text : List Char) : ¬ ['\r', '\n'] <+: text.drop (pairRun text) := by
  fun_induction pairRun text with
  | case1 cs ih => exact ih
  | case2 text other =>
    rintro ⟨rest, rfl⟩
    exact other rest rfl

theorem take_charRun (c : Char) (text : List Char) :
    text.take (charRun c text) = (List.replicate (charRun c text) [c]).flatten := by
  induction text with
  | nil => rfl
  | cons d text ih =>
    by_cases same : d = c
    · have longer : charRun c (d :: text) = charRun c text + 1 := by simp [charRun, same]
      rw [longer, List.take_succ_cons, ih, List.replicate_succ, List.flatten_cons, same]
      rfl
    · have none : charRun c (d :: text) = 0 := by simp [charRun, same]
      rw [none]
      rfl

theorem charRun_maximal (c : Char) (text : List Char) : ¬ [c] <+: text.drop (charRun c text) := by
  induction text with
  | nil => simp
  | cons d text ih =>
    by_cases same : d = c
    · have longer : charRun c (d :: text) = charRun c text + 1 := by simp [charRun, same]
      rw [longer, List.drop_succ_cons]
      exact ih
    · have none : charRun c (d :: text) = 0 := by simp [charRun, same]
      rw [none, List.drop_zero, List.cons_prefix_cons]
      exact fun h => same h.1.symm

theorem unit_of_runKind {c : Char} {k : TriviaKind} (run : runKind? c = some k) : k.unit = [c] := by
  have same : ∀ {n : Nat}, c.toNat = n → c = Char.ofNat n := by
    rintro _ rfl
    exact (Char.ofNat_toNat c).symm
  unfold runKind? at run
  split_ifs at run
  all_goals cases run
  all_goals first | (subst c; rfl) | (rename_i code; rw [same code]; rfl)

/-! ## The piece at the start of a text -/

/-- A piece is a run of pairs, a run of one character or a comment. -/
theorem piece?_cases {text : List Char} {k : TriviaKind} {n : Nat}
    (piece : piece? text = some (k, n)) :
    (k = .carriageReturnLineFeeds ∧ n = pairRun text ∧ 0 < n) ∨
      (∃ c cs, text = c :: cs ∧ pairRun text = 0 ∧ runKind? c = some k ∧ n = charRun c text) ∨
      comment? text = some (k, n) := by
  unfold piece? at piece
  split at piece
  · rename_i pairs
    obtain ⟨rfl, rfl⟩ := Prod.mk.inj (Option.some.inj piece)
    exact .inl ⟨rfl, pairs.symm, Nat.succ_pos _⟩
  · cases piece
  · rename_i c cs noPair
    split at piece
    · rename_i run
      obtain ⟨rfl, rfl⟩ := Prod.mk.inj (Option.some.inj piece)
      exact .inr (.inl ⟨c, cs, rfl, noPair, run, rfl⟩)
    · exact .inr (.inr piece)

theorem comment?_cases {text : List Char} {k : TriviaKind} {n : Nat}
    (comment : comment? text = some (k, n)) :
    (Comment.lineLength text = some n ∧
        k = if Comment.isDocLine text then .docLineComment else .lineComment) ∨
      (Comment.blockLength text = some n ∧
        k = if Comment.isDocBlock text then .docBlockComment else .blockComment) := by
  unfold comment? at comment
  split at comment
  · rename_i line
    obtain ⟨rfl, rfl⟩ := Prod.mk.inj (Option.some.inj comment)
    exact .inl ⟨line, rfl⟩
  · obtain ⟨m, block, same⟩ := Option.map_eq_some_iff.1 comment
    obtain ⟨rfl, rfl⟩ := Prod.mk.inj same
    exact .inr ⟨block, rfl⟩

theorem comment?_kind {text : List Char} {k : TriviaKind} {n : Nat}
    (comment : comment? text = some (k, n)) : k.isComment = true := by
  rcases comment?_cases comment with ⟨_, rfl⟩ | ⟨_, rfl⟩
  · split <;> rfl
  · split <;> rfl

theorem not_counted_of_comment {k : TriviaKind} (comment : k.isComment = true) :
    k.isCounted = false := by
  cases k <;> first | rfl | cases comment

theorem piece?_uniform {text : List Char} {k : TriviaKind} {n : Nat}
    (piece : piece? text = some (k, n)) :
    TriviaPiece.Uniform ⟨k, String.ofList (text.take n)⟩ := by
  rcases piece?_cases piece with ⟨rfl, rfl, _⟩ | ⟨c, cs, rfl, _, run, rfl⟩ | comment
  · rw [take_pairRun]
    exact uniform_of_run fun _ => rfl
  · rw [take_charRun, ← unit_of_runKind run]
    exact uniform_of_run fun _ => rfl
  · intro counted
    have other : k.isCounted = false := not_counted_of_comment (comment?_kind comment)
    exact absurd counted (by simp [other])

/-- A run ends where its unit does not come once more. -/
theorem piece?_maximal {text : List Char} {k : TriviaKind} {n : Nat}
    (piece : piece? text = some (k, n)) (counted : k.isCounted = true) :
    ¬ k.unit <+: text.drop n := by
  rcases piece?_cases piece with ⟨rfl, rfl, _⟩ | ⟨c, cs, rfl, _, run, rfl⟩ | comment
  · exact pairRun_maximal text
  · rw [unit_of_runKind run]
    exact charRun_maximal c (c :: cs)
  · rw [not_counted_of_comment (comment?_kind comment)] at counted
    cases counted

theorem piece?_pos {text : List Char} {k : TriviaKind} {n : Nat}
    (piece : piece? text = some (k, n)) : 0 < n := by
  rcases piece?_cases piece with ⟨_, _, positive⟩ | ⟨c, cs, rfl, _, _, rfl⟩ | comment
  · exact positive
  · rw [charRun_cons]
    exact Nat.succ_pos _
  · rcases comment?_cases comment with ⟨line, _⟩ | ⟨block, _⟩
    · obtain ⟨_, _, rfl⟩ := Comment.lineLength_eq_some.1 line
      exact Nat.succ_pos _
    · obtain ⟨_, _, _, _, rfl⟩ := Comment.blockLength_eq_some.1 block
      exact Nat.succ_pos _

end Trivia

/-! ## Comments -/

namespace TriviaKind

def isLineComment : TriviaKind → Bool
  | lineComment | docLineComment => true
  | _ => false

def isBlockComment : TriviaKind → Bool
  | blockComment | docBlockComment => true
  | _ => false

def isDocComment : TriviaKind → Bool
  | docLineComment | docBlockComment => true
  | _ => false

theorem isComment_eq (k : TriviaKind) : k.isComment = (k.isLineComment || k.isBlockComment) := by
  cases k <;> rfl

end TriviaKind

namespace Comment

/-- A text opens as documentation does: with three slashes, or with a slash and two stars
that no slash follows. -/
def OpensDoc (text : List Char) : Prop :=
  ['/', '/', '/'] <+: text ∨ (['/', '*', '*'] <+: text ∧ ¬ ['/', '*', '*', '/'] <+: text)

theorem isDocLine_iff {text : List Char} : isDocLine text = true ↔ ['/', '/', '/'] <+: text := by
  unfold isDocLine
  split
  · simp
  · rename_i other
    simp only [Bool.false_eq_true, false_iff]
    rintro ⟨rest, rfl⟩
    exact other rest rfl

theorem isDocBlock_iff {text : List Char} :
    isDocBlock text = true ↔ ['/', '*', '*'] <+: text ∧ ¬ ['/', '*', '*', '/'] <+: text := by
  unfold isDocBlock
  split
  · simp
  · rename_i closed
    simp only [true_iff]
    refine ⟨by simp, ?_⟩
    rintro ⟨rest, same⟩
    exact closed rest (by simpa using same.symm)
  · rename_i other
    simp only [Bool.false_eq_true, false_iff]
    rintro ⟨⟨rest, rfl⟩, _⟩
    exact other rest rfl

/-- A block comment ends at the first place where it may. -/
theorem closingLength_first {cs : List Char} {n : Nat} (h : closingLength cs = some n) :
    ∃ inside, cs.take n = inside ++ ['*', '/'] ∧ ¬ ['*', '/'] <:+: inside ++ ['*'] := by
  fun_induction closingLength cs generalizing n with
  | case1 => cases h
  | case2 cs =>
    obtain rfl : 2 = n := by simpa using h
    exact ⟨[], rfl, by decide⟩
  | case3 c cs apart ih =>
    obtain ⟨m, rest, rfl⟩ := Option.map_eq_some_iff.1 h
    obtain ⟨inside, taken, first⟩ := ih rest
    refine ⟨c :: inside, by rw [List.take_succ_cons, taken, List.cons_append], ?_⟩
    rw [List.cons_append, List.infix_cons_iff]
    rintro (here | later)
    · -- It would have ended at `c`.
      obtain ⟨rfl, next⟩ := List.cons_prefix_cons.1 here
      have slash : ['/'] <+: cs.take m := by
        rw [taken]
        rcases inside with _ | ⟨d, inside⟩
        · exact absurd next (by decide)
        · obtain ⟨rfl, _⟩ := List.cons_prefix_cons.1 next
          exact ⟨_, rfl⟩
      obtain ⟨ds, rfl⟩ := slash.trans (List.take_prefix m cs)
      exact apart ds rfl rfl
    · exact first later

theorem lineLength_formed {text : List Char} {n : Nat} (line : lineLength text = some n) :
    ['/', '/'] <+: text.take n ∧ '\r' ∉ text.take n ∧ '\n' ∉ text.take n := by
  obtain ⟨cs, rfl, rfl⟩ := lineLength_eq_some.1 line
  have inline : ∀ c ∈ cs.takeWhile isInline, isInline c = true :=
    List.all_eq_true.1 List.all_takeWhile
  rw [List.take_succ_cons, List.take_succ_cons, Lexeme.take_length_takeWhile]
  refine ⟨⟨_, rfl⟩, ?_, ?_⟩
  · simpa using fun mem => absurd (inline _ mem) (by decide)
  · simpa using fun mem => absurd (inline _ mem) (by decide)

theorem blockLength_formed {text : List Char} {n : Nat} (block : blockLength text = some n) :
    ∃ inside, text.take n = ['/', '*'] ++ inside ++ ['*', '/'] ∧
      ¬ ['*', '/'] <:+: inside ++ ['*'] := by
  obtain ⟨cs, m, rfl, closed, rfl⟩ := blockLength_eq_some.1 block
  obtain ⟨inside, taken, first⟩ := closingLength_first closed
  exact ⟨inside, by rw [List.take_succ_cons, List.take_succ_cons, taken]; rfl, first⟩

/-- A line comment opens as the text from it on does. -/
theorem opensDoc_line {text : List Char} {n : Nat} (line : lineLength text = some n) :
    OpensDoc (text.take n) ↔ isDocLine text = true := by
  obtain ⟨cs, rfl, rfl⟩ := lineLength_eq_some.1 line
  have third : ['/'] <+: cs.takeWhile isInline ↔ ['/'] <+: cs := by
    constructor
    · exact fun opens => opens.trans (List.takeWhile_prefix _)
    · rintro ⟨rest, rfl⟩
      exact ⟨_, rfl⟩
  rw [isDocLine_iff, OpensDoc, List.take_succ_cons, List.take_succ_cons,
    Lexeme.take_length_takeWhile]
  simpa [List.cons_prefix_cons] using third

/-- A block comment opens as the text from it on does: it has four characters at least. -/
theorem opensDoc_block {text : List Char} {n : Nat} (block : blockLength text = some n) :
    OpensDoc (text.take n) ↔ isDocBlock text = true := by
  obtain ⟨cs, m, rfl, closed, rfl⟩ := blockLength_eq_some.1 block
  have wide : 4 ≤ m + 2 := Nat.add_le_add_right (closingLength_bounds closed).1 2
  have three : ['/', '*', '*'].length ≤ m + 2 := Nat.le_of_succ_le wide
  have four : ['/', '*', '*', '/'].length ≤ m + 2 := wide
  have noLine : ¬ ['/', '/', '/'] <+: '/' :: '*' :: cs := by simp [List.cons_prefix_cons]
  rw [isDocBlock_iff, OpensDoc]
  simp only [List.prefix_take_iff, three, four, noLine, false_and, false_or, and_true]

end Comment

/-! ## Formed pieces -/

/-- A piece is formed as its kind says. -/
structure TriviaPiece.Formed (q : TriviaPiece) : Prop where
  nonempty : q.text ≠ ""
  /-- What is counted is so many times its unit. -/
  uniform : q.Uniform
  line : q.kind.isLineComment = true →
    ['/', '/'] <+: q.text.toList ∧ '\r' ∉ q.text.toList ∧ '\n' ∉ q.text.toList
  /-- A block comment ends at the first place where it may. -/
  block : q.kind.isBlockComment = true → ∃ inside,
    q.text.toList = ['/', '*'] ++ inside ++ ['*', '/'] ∧ ¬ ['*', '/'] <:+: inside ++ ['*']
  doc : q.kind.isComment = true →
    (q.kind.isDocComment = true ↔ Comment.OpensDoc q.text.toList)

namespace Trivia

/-- Text that is no comment has no form but that of its run. -/
theorem formed_plain {k : TriviaKind} {text : String} (noComment : k.isComment = false)
    (nonempty : text ≠ "") (uniform : TriviaPiece.Uniform ⟨k, text⟩) :
    TriviaPiece.Formed ⟨k, text⟩ := by
  obtain ⟨noLine, noBlock⟩ := Bool.or_eq_false_iff.1 (k.isComment_eq.symm.trans noComment)
  refine ⟨nonempty, uniform, fun line => ?_, fun block => ?_, fun comment => ?_⟩
  · exact absurd line (by simp [noLine])
  · exact absurd block (by simp [noBlock])
  · exact absurd comment (by simp [noComment])

theorem formed_unexpected {text : String} (nonempty : text ≠ "") :
    TriviaPiece.Formed ⟨.unexpectedText, text⟩ :=
  formed_plain rfl nonempty (by rintro ⟨⟩)

theorem noComment_of_runKind {c : Char} {k : TriviaKind} (run : runKind? c = some k) :
    k.isComment = false := by
  have unit := unit_of_runKind run
  cases k <;> first | rfl | cases unit

theorem ofList_take_ne {text : List Char} {n : Nat} (nonempty : text ≠ []) (positive : 0 < n) :
    String.ofList (text.take n) ≠ "" := by
  intro empty
  have none : text.take n = [] := by
    rw [← String.toList_ofList (l := text.take n), empty]
    rfl
  rcases List.take_eq_nil_iff.1 none with zero | nil
  · omega
  · exact nonempty nil

theorem comment?_formed {text : List Char} {k : TriviaKind} {n : Nat}
    (comment : comment? text = some (k, n)) (nonempty : String.ofList (text.take n) ≠ "") :
    TriviaPiece.Formed ⟨k, String.ofList (text.take n)⟩ := by
  have uniform : TriviaPiece.Uniform ⟨k, String.ofList (text.take n)⟩ := by
    intro counted
    have other : k.isCounted = false := not_counted_of_comment (comment?_kind comment)
    exact absurd counted (by simp [other])
  rcases comment?_cases comment with ⟨line, rfl⟩ | ⟨block, rfl⟩
  · refine ⟨nonempty, uniform, fun _ => ?_, fun isBlock => ?_, fun _ => ?_⟩
    · rw [String.toList_ofList]
      exact Comment.lineLength_formed line
    · split at isBlock
      · cases isBlock
      · cases isBlock
    · rw [String.toList_ofList, Comment.opensDoc_line line]
      split
      · rename_i doc
        exact iff_of_true rfl doc
      · rename_i plain
        exact iff_of_false Bool.false_ne_true plain
  · refine ⟨nonempty, uniform, fun isLine => ?_, fun _ => ?_, fun _ => ?_⟩
    · split at isLine
      · cases isLine
      · cases isLine
    · rw [String.toList_ofList]
      exact Comment.blockLength_formed block
    · rw [String.toList_ofList, Comment.opensDoc_block block]
      split
      · rename_i doc
        exact iff_of_true rfl doc
      · rename_i plain
        exact iff_of_false Bool.false_ne_true plain

/-- The piece at the start of a text is formed as its kind says. -/
theorem piece?_formed {text : List Char} {k : TriviaKind} {n : Nat}
    (piece : piece? text = some (k, n)) :
    TriviaPiece.Formed ⟨k, String.ofList (text.take n)⟩ := by
  have some : text ≠ [] := by
    rintro rfl
    cases piece
  have nonempty := ofList_take_ne some (piece?_pos piece)
  rcases piece?_cases piece with ⟨rfl, _, _⟩ | ⟨c, cs, rfl, _, run, _⟩ | comment
  · exact formed_plain rfl nonempty (piece?_uniform piece)
  · exact formed_plain (noComment_of_runKind run) nonempty (piece?_uniform piece)
  · exact comment?_formed comment nonempty

/-! ## All pieces -/

section All

variable {P : TriviaPiece → Prop}

/-- What holds of unexpected text and of what is in front of it holds of both. -/
theorem consUnexpected_forall (stray : ∀ text : String, text ≠ "" → P ⟨.unexpectedText, text⟩)
    {text : List Char} (nonempty : text ≠ []) {qs : List TriviaPiece} (all : ∀ q ∈ qs, P q) :
    ∀ q ∈ consUnexpected text qs, P q := by
  intro q mem
  have joins := joins_consUnexpected text qs
  generalize consUnexpected text qs = qs' at joins mem
  cases joins with
  | alone =>
    rcases List.mem_cons.1 mem with rfl | mem
    · apply stray
      intro empty
      exact nonempty (by simpa using congrArg String.toList empty)
    · exact all q mem
  | first next qs =>
    rcases List.mem_cons.1 mem with rfl | mem
    · apply stray
      intro empty
      have none := congrArg String.toList empty
      rw [String.toList_append, String.toList_ofList] at none
      exact nonempty (List.append_eq_nil_iff.1 none).1
    · exact all q (List.mem_cons_of_mem _ mem)

/-- A property of unexpected text and of the piece at the start of a text is one of all
pieces. -/
theorem split_forall (stray : ∀ text : String, text ≠ "" → P ⟨.unexpectedText, text⟩)
    (here : ∀ {text k n}, piece? text = some (k, n) → P ⟨k, String.ofList (text.take n)⟩)
    (dropped : Dropped) (offset : Int) (text : List Char) :
    ∀ q ∈ split dropped offset text, P q := by
  fun_induction split dropped offset text with
  | case1 => simp
  | case2 offset c cs n _ ih => exact consUnexpected_forall stray (by simp) ih
  | case3 offset c cs kind n piece _ ih =>
    intro q mem
    rcases List.mem_cons.1 mem with rfl | mem
    · exact here piece
    · exact ih q mem
  | case4 offset c cs _ _ ih => exact consUnexpected_forall stray (by simp) ih

end All

theorem split_formed (dropped : Dropped) (offset : Int) (text : List Char) :
    ∀ q ∈ split dropped offset text, q.Formed :=
  split_forall (fun _ => formed_unexpected) piece?_formed dropped offset text

/-- A gap is cut into pieces of one kind each. -/
theorem split_uniform (dropped : Dropped) (offset : Int) (text : List Char) :
    ∀ q ∈ split dropped offset text, q.Uniform :=
  fun q mem => (split_formed dropped offset text q mem).uniform

end Trivia

/-! ## Pieces side by side -/

/-- Two pieces side by side that could not be one. Runs of one kind could, and unexpected
text. -/
def TriviaPiece.Apart (q r : TriviaPiece) : Prop :=
  q.kind = r.kind → q.kind.isCounted = false ∧ q.kind ≠ .unexpectedText

theorem TriviaPiece.Formed.unit_prefix {q : TriviaPiece} (formed : q.Formed)
    (counted : q.kind.isCounted = true) : q.kind.unit <+: q.text.toList := by
  have run := formed.uniform counted
  generalize q.count = n at run
  cases n with
  | zero => exact absurd (String.toList_inj.1 run) formed.nonempty
  | succ n =>
    rw [run, List.replicate_succ, List.flatten_cons]
    exact List.prefix_append _ _

namespace Trivia

theorem not_unexpected_of_piece? {text : List Char} {k : TriviaKind} {n : Nat}
    (piece : piece? text = some (k, n)) : k ≠ .unexpectedText := by
  rintro rfl
  rcases piece?_cases piece with ⟨same, _⟩ | ⟨c, cs, _, _, run, _⟩ | comment
  · cases same
  · cases unit_of_runKind run
  · cases comment?_kind comment

/-- The piece at the start of a text could not be one with the next piece. -/
theorem piece?_apart {text : List Char} {k : TriviaKind} {n : Nat}
    (piece : piece? text = some (k, n)) (dropped : Dropped) (offset : Int) (here : String) :
    ∀ r ∈ (split dropped offset (text.drop n)).head?, TriviaPiece.Apart ⟨k, here⟩ r := by
  intro r mem same
  refine ⟨Bool.eq_false_iff.2 fun counted => ?_, not_unexpected_of_piece? piece⟩
  obtain ⟨rs, pieces⟩ := List.head?_eq_some_iff.1 mem
  have formed := split_formed dropped offset (text.drop n) r (by simp [pieces])
  have front : r.text.toList <+: text.drop n := by
    rw [← toList_split dropped offset (text.drop n), toList_triviaText, pieces, List.flatMap_cons]
    exact List.prefix_append _ _
  have once := formed.unit_prefix (same ▸ counted)
  rw [← same] at once
  exact piece?_maximal piece counted (once.trans front)

/-- Unexpected text in front of pieces joins the first or is apart from it. -/
theorem consUnexpected_apart (text : List Char) {qs : List TriviaPiece}
    (apart : qs.IsChain TriviaPiece.Apart) : (consUnexpected text qs).IsChain TriviaPiece.Apart := by
  unfold consUnexpected
  split
  · rename_i next rest
    rw [List.isChain_cons] at apart ⊢
    exact apart
  · rename_i other
    rw [List.isChain_cons]
    refine ⟨fun r mem same => ?_, apart⟩
    obtain ⟨rs, rfl⟩ := List.head?_eq_some_iff.1 mem
    obtain ⟨kind, text'⟩ := r
    obtain rfl : TriviaKind.unexpectedText = kind := same
    exact absurd rfl (other text' rs)

theorem split_apart (dropped : Dropped) (offset : Int) (text : List Char) :
    (split dropped offset text).IsChain TriviaPiece.Apart := by
  fun_induction split dropped offset text with
  | case1 => exact .nil
  | case2 offset c cs n _ ih => exact consUnexpected_apart _ ih
  | case3 offset c cs kind n piece _ ih =>
    rw [List.isChain_cons]
    exact ⟨piece?_apart piece dropped _ _, ih⟩
  | case4 offset c cs _ _ ih => exact consUnexpected_apart _ ih

/-! ## The way through a gap -/

theorem end?_forward {dropped : Dropped} (forward : ∀ d ∈ dropped, d.1 < d.2) {offset stop : Int}
    (found : dropped.end? offset = some stop) : offset < stop := by
  obtain ⟨d, first, rfl⟩ := Option.map_eq_some_iff.1 found
  have mem := List.mem_of_find?_eq_some first
  have start := List.find?_some first
  rw [← eq_of_beq start]
  exact forward d (List.mem_reverse.1 mem)

theorem revisit_end (dropped : Dropped) (base : Int) {gap : List Char} (steps : Nat) {here : Int}
    (done : gap.length ≤ here) : revisit dropped base gap steps here = [] := by
  cases steps with
  | zero => rfl
  | succ steps => rw [revisit, if_pos done]

/-- Where every dropped token ends behind its start, the way through a gap only leads
forward. It comes to the end of the gap in as many steps as there are characters left. -/
theorem revisit_eq_split {dropped : Dropped} (forward : ∀ d ∈ dropped, d.1 < d.2) (base : Int)
    (gap : List Char) {steps here : Nat} (enough : gap.length ≤ here + steps) :
    revisit dropped base gap steps here = split dropped (base + here) (gap.drop here) := by
  induction steps generalizing here with
  | zero =>
    have done : gap.drop here = [] := List.drop_eq_nil_of_le enough
    rw [done, split, revisit]
  | succ steps ih =>
    rcases ahead : gap.drop here with _ | ⟨c, cs⟩
    · rw [revisit_end dropped base _ (Int.ofNat_le.2 (List.drop_eq_nil_iff.1 ahead)), split]
    have inside : here < gap.length := by
      rw [← Nat.not_le, ← List.drop_eq_nil_iff, ahead]
      exact List.cons_ne_nil c cs
    -- Whatever is read here, the way goes on behind it.
    have later : ∀ n : Nat, revisit dropped base gap steps (here + (n + 1 : Nat)) =
        split dropped (base + here + (n + 1)) (cs.drop n) := by
      intro n
      have behind : gap.drop (here + (n + 1)) = cs.drop n := by
        rw [← List.drop_drop, ahead, List.drop_succ_cons]
      have next : revisit dropped base gap steps (here + (n + 1) : Nat) = _ := ih (by omega)
      rw [behind, Int.natCast_add, ← Int.add_assoc] at next
      exact next
    rw [revisit, if_neg (by omega), split, Int.toNat_natCast, ahead]
    rcases found : dropped.end? (base + here) with _ | stop
    · rcases piece : piece? (c :: cs) with _ | ⟨k, n⟩
      · have start : Text.offsetWithin gap.length here = here := by simp [Text.offsetWithin]
        simp only [piece, Option.map_none, start, ahead]
        exact congrArg (consUnexpected [c]) (later 0)
      · obtain ⟨m, rfl⟩ := Nat.exists_eq_add_one.2 (piece?_pos piece)
        simp only [piece, Option.map_none]
        rw [later m]
    · have after := end?_forward forward found
      obtain ⟨n, rfl⟩ : ∃ n : Nat, stop = base + here + (n + 1) :=
        ⟨(stop - (base + here) - 1).toNat, by omega⟩
      have width : (base + here + (n + 1) - (base + here)).toNat = n + 1 := by omega
      have next : min (base + here + (n + 1) - base) (gap.length : Int) =
          (min (here + (n + 1)) gap.length : Nat) := by omega
      have length : (c :: cs).length = gap.length - here := by rw [← ahead, List.length_drop]
      simp only [Option.map_some, width, next, slice_eq_between, between, ahead]
      rcases Nat.le_total (here + (n + 1)) gap.length with le | ge
      · rw [Nat.min_eq_left le, Nat.add_sub_cancel_left, Int.natCast_add, later n]
      · -- A token that ends behind the gap takes all that is left of it.
        have all : (c :: cs).take (n + 1) = c :: cs := List.take_of_length_le (by omega)
        have rest : cs.drop n = [] := by
          rw [← List.drop_succ_cons (a := c)]
          exact List.drop_eq_nil_of_le (by omega)
        rw [Nat.min_eq_right ge, revisit_end dropped base _ (Int.le_refl _), ← length,
          List.take_length, all, rest, split]

theorem cut_eq_split {dropped : Dropped} (forward : ∀ d ∈ dropped, d.1 < d.2) (base : Int)
    (gap : List Char) : cut dropped base gap = split dropped base gap :=
  if_pos (List.all_eq_true.2 fun d hd => decide_eq_true (forward d hd))

end Trivia

/-! ## Canonical pieces -/

/-- Pieces that part a text in a canonical way. -/
structure Canonical (text : List Char) (pieces : List TriviaPiece) : Prop where
  whole : (triviaText pieces).toList = text
  formed : ∀ q ∈ pieces, q.Formed
  apart : pieces.IsChain TriviaPiece.Apart

/-- Where every dropped token ends behind its start, a gap is cut into canonical pieces, and
as many steps as it has characters are enough for that. -/
theorem cut_canonical {dropped : Trivia.Dropped} (forward : ∀ d ∈ dropped, d.1 < d.2) (base : Int)
    (gap : List Char) :
    Canonical gap (Trivia.cut dropped base gap) ∧
      ∀ steps, gap.length ≤ steps →
        Trivia.revisit dropped base gap steps 0 = Trivia.cut dropped base gap := by
  rw [Trivia.cut_eq_split forward]
  constructor
  · exact ⟨toList_split dropped base gap, Trivia.split_formed dropped base gap,
      Trivia.split_apart dropped base gap⟩
  · intro steps enough
    have way : Trivia.revisit dropped base gap steps (0 : Nat) = _ :=
      Trivia.revisit_eq_split forward base gap (by omega)
    simpa using way

/-- A dropped token joins the stray character in front of it, and runs of line ends are cut
by their kinds. -/
theorem cut_canonical_of_dropped :
    Canonical "$+ \r\n\n/**/".toList (Trivia.cut [(11, 12)] 10 "$+ \r\n\n/**/".toList) ∧
      Trivia.cut [(11, 12)] 10 "$+ \r\n\n/**/".toList =
        [⟨.unexpectedText, "$+"⟩, ⟨.spaces, " "⟩, ⟨.carriageReturnLineFeeds, "\r\n"⟩,
          ⟨.newlines, "\n"⟩, ⟨.blockComment, "/**/"⟩] := by
  have forward : ∀ d ∈ ([(11, 12)] : Trivia.Dropped), d.1 < d.2 := by decide
  obtain ⟨canonical, way⟩ := cut_canonical forward 10 "$+ \r\n\n/**/".toList
  refine ⟨canonical, ?_⟩
  rw [← way 10 (by decide)]
  decide

end SyntaxAtlas
