-- Gaps: what reading passes over. A gap is a comment or a run of blanks, and what is
-- wanted makes no difference to it. Nothing that is read is longer than the text.

import SyntaxAtlas.Proofs.Words

namespace SyntaxAtlas

theorem Lexeme.length_takeWhile_of_append {p : Char → Bool} {text behind : List Char}
    (lt : ((text ++ behind).takeWhile p).length ≤ text.length) :
    (text.takeWhile p).length = ((text ++ behind).takeWhile p).length := by
  rw [List.takeWhile_append] at lt ⊢
  split
  · rename_i all
    rw [if_pos all, List.length_append] at lt
    rw [all, List.length_append]
    omega
  · rfl

/-! ## Comments -/

namespace Comment

/-- The length of the comment that a text starts with. -/
def length? (text : List Char) : Option Nat := blockLength text <|> lineLength text

theorem closingLength_bounds {cs : List Char} {n : Nat} (h : closingLength cs = some n) :
    2 ≤ n ∧ n ≤ cs.length := by
  fun_induction closingLength cs generalizing n with
  | case1 => cases h
  | case2 cs =>
    obtain rfl : 2 = n := by simpa using h
    simp
  | case3 c cs _ ih =>
    obtain ⟨m, rest, rfl⟩ := Option.map_eq_some_iff.1 h
    have := ih rest
    simp only [List.length_cons]
    omega

theorem closingLength_cons {c : Char} {cs : List Char} (apart : c = '*' → cs.head? ≠ some '/') :
    closingLength (c :: cs) = (closingLength cs).map (· + 1) := by
  rw [closingLength]
  rintro rest rfl rfl
  exact apart rfl rfl

theorem closingLength_append {cs : List Char} (behind : List Char) {n : Nat}
    (h : closingLength cs = some n) : closingLength (cs ++ behind) = some n := by
  fun_induction closingLength cs generalizing n with
  | case1 => cases h
  | case2 cs => exact h
  | case3 c cs apart ih =>
    obtain ⟨m, rest, rfl⟩ := Option.map_eq_some_iff.1 h
    rw [List.cons_append, closingLength_cons, ih rest, Option.map_some]
    cases cs with
    | nil => cases rest
    | cons d ds =>
      rintro rfl head
      obtain rfl := Option.some.inj head
      exact apart ds rfl rfl

/-- A comment's end is found without the text behind it. -/
theorem closingLength_of_append {cs behind : List Char} {n : Nat}
    (h : closingLength (cs ++ behind) = some n) (le : n ≤ cs.length) :
    closingLength cs = some n := by
  induction cs generalizing n with
  | nil =>
    have := (closingLength_bounds h).1
    simp only [List.length_nil] at le
    omega
  | cons c cs ih =>
    rw [List.cons_append] at h
    by_cases closes : c = '*' ∧ (cs ++ behind).head? = some '/'
    · obtain ⟨rfl, head⟩ := closes
      cases cs with
      | nil =>
        obtain ⟨ds, rfl⟩ := List.head?_eq_some_iff.1 head
        obtain rfl : 2 = n := by simpa [closingLength] using h
        simp at le
      | cons d ds =>
        obtain rfl := Option.some.inj head
        exact h
    · rw [closingLength_cons fun star head => closes ⟨star, head⟩] at h
      obtain ⟨m, rest, rfl⟩ := Option.map_eq_some_iff.1 h
      simp only [List.length_cons] at le
      rw [closingLength_cons, ih rest (by omega), Option.map_some]
      rintro rfl head
      obtain ⟨ds, rfl⟩ := List.head?_eq_some_iff.1 head
      exact closes ⟨rfl, rfl⟩

theorem blockLength_eq_some {text : List Char} {n : Nat} :
    blockLength text = some n ↔
      ∃ cs m, text = '/' :: '*' :: cs ∧ closingLength cs = some m ∧ n = m + 2 := by
  unfold blockLength
  split
  · rename_i cs
    simp only [Option.map_eq_some_iff]
    constructor
    · rintro ⟨m, closed, rfl⟩
      exact ⟨cs, m, rfl, closed, rfl⟩
    · rintro ⟨_, m, ⟨⟩, closed, rfl⟩
      exact ⟨m, closed, rfl⟩
  · rename_i other
    simp only [reduceCtorEq, false_iff]
    rintro ⟨cs, _, rfl, _⟩
    exact other cs rfl

theorem lineLength_eq_some {text : List Char} {n : Nat} :
    lineLength text = some n ↔
      ∃ cs, text = '/' :: '/' :: cs ∧ n = (cs.takeWhile isInline).length + 2 := by
  unfold lineLength
  split
  · rename_i cs
    simp only [Option.some.injEq]
    constructor
    · rintro rfl
      exact ⟨cs, rfl, rfl⟩
    · rintro ⟨_, ⟨⟩, rfl⟩
      rfl
  · rename_i other
    simp only [reduceCtorEq, false_iff]
    rintro ⟨cs, rfl, _⟩
    exact other cs rfl

theorem length?_eq_some {text : List Char} {n : Nat} :
    length? text = some n ↔ blockLength text = some n ∨ lineLength text = some n := by
  rw [length?, Option.orElse_eq_orElse, Option.orElse_eq_or, Option.or_eq_some_iff]
  refine or_congr_right ⟨fun h => h.2, fun h => ⟨?_, h⟩⟩
  obtain ⟨cs, rfl, _⟩ := lineLength_eq_some.1 h
  rfl

theorem length?_eq_none {text : List Char} :
    length? text = none ↔ blockLength text = none ∧ lineLength text = none := by
  simp [length?]

theorem length?_bounds {text : List Char} {n : Nat} (h : length? text = some n) :
    2 ≤ n ∧ n ≤ text.length := by
  rcases length?_eq_some.1 h with block | line
  · obtain ⟨cs, m, rfl, closed, rfl⟩ := blockLength_eq_some.1 block
    have := (closingLength_bounds closed).2
    simp only [List.length_cons]
    omega
  · obtain ⟨cs, rfl, rfl⟩ := lineLength_eq_some.1 line
    have := (List.takeWhile_sublist (p := isInline) (l := cs)).length_le
    simp only [List.length_cons]
    omega

/-- A comment is found without the text behind it. -/
theorem length?_of_append {text behind : List Char} {n : Nat}
    (h : length? (text ++ behind) = some n) (le : n ≤ text.length) : length? text = some n := by
  have bounds := (length?_bounds h).1
  obtain ⟨c, d, cs, rfl⟩ : ∃ c d cs, text = c :: d :: cs := by
    rcases text with _ | ⟨c, _ | ⟨d, cs⟩⟩
    · simp at le; omega
    · simp at le; omega
    · exact ⟨c, d, cs, rfl⟩
  simp only [List.length_cons] at le
  refine length?_eq_some.2 ((length?_eq_some.1 h).imp (fun block => ?_) fun line => ?_)
  · obtain ⟨_, m, ⟨⟩, closed, rfl⟩ := blockLength_eq_some.1 block
    exact blockLength_eq_some.2 ⟨cs, m, rfl, closingLength_of_append closed (by omega), rfl⟩
  · obtain ⟨_, ⟨⟩, rfl⟩ := lineLength_eq_some.1 line
    refine lineLength_eq_some.2 ⟨cs, rfl, ?_⟩
    have inside : (cs.takeWhile isInline).length = ((cs ++ behind).takeWhile isInline).length :=
      Lexeme.length_takeWhile_of_append (Nat.le_of_add_le_add_right le)
    rw [inside]
    rfl

/-- Text behind does not take a comment away. -/
theorem length?_none_of_append {text behind : List Char} (h : length? (text ++ behind) = none) :
    length? text = none := by
  obtain ⟨noBlock, noLine⟩ := length?_eq_none.1 h
  rw [Option.eq_none_iff_forall_ne_some] at noBlock noLine ⊢
  intro n found
  rcases length?_eq_some.1 found with block | line
  · obtain ⟨cs, m, rfl, closed, rfl⟩ := blockLength_eq_some.1 block
    exact noBlock _ (blockLength_eq_some.2 ⟨_, m, rfl, closingLength_append behind closed, rfl⟩)
  · obtain ⟨cs, rfl, _⟩ := lineLength_eq_some.1 line
    exact noLine _ (lineLength_eq_some.2 ⟨_, rfl, rfl⟩)

end Comment

namespace Lexeme

/-! ## Blanks -/

theorem blankLength_eq_some {text : List Char} {n : Nat} :
    blankLength text = some n ↔ n ≠ 0 ∧ (text.takeWhile isBlank).length = n := by
  unfold blankLength
  split
  · rename_i none
    simp [none]
    omega
  · rename_i m some
    simp only [Option.some.injEq]
    constructor
    · rintro rfl
      exact ⟨some, rfl⟩
    · exact fun h => h.2

/-! ## Gaps -/

/-- The characters that start no lexeme: the blanks, the backslash and the pound. -/
def silent : List Char := [' ', '\t', '\r', '\n', '\x0b', '\x0c', '\\', '#']

theorem mem_silent_of_isBlank {c : Char} (blank : isBlank c = true) : c ∈ silent := by
  simp only [isBlank, Bool.or_eq_true, beq_iff_eq] at blank
  have vertical : c.toNat = 0x0b → c = '\x0b' := fun same => Char.toNat_inj.1 same
  have formfeed : c.toNat = 0x0c → c = '\x0c' := fun same => Char.toNat_inj.1 same
  simp only [silent, List.mem_cons, List.not_mem_nil, or_false]
  tauto

/-- A text that starts with such a character is a run of blanks, or nothing at all. -/
theorem scan_silent {w : Wanted} {c : Char} {cs : List Char} (quiet : c ∈ silent) :
    scan w (c :: cs) = (blankLength (c :: cs)).map (none, ·) := by
  have apart : silent.all (fun d => !Text.isDecimalDigit d && !isOperatorPart d && d != '.' &&
      d != '"' && !isWordStart d) = true := by decide
  have spelled : Terminal.lexical.all (fun t => t.fixedText?.all fun s =>
      s.toList.head?.any (!silent.contains ·)) = true := by decide +kernel
  have others := List.all_eq_true.1 apart c quiet
  simp only [Bool.and_eq_true, Bool.not_eq_true', bne_iff_ne] at others
  obtain ⟨⟨⟨⟨digit, operator⟩, point⟩, quote⟩, word⟩ := others
  have noWord : identifierLength (c :: cs) = none := by simp [identifierLength, word]
  have noSpelling : longestFixed w (c :: cs) = none := by
    rw [Option.eq_none_iff_forall_ne_some]
    rintro ⟨t, n⟩ found
    obtain ⟨fixed, length, _⟩ := longestFixed_eq_some found
    have lexical := (List.mem_filter.1 fixed).1
    rcases spelling : t.fixedText? with _ | s
    · simp [fixedLength, spelling] at length
    · obtain ⟨starts, _⟩ := (fixedLength_eq_some spelling).1 length
      have known := List.all_eq_true.1 spelled t lexical
      rw [spelling, Option.all_some] at known
      rcases text : s.toList with _ | ⟨d, ds⟩
      · simp [text] at known
      · rw [text] at starts
        obtain rfl := (List.cons_prefix_cons.1 starts).1
        simp [text, quiet] at known
  rw [scan_plain digit operator point quote, noSpelling]
  simp [scanClass, noWord]

/-- A gap is a comment or a run of blanks, whatever is wanted. -/
theorem scan_gap {w : Wanted} {text : List Char} {n : Nat} :
    scan w text = some (none, n) ↔
      Comment.length? text = some n ∨ Comment.length? text = none ∧ blankLength text = some n := by
  constructor
  · intro h
    simp only [scan, Option.orElse_eq_orElse, Option.orElse_eq_or, Option.or_eq_some_iff,
      Option.map_eq_some_iff, Option.map_eq_none_iff, Prod.mk.injEq, true_and] at h
    rcases h with ⟨_, block, rfl⟩ | ⟨noBlock, ⟨_, line, rfl⟩ | ⟨noLine, found | ⟨_, found |
      ⟨_, found | ⟨_, found | ⟨_, found | ⟨_, ⟨_, blank, rfl⟩ | ⟨_, _, _, gap, _⟩⟩⟩⟩⟩⟩⟩⟩
    · exact .inl (Comment.length?_eq_some.2 (.inl block))
    · exact .inl (Comment.length?_eq_some.2 (.inr line))
    · cases (scanClass_eq_some found).2.2
    · cases (scanClass_eq_some found).2.2
    · cases (scanClass_eq_some found).2.2
    · cases (scanClass_eq_some found).2.2
    · cases (scanClass_eq_some found).2.2
    · exact .inr ⟨Comment.length?_eq_none.2 ⟨noBlock, noLine⟩, blank⟩
    · cases gap
  · rintro (comment | ⟨_, blank⟩)
    · rcases Comment.length?_eq_some.1 comment with block | line
      · simp [scan, block]
      · obtain ⟨cs, rfl, _⟩ := Comment.lineLength_eq_some.1 line
        simp [scan, line, Comment.blockLength]
    · obtain ⟨positive, run⟩ := blankLength_eq_some.1 blank
      cases text with
      | nil => exact absurd run.symm positive
      | cons c cs =>
        have quiet : c ∈ silent := by
          refine mem_silent_of_isBlank (Classical.byContradiction fun loud => positive ?_)
          rw [← run, List.takeWhile_cons_of_neg loud]
          rfl
        rw [scan_silent quiet, blank]
        rfl

/-! ## Nothing is longer than the text -/

theorem takeWhile_le (p : Char → Bool) (cs : List Char) : (cs.takeWhile p).length ≤ cs.length :=
  (List.takeWhile_sublist p).length_le

theorem digitsLength_le {cs : List Char} {n : Nat} (h : digitsLength cs = some n) :
    n ≤ cs.length := by
  unfold digitsLength at h
  split at h
  · rename_i c cs
    split at h
    · obtain rfl := Option.some.inj h
      exact Nat.succ_le_succ (takeWhile_le _ cs)
    · cases h
  · cases h

theorem exponentDigits_le {cs : List Char} {n : Nat} (h : exponentDigits cs = some n) :
    n ≤ cs.length := by
  unfold exponentDigits at h
  split at h
  · cases h
  · obtain rfl := Option.some.inj h
    exact takeWhile_le _ cs

theorem exponentLength_le {cs : List Char} {n : Nat} (h : exponentLength cs = some n) :
    n ≤ cs.length := by
  unfold exponentLength at h
  split at h
  · split at h
    · split at h
      all_goals
        obtain ⟨m, digits, rfl⟩ := Option.map_eq_some_iff.1 h
        have := exponentDigits_le digits
        simp only [List.length_cons]
        omega
    · cases h
  · cases h

theorem fractionLength_le {cs : List Char} {n : Nat} (h : fractionLength cs = some n) :
    n ≤ cs.length := by
  simp only [fractionLength, Option.orElse_eq_orElse, Option.orElse_eq_or,
    Option.or_eq_some_iff] at h
  rcases h with pointed | ⟨_, exponent⟩
  · split at pointed
    · rename_i ds
      obtain ⟨m, digits, rfl⟩ := Option.map_eq_some_iff.1 pointed
      have first := digitsLength_le digits
      have second : (exponentLength (ds.drop m)).getD 0 ≤ (ds.drop m).length := by
        rcases found : exponentLength (ds.drop m) with _ | k
        · exact Nat.zero_le _
        · exact exponentLength_le found
      rw [List.length_drop] at second
      rw [List.length_cons]
      omega
    · cases pointed
  · exact exponentLength_le exponent

theorem floatLength_le {cs : List Char} {n : Nat} (h : floatLength cs = some n) :
    n ≤ cs.length := by
  obtain ⟨m, digits, rest⟩ := Option.bind_eq_some_iff.1 h
  obtain ⟨k, fraction, rfl⟩ := Option.map_eq_some_iff.1 rest
  have := digitsLength_le digits
  have := fractionLength_le fraction
  rw [List.length_drop] at this
  omega

theorem basedLength_le {p : Char → Bool} {cs : List Char} {n : Nat}
    (h : basedLength p cs = some n) : n ≤ cs.length + 2 := by
  unfold basedLength at h
  split at h
  · cases h
  · obtain rfl := Option.some.inj h
    exact Nat.add_le_add_right (takeWhile_le _ cs) 2

theorem integerLength_le {cs : List Char} {n : Nat} (h : integerLength cs = some n) :
    n ≤ cs.length := by
  simp only [integerLength, Option.orElse_eq_orElse, Option.orElse_eq_or,
    Option.or_eq_some_iff] at h
  rcases h with based | ⟨_, digits⟩
  · split at based
    · exact basedLength_le based
    · exact basedLength_le based
    · exact basedLength_le based
    · cases based
  · exact digitsLength_le digits

theorem operatorLength_le {cs : List Char} {n : Nat} (h : operatorLength cs = some n) :
    n ≤ cs.length := by
  unfold operatorLength at h
  split at h
  · obtain rfl := Option.some.inj h
    simp
  · obtain rfl := Option.some.inj h
    simp
  · split at h
    · cases h
    · obtain rfl := Option.some.inj h
      exact takeWhile_le _ cs

theorem identifierLength_le {cs : List Char} {n : Nat} (h : identifierLength cs = some n) :
    n ≤ cs.length := by
  unfold identifierLength at h
  split at h
  · rename_i c cs
    split at h
    · obtain rfl := Option.some.inj h
      exact Nat.succ_le_succ (takeWhile_le _ cs)
    · cases h
  · cases h

theorem stringRest_le {cs : List Char} {n : Nat} (h : stringRest cs = some n) :
    n ≤ cs.length := by
  fun_induction stringRest cs generalizing n with
  | case1 => cases h
  | case2 cs =>
    obtain rfl := Option.some.inj h
    simp
  | case3 => cases h
  | case4 c cs _ ih =>
    obtain ⟨m, rest, rfl⟩ := Option.map_eq_some_iff.1 h
    have := ih rest
    simp only [List.length_cons]
    omega
  | case5 => cases h
  | case6 c cs _ _ _ ih =>
    obtain ⟨m, rest, rfl⟩ := Option.map_eq_some_iff.1 h
    exact Nat.succ_le_succ (ih rest)

theorem stringLength_le {cs : List Char} {n : Nat} (h : stringLength cs = some n) :
    n ≤ cs.length := by
  unfold stringLength at h
  split at h
  · obtain ⟨m, rest, rfl⟩ := Option.map_eq_some_iff.1 h
    exact Nat.succ_le_succ (stringRest_le rest)
  · cases h

theorem classes_le {cls : Terminal × (List Char → Option Nat)} (mem : cls ∈ classes)
    {text : List Char} {n : Nat} (h : cls.2 text = some n) : n ≤ text.length := by
  simp only [classes, List.mem_cons, List.not_mem_nil, or_false] at mem
  rcases mem with rfl | rfl | rfl | rfl | rfl
  · exact floatLength_le h
  · exact integerLength_le h
  · exact operatorLength_le h
  · exact identifierLength_le h
  · exact stringLength_le h

/-- What is scanned lies in the text. -/
theorem scan_le {w : Wanted} {text : List Char} {found : Option Terminal} {n : Nat}
    (h : scan w text = some (found, n)) : n ≤ text.length := by
  rcases found with _ | t
  · rcases scan_gap.1 h with comment | ⟨_, blank⟩
    · exact (Comment.length?_bounds comment).2
    · obtain ⟨_, rfl⟩ := blankLength_eq_some.1 blank
      exact takeWhile_le _ text
  · rcases scan_eq_some h with ⟨cls, mem, _, length, _⟩ | fixed
    · exact classes_le mem length
    · obtain ⟨fixed, length, _⟩ := longestFixed_eq_some fixed
      rcases spelling : t.fixedText? with _ | s
      · simp [fixedLength, spelling] at length
      · obtain ⟨starts, rfl⟩ := (fixedLength_eq_some spelling).1 length
        exact starts.length_le

end Lexeme

end SyntaxAtlas
