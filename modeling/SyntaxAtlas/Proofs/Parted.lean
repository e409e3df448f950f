-- A lexeme ends where a blank stands. No class but that of strings reads over a blank, a string
-- that is closed does not look at what is behind it, and no fixed spelling has a blank in it. So
-- what is behind a blank makes no difference, unless a comment is closed there.

import SyntaxAtlas.Proofs.Gaps

namespace SyntaxAtlas.Lexeme

/-- A text behind which a lexeme has ended: nothing, or what starts with a blank. -/
def Parted (rest : List Char) : Prop := ∀ c ∈ rest.head?, isBlank c = true

section

variable {rest : List Char} (parted : Parted rest)

include parted

/-! ## Runs and spellings -/

theorem head_parted {p : Char → Bool} (apart : silent.all (!p ·) = true) :
    ∀ c ∈ rest.head?, p c = false := fun c head => by
  simpa using List.all_eq_true.1 apart c (mem_silent_of_isBlank (parted c head))

/-- A run of characters that are no blanks ends in front of a blank. -/
theorem takeWhile_parted {p : Char → Bool} (apart : silent.all (!p ·) = true) (text : List Char) :
    (text ++ rest).takeWhile p = text.takeWhile p := by
  induction text with
  | nil =>
    cases rest with
    | nil => rfl
    | cons c cs => exact List.takeWhile_cons_of_neg (by simp [head_parted parted apart c rfl])
  | cons c text ih => rw [List.cons_append, List.takeWhile_cons, List.takeWhile_cons, ih]

/-- A spelling without blanks ends in front of a blank. -/
theorem prefix_parted {s : List Char} (solid : s.all (!isBlank ·) = true) (text : List Char) :
    s <+: text ++ rest ↔ s <+: text := by
  induction s generalizing text with
  | nil => simp
  | cons c cs ih =>
    cases text with
    | nil =>
      simp only [List.nil_append, List.prefix_nil, reduceCtorEq, iff_false]
      rintro ⟨more, rfl⟩
      have blank := parted c rfl
      rw [List.all_cons, blank] at solid
      cases solid
    | cons d ds =>
      rw [List.all_cons, Bool.and_eq_true] at solid
      rw [List.cons_append, List.cons_prefix_cons, List.cons_prefix_cons, ih solid.2]

/-! ## Classes -/

theorem identifierLength_parted (text : List Char) :
    identifierLength (text ++ rest) = identifierLength text := by
  have start := head_parted parted (p := isWordStart) (by decide)
  have run := takeWhile_parted parted (p := isWordPart) (by decide)
  rcases text with _ | ⟨c, cs⟩
  · rcases rest with _ | ⟨c, cs⟩
    · rfl
    · simp [identifierLength, start c rfl]
  · simp [identifierLength, run]

theorem operatorLength_parted (text : List Char) :
    operatorLength (text ++ rest) = operatorLength text := by
  have run := takeWhile_parted parted (p := isOperatorPart) (by decide) text
  have closed := prefix_parted parted (s := ['.', '.', '.']) (by decide) text
  have halfOpen := prefix_parted parted (s := ['.', '.', '<']) (by decide) text
  by_cases range : ['.', '.', '.'] <+: text ∨ ['.', '.', '<'] <+: text
  · rcases range with ⟨more, rfl⟩ | ⟨more, rfl⟩ <;> rfl
  · have unranged : ∀ t : List Char, ¬(['.', '.', '.'] <+: t ∨ ['.', '.', '<'] <+: t) →
        operatorLength t = if (t.takeWhile isOperatorPart).length = 0 then none
          else some (t.takeWhile isOperatorPart).length := by
      intro t none
      unfold operatorLength
      split
      · exact absurd (.inl ⟨_, rfl⟩) none
      · exact absurd (.inr ⟨_, rfl⟩) none
      · split
        · rename_i zero
          rw [if_pos zero]
        · rename_i nonzero
          rw [if_neg nonzero]
    rw [unranged _ (by rwa [closed, halfOpen]), unranged _ range, run]

theorem digitsLength_parted (text : List Char) :
    digitsLength (text ++ rest) = digitsLength text := by
  have digit := head_parted parted (p := Text.isDecimalDigit) (by decide)
  have run := takeWhile_parted parted (p := isDigitPart) (by decide)
  rcases text with _ | ⟨c, cs⟩
  · rcases rest with _ | ⟨c, cs⟩
    · rfl
    · simp [digitsLength, digit c rfl]
  · simp [digitsLength, run]

theorem exponentDigits_parted (text : List Char) :
    exponentDigits (text ++ rest) = exponentDigits text := by
  rw [exponentDigits, takeWhile_parted parted (p := Text.isDecimalDigit) (by decide), exponentDigits]

theorem exponentLength_parted (text : List Char) :
    exponentLength (text ++ rest) = exponentLength text := by
  have digits := exponentDigits_parted parted
  rcases text with _ | ⟨e, cs⟩
  · have apart := head_parted parted (p := fun c => c == 'e' || c == 'E') (by decide)
    rcases rest with _ | ⟨c, cs⟩
    · rfl
    · have other := apart c rfl
      simp only [Bool.or_eq_false_iff, beq_eq_false_iff_ne] at other
      simp [exponentLength, other]
  · rcases cs with _ | ⟨d, ds⟩
    · have apart := head_parted parted (p := fun c => c == '-' || c == '+') (by decide)
      rcases rest with _ | ⟨c, cs⟩
      · rfl
      · have other := apart c rfl
        simp only [Bool.or_eq_false_iff, beq_eq_false_iff_ne] at other
        have unsigned := digits []
        simp only [List.nil_append] at unsigned
        simp [exponentLength, other, unsigned]
    · have behind := digits ds
      have all := digits (d :: ds)
      by_cases minus : d = '-'
      · subst minus
        simp [exponentLength, behind]
      · by_cases plus : d = '+'
        · subst plus
          simp [exponentLength, behind]
        · rw [List.cons_append] at all ⊢
          simp [exponentLength, minus, plus, all]

theorem fractionLength_parted (text : List Char) :
    fractionLength (text ++ rest) = fractionLength text := by
  have exponent := exponentLength_parted parted
  rcases text with _ | ⟨c, ds⟩
  · have point := head_parted parted (p := (· == '.')) (by decide)
    have none := exponent []
    rcases rest with _ | ⟨c, cs⟩
    · rfl
    · have other := point c rfl
      simp only [beq_eq_false_iff_ne] at other
      simp only [List.nil_append] at none
      simp [fractionLength, other, none]
  · by_cases point : c = '.'
    · subst point
      have all := exponent ('.' :: ds)
      have digits := digitsLength_parted parted ds
      rw [List.cons_append] at all ⊢
      simp only [fractionLength, all, digits]
      congr 1
      cases found : digitsLength ds with
      | none => rfl
      | some n =>
        have within := digitsLength_le found
        simp [List.drop_append_of_le_length within, exponent]
    · have all := exponent (c :: ds)
      rw [List.cons_append] at all ⊢
      simp [fractionLength, point, all]

theorem floatLength_parted (text : List Char) : floatLength (text ++ rest) = floatLength text := by
  rw [floatLength, digitsLength_parted parted, floatLength]
  cases found : digitsLength text with
  | none => rfl
  | some n =>
    have within := digitsLength_le found
    simp [List.drop_append_of_le_length within, fractionLength_parted parted]

theorem basedLength_parted {p : Char → Bool} (apart : silent.all (!p ·) = true)
    (text : List Char) : basedLength p (text ++ rest) = basedLength p text := by
  rw [basedLength, takeWhile_parted parted apart, basedLength]

theorem integerLength_parted (text : List Char) :
    integerLength (text ++ rest) = integerLength text := by
  have digits := digitsLength_parted parted text
  have hex := basedLength_parted parted (p := isHexPart) (by decide)
  have octal := basedLength_parted parted (p := isOctalPart) (by decide)
  have binary := basedLength_parted parted (p := isBinaryPart) (by decide)
  simp only [integerLength, digits]
  congr 1
  rcases text with _ | ⟨c, _ | ⟨d, ds⟩⟩
  · rcases rest with _ | ⟨b, bs⟩
    · rfl
    · have zero := head_parted parted (p := (· == '0')) (by decide) b rfl
      simp only [beq_eq_false_iff_ne] at zero
      simp [zero]
  · rcases rest with _ | ⟨b, bs⟩
    · rfl
    · have mark := head_parted parted (p := fun c => c == 'x' || c == 'o' || c == 'b')
        (by decide) b rfl
      simp only [Bool.or_eq_false_iff, beq_eq_false_iff_ne] at mark
      by_cases zero : c = '0' <;> simp [zero, mark]
  · by_cases zero : c = '0'
    · by_cases x : d = 'x'
      · simp [zero, x, hex]
      · by_cases o : d = 'o'
        · simp [zero, o, octal]
        · by_cases b : d = 'b'
          · simp [zero, b, binary]
          · simp [zero, x, o, b]
    · simp [zero]

/-! ## Spellings -/

theorem longestFixed_parted (w : Wanted) (text : List Char) :
    longestFixed w (text ++ rest) = longestFixed w text := by
  have solid : Terminal.lexical.all (fun t => t.fixedText?.all fun s =>
      s.toList.all (!isBlank ·)) = true := by decide +kernel
  have same : ∀ t ∈ fixed w, fixedLength (text ++ rest) t = fixedLength text t := by
    intro t mem
    have spelled := List.all_eq_true.1 solid t (List.mem_filter.1 mem).1
    unfold fixedLength
    cases spelling : t.fixedText? with
    | none => rfl
    | some s =>
      rw [spelling, Option.all_some, List.all_eq_true] at spelled
      have starts := prefix_parted parted (s := s.toList) (by simpa using spelled) text
      rw [← List.isPrefixOf_iff_prefix, ← List.isPrefixOf_iff_prefix, ← Bool.eq_iff_iff] at starts
      simp only [Option.bind_some, starts]
  unfold longestFixed
  exact List.foldl_ext _ _ _ fun best t mem => by rw [same t mem]

end

/-! ## Strings -/

theorem stringRest_plain {c : Char} (quote : c ≠ '"') (other : ¬(c = '\\' ∨ c = '\r' ∨ c = '\n'))
    (cs : List Char) : stringRest (c :: cs) = (stringRest cs).map (· + 1) := by
  obtain ⟨backslash, breaks⟩ := not_or.1 other
  simp [stringRest, backslash, breaks]

theorem stringRest_pos {cs : List Char} {n : Nat} (h : stringRest cs = some n) : 1 ≤ n := by
  obtain ⟨content, closed⟩ := stringRest_closed h
  cases n with
  | zero => simp at closed
  | succ n => omega

/-- A string that is closed is read to its quote, whatever is behind. -/
theorem stringRest_append {cs : List Char} {n : Nat} (behind : List Char)
    (h : stringRest cs = some n) : stringRest (cs ++ behind) = some n := by
  fun_induction stringRest cs generalizing n with
  | case1 => cases h
  | case2 => exact h
  | case3 => cases h
  | case4 c cs inline ih =>
    obtain ⟨m, rest, rfl⟩ := Option.map_eq_some_iff.1 h
    simp [stringRest, inline, ih rest]
  | case5 => cases h
  | case6 c cs quote _ other ih =>
    obtain ⟨m, rest, rfl⟩ := Option.map_eq_some_iff.1 h
    rw [List.cons_append, stringRest_plain quote other, ih rest, Option.map_some]

/-- A string that ends within a text is closed there. -/
theorem stringRest_of_append {cs behind : List Char} {n : Nat}
    (h : stringRest (cs ++ behind) = some n) (le : n ≤ cs.length) : stringRest cs = some n := by
  fun_induction stringRest cs generalizing n with
  | case1 =>
    have pos := stringRest_pos h
    simp only [List.length_nil] at le
    omega
  | case2 => exact h
  | case3 cs => simp [stringRest] at h
  | case4 c cs inline ih =>
    rw [List.cons_append, List.cons_append] at h
    simp only [stringRest, inline, if_false] at h
    obtain ⟨m, rest, rfl⟩ := Option.map_eq_some_iff.1 h
    simp only [List.length_cons] at le
    rw [ih rest (by omega), Option.map_some]
  | case5 c cs quote alone other =>
    rcases other with rfl | rfl | rfl
    · -- A backslash at the end takes the character behind it along.
      rcases cs with _ | ⟨d, ds⟩
      · rcases behind with _ | ⟨d, ds⟩
        · cases h
        · simp only [List.cons_append, List.nil_append, stringRest] at h
          split at h
          · cases h
          · obtain ⟨m, rest, rfl⟩ := Option.map_eq_some_iff.1 h
            simp at le
      · exact (alone d ds rfl rfl).elim
    · simp [stringRest] at h
    · simp [stringRest] at h
  | case6 c cs quote _ other ih =>
    rw [List.cons_append, stringRest_plain quote other] at h
    obtain ⟨m, rest, rfl⟩ := Option.map_eq_some_iff.1 h
    rw [ih rest (Nat.le_of_succ_le_succ le), Option.map_some]

theorem stringLength_append_iff {c : Char} {cs : List Char} {n : Nat} (behind : List Char) :
    stringLength (c :: cs ++ behind) = some n ∧ n ≤ (c :: cs).length ↔
      stringLength (c :: cs) = some n := by
  by_cases quote : c = '"'
  · subst quote
    simp only [List.cons_append, stringLength, List.length_cons, Option.map_eq_some_iff]
    constructor
    · rintro ⟨⟨m, rest, rfl⟩, le⟩
      exact ⟨m, stringRest_of_append rest (Nat.le_of_succ_le_succ le), rfl⟩
    · rintro ⟨m, rest, rfl⟩
      exact ⟨⟨m, stringRest_append behind rest, rfl⟩, Nat.succ_le_succ (stringRest_le rest)⟩
  · simp [stringLength, quote]

/-! ## The next lexeme -/

theorem scanClass_append (w : Wanted) (cls : Terminal) {length : List Char → Option Nat}
    {text behind : List Char} (same : length (text ++ behind) = length text)
    (within : ∀ n, length text = some n → n ≤ text.length) :
    scanClass w cls length (text ++ behind) = scanClass w cls length text := by
  unfold scanClass
  rw [same]
  cases found : length text with
  | none => rfl
  | some n => simp [List.take_append_of_le_length (within n found)]

theorem scanClass_string_iff (w : Wanted) {c : Char} {cs : List Char} {found : Option Terminal}
    (behind : List Char) :
    scanClass w .string stringLength (c :: cs ++ behind) = some (found, (c :: cs).length) ↔
      scanClass w .string stringLength (c :: cs) = some (found, (c :: cs).length) := by
  have length := @stringLength_append_iff c cs (c :: cs).length behind
  simp only [Nat.le_refl, and_true] at length
  unfold scanClass
  split
  · simp only [Option.map_eq_some_iff, Prod.mk.injEq]
    constructor
    · rintro ⟨n, read, same, rfl⟩
      exact ⟨_, length.1 read, by rw [← same, List.take_left, List.take_length], rfl⟩
    · rintro ⟨n, read, same, rfl⟩
      exact ⟨_, length.2 read, by rw [← same, List.take_left, List.take_length], rfl⟩
  · rfl

theorem longestFixed_quote (w : Wanted) (cs : List Char) : longestFixed w ('"' :: cs) = none := by
  have unquoted : Terminal.lexical.all (fun t => t.fixedText?.all fun s =>
      s.toList.head?.any (· != '"')) = true := by decide +kernel
  rw [Option.eq_none_iff_forall_ne_some]
  rintro ⟨t, n⟩ found
  obtain ⟨fixed, length, _⟩ := longestFixed_eq_some found
  have known := List.all_eq_true.1 unquoted t (List.mem_filter.1 fixed).1
  rcases spelling : t.fixedText? with _ | s
  · simp [fixedLength, spelling] at length
  · obtain ⟨starts, _⟩ := (fixedLength_eq_some spelling).1 length
    rw [spelling, Option.all_some] at known
    rcases text : s.toList with _ | ⟨d, ds⟩
    · simp [text] at known
    · rw [text] at starts known
      rw [(List.cons_prefix_cons.1 starts).1] at known
      cases known

/-- A text that is one lexeme reads so in front of a blank, and what reads so there is one lexeme
by itself. -/
theorem scan_parted_iff {w : Wanted} {c : Char} {cs rest : List Char} {found : Option Terminal}
    (parted : Parted rest) (solid : isBlank c = false)
    (noComment : Comment.length? (c :: cs ++ rest) = none) :
    scan w (c :: cs ++ rest) = some (found, (c :: cs).length) ↔
      scan w (c :: cs) = some (found, (c :: cs).length) := by
  obtain ⟨noBlock, noLine⟩ := Comment.length?_eq_none.1 noComment
  obtain ⟨noBlock', noLine'⟩ :=
    Comment.length?_eq_none.1 (Comment.length?_none_of_append noComment)
  have blank : ∀ behind, blankLength (c :: behind) = none := by
    intro behind
    simp [blankLength, solid]
  have float := scanClass_append w .float (floatLength_parted parted (c :: cs))
    fun n h => floatLength_le h
  have integer := scanClass_append w .integer (integerLength_parted parted (c :: cs))
    fun n h => integerLength_le h
  have operator := scanClass_append w .operator (operatorLength_parted parted (c :: cs))
    fun n h => operatorLength_le h
  have identifier := scanClass_append w .identifier (identifierLength_parted parted (c :: cs))
    fun n h => identifierLength_le h
  have fixed := longestFixed_parted parted w (c :: cs)
  have blanks := blank (cs ++ rest)
  rw [← List.cons_append] at blanks
  simp only [scan, noBlock, noLine, noBlock', noLine', float, integer, operator, identifier, fixed,
    blank, blanks]
  by_cases quote : c = '"'
  · subst quote
    have string := @scanClass_string_iff w '"' cs found rest
    simp only [longestFixed_quote, Option.map_none, Option.orElse_eq_orElse, Option.orElse_eq_or,
      Option.or_none, Option.none_or, Option.or_eq_some_iff, string]
  · have noString : ∀ text, scanClass w .string stringLength (c :: text) = none := by
      intro text
      simp [scanClass, stringLength, quote]
    rw [noString, List.cons_append, noString]

end SyntaxAtlas.Lexeme
