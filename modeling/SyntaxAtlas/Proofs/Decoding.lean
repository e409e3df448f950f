-- Reading bytes as text is the inverse of writing text as UTF-8: bytes are read exactly if they
-- are the bytes of a text, and then as that text.

import SyntaxAtlas.Text.Utf8

namespace SyntaxAtlas.Text

/-- The bytes of some characters in UTF-8. -/
def encode (cs : List Char) : List UInt8 := cs.flatMap String.utf8EncodeChar

@[simp] theorem encode_nil : encode [] = [] := rfl

@[simp] theorem encode_cons (c : Char) (cs : List Char) :
    encode (c :: cs) = String.utf8EncodeChar c ++ encode cs := rfl

/-! ## One character -/

/-- One more byte is read. -/
theorem readContinuation_succ {value more low high v n : Nat} {bytes good : List UInt8} :
    readContinuation value (more + 1) low high bytes good = .ok (v, n) ↔
      ∃ b rest, bytes = b :: rest ∧ low ≤ b.toNat ∧ b.toNat ≤ high ∧
        readContinuation (value * 64 + b.toNat % 64) more 0x80 0xbf rest (good ++ [b]) =
          .ok (v, n) := by
  cases bytes with
  | nil => simp [readContinuation]
  | cons b rest =>
    rw [readContinuation]
    by_cases within : low ≤ b.toNat ∧ b.toNat ≤ high
    · simp only [Bool.and_eq_true, decide_eq_true_eq, within, and_self, if_true]
      constructor
      · exact fun read => ⟨b, rest, rfl, within.1, within.2, read⟩
      · rintro ⟨_, _, same, _, _, read⟩
        cases same
        exact read
    · simp only [Bool.and_eq_true, decide_eq_true_eq, within, if_false]
      constructor
      · intro h
        cases h
      · rintro ⟨_, _, same, low, high, _⟩
        cases same
        exact absurd ⟨low, high⟩ within

theorem readContinuation_zero {value low high v n : Nat} {bytes good : List UInt8} :
    readContinuation value 0 low high bytes good = .ok (v, n) ↔ value = v ∧ good.length = n := by
  simp [readContinuation]

/-- What a first byte asks of the bytes behind it. -/
theorem continuation?_eq_some {first : UInt8} {more low high : Nat} :
    continuation? first = some (more, low, high) ↔
      (more = 1 ∧ low = 0x80 ∧ high = 0xbf ∧ 0xc2 ≤ first.toNat ∧ first.toNat < 0xe0) ∨
      (more = 2 ∧ 0xe0 ≤ first.toNat ∧ first.toNat < 0xf0 ∧
        low = (if first.toNat = 0xe0 then 0xa0 else 0x80) ∧
        high = if first.toNat = 0xed then 0x9f else 0xbf) ∨
      (more = 3 ∧ 0xf0 ≤ first.toNat ∧ first.toNat < 0xf5 ∧
        low = (if first.toNat = 0xf0 then 0x90 else 0x80) ∧
        high = if first.toNat = 0xf4 then 0x8f else 0xbf) := by
  unfold continuation?
  generalize first.toNat = b
  simp only [beq_iff_eq]
  grind

/-- The bytes of a character, by its number. -/
theorem utf8EncodeChar_ofNat {v : Nat} (valid : v.isValidChar) :
    String.utf8EncodeChar (Char.ofNat v) =
      if v ≤ 127 then [UInt8.ofNat v]
      else if v ≤ 2047 then [UInt8.ofNat (v / 64 % 32 + 192), UInt8.ofNat (v % 64 + 128)]
      else if v ≤ 65535 then
        [UInt8.ofNat (v / 4096 % 16 + 224), UInt8.ofNat (v / 64 % 64 + 128),
          UInt8.ofNat (v % 64 + 128)]
      else
        [UInt8.ofNat (v / 262144 % 8 + 240), UInt8.ofNat (v / 4096 % 64 + 128),
          UInt8.ofNat (v / 64 % 64 + 128), UInt8.ofNat (v % 64 + 128)] := by
  have same : (Char.ofNat v).val.toNat = v := by
    unfold Char.ofNat
    rw [dif_pos valid]
    rfl
  rw [String.utf8EncodeChar.eq_1, same]

theorem toNat_ofNat {n : Nat} (small : n < 256) : n = (UInt8.ofNat n).toNat :=
  (UInt8.toNat_ofNat_of_lt' small).symm

theorem ofNat_eq_iff {b : UInt8} {n : Nat} (small : n < 256) : UInt8.ofNat n = b ↔ n = b.toNat := by
  rw [← UInt8.toNat_inj, ← toNat_ofNat small]

/-- The parts of a character are its bytes: the first one, and the ones behind it. -/
theorem utf8EncodeChar_eq_iff {v : Nat} (valid : v.isValidChar) {first : UInt8}
    {good : List UInt8} :
    String.utf8EncodeChar (Char.ofNat v) = first :: good ↔
      (v ≤ 127 ∧ v = first.toNat ∧ good = []) ∨
      (127 < v ∧ v ≤ 2047 ∧ v / 64 + 192 = first.toNat ∧
        ∃ b, v % 64 + 128 = b.toNat ∧ good = [b]) ∨
      (2047 < v ∧ v ≤ 65535 ∧ v / 4096 + 224 = first.toNat ∧
        ∃ b c, v / 64 % 64 + 128 = b.toNat ∧ v % 64 + 128 = c.toNat ∧ good = [b, c]) ∨
      (65535 < v ∧ v / 262144 + 240 = first.toNat ∧
        ∃ b c d, v / 4096 % 64 + 128 = b.toNat ∧ v / 64 % 64 + 128 = c.toNat ∧
          v % 64 + 128 = d.toNat ∧ good = [b, c, d]) := by
  have bound : v < 1114112 := by rcases valid with small | large <;> omega
  rw [utf8EncodeChar_ofNat valid]
  by_cases one : v ≤ 127
  · rw [if_pos one, List.cons.injEq, ofNat_eq_iff (by omega)]
    constructor
    · rintro ⟨same, rfl⟩
      exact .inl ⟨one, same, rfl⟩
    · rintro (⟨_, same, rfl⟩ | ⟨_, _⟩ | ⟨_, _⟩ | ⟨_, _⟩)
      · exact ⟨same, rfl⟩
      all_goals omega
  rw [if_neg one]
  by_cases two : v ≤ 2047
  · rw [if_pos two, List.cons.injEq, ofNat_eq_iff (by omega)]
    constructor
    · rintro ⟨same, rfl⟩
      exact .inr (.inl ⟨by omega, two, by omega, _, toNat_ofNat (by omega), rfl⟩)
    · rintro (⟨_, _⟩ | ⟨_, _, same, b, last, rfl⟩ | ⟨_, _⟩ | ⟨_, _⟩)
      · omega
      · rw [(ofNat_eq_iff (by omega)).2 last]
        exact ⟨by omega, rfl⟩
      all_goals omega
  rw [if_neg two]
  by_cases three : v ≤ 65535
  · rw [if_pos three, List.cons.injEq, ofNat_eq_iff (by omega)]
    constructor
    · rintro ⟨same, rfl⟩
      exact .inr (.inr (.inl ⟨by omega, three, by omega, _, _,
        toNat_ofNat (by omega), toNat_ofNat (by omega),
        rfl⟩))
    · rintro (⟨_, _⟩ | ⟨_, _, _⟩ | ⟨_, _, same, b, c, middle, last, rfl⟩ | ⟨_, _⟩)
      · omega
      · omega
      · rw [(ofNat_eq_iff (by omega)).2 middle, (ofNat_eq_iff (by omega)).2 last]
        exact ⟨by omega, rfl⟩
      · omega
  rw [if_neg three, List.cons.injEq, ofNat_eq_iff (by omega)]
  constructor
  · rintro ⟨same, rfl⟩
    exact .inr (.inr (.inr ⟨by omega, by omega, _, _, _,
      toNat_ofNat (by omega), toNat_ofNat (by omega),
      toNat_ofNat (by omega), rfl⟩))
  · rintro (⟨_, _⟩ | ⟨_, _, _⟩ | ⟨_, _, _⟩ | ⟨_, same, b, c, d, second, third, last, rfl⟩)
    · omega
    · omega
    · omega
    · rw [(ofNat_eq_iff (by omega)).2 second, (ofNat_eq_iff (by omega)).2 third,
        (ofNat_eq_iff (by omega)).2 last]
      exact ⟨by omega, rfl⟩

/-- What is read as a character are the bytes of the character. -/
theorem bytes_of_readCharacter {first : UInt8} {rest : List UInt8} {v n : Nat}
    (read : readCharacter first rest = .ok (v, n)) :
    v.isValidChar ∧ ∃ good tail, rest = good ++ tail ∧
      String.utf8EncodeChar (Char.ofNat v) = first :: good ∧ n = good.length + 1 := by
  have byte : first.toNat < 256 := first.toNat_lt
  unfold readCharacter at read
  split at read
  · cases read
    have valid : first.toNat.isValidChar := .inl (by omega)
    exact ⟨valid, [], rest, rfl, (utf8EncodeChar_eq_iff valid).2 (.inl ⟨by omega, rfl, rfl⟩), rfl⟩
  split at read
  · cases read
  rename_i more low high asked
  rcases continuation?_eq_some.1 asked with
    ⟨rfl, rfl, rfl, _, _⟩ | ⟨rfl, _, _, lows, highs⟩ | ⟨rfl, _, _, lows, highs⟩
  · have bits : leadingBits first 1 = first.toNat % 32 := rfl
    simp only [readContinuation_succ, readContinuation_zero, bits] at read
    obtain ⟨b, tail, rfl, _, _, rfl, rfl⟩ := read
    have valid : (first.toNat % 32 * 64 + b.toNat % 64).isValidChar := .inl (by omega)
    refine ⟨valid, [b], tail, rfl, (utf8EncodeChar_eq_iff valid).2 ?_, rfl⟩
    exact .inr (.inl ⟨by omega, by omega, by omega, b, by omega, rfl⟩)
  · have bits : leadingBits first 2 = first.toNat % 16 := rfl
    simp only [readContinuation_succ, readContinuation_zero, bits] at read
    obtain ⟨b, _, rfl, least, most, c, tail, rfl, _, _, rfl, rfl⟩ := read
    have bounds : 0x80 ≤ b.toNat ∧ b.toNat ≤ 0xbf ∧ (first.toNat = 0xe0 → 0xa0 ≤ b.toNat) ∧
        (first.toNat = 0xed → b.toNat ≤ 0x9f) := by
      split at lows <;> split at highs <;> omega
    have valid : ((first.toNat % 16 * 64 + b.toNat % 64) * 64 + c.toNat % 64).isValidChar := by
      unfold Nat.isValidChar
      omega
    refine ⟨valid, [b, c], tail, rfl, (utf8EncodeChar_eq_iff valid).2 ?_, rfl⟩
    exact .inr (.inr (.inl ⟨by omega, by omega, by omega, b, c, by omega, by omega, rfl⟩))
  · have bits : leadingBits first 3 = first.toNat % 8 := rfl
    simp only [readContinuation_succ, readContinuation_zero, bits] at read
    obtain ⟨b, _, rfl, least, most, c, _, rfl, _, _, d, tail, rfl, _, _, rfl, rfl⟩ := read
    have bounds : 0x80 ≤ b.toNat ∧ b.toNat ≤ 0xbf ∧ (first.toNat = 0xf0 → 0x90 ≤ b.toNat) ∧
        (first.toNat = 0xf4 → b.toNat ≤ 0x8f) := by
      split at lows <;> split at highs <;> omega
    have valid : (((first.toNat % 8 * 64 + b.toNat % 64) * 64 + c.toNat % 64) * 64 +
        d.toNat % 64).isValidChar := by
      unfold Nat.isValidChar
      omega
    refine ⟨valid, [b, c, d], tail, rfl, (utf8EncodeChar_eq_iff valid).2 ?_, rfl⟩
    exact .inr (.inr (.inr ⟨by omega, by omega, b, c, d, by omega, by omega, by omega, rfl⟩))

/-- The bytes of a character are read as the character. -/
theorem readCharacter_of_bytes {first : UInt8} {v : Nat} {good : List UInt8}
    (valid : v.isValidChar) (bytes : String.utf8EncodeChar (Char.ofNat v) = first :: good)
    (tail : List UInt8) : readCharacter first (good ++ tail) = .ok (v, good.length + 1) := by
  have range := valid
  unfold Nat.isValidChar at range
  unfold readCharacter
  rcases (utf8EncodeChar_eq_iff valid).1 bytes with ⟨_, rfl, rfl⟩ | ⟨_, _, lead, b, _, rfl⟩ |
    ⟨_, _, lead, b, c, _, _, rfl⟩ | ⟨_, lead, b, c, d, _, _, _, rfl⟩
  · rw [if_pos (by omega)]
    rfl
  · have asked : continuation? first = some (1, 0x80, 0xbf) :=
      continuation?_eq_some.2 (.inl ⟨rfl, rfl, rfl, by omega, by omega⟩)
    have bits : leadingBits first 1 = first.toNat % 32 := rfl
    rw [if_neg (by omega), asked]
    simp only [readContinuation_succ, readContinuation_zero, bits]
    exact ⟨b, tail, rfl, by omega, by omega, by omega, rfl⟩
  · have asked : continuation? first = some (2, _, _) :=
      continuation?_eq_some.2 (.inr (.inl ⟨rfl, by omega, by omega, rfl, rfl⟩))
    have bits : leadingBits first 2 = first.toNat % 16 := rfl
    rw [if_neg (by omega), asked]
    simp only [readContinuation_succ, readContinuation_zero, bits]
    refine ⟨b, c :: tail, rfl, ?_, ?_, c, tail, rfl, by omega, by omega, by omega, rfl⟩
    · split <;> omega
    · split <;> omega
  · have asked : continuation? first = some (3, _, _) :=
      continuation?_eq_some.2 (.inr (.inr ⟨rfl, by omega, by omega, rfl, rfl⟩))
    have bits : leadingBits first 3 = first.toNat % 8 := rfl
    rw [if_neg (by omega), asked]
    simp only [readContinuation_succ, readContinuation_zero, bits]
    refine ⟨b, c :: d :: tail, rfl, ?_, ?_, c, d :: tail, rfl, by omega, by omega, d, tail, rfl,
      by omega, by omega, by omega, rfl⟩
    · split <;> omega
    · split <;> omega

/-! ## A whole text -/

theorem exists_utf8EncodeChar (c : Char) :
    ∃ first good, String.utf8EncodeChar c = first :: good := by
  rcases bytes : String.utf8EncodeChar c with _ | ⟨first, good⟩
  · have positive := c.utf8Size_pos
    rw [← String.length_utf8EncodeChar, bytes] at positive
    cases positive
  · exact ⟨first, good, rfl⟩

/-- Bytes are read as the characters that they are the bytes of. -/
theorem readCharacters_eq_ok_iff {position : Nat} {bytes : List UInt8} {cs : List Char} :
    readCharacters position bytes = .ok cs ↔ encode cs = bytes := by
  constructor
  · intro read
    fun_induction readCharacters position bytes generalizing cs with
    | case1 =>
      cases read
      rfl
    | case2 => cases read
    | case3 => cases read
    | case4 position first rest v n character cs' others ih =>
      cases read
      have behind := ih others
      obtain ⟨_, good, tail, rfl, bytes, rfl⟩ := bytes_of_readCharacter character
      rw [Nat.add_sub_cancel, List.drop_left] at behind
      rw [encode_cons, bytes, behind, List.cons_append]
  · rintro rfl
    induction cs generalizing position with
    | nil =>
      rw [encode_nil, readCharacters]
    | cons c cs ih =>
      obtain ⟨first, good, bytes⟩ := exists_utf8EncodeChar c
      have own : String.utf8EncodeChar (Char.ofNat c.toNat) = first :: good := by
        rw [Char.ofNat_toNat, bytes]
      rw [encode_cons, bytes, List.cons_append, readCharacters]
      simp only [readCharacter_of_bytes c.valid own, Nat.add_sub_cancel, List.drop_left, ih]
      exact congrArg (fun first => Except.ok (first :: cs)) (Char.ofNat_toNat c)

theorem toUTF8_eq_encode (s : String) : s.toUTF8.data.toList = encode s.toList := by
  rw [String.toUTF8_eq_toByteArray, ← String.utf8Encode_toList, List.utf8Encode,
    List.toList_data_toByteArray, encode]

/-- Bytes are decoded exactly if they are the UTF-8 of a text, and then to that text. -/
theorem decode_eq_ok_iff {bytes : List UInt8} {s : String} :
    decode bytes = .ok s ↔ s.toUTF8.data.toList = bytes := by
  rw [toUTF8_eq_encode, ← @readCharacters_eq_ok_iff 0]
  unfold decode
  rcases readCharacters 0 bytes with fault | cs
  · constructor <;> intro read <;> cases read
  · simp only [Except.map, Except.ok.injEq]
    exact ⟨fun same => by rw [← same, String.toList_ofList], fun same => by
      rw [same, String.ofList_toList]⟩

end SyntaxAtlas.Text
