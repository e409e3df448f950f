-- JSON texts and what they say. The grammar tells which texts are JSON and which values they
-- stand for. No text stands for two values, so whoever reads one comes to the same value.

import Mathlib.Algebra.Field.Rat
import Mathlib.Data.List.TakeWhile

namespace SyntaxAtlas.JsonText

/-- What a JSON text can say. -/
inductive Value
  | null
  | truth (b : Bool)
  | number (q : Rat)
  | text (s : String)
  | array (items : List Value)
  | object (members : List (String × Value))

/-! ## Strings -/

/-- The number of a hexadecimal digit, small or capital. -/
def hexValue? (c : Char) : Option Nat :=
  if '0' ≤ c ∧ c ≤ '9' then some (c.toNat - 0x30)
  else if 'a' ≤ c ∧ c ≤ 'f' then some (c.toNat - 0x57)
  else if 'A' ≤ c ∧ c ≤ 'F' then some (c.toNat - 0x37)
  else none

/-- The number of four hexadecimal digits. -/
def unit? (a b c d : Char) : Option Nat := do
  let a ← hexValue? a
  let b ← hexValue? b
  let c ← hexValue? c
  let d ← hexValue? d
  pure (((a * 16 + b) * 16 + c) * 16 + d)

/-- The character that a short escape stands for. -/
def shortEscape? : Char → Option Char
  | '"' => some '"'
  | '\\' => some '\\'
  | '/' => some '/'
  | 'b' => some (Char.ofNat 0x08)
  | 'f' => some (Char.ofNat 0x0c)
  | 'n' => some '\n'
  | 'r' => some '\r'
  | 't' => some '\t'
  | _ => none

/-- A text reads as the characters of a string and its closing quote, up to a rest. An escape
by number stands for one character, or for half of one that lies beyond the first plane. -/
inductive Characters : List Char → List Char → List Char → Prop
  | closed {rest : List Char} : Characters ('"' :: rest) [] rest
  | plain {c : Char} {input cs rest : List Char} (visible : 0x20 ≤ c.toNat) (quote : c ≠ '"')
      (backslash : c ≠ '\\') (more : Characters input cs rest) :
      Characters (c :: input) (c :: cs) rest
  | short {e c : Char} {input cs rest : List Char} (escape : shortEscape? e = some c)
      (more : Characters input cs rest) : Characters ('\\' :: e :: input) (c :: cs) rest
  | unit {a b c d : Char} {n : Nat} {input cs rest : List Char} (digits : unit? a b c d = some n)
      (whole : n < 0xd800 ∨ 0xdfff < n) (more : Characters input cs rest) :
      Characters ('\\' :: 'u' :: a :: b :: c :: d :: input) (Char.ofNat n :: cs) rest
  | halves {a b c d a' b' c' d' : Char} {high low : Nat} {input cs rest : List Char}
      (digits : unit? a b c d = some high) (digits' : unit? a' b' c' d' = some low)
      (first : 0xd800 ≤ high ∧ high < 0xdc00) (second : 0xdc00 ≤ low ∧ low < 0xe000)
      (more : Characters input cs rest) :
      Characters
        ('\\' :: 'u' :: a :: b :: c :: d :: '\\' :: 'u' :: a' :: b' :: c' :: d' :: input)
        (Char.ofNat (0x10000 + (high - 0xd800) * 0x400 + (low - 0xdc00)) :: cs) rest

theorem Characters.unique {input cs cs' rest rest' : List Char} (h : Characters input cs rest)
    (h' : Characters input cs' rest') : cs = cs' ∧ rest = rest' := by
  induction h generalizing cs' rest' with
  | closed =>
    cases h' with
    | closed => exact ⟨rfl, rfl⟩
    | plain _ quote => exact absurd rfl quote
  | plain _ quote backslash _ ih =>
    cases h' with
    | closed => exact absurd rfl quote
    | plain _ _ _ more =>
      obtain ⟨rfl, rfl⟩ := ih more
      exact ⟨rfl, rfl⟩
    | short | unit | halves => exact absurd rfl backslash
  | short escape _ ih =>
    cases h' with
    | plain _ _ backslash => exact absurd rfl backslash
    | short escape' more =>
      obtain ⟨rfl, rfl⟩ := ih more
      rw [escape, Option.some.injEq] at escape'
      exact ⟨by rw [escape'], rfl⟩
    | unit | halves => cases escape
  | unit digits whole _ ih =>
    cases h' with
    | plain _ _ backslash => exact absurd rfl backslash
    | short escape => cases escape
    | unit digits' _ more =>
      obtain ⟨rfl, rfl⟩ := ih more
      rw [digits, Option.some.injEq] at digits'
      exact ⟨by rw [digits'], rfl⟩
    | halves digits' _ first =>
      rw [digits, Option.some.injEq] at digits'
      omega
  | halves digits digits₂ first _ _ ih =>
    cases h' with
    | plain _ _ backslash => exact absurd rfl backslash
    | short escape => cases escape
    | unit digits' whole =>
      rw [digits, Option.some.injEq] at digits'
      omega
    | halves digits' digits₂' _ _ more =>
      obtain ⟨rfl, rfl⟩ := ih more
      rw [digits, Option.some.injEq] at digits'
      rw [digits₂, Option.some.injEq] at digits₂'
      exact ⟨by rw [digits', digits₂'], rfl⟩

/-! ## Numbers -/

/-- A text reads as a run of digits, up to a rest. -/
structure Digits (input ds rest : List Char) : Prop where
  spelled : input = ds ++ rest
  nonempty : ds ≠ []
  digits : ∀ c ∈ ds, c.isDigit = true

/-- The number of a run of digits. -/
def digitsValue (ds : List Char) : Nat := Nat.ofDigitChars 10 ds 0

/-- A sign, which can be left out. -/
inductive Sign : List Char → Rat → List Char → Prop
  | minus {rest : List Char} : Sign ('-' :: rest) (-1) rest
  | none {rest : List Char} : Sign rest 1 rest

/-- The digits in front of the point: a zero, or digits that do not start with one. -/
inductive Whole : List Char → Nat → List Char → Prop
  | zero {rest : List Char} : Whole ('0' :: rest) 0 rest
  | digits {d : Char} {input ds rest : List Char} (run : Digits input (d :: ds) rest)
      (leading : d ≠ '0') : Whole input (digitsValue (d :: ds)) rest

/-- A point with digits behind it, which can be left out. -/
inductive Fraction : List Char → Rat → List Char → Prop
  | point {input ds rest : List Char} (run : Digits input ds rest) :
      Fraction ('.' :: input) (digitsValue ds / 10 ^ ds.length) rest
  | none {rest : List Char} : Fraction rest 0 rest

/-- An exponent, which can be left out. -/
inductive Exponent : List Char → Int → List Char → Prop
  | plain {e : Char} {input ds rest : List Char} (letter : e = 'e' ∨ e = 'E')
      (run : Digits input ds rest) : Exponent (e :: input) (digitsValue ds) rest
  | plus {e : Char} {input ds rest : List Char} (letter : e = 'e' ∨ e = 'E')
      (run : Digits input ds rest) : Exponent (e :: '+' :: input) (digitsValue ds) rest
  | minus {e : Char} {input ds rest : List Char} (letter : e = 'e' ∨ e = 'E')
      (run : Digits input ds rest) : Exponent (e :: '-' :: input) (-digitsValue ds) rest
  | none {rest : List Char} : Exponent rest 0 rest

/-- A text reads as a number, up to a rest. -/
def Number (input : List Char) (q : Rat) (rest : List Char) : Prop :=
  ∃ s a n b f c e, Sign input s a ∧ Whole a n b ∧ Fraction b f c ∧ Exponent c e rest ∧
    q = s * (n + f) * 10 ^ e

/-- What runs in front of a rest is determined when the rest does not go on with it. -/
theorem run_unique {p : Char → Bool} {xs ys as bs : List Char} (xsRun : ∀ c ∈ xs, p c = true)
    (ysRun : ∀ c ∈ ys, p c = true) (asStops : ∀ c ∈ as.head?, p c = false)
    (bsStops : ∀ c ∈ bs.head?, p c = false) (same : xs ++ as = ys ++ bs) : xs = ys ∧ as = bs := by
  have stops : ∀ {zs : List Char}, (∀ c ∈ zs.head?, p c = false) → zs.takeWhile p = [] := by
    intro zs h
    cases zs with
    | nil => rfl
    | cons z zs => simp [h z rfl]
  have taken := congrArg (List.takeWhile p) same
  rw [List.takeWhile_append_of_pos xsRun, List.takeWhile_append_of_pos ysRun, stops asStops,
    stops bsStops, List.append_nil, List.append_nil] at taken
  subst taken
  exact ⟨rfl, List.append_cancel_left same⟩

theorem Digits.unique {input ds ds' rest rest' : List Char} (run : Digits input ds rest)
    (run' : Digits input ds' rest') (stops : ∀ c ∈ rest.head?, c.isDigit = false)
    (stopped : ∀ c ∈ rest'.head?, c.isDigit = false) : ds = ds' ∧ rest = rest' :=
  run_unique run.digits run'.digits stops stopped (run.spelled.symm.trans run'.spelled)

theorem Digits.head {c : Char} {input ds rest : List Char} (run : Digits (c :: input) ds rest) :
    c.isDigit = true := by
  cases ds with
  | nil => exact absurd rfl run.nonempty
  | cons d ds =>
    obtain ⟨rfl, _⟩ := List.cons.inj run.spelled
    exact run.digits c List.mem_cons_self

/-- A rest that does not go on with a number. -/
def Stops (rest : List Char) : Prop :=
  ∀ c ∈ rest.head?, c.isDigit = false ∧ c ≠ '.' ∧ c ≠ 'e' ∧ c ≠ 'E'

theorem Exponent.stops {input rest : List Char} {e : Int} (exponent : Exponent input e rest)
    (stops : Stops rest) : ∀ c ∈ input.head?, c.isDigit = false ∧ c ≠ '.' := by
  cases exponent with
  | plain letter | plus letter | minus letter =>
    rintro c ⟨⟩
    rcases letter with rfl | rfl <;> decide
  | none => exact fun c hc => ⟨(stops c hc).1, (stops c hc).2.1⟩

theorem Exponent.unique {input rest rest' : List Char} {e e' : Int} (h : Exponent input e rest)
    (h' : Exponent input e' rest') (stops : Stops rest) (stopped : Stops rest') :
    e = e' ∧ rest = rest' := by
  have digits : ∀ c ∈ rest.head?, c.isDigit = false := fun c hc => (stops c hc).1
  have digits' : ∀ c ∈ rest'.head?, c.isDigit = false := fun c hc => (stopped c hc).1
  have noLetter : ∀ {e : Char} {input : List Char}, e = 'e' ∨ e = 'E' → ¬ Stops (e :: input) := by
    rintro e input (rfl | rfl) stops
    · exact (stops 'e' rfl).2.2.1 rfl
    · exact (stops 'E' rfl).2.2.2 rfl
  cases h with
  | plain letter run =>
    cases h' with
    | plain _ run' =>
      obtain ⟨rfl, rfl⟩ := run.unique run' digits digits'
      exact ⟨rfl, rfl⟩
    | plus | minus => exact absurd run.head (by decide)
    | none => exact absurd stopped (noLetter letter)
  | plus letter run =>
    cases h' with
    | plain _ run' => exact absurd run'.head (by decide)
    | plus _ run' =>
      obtain ⟨rfl, rfl⟩ := run.unique run' digits digits'
      exact ⟨rfl, rfl⟩
    | none => exact absurd stopped (noLetter letter)
  | minus letter run =>
    cases h' with
    | plain _ run' => exact absurd run'.head (by decide)
    | minus _ run' =>
      obtain ⟨rfl, rfl⟩ := run.unique run' digits digits'
      exact ⟨rfl, rfl⟩
    | none => exact absurd stopped (noLetter letter)
  | none =>
    cases h' with
    | plain letter | plus letter | minus letter => exact absurd stops (noLetter letter)
    | none => exact ⟨rfl, rfl⟩

theorem Fraction.stops {input rest : List Char} {f : Rat} (fraction : Fraction input f rest)
    (stops : ∀ c ∈ rest.head?, c.isDigit = false ∧ c ≠ '.') :
    ∀ c ∈ input.head?, c.isDigit = false := by
  cases fraction with
  | point => rintro c ⟨⟩; decide
  | none => exact fun c hc => (stops c hc).1

theorem Fraction.unique {input rest rest' : List Char} {f f' : Rat} (h : Fraction input f rest)
    (h' : Fraction input f' rest') (stops : ∀ c ∈ rest.head?, c.isDigit = false ∧ c ≠ '.')
    (stopped : ∀ c ∈ rest'.head?, c.isDigit = false ∧ c ≠ '.') : f = f' ∧ rest = rest' := by
  cases h with
  | point run =>
    cases h' with
    | point run' =>
      obtain ⟨rfl, rfl⟩ :=
        run.unique run' (fun c hc => (stops c hc).1) fun c hc => (stopped c hc).1
      exact ⟨rfl, rfl⟩
    | none => exact absurd rfl (stopped '.' rfl).2
  | none =>
    cases h' with
    | point => exact absurd rfl (stops '.' rfl).2
    | none => exact ⟨rfl, rfl⟩

theorem Whole.unique {input rest rest' : List Char} {n n' : Nat} (h : Whole input n rest)
    (h' : Whole input n' rest') (stops : ∀ c ∈ rest.head?, c.isDigit = false)
    (stopped : ∀ c ∈ rest'.head?, c.isDigit = false) : n = n' ∧ rest = rest' := by
  cases h with
  | zero =>
    cases h' with
    | zero => exact ⟨rfl, rfl⟩
    | digits run' leading => exact absurd (List.cons.inj run'.spelled).1.symm leading
  | digits run leading =>
    cases h' with
    | zero => exact absurd (List.cons.inj run.spelled).1.symm leading
    | digits run' _ =>
      obtain ⟨same, rfl⟩ := run.unique run' stops stopped
      exact ⟨by rw [same], rfl⟩

theorem Whole.head {c : Char} {input rest : List Char} {n : Nat} (h : Whole (c :: input) n rest) :
    c.isDigit = true := by
  cases h with
  | zero => rfl
  | digits run _ => exact run.head

theorem Sign.unique {input a a' b b' : List Char} {s s' : Rat} {n n' : Nat} (h : Sign input s a)
    (h' : Sign input s' a') (whole : Whole a n b) (whole' : Whole a' n' b') : s = s' ∧ a = a' := by
  cases h with
  | minus =>
    cases h' with
    | minus => exact ⟨rfl, rfl⟩
    | none => exact absurd whole'.head (by decide)
  | none =>
    cases h' with
    | minus => exact absurd whole.head (by decide)
    | none => exact ⟨rfl, rfl⟩

theorem Number.unique {input rest rest' : List Char} {q q' : Rat} (h : Number input q rest)
    (h' : Number input q' rest') (stops : Stops rest) (stopped : Stops rest') :
    q = q' ∧ rest = rest' := by
  obtain ⟨s, a, n, b, f, c, e, sign, whole, fraction, exponent, rfl⟩ := h
  obtain ⟨s', a', n', b', f', c', e', sign', whole', fraction', exponent', rfl⟩ := h'
  have inside := exponent.stops stops
  have inside' := exponent'.stops stopped
  obtain ⟨rfl, rfl⟩ := sign.unique sign' whole whole'
  obtain ⟨rfl, rfl⟩ := whole.unique whole' (fraction.stops inside) (fraction'.stops inside')
  obtain ⟨rfl, rfl⟩ := fraction.unique fraction' inside inside'
  obtain ⟨rfl, rfl⟩ := exponent.unique exponent' stops stopped
  exact ⟨rfl, rfl⟩

theorem Number.head {input rest : List Char} {q : Rat} (h : Number input q rest) :
    ∃ c ∈ input.head?, c = '-' ∨ c.isDigit = true := by
  obtain ⟨s, a, n, b, f, c, e, sign, whole, _⟩ := h
  cases sign with
  | minus => exact ⟨'-', rfl, .inl rfl⟩
  | none =>
    cases whole with
    | zero => exact ⟨'0', rfl, .inr rfl⟩
    | digits run _ =>
      rw [run.spelled]
      exact ⟨_, rfl, .inr (run.digits _ List.mem_cons_self)⟩

/-! ## Values -/

def isBlank (c : Char) : Bool := c == ' ' || c == '\t' || c == '\n' || c == '\r'

/-- Blanks may stand in front of a rest. -/
def Blanks (input rest : List Char) : Prop := ∃ ws, ws.all isBlank = true ∧ input = ws ++ rest

/-- A name in quotes and a colon may stand in front of a rest. -/
def Label (input name rest : List Char) : Prop :=
  ∃ a b c, Blanks input ('"' :: a) ∧ Characters a name b ∧ Blanks b (':' :: c) ∧ Blanks c rest

/-- What is read of a text: a value, or the items or members behind an opening bracket with
their closing bracket. -/
inductive Part
  | value (v : Value)
  | items (vs : List Value)
  | members (ms : List (String × Value))

/-- A text reads as a value, or as items or members, up to a rest. -/
inductive Denotes : Part → List Char → List Char → Prop
  | null {rest : List Char} : Denotes (.value .null) ('n' :: 'u' :: 'l' :: 'l' :: rest) rest
  | yes {rest : List Char} :
      Denotes (.value (.truth true)) ('t' :: 'r' :: 'u' :: 'e' :: rest) rest
  | no {rest : List Char} :
      Denotes (.value (.truth false)) ('f' :: 'a' :: 'l' :: 's' :: 'e' :: rest) rest
  | number {q : Rat} {input rest : List Char} (number : Number input q rest) :
      Denotes (.value (.number q)) input rest
  | text {input cs rest : List Char} (characters : Characters input cs rest) :
      Denotes (.value (.text (String.ofList cs))) ('"' :: input) rest
  | array {vs : List Value} {input rest : List Char} (items : Denotes (.items vs) input rest) :
      Denotes (.value (.array vs)) ('[' :: input) rest
  | object {ms : List (String × Value)} {input rest : List Char}
      (members : Denotes (.members ms) input rest) :
      Denotes (.value (.object ms)) ('\x7b' :: input) rest
  | noItem {input rest : List Char} (blanks : Blanks input (']' :: rest)) :
      Denotes (.items []) input rest
  | lastItem {v : Value} {input a b rest : List Char} (before : Blanks input a)
      (value : Denotes (.value v) a b) (behind : Blanks b (']' :: rest)) :
      Denotes (.items [v]) input rest
  | nextItem {v w : Value} {vs : List Value} {input a b next rest : List Char}
      (before : Blanks input a) (value : Denotes (.value v) a b) (behind : Blanks b (',' :: next))
      (more : Denotes (.items (w :: vs)) next rest) : Denotes (.items (v :: w :: vs)) input rest
  | noMember {input rest : List Char} (blanks : Blanks input ('\x7d' :: rest)) :
      Denotes (.members []) input rest
  | lastMember {name : List Char} {v : Value} {input a b rest : List Char}
      (label : Label input name a) (value : Denotes (.value v) a b)
      (behind : Blanks b ('\x7d' :: rest)) :
      Denotes (.members [(String.ofList name, v)]) input rest
  | nextMember {name : List Char} {v : Value} {m : String × Value} {ms : List (String × Value)}
      {input a b next rest : List Char} (label : Label input name a)
      (value : Denotes (.value v) a b) (behind : Blanks b (',' :: next))
      (more : Denotes (.members (m :: ms)) next rest) :
      Denotes (.members ((String.ofList name, v) :: m :: ms)) input rest

/-- A text is JSON and says a value. -/
def Says (text : List Char) (v : Value) : Prop :=
  ∃ a b, Blanks text a ∧ Denotes (.value v) a b ∧ Blanks b []

/-! ## One value for a text -/

/-- A rest that does not go on with blanks. -/
def Solid (rest : List Char) : Prop := ∀ c ∈ rest.head?, isBlank c = false

theorem Blanks.unique {input a b : List Char} (h : Blanks input a) (h' : Blanks input b)
    (solid : Solid a) (solid' : Solid b) : a = b := by
  obtain ⟨ws, blank, rfl⟩ := h
  obtain ⟨ws', blank', same⟩ := h'
  exact (run_unique (List.all_eq_true.1 blank) (List.all_eq_true.1 blank') solid solid' same).2

theorem Blanks.mark {input a b : List Char} {c d : Char} (h : Blanks input (c :: a))
    (h' : Blanks input (d :: b)) (solid : isBlank c = false) (solid' : isBlank d = false) :
    c = d ∧ a = b := by
  have same := h.unique h' (by rintro _ ⟨⟩; exact solid) (by rintro _ ⟨⟩; exact solid')
  exact List.cons.inj same

/-- What stands behind a value in a text: blanks, a comma, a closing bracket, or nothing. -/
def Closes (rest : List Char) : Prop :=
  ∀ c ∈ rest.head?, isBlank c = true ∨ c = ',' ∨ c = ']' ∨ c = '\x7d'

theorem Closes.stops {rest : List Char} (h : Closes rest) : Stops rest := by
  intro c hc
  rcases h c hc with blank | rfl | rfl | rfl
  · simp only [isBlank, Bool.or_eq_true, beq_iff_eq] at blank
    rcases blank with ((rfl | rfl) | rfl) | rfl <;> decide
  all_goals decide

theorem Blanks.closes {input rest : List Char} (h : Blanks input rest) (closes : Closes rest) :
    Closes input := by
  obtain ⟨ws, blank, rfl⟩ := h
  cases ws with
  | nil => exact closes
  | cons w ws =>
    rintro c ⟨⟩
    exact .inl (List.all_eq_true.1 blank w List.mem_cons_self)

/-- A value starts with a character of its own. -/
theorem Denotes.head {v : Value} {input rest : List Char} (h : Denotes (.value v) input rest) :
    ∃ c tail, input = c :: tail ∧ isBlank c = false ∧ c ≠ ']' := by
  cases h with
  | number number =>
    obtain ⟨c, hc, first⟩ := number.head
    cases input with
    | nil => cases hc
    | cons d tail =>
      cases hc
      refine ⟨c, tail, rfl, ?_, ?_⟩
      · rw [Bool.eq_false_iff]
        intro blank
        simp only [isBlank, Bool.or_eq_true, beq_iff_eq] at blank
        rcases blank with ((rfl | rfl) | rfl) | rfl <;> revert first <;> decide
      · rintro rfl
        revert first
        decide
  | _ => exact ⟨_, _, rfl, by decide, by decide⟩

theorem Denotes.solid {v : Value} {input rest : List Char} (h : Denotes (.value v) input rest) :
    Solid input := by
  obtain ⟨c, tail, rfl, solid, _⟩ := h.head
  rintro _ ⟨⟩
  exact solid

/-- A text reads as one part at most. A value must be followed by what can follow one. -/
def Part.Unique : Part → List Char → List Char → Prop
  | .value v, input, rest => ∀ v' rest', Closes rest → Denotes (.value v') input rest' →
      Closes rest' → v = v' ∧ rest = rest'
  | .items vs, input, rest => ∀ vs' rest', Denotes (.items vs') input rest' →
      vs = vs' ∧ rest = rest'
  | .members ms, input, rest => ∀ ms' rest', Denotes (.members ms') input rest' →
      ms = ms' ∧ rest = rest'

theorem Number.not_head {c : Char} {input rest : List Char} {q : Rat}
    (number : Number (c :: input) q rest) (minus : c ≠ '-') (digit : c.isDigit = false) : False := by
  obtain ⟨d, ⟨⟩, first⟩ := number.head
  exact first.elim minus (by rw [digit]; exact Bool.false_ne_true)

/-- The marks that stand behind a value. -/
def isMark (c : Char) : Bool := c == ',' || c == ']' || c == '\x7d'

/-- Two readings of a value in front of a mark come to the same value and the same mark. -/
theorem Part.Unique.marked {v v' : Value} {input a b rest rest' : List Char} {c c' : Char}
    (unique : (Part.value v).Unique input a) (value : Denotes (.value v') input b)
    (behind : Blanks a (c :: rest)) (behind' : Blanks b (c' :: rest'))
    (mark : isMark c = true) (mark' : isMark c' = true) : v = v' ∧ c = c' ∧ rest = rest' := by
  have plain : ∀ c, isMark c = true → isBlank c = false ∧ (c = ',' ∨ c = ']' ∨ c = '\x7d') := by
    intro c mark
    simp only [isMark, Bool.or_eq_true, beq_iff_eq] at mark
    rcases mark with (rfl | rfl) | rfl <;> decide
  have closes : ∀ {a rest : List Char} {c : Char}, Blanks a (c :: rest) → isMark c = true →
      Closes a := by
    intro a rest c behind mark
    refine behind.closes ?_
    rintro _ ⟨⟩
    exact .inr (plain c mark).2
  obtain ⟨rfl, rfl⟩ := unique v' b (closes behind mark) value (closes behind' mark')
  exact ⟨rfl, behind.mark behind' (plain c mark).1 (plain c' mark').1⟩

theorem Label.unique {input name name' a a' : List Char} (h : Label input name a)
    (h' : Label input name' a') (solid : Solid a) (solid' : Solid a') : name = name' ∧ a = a' := by
  obtain ⟨_, _, _, before, characters, colon, between⟩ := h
  obtain ⟨_, _, _, before', characters', colon', between'⟩ := h'
  obtain ⟨_, rfl⟩ := before.mark before' (by decide) (by decide)
  obtain ⟨rfl, rfl⟩ := characters.unique characters'
  obtain ⟨_, rfl⟩ := colon.mark colon' (by decide) (by decide)
  exact ⟨rfl, between.unique between' solid solid'⟩

theorem Label.not_closed {input name a rest : List Char} (h : Label input name a)
    (blanks : Blanks input ('\x7d' :: rest)) : False := by
  obtain ⟨_, _, _, before, _⟩ := h
  exact absurd (before.mark blanks (by decide) (by decide)).1 (by decide)

/-- What a value starts with is not the end of a list. -/
theorem Denotes.not_closed {v : Value} {input a b rest : List Char} (before : Blanks input a)
    (value : Denotes (.value v) a b) (blanks : Blanks input (']' :: rest)) : False := by
  obtain ⟨c, tail, rfl, solid, other⟩ := value.head
  exact other (before.mark blanks solid (by decide)).1

section Entries

variable {v w : Value} {name : List Char} {input a b next rest : List Char}

/-- The last item of a list is read in one way. -/
theorem Part.Unique.lastItem (ih : (Part.value v).Unique a b) (before : Blanks input a)
    (value : Denotes (.value v) a b) (behind : Blanks b (']' :: rest)) :
    (Part.items [v]).Unique input rest := by
  intro vs' rest' h'
  cases h' with
  | noItem blanks => exact (value.not_closed before blanks).elim
  | lastItem before' value' behind' =>
    obtain rfl := before.unique before' value.solid value'.solid
    obtain ⟨rfl, _, rfl⟩ := ih.marked value' behind behind' (by decide) (by decide)
    exact ⟨rfl, rfl⟩
  | nextItem before' value' behind' =>
    obtain rfl := before.unique before' value.solid value'.solid
    obtain ⟨_, other, _⟩ := ih.marked value' behind behind' (by decide) (by decide)
    exact absurd other (by decide)

/-- An item in front of others is read in one way, if the others are. -/
theorem Part.Unique.nextItem {vs : List Value} (ih : (Part.value v).Unique a b)
    (before : Blanks input a) (value : Denotes (.value v) a b) (behind : Blanks b (',' :: next))
    (more : (Part.items (w :: vs)).Unique next rest) :
    (Part.items (v :: w :: vs)).Unique input rest := by
  intro vs' rest' h'
  cases h' with
  | noItem blanks => exact (value.not_closed before blanks).elim
  | lastItem before' value' behind' =>
    obtain rfl := before.unique before' value.solid value'.solid
    obtain ⟨_, other, _⟩ := ih.marked value' behind behind' (by decide) (by decide)
    exact absurd other (by decide)
  | nextItem before' value' behind' more' =>
    obtain rfl := before.unique before' value.solid value'.solid
    obtain ⟨rfl, _, rfl⟩ := ih.marked value' behind behind' (by decide) (by decide)
    obtain ⟨same, rfl⟩ := more _ _ more'
    exact ⟨by rw [same], rfl⟩

/-- The last member of an object is read in one way. -/
theorem Part.Unique.lastMember (ih : (Part.value v).Unique a b) (label : Label input name a)
    (value : Denotes (.value v) a b) (behind : Blanks b ('\x7d' :: rest)) :
    (Part.members [(String.ofList name, v)]).Unique input rest := by
  intro ms' rest' h'
  cases h' with
  | noMember blanks => exact (label.not_closed blanks).elim
  | lastMember label' value' behind' =>
    obtain ⟨rfl, rfl⟩ := label.unique label' value.solid value'.solid
    obtain ⟨rfl, _, rfl⟩ := ih.marked value' behind behind' (by decide) (by decide)
    exact ⟨rfl, rfl⟩
  | nextMember label' value' behind' =>
    obtain ⟨rfl, rfl⟩ := label.unique label' value.solid value'.solid
    obtain ⟨_, other, _⟩ := ih.marked value' behind behind' (by decide) (by decide)
    exact absurd other (by decide)

/-- A member in front of others is read in one way, if the others are. -/
theorem Part.Unique.nextMember {m : String × Value} {ms : List (String × Value)}
    (ih : (Part.value v).Unique a b) (label : Label input name a)
    (value : Denotes (.value v) a b) (behind : Blanks b (',' :: next))
    (more : (Part.members (m :: ms)).Unique next rest) :
    (Part.members ((String.ofList name, v) :: m :: ms)).Unique input rest := by
  intro ms' rest' h'
  cases h' with
  | noMember blanks => exact (label.not_closed blanks).elim
  | lastMember label' value' behind' =>
    obtain ⟨rfl, rfl⟩ := label.unique label' value.solid value'.solid
    obtain ⟨_, other, _⟩ := ih.marked value' behind behind' (by decide) (by decide)
    exact absurd other (by decide)
  | nextMember label' value' behind' more' =>
    obtain ⟨rfl, rfl⟩ := label.unique label' value.solid value'.solid
    obtain ⟨rfl, _, rfl⟩ := ih.marked value' behind behind' (by decide) (by decide)
    obtain ⟨same, rfl⟩ := more _ _ more'
    exact ⟨by rw [same], rfl⟩

end Entries

theorem Denotes.unique {part : Part} {input rest : List Char} (h : Denotes part input rest) :
    part.Unique input rest := by
  induction h with
  | null =>
    intro v' rest' _ h' _
    cases h' with
    | null => exact ⟨rfl, rfl⟩
    | number number => exact (number.not_head (by decide) (by decide)).elim
  | yes =>
    intro v' rest' _ h' _
    cases h' with
    | yes => exact ⟨rfl, rfl⟩
    | number number => exact (number.not_head (by decide) (by decide)).elim
  | no =>
    intro v' rest' _ h' _
    cases h' with
    | no => exact ⟨rfl, rfl⟩
    | number number => exact (number.not_head (by decide) (by decide)).elim
  | number number =>
    intro v' rest' closes h' closes'
    cases h' with
    | number number' =>
      obtain ⟨rfl, rfl⟩ := number.unique number' closes.stops closes'.stops
      exact ⟨rfl, rfl⟩
    | _ => exact (number.not_head (by decide) (by decide)).elim
  | text characters =>
    intro v' rest' _ h' _
    cases h' with
    | text characters' =>
      obtain ⟨rfl, rfl⟩ := characters.unique characters'
      exact ⟨rfl, rfl⟩
    | number number => exact (number.not_head (by decide) (by decide)).elim
  | array _ ih =>
    intro v' rest' _ h' _
    cases h' with
    | array items =>
      obtain ⟨rfl, rfl⟩ := ih _ _ items
      exact ⟨rfl, rfl⟩
    | number number => exact (number.not_head (by decide) (by decide)).elim
  | object _ ih =>
    intro v' rest' _ h' _
    cases h' with
    | object members =>
      obtain ⟨rfl, rfl⟩ := ih _ _ members
      exact ⟨rfl, rfl⟩
    | number number => exact (number.not_head (by decide) (by decide)).elim
  | noItem blanks =>
    intro vs' rest' h'
    cases h' with
    | noItem blanks' =>
      obtain ⟨_, rfl⟩ := blanks.mark blanks' (by decide) (by decide)
      exact ⟨rfl, rfl⟩
    | lastItem before value | nextItem before value => exact (value.not_closed before blanks).elim
  | lastItem before value behind ih => exact ih.lastItem before value behind
  | nextItem before value behind _ ih more => exact ih.nextItem before value behind more
  | noMember blanks =>
    intro ms' rest' h'
    cases h' with
    | noMember blanks' =>
      obtain ⟨_, rfl⟩ := blanks.mark blanks' (by decide) (by decide)
      exact ⟨rfl, rfl⟩
    | lastMember label | nextMember label => exact (label.not_closed blanks).elim
  | lastMember label value behind ih => exact ih.lastMember label value behind
  | nextMember label value behind _ ih more => exact ih.nextMember label value behind more

theorem Says.unique {text : List Char} {v w : Value} (h : Says text v) (h' : Says text w) :
    v = w := by
  obtain ⟨a, b, before, value, behind⟩ := h
  obtain ⟨a', b', before', value', behind'⟩ := h'
  obtain rfl := before.unique before' value.solid value'.solid
  have closes : ∀ {b : List Char}, Blanks b [] → Closes b :=
    fun blanks => blanks.closes (by rintro _ ⟨⟩)
  exact (value.unique _ _ (closes behind) value' (closes behind')).1

end SyntaxAtlas.JsonText
