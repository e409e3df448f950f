-- UTF-8: the width of text in bytes, and reading bytes as text. A byte that
-- cannot be read stops the reading with a fault that names the bytes and the
-- reason.

namespace SyntaxAtlas.Text

/-! ## Widths -/

/-- The number of bytes that the characters take. -/
def byteLength : List Char → Nat
  | [] => 0
  | c :: cs => c.utf8Size + byteLength cs

@[simp] theorem byteLength_nil : byteLength [] = 0 := rfl

@[simp] theorem byteLength_cons (c : Char) (cs : List Char) :
    byteLength (c :: cs) = c.utf8Size + byteLength cs := rfl

@[simp] theorem byteLength_append (xs ys : List Char) :
    byteLength (xs ++ ys) = byteLength xs + byteLength ys := by
  induction xs with
  | nil => simp
  | cons x xs ih => simp [ih, Nat.add_assoc]

/-- The characters that lie wholly in the first `n` bytes. -/
def takeBytes : Nat → List Char → List Char
  | _, [] => []
  | n, c :: cs => if c.utf8Size ≤ n then c :: takeBytes (n - c.utf8Size) cs else []

/-- The characters of the first `n` bytes, when these bytes end between two
characters or beyond the text. -/
def splitBytes? : Nat → List Char → Option (List Char)
  | 0, _ => some []
  | _ + 1, [] => some []
  | n + 1, c :: cs =>
    if c.utf8Size ≤ n + 1 then (splitBytes? (n + 1 - c.utf8Size) cs).map (c :: ·) else none

/-! ## Reading bytes -/

/-- Why bytes are not text. -/
inductive Utf8Reason
  | invalidStart
  | invalidContinuation
  | unexpectedEnd
deriving DecidableEq, Repr

def Utf8Reason.text : Utf8Reason → String
  | .invalidStart => "invalid start byte"
  | .invalidContinuation => "invalid continuation byte"
  | .unexpectedEnd => "unexpected end of data"

/-- The first bytes that are not text: where they start, the bytes, and why. -/
structure Utf8Fault where
  start : Nat
  bytes : List UInt8
  reason : Utf8Reason
deriving DecidableEq, Repr

/-- A number below 16 as a hexadecimal digit. -/
def hexDigit (n : Nat) : Char :=
  if n < 10 then Char.ofNat (48 + n) else Char.ofNat (87 + n)

/-- A number in lower-case hexadecimal, `width` digits wide. -/
def hexDigits : Nat → Nat → List Char
  | 0, _ => []
  | width + 1, n => hexDigits width (n / 16) ++ [hexDigit (n % 16)]

def Utf8Fault.message (fault : Utf8Fault) : String :=
  let place := match fault.bytes with
    | [b] => "byte 0x" ++ String.ofList (hexDigits 2 b.toNat) ++ " in position "
        ++ toString fault.start
    | bytes => "bytes in position " ++ toString fault.start ++ "-"
        ++ toString (fault.start + bytes.length - 1)
  "'utf-8' codec can't decode " ++ place ++ ": " ++ fault.reason.text

/-- The bounds of the byte after a first byte, and how many more bytes follow
in all. Bounds narrower than `0x80` to `0xbf` shut out overlong forms,
surrogates and numbers beyond the last code point. -/
def continuation? (first : UInt8) : Option (Nat × Nat × Nat) :=
  let b := first.toNat
  if b < 0xc2 then none
  else if b < 0xe0 then some (1, 0x80, 0xbf)
  else if b == 0xe0 then some (2, 0xa0, 0xbf)
  else if b == 0xed then some (2, 0x80, 0x9f)
  else if b < 0xf0 then some (2, 0x80, 0xbf)
  else if b == 0xf0 then some (3, 0x90, 0xbf)
  else if b < 0xf4 then some (3, 0x80, 0xbf)
  else if b == 0xf4 then some (3, 0x80, 0x8f)
  else none

/-- The bits that a first byte adds to the code point. -/
def leadingBits (first : UInt8) (more : Nat) : Nat :=
  first.toNat % (1 <<< (6 - more))

/-- Reads `more` continuation bytes onto `value`. The first of them lies
between `low` and `high`. On a fault, gives the bytes that were good. -/
def readContinuation (value more low high : Nat) (bytes good : List UInt8) :
    Except (List UInt8 × Utf8Reason) (Nat × Nat) :=
  match more, bytes with
  | 0, _ => .ok (value, good.length)
  | _ + 1, [] => .error (good, .unexpectedEnd)
  | more + 1, b :: rest =>
    if low ≤ b.toNat && b.toNat ≤ high then
      readContinuation (value * 64 + b.toNat % 64) more 0x80 0xbf rest (good ++ [b])
    else .error (good, .invalidContinuation)

/-- Reads one character: its value and the number of its bytes. -/
def readCharacter (first : UInt8) (rest : List UInt8) :
    Except (List UInt8 × Utf8Reason) (Nat × Nat) :=
  if first.toNat < 0x80 then .ok (first.toNat, 1) else
  match continuation? first with
  | none => .error ([first], .invalidStart)
  | some (more, low, high) =>
    readContinuation (leadingBits first more) more low high rest [first]

/-- Reads bytes as text, `position` bytes into the input. -/
def readCharacters (position : Nat) (bytes : List UInt8) : Except Utf8Fault (List Char) :=
  match bytes with
  | [] => .ok []
  | first :: rest =>
    match readCharacter first rest with
    | .error (good, reason) => .error ⟨position, good, reason⟩
    | .ok (value, count) =>
      match readCharacters (position + count) (rest.drop (count - 1)) with
      | .error fault => .error fault
      | .ok cs => .ok (Char.ofNat value :: cs)
termination_by bytes.length
decreasing_by simp only [List.length_cons, List.length_drop]; omega

/-- The text of a byte string, or the first fault in it. -/
def decode (bytes : List UInt8) : Except Utf8Fault String :=
  (readCharacters 0 bytes).map String.ofList

end SyntaxAtlas.Text
