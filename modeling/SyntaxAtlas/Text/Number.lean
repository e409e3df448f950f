-- Numbers in texts. A number may be written with the decimal digits of every
-- script, and each script has its ten digits in one run, so the table keeps the
-- zeros only. A whole number, as people write it, has blanks around, a sign,
-- digits of any script, and single underscores between digits.

namespace SyntaxAtlas.Text

/-! ## Digits -/

/-- The code point of the digit zero of each script. -/
def zeroDigits : List Nat := [
  0x30, 0x660, 0x6f0, 0x7c0, 0x966, 0x9e6, 0xa66, 0xae6, 0xb66, 0xbe6, 0xc66, 0xce6, 0xd66,
  0xde6, 0xe50, 0xed0, 0xf20, 0x1040, 0x1090, 0x17e0, 0x1810, 0x1946, 0x19d0, 0x1a80, 0x1a90,
  0x1b50, 0x1bb0, 0x1c40, 0x1c50, 0xa620, 0xa8d0, 0xa900, 0xa9d0, 0xa9f0, 0xaa50, 0xabf0,
  0xff10, 0x104a0, 0x10d30, 0x11066, 0x110f0, 0x11136, 0x111d0, 0x112f0, 0x11450, 0x114d0,
  0x11650, 0x116c0, 0x11730, 0x118e0, 0x11950, 0x11c50, 0x11d50, 0x11da0, 0x16a60, 0x16ac0,
  0x16b50, 0x1d7ce, 0x1d7d8, 0x1d7e2, 0x1d7ec, 0x1d7f6, 0x1e140, 0x1e2f0, 0x1e950, 0x1fbf0]

/-- A decimal digit of some script: at most nine code points after a zero. -/
def isDecimalDigit (c : Char) : Bool :=
  zeroDigits.any fun z => z ≤ c.toNat && c.toNat ≤ z + 9

/-! ## Whole numbers -/

/-- A character that may stand around a number. -/
def isSpace (c : Char) : Bool :=
  let n := c.toNat
  (0x09 ≤ n && n ≤ 0x0d) || n == 0x20 || n == 0x85 || n == 0xa0 || n == 0x1680
    || (0x2000 ≤ n && n ≤ 0x200a) || n == 0x2028 || n == 0x2029 || n == 0x202f
    || n == 0x205f || n == 0x3000

/-- A text without the blanks around it. -/
def trimmed (cs : List Char) : List Char :=
  ((cs.dropWhile isSpace).reverse.dropWhile isSpace).reverse

/-- The value of a decimal digit of any script. -/
def digitValue? (c : Char) : Option Nat :=
  (zeroDigits.find? fun z => z ≤ c.toNat && c.toNat ≤ z + 9).map (c.toNat - ·)

/-- Reads digits onto a value. An underscore stands between two digits. -/
def readDigits (value : Nat) : List Char → Option Nat
  | [] => some value
  | '_' :: c :: cs => (digitValue? c).bind fun d => readDigits (10 * value + d) cs
  | c :: cs => (digitValue? c).bind fun d => readDigits (10 * value + d) cs

/-- The most digits that a number can have. -/
def longestNumber : Nat := 4300

/-- Reads a number without a sign, which starts with a digit. -/
def readUnsigned : List Char → Option Nat
  | [] => none
  | c :: cs =>
    if longestNumber < (c :: cs).countP (· != '_') then none
    else (digitValue? c).bind fun d => readDigits d cs

/-- Reads a whole number. -/
def readWhole (text : String) : Option Int :=
  match trimmed text.toList with
  | '-' :: cs => (readUnsigned cs).map fun n => -(n : Int)
  | '+' :: cs => (readUnsigned cs).map fun n => (n : Int)
  | cs => (readUnsigned cs).map fun n => (n : Int)

end SyntaxAtlas.Text
