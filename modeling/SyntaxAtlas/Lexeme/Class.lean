-- The classes of lexemes that have no fixed spelling: how long the lexeme of a
-- class is that a text starts with. Each class takes the longest run that its
-- form allows. Comments are here as well, as both the lexer and the trivia see
-- them.

import SyntaxAtlas.Text.Number

namespace SyntaxAtlas.Lexeme

/-! ## Words and operators -/

def isWordStart (c : Char) : Bool := c.isAlpha || c == '_'

def isWordPart (c : Char) : Bool := c.isAlphanum || c == '_'

/-- An identifier: a letter or underscore, then letters, digits and
underscores, all of the basic alphabet. -/
def identifierLength : List Char → Option Nat
  | c :: cs => if isWordStart c then some ((cs.takeWhile isWordPart).length + 1) else none
  | [] => none

def isOperatorPart (c : Char) : Bool :=
  ['-', '+', '*', '/', '%', '<', '>', '!', '&', '|', '^', '~', '=', '?'].contains c

/-- An operator: a range operator, or a run of operator characters. -/
def operatorLength : List Char → Option Nat
  | '.' :: '.' :: '.' :: _ => some 3
  | '.' :: '.' :: '<' :: _ => some 3
  | cs =>
    match (cs.takeWhile isOperatorPart).length with
    | 0 => none
    | n => some n

/-! ## Numbers -/

def isDigitPart (c : Char) : Bool := Text.isDecimalDigit c || c == '_'

/-- Digits: a decimal digit, then digits and underscores. -/
def digitsLength : List Char → Option Nat
  | c :: cs => if Text.isDecimalDigit c then some ((cs.takeWhile isDigitPart).length + 1) else none
  | [] => none

/-- The digits of an exponent, without underscores. -/
def exponentDigits (cs : List Char) : Option Nat :=
  match (cs.takeWhile Text.isDecimalDigit).length with
  | 0 => none
  | n => some n

/-- An exponent: a letter `e`, perhaps a sign, and digits. -/
def exponentLength : List Char → Option Nat
  | e :: cs =>
    if e = 'e' ∨ e = 'E' then
      match cs with
      | '-' :: ds => (exponentDigits ds).map (· + 2)
      | '+' :: ds => (exponentDigits ds).map (· + 2)
      | ds => (exponentDigits ds).map (· + 1)
    else none
  | [] => none

/-- What makes a number a fraction, behind its first digits: a point with
digits and perhaps an exponent, or an exponent alone. -/
def fractionLength (cs : List Char) : Option Nat :=
  let pointed := match cs with
    | '.' :: ds => (digitsLength ds).map fun n => n + 1 + ((exponentLength (ds.drop n)).getD 0)
    | _ => none
  pointed <|> exponentLength cs

/-- A floating-point number. -/
def floatLength (cs : List Char) : Option Nat :=
  (digitsLength cs).bind fun n => (fractionLength (cs.drop n)).map (n + ·)

def isHexPart (c : Char) : Bool :=
  c.isDigit || ('a' ≤ c && c ≤ 'f') || ('A' ≤ c && c ≤ 'F') || c == '_'

def isOctalPart (c : Char) : Bool := ('0' ≤ c && c ≤ '7') || c == '_'

def isBinaryPart (c : Char) : Bool := c == '0' || c == '1' || c == '_'

/-- A number of another base, behind its two leading characters. -/
def basedLength (isPart : Char → Bool) (cs : List Char) : Option Nat :=
  match (cs.takeWhile isPart).length with
  | 0 => none
  | n => some (n + 2)

/-- A whole number: hexadecimal, octal or binary with its mark, otherwise
decimal. -/
def integerLength (cs : List Char) : Option Nat :=
  let based := match cs with
    | '0' :: 'x' :: ds => basedLength isHexPart ds
    | '0' :: 'o' :: ds => basedLength isOctalPart ds
    | '0' :: 'b' :: ds => basedLength isBinaryPart ds
    | _ => none
  based <|> digitsLength cs

/-! ## Strings -/

/-- The rest of a string with its closing quote. A backslash takes the next
character with it, and the string ends on its line. -/
def stringRest : List Char → Option Nat
  | [] => none
  | '"' :: _ => some 1
  | '\\' :: c :: cs => if c = '\n' then none else (stringRest cs).map (· + 2)
  | c :: cs => if c = '\\' ∨ c = '\r' ∨ c = '\n' then none else (stringRest cs).map (· + 1)

/-- A string in double quotes. -/
def stringLength : List Char → Option Nat
  | '"' :: cs => (stringRest cs).map (· + 1)
  | _ => none

/-! ## Blanks -/

def isBlank (c : Char) : Bool :=
  c == ' ' || c == '\t' || c == '\r' || c == '\n' || c.toNat == 0x0b || c.toNat == 0x0c

/-- A run of blanks. -/
def blankLength (cs : List Char) : Option Nat :=
  match (cs.takeWhile isBlank).length with
  | 0 => none
  | n => some n

end SyntaxAtlas.Lexeme

/-! ## Comments -/

namespace SyntaxAtlas.Comment

/-- The number of characters up to and with the first `*/`. -/
def closingLength : List Char → Option Nat
  | [] => none
  | '*' :: '/' :: _ => some 2
  | _ :: cs => (closingLength cs).map (· + 1)

/-- The length of the block comment that the text starts with. It ends at the
first `*/` after its opening. -/
def blockLength : List Char → Option Nat
  | '/' :: '*' :: cs => (closingLength cs).map (· + 2)
  | _ => none

/-- A character that a line comment can hold. -/
def isInline (c : Char) : Bool := c != '\r' && c != '\n'

/-- The length of the line comment that the text starts with. -/
def lineLength : List Char → Option Nat
  | '/' :: '/' :: cs => some ((cs.takeWhile isInline).length + 2)
  | _ => none

/-- A documentation line comment opens with three slashes. -/
def isDocLine : List Char → Bool
  | '/' :: '/' :: '/' :: _ => true
  | _ => false

/-- A documentation block comment opens with `/**`, and `/**/` is none. -/
def isDocBlock : List Char → Bool
  | '/' :: '*' :: '*' :: '/' :: _ => false
  | '/' :: '*' :: '*' :: _ => true
  | _ => false

end SyntaxAtlas.Comment
