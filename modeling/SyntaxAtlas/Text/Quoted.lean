-- Quoted text. Each format has its own short escapes; what is left over is
-- written as it is or by number.

import SyntaxAtlas.Text.Printable
import SyntaxAtlas.Text.Utf8

namespace SyntaxAtlas.Text

/-! ## Records: JSON strings -/

/-- A character inside a JSON string. Control characters are escaped, by a
short escape where there is one. All else stands for itself. -/
def jsonCharacter (c : Char) : List Char :=
  if c = '"' then ['\\', '"']
  else if c = '\\' then ['\\', '\\']
  else if c = '\n' then ['\\', 'n']
  else if c = '\r' then ['\\', 'r']
  else if c = '\t' then ['\\', 't']
  else if c.toNat = 0x08 then ['\\', 'b']
  else if c.toNat = 0x0c then ['\\', 'f']
  else if c.toNat < 0x20 then ['\\', 'u'] ++ hexDigits 4 c.toNat
  else [c]

def jsonQuoted (text : String) : String :=
  String.ofList ('"' :: text.toList.flatMap jsonCharacter ++ ['"'])

/-! ## S-expressions -/

/-- A character inside an indented S-expression string. -/
def formCharacter (c : Char) : List Char :=
  if c = '\\' then ['\\', '\\']
  else if c = '"' then ['\\', '"']
  else if c = '\n' then ['\\', 'n']
  else if c = '\r' then ['\\', 'r']
  else if c = '\t' then ['\\', 't']
  else [c]

def formQuoted (text : String) : String :=
  String.ofList ('"' :: text.toList.flatMap formCharacter ++ ['"'])

/-- A character inside a one-line S-expression string: backspace and form feed
have short escapes too. -/
def compactCharacter (c : Char) : List Char :=
  if c.toNat = 0x08 then ['\\', 'b']
  else if c.toNat = 0x0c then ['\\', 'f']
  else formCharacter c

def compactQuoted (text : String) : String :=
  String.ofList ('"' :: text.toList.flatMap compactCharacter ++ ['"'])

/-! ## Debugging text -/

def singleQuote : Char := Char.ofNat 0x27

/-- The quote around a debugging text: double quotes only for a text that has
a single quote and no double quote. -/
def debugQuote (text : List Char) : Char :=
  if text.contains singleQuote && !text.contains '"' then '"' else singleQuote

/-- A character inside a debugging text: what has no visible form is written
by number, two, four or eight digits wide. -/
def debugCharacter (quote : Char) (c : Char) : List Char :=
  if c = quote || c = '\\' then ['\\', c]
  else if c = '\n' then ['\\', 'n']
  else if c = '\r' then ['\\', 'r']
  else if c = '\t' then ['\\', 't']
  else if isPrintable c then [c]
  else if c.toNat < 0x100 then ['\\', 'x'] ++ hexDigits 2 c.toNat
  else if c.toNat < 0x10000 then ['\\', 'u'] ++ hexDigits 4 c.toNat
  else ['\\', 'U'] ++ hexDigits 8 c.toNat

def debugQuoted (text : String) : String :=
  let quote := debugQuote text.toList
  String.ofList (quote :: text.toList.flatMap (debugCharacter quote) ++ [quote])

end SyntaxAtlas.Text
