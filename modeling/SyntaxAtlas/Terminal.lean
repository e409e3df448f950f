-- The terminals: what a single token can be. Keywords and marks have a fixed
-- spelling, the word classes have a spelling of their own for each token.

import SyntaxAtlas.Text.LowerCase

namespace SyntaxAtlas

/-! ## Keywords -/

/-- A reserved word. -/
inductive Keyword
  | letWord | varWord | funcWord | returnWord
  | ifWord | elseWord | forWord | inWord | whileWord
  | structWord | classWord | enumWord | caseWord | importWord
  | trueWord | falseWord | nilWord | selfWord
  | breakWord | continueWord
  | staticWord | publicWord | privateWord | fileprivateWord
  | internalWord | finalWord | mutatingWord | overrideWord
deriving DecidableEq, Repr

namespace Keyword

def text : Keyword → String
  | letWord => "let" | varWord => "var" | funcWord => "func" | returnWord => "return"
  | ifWord => "if" | elseWord => "else" | forWord => "for" | inWord => "in"
  | whileWord => "while" | structWord => "struct" | classWord => "class"
  | enumWord => "enum" | caseWord => "case" | importWord => "import"
  | trueWord => "true" | falseWord => "false" | nilWord => "nil" | selfWord => "self"
  | breakWord => "break" | continueWord => "continue" | staticWord => "static"
  | publicWord => "public" | privateWord => "private" | fileprivateWord => "fileprivate"
  | internalWord => "internal" | finalWord => "final" | mutatingWord => "mutating"
  | overrideWord => "override"

/-- The name of a keyword's terminal is its spelling in capitals. -/
def name : Keyword → String
  | letWord => "LET" | varWord => "VAR" | funcWord => "FUNC" | returnWord => "RETURN"
  | ifWord => "IF" | elseWord => "ELSE" | forWord => "FOR" | inWord => "IN"
  | whileWord => "WHILE" | structWord => "STRUCT" | classWord => "CLASS"
  | enumWord => "ENUM" | caseWord => "CASE" | importWord => "IMPORT"
  | trueWord => "TRUE" | falseWord => "FALSE" | nilWord => "NIL" | selfWord => "SELF"
  | breakWord => "BREAK" | continueWord => "CONTINUE" | staticWord => "STATIC"
  | publicWord => "PUBLIC" | privateWord => "PRIVATE" | fileprivateWord => "FILEPRIVATE"
  | internalWord => "INTERNAL" | finalWord => "FINAL" | mutatingWord => "MUTATING"
  | overrideWord => "OVERRIDE"

/-- The words that may stand in front of a declaration. -/
def modifiers : List Keyword :=
  [staticWord, publicWord, privateWord, fileprivateWord, internalWord, finalWord,
    mutatingWord, overrideWord]

def all : List Keyword :=
  [letWord, varWord, funcWord, returnWord, ifWord, elseWord, forWord, inWord, whileWord,
    structWord, classWord, enumWord, caseWord, importWord, trueWord, falseWord, nilWord,
    selfWord, breakWord, continueWord] ++ modifiers

theorem mem_all (k : Keyword) : k ∈ all := by cases k <;> decide

end Keyword

/-! ## Marks -/

/-- A mark of punctuation. -/
inductive Mark
  | leftParen | rightParen | leftBrace | rightBrace | leftSquare | rightSquare
  | colon | comma | period | semicolon
  | arrow | equal | question | underscore
deriving DecidableEq, Repr

namespace Mark

def text : Mark → String
  | leftParen => "(" | rightParen => ")" | leftBrace => "\x7b" | rightBrace => "\x7d"
  | leftSquare => "[" | rightSquare => "]" | colon => ":" | comma => "," | period => "."
  | semicolon => ";" | arrow => "->" | equal => "=" | question => "?" | underscore => "_"

def name : Mark → String
  | leftParen => "LPAREN" | rightParen => "RPAREN" | leftBrace => "LBRACE"
  | rightBrace => "RBRACE" | leftSquare => "LSQUARE" | rightSquare => "RSQUARE"
  | colon => "COLON" | comma => "COMMA" | period => "DOT" | semicolon => "SEMICOLON"
  | arrow => "ARROW" | equal => "EQUAL" | question => "QUESTION" | underscore => "UNDERSCORE"

/-- The name of the kind of a token that is this mark. -/
def kindName : Mark → String
  | leftParen => "leftParen" | rightParen => "rightParen" | leftBrace => "leftBrace"
  | rightBrace => "rightBrace" | leftSquare => "leftSquare" | rightSquare => "rightSquare"
  | colon => "colon" | comma => "comma" | period => "period" | semicolon => "semicolon"
  | arrow => "arrow" | equal => "equal" | question => "postfixQuestionMark"
  | underscore => "wildcard"

def all : List Mark :=
  [leftParen, rightParen, leftBrace, rightBrace, leftSquare, rightSquare, colon, comma,
    period, semicolon, arrow, equal, question, underscore]

theorem mem_all (m : Mark) : m ∈ all := by cases m <;> decide

end Mark

/-! ## Terminals -/

/-- What a token can be. The string parts and the end of the file are made
when a tree is built; `endOfInput` is what the parser sees after the last
token; `other` is a name outside the grammar. -/
inductive Terminal
  | keyword (k : Keyword)
  | mark (m : Mark)
  | identifier
  | integer
  | float
  | operator
  | string
  | endOfInput
  | stringQuote
  | stringSegment
  | endOfFile
  | other (name : String)
deriving DecidableEq, Repr

namespace Terminal

def name : Terminal → String
  | keyword k => k.name
  | mark m => m.name
  | identifier => "IDENTIFIER"
  | integer => "INTEGER"
  | float => "FLOAT"
  | operator => "OPERATOR"
  | string => "STRING"
  | endOfInput => "$END"
  | stringQuote => "STRING_QUOTE"
  | stringSegment => "STRING_SEGMENT"
  | endOfFile => "EOF"
  | other n => n

/-- The terminals that a source text can hold. -/
def lexical : List Terminal :=
  Keyword.all.map keyword ++ Mark.all.map mark
    ++ [identifier, integer, float, operator, string]

/-- Every terminal with a meaning of its own. -/
def known : List Terminal :=
  lexical ++ [endOfInput, stringQuote, stringSegment, endOfFile]

/-- The terminal of a name. -/
def ofName (n : String) : Terminal :=
  (known.find? (·.name == n)).getD (other n)

/-- The number of a grammar terminal. Sets of terminals are numbers with the
bits of their members. -/
def code : Terminal → Nat
  | endOfInput => 0
  | identifier => 1
  | integer => 2
  | float => 3
  | operator => 4
  | string => 5
  | mark m => 6 + m.ctorIdx
  | keyword k => 20 + k.ctorIdx
  | stringQuote => 48
  | stringSegment => 49
  | endOfFile => 50
  | other _ => 51

/-- The text that a token of this terminal stands for when the source does not
write it. -/
def canonicalText : Terminal → String
  | keyword k => k.text
  | mark m => m.text
  | stringQuote => "\""
  | _ => ""

/-- A terminal as an error message names it: its text in quotes when it has
one, otherwise its name in small letters. -/
def description (t : Terminal) : String :=
  match t with
  | endOfInput => "end of input"
  | t =>
    if t.canonicalText.isEmpty then Text.lowerCase t.name
    else "'" ++ t.canonicalText ++ "'"

/-- The fixed spelling of a keyword or a mark. -/
def fixedText? : Terminal → Option String
  | keyword k => some k.text
  | mark m => some m.text
  | _ => none

end Terminal

end SyntaxAtlas
