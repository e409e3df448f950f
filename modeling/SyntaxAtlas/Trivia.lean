-- Trivia: the text between tokens, cut into pieces of one kind each.

import SyntaxAtlas.Datum
import SyntaxAtlas.Violation

namespace SyntaxAtlas

/-- The kind of a piece of trivia. -/
inductive TriviaKind
  | spaces | tabs | verticalTabs | formfeeds
  | newlines | carriageReturns | carriageReturnLineFeeds
  | lineComment | blockComment | docLineComment | docBlockComment
  | unexpectedText | backslashes | pounds
deriving DecidableEq, Repr

namespace TriviaKind

def name : TriviaKind → String
  | spaces => "spaces" | tabs => "tabs" | verticalTabs => "verticalTabs"
  | formfeeds => "formfeeds" | newlines => "newlines"
  | carriageReturns => "carriageReturns"
  | carriageReturnLineFeeds => "carriageReturnLineFeeds"
  | lineComment => "lineComment" | blockComment => "blockComment"
  | docLineComment => "docLineComment" | docBlockComment => "docBlockComment"
  | unexpectedText => "unexpectedText" | backslashes => "backslashes" | pounds => "pounds"

def all : List TriviaKind :=
  [spaces, tabs, verticalTabs, formfeeds, newlines, carriageReturns, carriageReturnLineFeeds,
    lineComment, blockComment, docLineComment, docBlockComment, unexpectedText, backslashes,
    pounds]

def ofName? (n : String) : Option TriviaKind := all.find? (·.name == n)

/-- A kind that ends a line. -/
def isNewline : TriviaKind → Bool
  | newlines | carriageReturns | carriageReturnLineFeeds => true
  | _ => false

/-- A kind of which only the length matters: a run of one character, or of the
pair `\r\n`. -/
def isCounted : TriviaKind → Bool
  | lineComment | blockComment | docLineComment | docBlockComment | unexpectedText => false
  | _ => true

end TriviaKind

/-- One piece of trivia with its exact text. -/
structure TriviaPiece where
  kind : TriviaKind
  text : String
deriving DecidableEq, Repr

namespace TriviaPiece

/-- A piece of the kind that data names. -/
def named (kind : Datum) (text : String) : Except Violation TriviaPiece :=
  match kind.text?.bind TriviaKind.ofName? with
  | some kind => .ok ⟨kind, text⟩
  | none => .error (.invalidTrivia kind.written)

def isNewline (p : TriviaPiece) : Bool := p.kind.isNewline

/-- The number of characters, and for `\r\n` of pairs. -/
def count (p : TriviaPiece) : Nat :=
  match p.kind with
  | .carriageReturnLineFeeds => p.text.length / 2
  | _ => p.text.length

/-- A piece for the debugger: `spaces(2)` or `lineComment("// note")`. -/
def description (p : TriviaPiece) : String :=
  let content := if p.kind.isCounted then toString p.count else Text.jsonQuoted p.text
  p.kind.name ++ "(" ++ content ++ ")"

end TriviaPiece

/-- The text of a run of pieces. -/
def triviaText (pieces : List TriviaPiece) : String :=
  String.join (pieces.map (·.text))

end SyntaxAtlas
