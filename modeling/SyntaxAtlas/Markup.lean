-- Markup: text made safe for a page, with blanks that can be seen.

import SyntaxAtlas.Catalog
import SyntaxAtlas.Trivia
import SyntaxAtlas.Violation

namespace SyntaxAtlas.Markup

/-! ## Characters -/

/-- A character that has a meaning in markup becomes an entity. -/
def escapeCharacter (c : Char) : List Char :=
  if c = '&' then "&amp;".toList
  else if c = '<' then "&lt;".toList
  else if c = '>' then "&gt;".toList
  else if c = '"' then "&quot;".toList
  else if c = Text.singleQuote then "&apos;".toList
  else [c]

def escape (text : String) : String := String.ofList (text.toList.flatMap escapeCharacter)

/-- A blank that does not break a line. -/
def blankMark : String := "&nbsp;"

/-- A line break. -/
def breakMark : String := "<br/>"

/-- What a space shows as. -/
def spaceSymbol : String := "␣"

/-- What a line feed shows as. -/
def lineSymbol : String := "↲"

/-- Puts marks in the places of spaces and line feeds. -/
def markBlank (space line : String) (c : Char) : List Char :=
  if c = ' ' then space.toList else if c = '\n' then line.toList else [c]

/-- Spaces and line feeds as marks of a page. -/
def blanksToMarks (text : String) : String :=
  String.ofList (text.toList.flatMap (markBlank blankMark breakMark))

/-- Spaces and line feeds as symbols. -/
def blanksToSymbols (text : String) : String :=
  String.ofList (text.toList.flatMap (markBlank spaceSymbol lineSymbol))

/-! ## Marks that can be seen -/

/-- Replaces each occurrence of `old`, from the left. `skip` counts the
characters that an occurrence still covers. -/
def replaceFrom (old new : List Char) : Nat → List Char → List Char
  | _, [] => []
  | skip + 1, _ :: cs => replaceFrom old new skip cs
  | 0, c :: cs =>
    if old.isPrefixOf (c :: cs) then new ++ replaceFrom old new (old.length - 1) cs
    else c :: replaceFrom old new 0 cs

def replace (old new text : String) : String :=
  String.ofList (replaceFrom old.toList new.toList 0 text.toList)

/-- A span that shows a space. -/
def spaceSpan : String := "<span class='whitespace'>" ++ spaceSymbol ++ "</span>"

/-- A span that shows a line feed, and the break behind it. -/
def lineSpan : String := "<span class='newline'>" ++ lineSymbol ++ "</span>" ++ breakMark

/-- The marks of a page with a symbol beside each. -/
def showMarks (text : String) : String :=
  replace breakMark lineSpan (replace blankMark spaceSpan text)

/-- The text of a token as a label. -/
def label (text : String) : String := showMarks (blanksToMarks (escape text))

/-- A kind's name without the ending that listings give it. -/
def className (kindName : String) : String :=
  if nodeSuffix.toList.isSuffixOf kindName.toList then
    String.ofList (kindName.toList.take (kindName.length - nodeSuffix.length))
  else kindName

/-! ## Trivia -/

/-- A text again and again. -/
def times (n : Nat) (text : String) : String := String.join (List.replicate n text)

/-- A tab is as wide as this many blanks. -/
def tabWidth : Nat := 2

/-- A span with the text of a piece, titled with its description. -/
def pieceSpan (p : TriviaPiece) : String :=
  "<span class='" ++ escape p.kind.name
    ++ "' data-title='" ++ blanksToSymbols (escape p.description)
    ++ "' data-content='" ++ blanksToMarks (escape p.kind.name)
    ++ "' data-type='Trivia'>" ++ blanksToMarks (escape p.text) ++ "</span>"

/-- A piece of trivia on a page. -/
def piece (p : TriviaPiece) : String :=
  match p.kind with
  | .spaces => times p.count blankMark
  | .tabs => times (p.count * tabWidth) blankMark
  | .verticalTabs | .formfeeds => ""
  | .newlines | .carriageReturns | .carriageReturnLineFeeds => times p.count breakMark
  | .lineComment | .blockComment | .docLineComment | .docBlockComment | .unexpectedText =>
    pieceSpan p
  | .backslashes => times p.count "\\"
  | .pounds => times p.count "#"

/-- A piece to be shown, of the kind that data names. -/
def pieceOf (kind : Datum) (text : String) : Except Violation TriviaPiece :=
  match kind.text?.bind TriviaKind.ofName? with
  | some kind => .ok ⟨kind, text⟩
  | none => .error (.unhandledTrivia kind.display)

end SyntaxAtlas.Markup
