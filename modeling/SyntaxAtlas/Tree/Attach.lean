-- Attaching trivia. The text between two tokens is cut into pieces. Up to the
-- first line end they trail the token before, the rest leads the token after.
-- A missing token stands behind the trailing trivia of the token before it.
-- Positions become byte offsets on the way.

import SyntaxAtlas.Text.Parts
import SyntaxAtlas.Tree
import SyntaxAtlas.Trivia.Split

namespace SyntaxAtlas

/-! ## The source by characters and bytes -/

/-- The byte offset of a character offset. -/
def byteOffset (source : List Char) (offset : Int) : Nat :=
  Text.byteLength (source.take (Text.offsetWithin (source.length + 1) offset))

/-- A way to cut a gap into pieces, by the offset of the gap and its text. -/
abbrev Cutter := Int → List Char → List TriviaPiece

namespace Token

/-- Where a token starts, in characters. The end of the file is the end of the
source. -/
def sourceStart (source : List Char) (t : Token) : Int :=
  if t.terminal = .endOfFile then source.length else t.position

/-- The pieces that trail the token before a gap, and those that lead the
token after it. In front of the first token everything leads. -/
def gapPieces (first : Bool) (pieces : List TriviaPiece) :
    List TriviaPiece × List TriviaPiece :=
  if first then ([], pieces) else Trivia.splitAtNewline pieces

/-- Attaches trivia to a run of tokens. `previous` is the last token that the
source writes, `pending` are the missing tokens since then, and `consumed` is
how far the source is used up. -/
def attachFrom (source : List Char) (cut : Cutter) (previous : Option Token)
    (pending : List Token) (consumed : Int) : List Token → List Token
  | [] =>
    previous.toList ++ pending.map fun m => { m with position := byteOffset source consumed }
  | t :: rest =>
    if t.isMissing then attachFrom source cut previous (pending ++ [t]) consumed rest
    else
      let start := t.sourceStart source
      let pieces := cut consumed (Text.slice source consumed start)
      let gap := gapPieces previous.isNone pieces
      let repaired := consumed + (triviaText gap.1).length
      (previous.map fun p => { p with trailing := gap.1 }).toList
        ++ pending.map (fun m => { m with position := byteOffset source repaired })
        ++ attachFrom source cut
          (some { t with leading := gap.2, position := byteOffset source start }) []
          (start + t.text.length) rest

/-- Attaches the trivia of a source to its tokens. -/
def attach (source : List Char) (cut : Cutter) (tokens : List Token) : List Token :=
  attachFrom source cut none [] 0 tokens

end Token

namespace Tree

/-- Attaches the trivia of a source to the tokens of its tree. -/
def attachTrivia (t : Tree) (source : List Char) (cut : Cutter) : Tree :=
  (t.withTokens (Token.attach source cut t.tokens)).1

/-- The tokens in front of the first kind without an entry whose trivia is
settled there. Missing tokens at the end still wait for the next token. -/
def settledTokens (t : Tree) : List Token :=
  (t.reachedTokens.reverse.dropWhile (·.isMissing)).reverse

/-- Attaches trivia as far as the kinds have entries. -/
def attachReached (t : Tree) (source : List Char) (cut : Cutter) : Tree :=
  if t.isKnown then t.attachTrivia source cut
  else (t.withTokens (Token.attach source cut t.settledTokens)).1

end Tree

end SyntaxAtlas
