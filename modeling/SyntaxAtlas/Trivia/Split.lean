-- Cutting the gap between two tokens into pieces. Runs of blanks, comments,
-- backslashes and pounds are pieces of their own kind. A token that recovery
-- dropped, and any other character, is unexpected text. An entry of a dropped
-- token that ends before it starts leads back, and what was passed already is cut
-- once more.

import SyntaxAtlas.Lexeme.Class
import SyntaxAtlas.Text.Parts
import SyntaxAtlas.Trivia

namespace SyntaxAtlas.Trivia

/-! ## The piece at the start of a text -/

/-- The length of the run of `\r\n` pairs at the start. -/
def pairRun : List Char → Nat
  | '\r' :: '\n' :: cs => pairRun cs + 2
  | _ => 0

/-- The length of the run of the character `c` at the start. -/
def charRun (c : Char) (text : List Char) : Nat := (text.takeWhile (· == c)).length

/-- The kind of a run of one character. -/
def runKind? (c : Char) : Option TriviaKind :=
  if c = '\n' then some .newlines
  else if c = '\r' then some .carriageReturns
  else if c = ' ' then some .spaces
  else if c = '\t' then some .tabs
  else if c.toNat = 0x0b then some .verticalTabs
  else if c.toNat = 0x0c then some .formfeeds
  else if c = '\\' then some .backslashes
  else if c = '#' then some .pounds
  else none

/-- The kind and length of the comment at the start. -/
def comment? (text : List Char) : Option (TriviaKind × Nat) :=
  match Comment.lineLength text with
  | some n => some (if Comment.isDocLine text then .docLineComment else .lineComment, n)
  | none =>
    (Comment.blockLength text).map fun n =>
      (if Comment.isDocBlock text then .docBlockComment else .blockComment, n)

/-- The kind and length of the piece at the start of a text. A pair `\r\n` is
tried before its two characters. -/
def piece? (text : List Char) : Option (TriviaKind × Nat) :=
  match pairRun text, text with
  | n + 1, _ => some (.carriageReturnLineFeeds, n + 1)
  | 0, [] => none
  | 0, c :: _ =>
    match runKind? c with
    | some kind => some (kind, charRun c text)
    | none => comment? text

/-! ## Dropped tokens -/

/-- The tokens that recovery dropped: where each starts and ends, in
characters. The latest entry for a start counts. -/
abbrev Dropped := List (Int × Int)

/-- The end of the token that was dropped at an offset. -/
def Dropped.end? (dropped : Dropped) (offset : Int) : Option Int :=
  (dropped.reverse.find? (·.1 == offset)).map (·.2)

/-! ## All pieces -/

/-- Puts unexpected text in front. It joins unexpected text that follows. -/
def consUnexpected (text : List Char) : List TriviaPiece → List TriviaPiece
  | ⟨.unexpectedText, next⟩ :: pieces => ⟨.unexpectedText, String.ofList text ++ next⟩ :: pieces
  | pieces => ⟨.unexpectedText, String.ofList text⟩ :: pieces

/-- The pieces of a text that starts at `offset` characters of the source. -/
def split (dropped : Dropped) (offset : Int) (text : List Char) : List TriviaPiece :=
  match text with
  | [] => []
  | c :: cs =>
    match (dropped.end? offset).map fun stop => (stop - offset).toNat with
    | some (n + 1) =>
      consUnexpected ((c :: cs).take (n + 1)) (split dropped (offset + (n + 1)) (cs.drop n))
    | _ =>
      match piece? (c :: cs) with
      | some (kind, n + 1) =>
        ⟨kind, String.ofList ((c :: cs).take (n + 1))⟩
          :: split dropped (offset + (n + 1)) (cs.drop n)
      | _ => consUnexpected [c] (split dropped (offset + 1) cs)
termination_by text.length
decreasing_by all_goals simp only [List.length_cons, List.length_drop]; omega

/-- Cuts pieces before the first line end. -/
def splitAtNewline (pieces : List TriviaPiece) : List TriviaPiece × List TriviaPiece :=
  pieces.span (!·.isNewline)

/-! ## Entries that lead back -/

/-- Every token ends behind its start. -/
def Dropped.leadForward (dropped : Dropped) : Bool := dropped.all fun d => d.1 < d.2

/-- The pieces of a gap from the offset `here` on, in at most `steps` steps. The
gap starts at `base` characters of the source. An offset below zero names a
character from the end, but a run of trivia is looked for at the start. -/
def revisit (dropped : Dropped) (base : Int) (gap : List Char) :
    (steps : Nat) → (here : Int) → List TriviaPiece
  | 0, _ => []
  | steps + 1, here =>
    if gap.length ≤ here then [] else
    match dropped.end? (base + here) with
    | some stop =>
      let stop := min (stop - base) gap.length
      consUnexpected (Text.slice gap here stop) (revisit dropped base gap steps stop)
    | none =>
      let ahead := gap.drop here.toNat
      match piece? ahead with
      | some (kind, n) =>
        ⟨kind, String.ofList (ahead.take n)⟩
          :: revisit dropped base gap steps (here.toNat + n)
      | none =>
        consUnexpected ((gap.drop (Text.offsetWithin gap.length here)).take 1)
          (revisit dropped base gap steps (here + 1))

/-- The pieces of a gap, whichever way the entries lead. No offset can be met
twice, so the steps are bounded by the offsets from either end and the
entries. -/
def cut (dropped : Dropped) (base : Int) (gap : List Char) : List TriviaPiece :=
  if dropped.leadForward then split dropped base gap
  else revisit dropped base gap (2 * gap.length + dropped.length + 1) 0

end SyntaxAtlas.Trivia
