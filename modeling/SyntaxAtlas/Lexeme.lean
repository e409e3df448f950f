-- Lexemes, read one at a time. What a text reads as depends on which terminals
-- are wanted where it stands: the parser asks for those of its current row,
-- and keywords are always wanted.

import SyntaxAtlas.Lexeme.Class
import SyntaxAtlas.Terminal

namespace SyntaxAtlas

/-- A piece of the source read as a terminal, with its offset in characters. -/
structure Lexeme where
  terminal : Terminal
  text : String
  start : Nat
deriving DecidableEq, Repr

/-- The offset behind a lexeme. -/
def Lexeme.stop (l : Lexeme) : Nat := l.start + l.text.length

namespace Lexeme

/-! ## One lexeme -/

/-- The terminals that may come next. -/
abbrev Wanted := Terminal → Bool

/-- Everything may come. -/
def anything : Wanted := fun _ => true

/-- A fixed spelling that a wanted class covers too. Such a lexeme is read by
the class and gets the terminal of its spelling afterwards. -/
def isCovered (wanted : Wanted) : Terminal → Bool
  | .keyword _ => wanted .identifier
  | .mark .underscore => wanted .identifier
  | .mark .arrow | .mark .equal | .mark .question => wanted .operator
  | _ => false

/-- The terminal of a lexeme that a class has read. -/
def retyped (wanted : Wanted) (cls : Terminal) (text : List Char) : Terminal :=
  let isSpelled := fun t => t.fixedText?.any (·.toList == text) && wanted t
  (Terminal.lexical.find? isSpelled).getD cls

/-- The fixed spellings that are read by themselves. -/
def fixed (wanted : Wanted) : List Terminal :=
  Terminal.lexical.filter fun t => t.fixedText?.isSome && wanted t && !isCovered wanted t

/-- The length of a terminal's fixed spelling, when a text starts with it. -/
def fixedLength (text : List Char) (t : Terminal) : Option Nat :=
  t.fixedText?.bind fun s =>
    if s.toList.isPrefixOf text then some s.toList.length else none

/-- The longest fixed spelling that a text starts with. -/
def longestFixed (wanted : Wanted) (text : List Char) : Option (Terminal × Nat) :=
  (fixed wanted).foldl (fun best t =>
    match fixedLength text t, best with
    | none, best => best
    | some n, none => some (t, n)
    | some n, some (u, m) => if m < n then some (t, n) else some (u, m)) none

/-- What a text starts with: a gap or a terminal, and its length. -/
abbrev Scanned := Option Terminal × Nat

/-- The lexeme of a class, if the class is wanted. -/
def scanClass (wanted : Wanted) (cls : Terminal) (length : List Char → Option Nat)
    (text : List Char) : Option Scanned :=
  if wanted cls then
    (length text).map fun n => (some (retyped wanted cls (text.take n)), n)
  else none

/-- What a text starts with. Comments come first, then numbers, operators,
words and strings, then blanks, and last the fixed spellings. -/
def scan (wanted : Wanted) (text : List Char) : Option Scanned :=
  (Comment.blockLength text).map (none, ·)
    <|> (Comment.lineLength text).map (none, ·)
    <|> scanClass wanted .float floatLength text
    <|> scanClass wanted .integer integerLength text
    <|> scanClass wanted .operator operatorLength text
    <|> scanClass wanted .identifier identifierLength text
    <|> scanClass wanted .string stringLength text
    <|> (blankLength text).map (none, ·)
    <|> (longestFixed wanted text).map fun (t, n) => (some t, n)

/-- The terminals that `scan` tries by themselves. -/
def tried (wanted : Wanted) : List Terminal :=
  Terminal.lexical.filter fun t => wanted t && !isCovered wanted t

/-! ## The next lexeme of a source -/

/-- A place in the source: its offset in characters, and the text from there. -/
structure Cursor where
  offset : Nat
  rest : List Char
deriving DecidableEq, Repr

/-- The place `n` characters further on. -/
def Cursor.advance (c : Cursor) (n : Nat) : Cursor := ⟨c.offset + n, c.rest.drop n⟩

/-- What the source reads as from a place on. -/
inductive Reading
  /-- Nothing but gaps is left. -/
  | finished
  /-- A lexeme that is wanted. -/
  | wanted (l : Lexeme) (after : Cursor)
  /-- A lexeme that is not wanted here. -/
  | misplaced (l : Lexeme) (after : Cursor)
  /-- A character that starts no lexeme at all. -/
  | stray (c : Char) (offset : Nat) (after : Cursor)
deriving DecidableEq, Repr

/-- The lexeme of the next `n` characters. -/
def Cursor.lexeme (c : Cursor) (t : Terminal) (n : Nat) : Lexeme :=
  ⟨t, String.ofList (c.rest.take n), c.offset⟩

/-- Reads the next lexeme. Gaps are passed over. Where nothing wanted fits,
any terminal is tried. -/
def Cursor.read (wanted : Wanted) (cursor : Cursor) : Reading :=
  match cursor with
  | ⟨_, []⟩ => .finished
  | ⟨offset, c :: cs⟩ =>
    let here : Cursor := ⟨offset, c :: cs⟩
    match scan wanted (c :: cs) with
    | some (none, n + 1) => Cursor.read wanted ⟨offset + (n + 1), cs.drop n⟩
    | some (some t, n + 1) => .wanted (here.lexeme t (n + 1)) (here.advance (n + 1))
    | _ =>
      match scan anything (c :: cs) with
      | some (some t, n + 1) => .misplaced (here.lexeme t (n + 1)) (here.advance (n + 1))
      | _ => .stray c offset (here.advance 1)
termination_by cursor.rest.length
decreasing_by simp only [List.length_cons, List.length_drop]; omega

/-- The place behind what was read. -/
def Reading.after? : Reading → Option Cursor
  | finished => none
  | wanted _ after | misplaced _ after | stray _ _ after => some after

/-- Reading uses up at least one character. -/
theorem Cursor.read_after_lt {w : Wanted} {c after : Cursor}
    (h : (c.read w).after? = some after) : after.rest.length < c.rest.length := by
  fun_induction Cursor.read w c with
  | case1 => simp [Reading.after?] at h
  | case2 offset c cs n _ ih =>
    have := ih h
    simp only [List.length_drop, List.length_cons] at this ⊢
    omega
  | case3 offset c cs here t n _ =>
    obtain rfl : here.advance (n + 1) = after := by simpa [Reading.after?] using h
    simp only [Cursor.advance, here, List.length_drop, List.length_cons]
    omega
  | case4 offset c cs here t n _ _ _ =>
    obtain rfl : here.advance (n + 1) = after := by simpa [Reading.after?] using h
    simp only [Cursor.advance, here, List.length_drop, List.length_cons]
    omega
  | case5 offset c cs here _ _ _ =>
    obtain rfl : here.advance 1 = after := by simpa [Reading.after?] using h
    simp [Cursor.advance, here]

end Lexeme

end SyntaxAtlas
