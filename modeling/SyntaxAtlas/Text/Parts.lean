-- Parts of a text, and their width. There are two ways to cut text into lines.
-- Rows of a location end at `\n`, `\r` or `\r\n` and keep their ends, so they
-- join to the text again. Snippet lines also end at the other characters that
-- show as a line break, and are cut off there.

namespace SyntaxAtlas.Text

/-! ## Offsets -/

/-- An offset among `count` characters. One below zero counts from the end. -/
def offsetWithin (count : Nat) (offset : Int) : Nat :=
  if 0 ≤ offset then offset.toNat else (count + offset).toNat

/-- The characters from one offset to another. -/
def slice (source : List Char) (start stop : Int) : List Char :=
  let first := offsetWithin source.length start
  (source.drop first).take (offsetWithin source.length stop - first)

/-! ## Rows -/

/-- Puts a character in front of the first row. -/
def extendRow (c : Char) : List (List Char) → List (List Char)
  | [] => [[c]]
  | row :: rows => (c :: row) :: rows

/-- The rows of a text, each with its end. The last row has no end, so a text
that ends in a line break has an empty last row. -/
def rows : List Char → List (List Char)
  | [] => [[]]
  | '\r' :: '\n' :: cs => ['\r', '\n'] :: rows cs
  | c :: cs => if c = '\n' ∨ c = '\r' then [c] :: rows cs else extendRow c (rows cs)

theorem rows_ne_nil (cs : List Char) : rows cs ≠ [] := by
  fun_induction rows cs with
  | case1 => simp
  | case2 => simp
  | case3 => simp
  | case4 c cs _ _ ih =>
    cases h : rows cs with
    | nil => exact absurd h ih
    | cons row rest => simp [extendRow]

theorem flatten_extendRow (c : Char) (rs : List (List Char)) :
    (extendRow c rs).flatten = c :: rs.flatten := by
  cases rs <;> simp [extendRow]

/-- The rows join to the text. -/
theorem flatten_rows (cs : List Char) : (rows cs).flatten = cs := by
  fun_induction rows cs with
  | case1 => rfl
  | case2 cs ih => simp [ih]
  | case3 c cs _ _ ih => simp [ih]
  | case4 c cs _ _ ih => rw [flatten_extendRow, ih]

/-! ## Snippet lines -/

/-- The characters that end a line of a snippet. -/
def isLineBreak (c : Char) : Bool :=
  c == '\n' || c == '\r' || c.toNat == 0x0b || c.toNat == 0x0c
    || (0x1c ≤ c.toNat && c.toNat ≤ 0x1e)
    || c.toNat == 0x85 || c.toNat == 0x2028 || c.toNat == 0x2029

/-- The lines of a text without their ends. A line break at the very end
starts no further line. -/
def snippetLines : List Char → List (List Char)
  | [] => []
  | '\r' :: '\n' :: cs => [] :: snippetLines cs
  | c :: cs => if isLineBreak c then [] :: snippetLines cs else extendRow c (snippetLines cs)

/-! ## UTF-16 units -/

/-- A character beyond the first plane takes two units. -/
def unitWidth (c : Char) : Nat := if c.toNat < 0x10000 then 1 else 2

/-- The number of UTF-16 code units that the characters take. -/
def unitLength : List Char → Nat
  | [] => 0
  | c :: cs => unitWidth c + unitLength cs

@[simp] theorem unitLength_nil : unitLength [] = 0 := rfl

@[simp] theorem unitLength_cons (c : Char) (cs : List Char) :
    unitLength (c :: cs) = unitWidth c + unitLength cs := rfl

@[simp] theorem unitLength_append (xs ys : List Char) :
    unitLength (xs ++ ys) = unitLength xs + unitLength ys := by
  induction xs with
  | nil => simp
  | cons x xs ih => simp [ih, Nat.add_assoc]

end SyntaxAtlas.Text
