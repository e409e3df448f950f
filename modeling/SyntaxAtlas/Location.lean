-- Locations: rows and columns of byte offsets. Rows and columns count from one.
-- A location counts columns in bytes, a range counts them in UTF-16 units.

import SyntaxAtlas.Text.Parts
import SyntaxAtlas.Text.Utf8

namespace SyntaxAtlas

/-- A place in a file. An end of zero stands for no end. -/
structure Location where
  file : String
  line : Int
  column : Int
  offset : Int := 0
  endLine : Int := 0
  endColumn : Int := 0
deriving DecidableEq, Repr

def Location.text (l : Location) : String :=
  l.file ++ ":" ++ toString l.line ++ ":" ++ toString l.column

/-- A row of a source, with its width in bytes. -/
structure SourceRow where
  text : List Char
  width : Nat := Text.byteLength text
  width_eq : width = Text.byteLength text := by rfl
deriving DecidableEq, Repr

/-- A row with its width. -/
def SourceRow.of (text : List Char) : SourceRow := { text }

/-- A source with its name, cut into rows. -/
structure LineMap where
  file : String
  rows : List SourceRow
deriving DecidableEq, Repr

namespace LineMap

def ofSource (source : String) (file : String) : LineMap where
  file := file
  rows := (Text.rows source.toList).map .of

/-- The number of bytes of the source. -/
def size (m : LineMap) : Nat := (m.rows.map (·.width)).foldl (· + ·) 0

/-- The row of an offset and the bytes before the offset in that row, both
counted from zero. The last row takes all that is left. -/
def rowAndByte : List SourceRow → Nat → Nat × Nat
  | [], n => (0, n)
  | [_], n => (0, n)
  | row :: next :: rest, n =>
    if n < row.width then (0, n)
    else
      let (r, c) := rowAndByte (next :: rest) (n - row.width)
      (r + 1, c)

/-- An offset moved into the source. -/
def clamp (m : LineMap) (offset : Int) : Nat := min offset.toNat m.size

/-- The location of a byte offset. An offset outside of the source stands for
its nearer end. -/
def location (m : LineMap) (offset : Int) : Location :=
  let n := m.clamp offset
  let (r, c) := rowAndByte m.rows n
  { file := m.file, line := r + 1, column := c + 1, offset := n }

/-- The number of bytes before a column of a row that is `width` bytes long. A
column before the first one counts back from the end of the row. -/
def bytesBefore (column : Int) (width : Nat) : Nat :=
  if 1 ≤ column then (column - 1).toNat else (width + (column - 1)).toNat

/-- A byte column in UTF-16 units. The column stays as it is when there is no
such row, or when it lies inside a character. -/
def displayColumn (m : LineMap) (line column : Int) : Int :=
  if line < 1 then column else
  match m.rows[(line - 1).toNat]? with
  | none => column
  | some row =>
    match Text.splitBytes? (bytesBefore column row.width) row.text with
    | none => column
    | some before => Text.unitLength before + 1

end LineMap

/-- A range of the source in rows and UTF-16 columns. -/
structure SourceRange where
  startRow : Int
  startColumn : Int
  endRow : Int
  endColumn : Int
deriving DecidableEq, Repr

/-- The range between two byte offsets. -/
def LineMap.range (m : LineMap) (start stop : Int) : SourceRange :=
  let first := m.location start
  let last := m.location stop
  { startRow := first.line
    startColumn := m.displayColumn first.line first.column
    endRow := last.line
    endColumn := m.displayColumn last.line last.column }

end SyntaxAtlas
