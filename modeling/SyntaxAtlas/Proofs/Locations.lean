-- Offsets and their locations. The rows of a source cut its bytes, one row at each line end,
-- and a location names the row of an offset and the column in that row. Every place in a row
-- is the location of one offset, and places come in the order of their offsets.

import Mathlib
import SyntaxAtlas.Proofs.Decoding
import SyntaxAtlas.Proofs.Rows

namespace SyntaxAtlas

/-! ## Bytes of rows -/

/-- The bytes of a row. -/
def SourceRow.bytes (row : SourceRow) : List UInt8 := Text.encode row.text

namespace Text

/-- Bytes among which no line ends. -/
def NoLineEnd (bytes : List UInt8) : Prop := ∀ b ∈ bytes, b ≠ 0x0a ∧ b ≠ 0x0d

/-- A row in front of the next one. It ends at a line feed, at a pair of carriage return and
line feed, or at a carriage return that stands in front of no line feed, and no line ends in it
before. -/
def EndsBefore (row next : List UInt8) : Prop :=
  ∃ text stop, row = text ++ stop ∧ NoLineEnd text ∧
    (stop = [0x0a] ∨ stop = [0x0d, 0x0a] ∨ stop = [0x0d] ∧ next.head? ≠ some 0x0a)

/-- Rows that are cut at line ends: each but the last one ends, and the last one does not. -/
structure CutAtLineEnds (rows : List (List UInt8)) : Prop where
  ended : rows.IsChain EndsBefore
  last : ∃ row, rows.getLast? = some row ∧ NoLineEnd row

theorem length_encode (cs : List Char) : (encode cs).length = byteLength cs := by
  induction cs with
  | nil => rfl
  | cons c cs ih => rw [encode_cons, List.length_append, String.length_utf8EncodeChar, ih,
      byteLength_cons]

/-- A byte below 128 stands for the character of its own number. -/
theorem toNat_of_mem_utf8EncodeChar {c : Char} {b : UInt8} (mem : b ∈ String.utf8EncodeChar c)
    (small : b.toNat < 128) : c.toNat = b.toNat := by
  obtain ⟨first, good, bytes⟩ := exists_utf8EncodeChar c
  have own : String.utf8EncodeChar (Char.ofNat c.toNat) = first :: good := by
    rw [Char.ofNat_toNat, bytes]
  rw [bytes] at mem
  rcases (utf8EncodeChar_eq_iff c.valid).1 own with ⟨_, same, rfl⟩ | ⟨_, _, lead, b, second, rfl⟩ |
    ⟨_, _, lead, b, d, second, third, rfl⟩ | ⟨_, lead, b, d, e, second, third, fourth, rfl⟩
  · rw [List.mem_singleton.1 mem]
    exact same
  all_goals
    simp only [List.mem_cons, List.not_mem_nil, or_false] at mem
    rcases mem with rfl | mem
    · omega
    · rcases mem with rfl | rfl | rfl <;> omega

theorem noLineEnd_append {xs ys : List UInt8} (first : NoLineEnd xs) (second : NoLineEnd ys) :
    NoLineEnd (xs ++ ys) := by
  intro b mem
  exact (List.mem_append.1 mem).elim (first b) (second b)

theorem noLineEnd_utf8EncodeChar {c : Char} (inside : ¬ (c = '\n' ∨ c = '\r')) :
    NoLineEnd (String.utf8EncodeChar c) := by
  intro b mem
  constructor
  · rintro rfl
    exact inside (.inl (Char.toNat_inj.1 (toNat_of_mem_utf8EncodeChar mem (by decide))))
  · rintro rfl
    exact inside (.inr (Char.toNat_inj.1 (toNat_of_mem_utf8EncodeChar mem (by decide))))

/-- The first row starts as the text does. -/
theorem head_rows {cs : List Char} {next : List UInt8} (first : next ∈ ((rows cs).map encode).head?)
    (feed : next.head? = some 0x0a) : ∃ ds, cs = '\n' :: ds := by
  have joined := flatten_rows cs
  rcases shown : rows cs with _ | ⟨row, rest⟩
  · exact absurd shown (rows_ne_nil cs)
  rw [shown] at joined first
  obtain rfl : encode row = next := by simpa using first
  cases row with
  | nil => cases feed
  | cons c row =>
    obtain ⟨b, good, bytes⟩ := exists_utf8EncodeChar c
    rw [encode_cons, bytes] at feed
    obtain rfl : b = 0x0a := Option.some.inj feed
    have same : c = '\n' := Char.toNat_inj.1
      (toNat_of_mem_utf8EncodeChar (bytes ▸ List.mem_cons_self) (by decide))
    exact ⟨row ++ rest.flatten, by rw [← joined, same]; rfl⟩

section

variable {row : List UInt8} {rows : List (List UInt8)}

theorem CutAtLineEnds.cons (cut : CutAtLineEnds rows)
    (ends : ∀ next ∈ rows.head?, EndsBefore row next) : CutAtLineEnds (row :: rows) := by
  refine ⟨List.isChain_cons.2 ⟨ends, cut.ended⟩, ?_⟩
  obtain ⟨last, found, free⟩ := cut.last
  refine ⟨last, ?_, free⟩
  rw [List.getLast?_cons, found]
  rfl

/-- More text in front of the first row leaves the ends where they are. -/
theorem CutAtLineEnds.extend {front : List UInt8} (cut : CutAtLineEnds (row :: rows))
    (free : NoLineEnd front) : CutAtLineEnds ((front ++ row) :: rows) := by
  obtain ⟨ended, last, found, bare⟩ := cut
  obtain ⟨ends, ended⟩ := List.isChain_cons.1 ended
  refine ⟨List.isChain_cons.2 ⟨?_, ended⟩, ?_⟩
  · intro next first
    obtain ⟨text, stop, rfl, none, known⟩ := ends next first
    exact ⟨front ++ text, stop, by rw [List.append_assoc], noLineEnd_append free none, known⟩
  · cases rows with
    | nil =>
      obtain rfl : row = last := by simpa using found
      exact ⟨front ++ row, rfl, noLineEnd_append free bare⟩
    | cons next rest =>
      rw [List.getLast?_cons_cons] at found
      exact ⟨last, by rw [List.getLast?_cons_cons, found], bare⟩

end

theorem rows_cut (cs : List Char) : CutAtLineEnds ((rows cs).map encode) := by
  have nothing : NoLineEnd [] := by simp [NoLineEnd]
  fun_induction rows cs with
  | case1 => exact ⟨List.isChain_singleton _, [], rfl, nothing⟩
  | case2 cs ih =>
    apply ih.cons
    intro next _
    exact ⟨[], [0x0d, 0x0a], rfl, nothing, .inr (.inl rfl)⟩
  | case3 c cs apart ends ih =>
    apply ih.cons
    intro next first
    rcases ends with rfl | rfl
    · exact ⟨[], [0x0a], rfl, nothing, .inl rfl⟩
    · refine ⟨[], [0x0d], rfl, nothing, .inr (.inr ⟨rfl, ?_⟩)⟩
      intro feed
      obtain ⟨ds, rfl⟩ := head_rows first feed
      exact apart ds rfl rfl
  | case4 c cs _ inside ih =>
    rcases shown : rows cs with _ | ⟨row, rest⟩
    · exact absurd shown (rows_ne_nil cs)
    rw [shown, List.map_cons] at ih
    exact ih.extend (noLineEnd_utf8EncodeChar inside)

end Text

theorem SourceRow.length_bytes (row : SourceRow) : row.bytes.length = row.width := by
  rw [row.width_eq, SourceRow.bytes, Text.length_encode]

/-! ## Places in rows -/

namespace LineMap

/-- The number of bytes of the first rows. -/
def bytesOfRows (m : LineMap) (count : Nat) : Nat :=
  ((m.rows.take count).map (·.bytes.length)).sum

/-- A row and a column that lie in a source. Only the last row has a column behind its end. -/
structure HasPlace (m : LineMap) (line column : Int) : Prop where
  line_pos : 1 ≤ line
  line_le : line ≤ m.rows.length
  column_pos : 1 ≤ column
  inside : ∀ row ∈ m.rows[(line - 1).toNat]?,
    if line = m.rows.length then column - 1 ≤ row.bytes.length else column - 1 < row.bytes.length

/-- The bytes in front of a place: those of the rows above and those in front of the column. -/
def bytesTo (m : LineMap) (line column : Int) : Int :=
  m.bytesOfRows (line - 1).toNat + (column - 1)

/-- The line and the column of an offset, the line first. -/
def place (m : LineMap) (offset : Int) : Int ×ₗ Int :=
  toLex ((m.location offset).line, (m.location offset).column)

/-- All lines and columns that lie in a source. -/
def allPlaces (m : LineMap) : Set (Int ×ₗ Int) := {p | m.HasPlace (ofLex p).1 (ofLex p).2}

variable {m : LineMap}

theorem bytesOfRows_succ {count : Nat} {row : SourceRow} (found : m.rows[count]? = some row) :
    m.bytesOfRows (count + 1) = m.bytesOfRows count + row.bytes.length := by
  unfold bytesOfRows
  rw [List.take_add_one, found]
  simp

theorem bytesOfRows_mono {i j : Nat} (le : i ≤ j) : m.bytesOfRows i ≤ m.bytesOfRows j := by
  obtain ⟨more, rows⟩ := List.take_prefix_take_left le (l := m.rows)
  unfold bytesOfRows
  rw [← rows, List.map_append, List.sum_append]
  exact Nat.le_add_right _ _

theorem size_eq_bytesOfRows (m : LineMap) : m.size = m.bytesOfRows m.rows.length := by
  unfold size bytesOfRows
  rw [List.take_length, ← List.sum_eq_foldl]
  simp only [SourceRow.length_bytes]

/-- Places come in the order of the bytes in front of them. -/
theorem bytesTo_strictMonoOn (m : LineMap) :
    StrictMonoOn (fun p : Int ×ₗ Int => m.bytesTo (ofLex p).1 (ofLex p).2) m.allPlaces := by
  intro p hp q hq lt
  have := hp.line_pos
  have := hq.line_le
  have := hq.column_pos
  simp only [bytesTo]
  rcases Prod.Lex.lt_iff.1 lt with lt | ⟨same, lt⟩
  · have within : ((ofLex p).1 - 1).toNat < m.rows.length := by omega
    have found := List.getElem?_eq_getElem within
    have inside := hp.inside _ found
    rw [if_neg (by omega)] at inside
    have next := bytesOfRows_succ found
    have above : m.bytesOfRows (((ofLex p).1 - 1).toNat + 1) ≤
        m.bytesOfRows ((ofLex q).1 - 1).toNat := bytesOfRows_mono (by omega)
    omega
  · rw [same]
    omega

theorem bytesTo_le_size {line column : Int} (h : m.HasPlace line column) :
    0 ≤ m.bytesTo line column ∧ m.bytesTo line column ≤ m.size := by
  have := h.line_pos
  have := h.line_le
  have := h.column_pos
  have within : (line - 1).toNat < m.rows.length := by omega
  have found := List.getElem?_eq_getElem within
  have inside := h.inside _ found
  have next := bytesOfRows_succ found
  have all : m.bytesOfRows ((line - 1).toNat + 1) ≤ m.bytesOfRows m.rows.length :=
    bytesOfRows_mono within
  rw [size_eq_bytesOfRows]
  unfold bytesTo
  constructor
  · omega
  · split at inside <;> omega

/-- Where an offset is found: in which row, and behind how many of its bytes. -/
theorem rowAndByte_found {rows : List SourceRow} {n : Nat} (nonempty : rows ≠ [])
    (le : n ≤ (rows.map (·.bytes.length)).sum) :
    ∃ row, rows[(rowAndByte rows n).1]? = some row ∧
      ((rows.take (rowAndByte rows n).1).map (·.bytes.length)).sum + (rowAndByte rows n).2 = n ∧
      if (rowAndByte rows n).1 + 1 = rows.length then (rowAndByte rows n).2 ≤ row.bytes.length
      else (rowAndByte rows n).2 < row.bytes.length := by
  induction rows generalizing n with
  | nil => exact absurd rfl nonempty
  | cons row rest ih =>
    by_cases last : rest = []
    · subst last
      exact ⟨row, rfl, Nat.zero_add n, by simpa [rowAndByte] using le⟩
    · rw [rowAndByte_cons last, ← row.length_bytes]
      have others : 0 < rest.length := List.length_pos_iff.2 last
      by_cases lt : n < row.bytes.length
      · rw [if_pos lt]
        refine ⟨row, rfl, Nat.zero_add n, ?_⟩
        rw [if_neg (by simpa using last)]
        exact lt
      · rw [if_neg lt]
        rw [List.map_cons, List.sum_cons] at le
        obtain ⟨own, found, sum, inside⟩ := @ih (n - row.bytes.length) last (by omega)
        refine ⟨own, found, ?_, ?_⟩
        · rw [List.take_succ_cons, List.map_cons, List.sum_cons]
          omega
        · simpa using inside

/-- An offset is located at the place with as many bytes in front of it. -/
theorem location_found (nonempty : m.rows ≠ []) (offset : Int) :
    m.HasPlace (m.location offset).line (m.location offset).column ∧
      m.bytesTo (m.location offset).line (m.location offset).column = m.clamp offset := by
  have le : m.clamp offset ≤ m.size := Nat.min_le_right _ _
  rw [size_eq_bytesOfRows, bytesOfRows, List.take_length] at le
  obtain ⟨row, found, sum, inside⟩ := rowAndByte_found nonempty le
  have line : (m.location offset).line = (rowAndByte m.rows (m.clamp offset)).1 + 1 := rfl
  have column : (m.location offset).column = (rowAndByte m.rows (m.clamp offset)).2 + 1 := rfl
  have index : ((m.location offset).line - 1).toNat = (rowAndByte m.rows (m.clamp offset)).1 := by
    omega
  have within := (List.getElem?_eq_some_iff.1 found).1
  refine ⟨⟨by omega, by omega, by omega, ?_⟩, ?_⟩
  · intro other same
    rw [index, found] at same
    obtain rfl : row = other := Option.some.inj same
    split <;> split at inside <;> omega
  · unfold bytesTo bytesOfRows
    rw [index]
    omega

/-- The bytes in front of the place of an offset within the source. -/
theorem bytesTo_place (nonempty : m.rows ≠ []) {offset : Int}
    (within : offset ∈ Set.Icc 0 (m.size : Int)) :
    m.bytesTo (m.location offset).line (m.location offset).column = offset := by
  obtain ⟨_, _⟩ := within
  rw [(location_found nonempty offset).2, clamp]
  omega

theorem place_strictMonoOn (nonempty : m.rows ≠ []) :
    StrictMonoOn m.place (Set.Icc 0 (m.size : Int)) := by
  intro a ha b hb lt
  have placed := fun offset => (location_found nonempty offset).1
  rw [← m.bytesTo_strictMonoOn.lt_iff_lt (placed a) (placed b)]
  exact (bytesTo_place nonempty ha).trans_lt (lt.trans_eq (bytesTo_place nonempty hb).symm)

/-- Each place is that of one offset, namely of the number of bytes in front of it. -/
theorem place_bijOn (nonempty : m.rows ≠ []) :
    Set.BijOn m.place (Set.Icc 0 (m.size : Int)) m.allPlaces := by
  refine ⟨?_, (place_strictMonoOn nonempty).injOn, ?_⟩
  · intro offset _
    exact (location_found nonempty offset).1
  · intro p hp
    have within := bytesTo_le_size hp
    refine ⟨_, within, ?_⟩
    exact m.bytesTo_strictMonoOn.injOn (location_found nonempty _).1 hp
      (bytesTo_place nonempty within)

end LineMap

/-! ## The places of a source -/

theorem utf8ByteSize_eq (source : String) :
    source.utf8ByteSize = Text.byteLength source.toList := by
  rw [← size_utf8Encode, String.utf8Encode_toList]
  rfl

theorem clamp_ofSource (source file : String) (offset : Int) :
    ((LineMap.ofSource source file).clamp offset : Int) =
      max 0 (min offset source.utf8ByteSize) := by
  rw [LineMap.clamp, size_ofSource, utf8ByteSize_eq]
  omega

theorem bytes_ofSource (source file : String) :
    (LineMap.ofSource source file).rows.flatMap SourceRow.bytes = source.toUTF8.data.toList := by
  have joined : source.toUTF8.data.toList = Text.encode (Text.rows source.toList).flatten := by
    rw [Text.flatten_rows, Text.toUTF8_eq_encode]
  rw [joined, rows_ofSource, List.flatMap_map, Text.encode, ← List.flatMap_id, List.flatMap_assoc]
  rfl

/-- The rows of a source, and the places that its offsets have in them. -/
structure LineMap.PlacesOffsets (m : LineMap) (source : String) : Prop where
  /-- The rows are the bytes of the source, cut at its line ends. -/
  whole : m.rows.flatMap SourceRow.bytes = source.toUTF8.data.toList
  cut : Text.CutAtLineEnds (m.rows.map SourceRow.bytes)
  /-- Every offset has a place, with as many bytes in front of it as the offset says. An offset
  outside of the source stands for its nearer end. -/
  located : ∀ offset : Int,
    m.HasPlace (m.location offset).line (m.location offset).column ∧
      m.bytesTo (m.location offset).line (m.location offset).column =
        max 0 (min offset source.utf8ByteSize) ∧
      (m.location offset).offset = max 0 (min offset source.utf8ByteSize)
  increasing : StrictMonoOn m.place (Set.Icc 0 source.utf8ByteSize)
  exact : Set.BijOn m.place (Set.Icc 0 source.utf8ByteSize) m.allPlaces

/-- Locations put the offsets of a source in the order of their places: the rows are the source
cut at its line ends, each offset lies in its row, and offsets and places correspond, one by one
and in order. -/
theorem ofSource_placesOffsets (source file : String) :
    (LineMap.ofSource source file).PlacesOffsets source := by
  have nonempty : (LineMap.ofSource source file).rows ≠ [] := by
    rw [rows_ofSource]
    simpa using Text.rows_ne_nil source.toList
  have increasing := LineMap.place_strictMonoOn nonempty
  have exact := LineMap.place_bijOn nonempty
  rw [size_ofSource, ← utf8ByteSize_eq] at increasing exact
  refine ⟨bytes_ofSource source file, ?_, ?_, increasing, exact⟩
  · rw [rows_ofSource, List.map_map]
    exact Text.rows_cut source.toList
  · intro offset
    obtain ⟨place, bytes⟩ := LineMap.location_found nonempty offset
    refine ⟨place, ?_, clamp_ofSource source file offset⟩
    rw [bytes, clamp_ofSource]

end SyntaxAtlas
