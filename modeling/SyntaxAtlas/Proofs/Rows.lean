-- Rows and columns, read off the source. The row of a place counts the line ends up to it,
-- and its column counts the text from the last of them on. That is where the rows of a
-- source put it.

import SyntaxAtlas.Proofs.Positions

namespace SyntaxAtlas

/-! ## Line ends -/

namespace Text

/-- A line ends with this character, in front of that text. A carriage return does not end a
line in front of a line feed, which ends it itself. -/
def endsLine (c : Char) (behind : List Char) : Bool :=
  c == '\n' || (c == '\r' && behind.head? != some '\n')

/-- The first row ends at the first line end. -/
theorem rows_cons (c : Char) (cs : List Char) :
    rows (c :: cs) = if endsLine c cs then [c] :: rows cs else extendRow c (rows cs) := by
  by_cases pair : c = '\r' ∧ ∃ ds, cs = '\n' :: ds
  · obtain ⟨rfl, ds, rfl⟩ := pair
    have feed : rows ('\n' :: ds) = ['\n'] :: rows ds := by
      rw [rows, if_pos (.inl rfl)]
      rintro _ ⟨⟩
    rw [feed, rows, if_neg (by simp [endsLine])]
    rfl
  · have single : rows (c :: cs) =
        if c = '\n' ∨ c = '\r' then [c] :: rows cs else extendRow c (rows cs) := by
      rw [rows]
      rintro ds rfl rfl
      exact pair ⟨rfl, ds, rfl⟩
    have ends : endsLine c cs = true ↔ c = '\n' ∨ c = '\r' := by
      simp only [endsLine, Bool.or_eq_true, Bool.and_eq_true, beq_iff_eq, bne_iff_ne]
      refine or_congr_right ⟨fun h => h.1, fun h => ⟨h, fun head => pair ⟨h, ?_⟩⟩⟩
      rcases cs with _ | ⟨d, ds⟩
      · cases head
      · cases head
        exact ⟨ds, rfl⟩
    rw [single]
    simp only [ends]

end Text

/-- A line ends right before this place. -/
def endsLineAt (source : List Char) : Nat → Bool
  | 0 => false
  | i + 1 =>
    match source[i]? with
    | some c => Text.endsLine c (source.drop (i + 1))
    | none => false

/-- The places up to `n` right before which a line ends. -/
def lineEnds (source : List Char) (n : Nat) : List Nat :=
  (List.range (n + 1)).filter (endsLineAt source)

/-- The row of a place: one more than there are line ends up to it. -/
def rowNumber (source : List Char) (n : Nat) : Nat := 1 + (lineEnds source n).length

/-- Where the row of a place starts: at the last line end up to it. -/
def rowStart (source : List Char) (n : Nat) : Nat := (lineEnds source n).getLastD 0

/-- The column of a place: one more than there are UTF-16 units from the start of its row. -/
def columnNumber (source : List Char) (n : Nat) : Nat :=
  1 + Text.unitLength (between source (rowStart source n) n)

theorem lineEnds_zero (source : List Char) : lineEnds source 0 = [] := rfl

theorem lineEnds_cons (c : Char) (cs : List Char) (n : Nat) :
    lineEnds (c :: cs) (n + 1) =
      (if Text.endsLine c cs then [1] else []) ++ (lineEnds cs n).map (· + 1) := by
  have later : (endsLineAt (c :: cs) ∘ Nat.succ) ∘ Nat.succ = endsLineAt cs ∘ Nat.succ := rfl
  have behind : lineEnds cs n = ((List.range n).filter (endsLineAt cs ∘ Nat.succ)).map Nat.succ := by
    rw [lineEnds, List.range_succ_eq_map, List.filter_cons_of_neg (by simp [endsLineAt]),
      List.filter_map]
  rw [behind, lineEnds, List.range_succ_eq_map, List.filter_cons_of_neg (by simp [endsLineAt]),
    List.filter_map, List.range_succ_eq_map, List.filter_cons, List.filter_map, later]
  have first : (endsLineAt (c :: cs) ∘ Nat.succ) 0 = Text.endsLine c cs := rfl
  rw [first]
  split <;> rfl

/-! ## Rows of a source -/

theorem rows_ofSource (source file : String) :
    (LineMap.ofSource source file).rows = (Text.rows source.toList).map SourceRow.of := rfl

/-- A row that others follow is not empty. -/
theorem Text.rows_nonempty {cs row next : List Char} {rest : List (List Char)}
    (h : Text.rows cs = row :: next :: rest) : row ≠ [] := by
  cases cs with
  | nil => cases h
  | cons c cs =>
    rw [Text.rows_cons] at h
    split at h
    · obtain ⟨rfl, _⟩ := List.cons.inj h
      exact List.cons_ne_nil _ _
    · rcases rows : Text.rows cs with _ | ⟨first, others⟩
      · exact absurd rows (Text.rows_ne_nil cs)
      · rw [rows] at h
        cases h
        exact List.cons_ne_nil _ _

theorem rowAndByte_cons {row : SourceRow} {rest : List SourceRow} (nonempty : rest ≠ []) (n : Nat) :
    LineMap.rowAndByte (row :: rest) n =
      if n < row.width then (0, n)
      else ((LineMap.rowAndByte rest (n - row.width)).1 + 1,
        (LineMap.rowAndByte rest (n - row.width)).2) := by
  cases rest with
  | nil => exact absurd rfl nonempty
  | cons next rest => rfl

/-- A character in front of the first row moves the places in that row only. -/
theorem rowAndByte_extend (c : Char) (row : List Char) (rest : List SourceRow) (n : Nat) :
    LineMap.rowAndByte (.of (c :: row) :: rest) (c.utf8Size + n) =
      if (LineMap.rowAndByte (.of row :: rest) n).1 = 0 then
        (0, c.utf8Size + (LineMap.rowAndByte (.of row :: rest) n).2)
      else LineMap.rowAndByte (.of row :: rest) n := by
  by_cases last : rest = []
  · subst last
    rfl
  · rw [rowAndByte_cons last, rowAndByte_cons last]
    have width : (SourceRow.of (c :: row)).width = c.utf8Size + (SourceRow.of row).width := rfl
    have left : c.utf8Size + n - (c.utf8Size + (SourceRow.of row).width) =
        n - (SourceRow.of row).width := by omega
    rw [width, left]
    by_cases lt : n < (SourceRow.of row).width
    · rw [if_pos (by omega), if_pos lt, if_pos rfl]
    · rw [if_neg (by omega), if_neg lt, if_neg (by simp)]

/-- A place in a source, with the row that it lies in: the number of the row counts the line
ends, and the row begins with the text from the last of them on. -/
structure InRow (cs : List Char) (n : Nat) (before behind : List Char) : Prop where
  row : (Text.rows cs)[(lineEnds cs n).length]? = some (before ++ behind)
  before_eq : before = between cs (rowStart cs n) n
  found : LineMap.rowAndByte ((Text.rows cs).map SourceRow.of) (byteOffset cs n) =
    ((lineEnds cs n).length, Text.byteLength before)

theorem byteLength_pos {cs : List Char} (nonempty : cs ≠ []) : 0 < Text.byteLength cs := by
  cases cs with
  | nil => exact absurd rfl nonempty
  | cons c cs =>
    have := c.utf8Size_pos
    rw [Text.byteLength_cons]
    omega

theorem inRow_zero (cs : List Char) : ∃ behind, InRow cs 0 [] behind := by
  rcases rows : Text.rows cs with _ | ⟨row, rest⟩
  · exact absurd rows (Text.rows_ne_nil cs)
  · refine ⟨row, by simp [lineEnds_zero, rows], (between_self cs 0).symm, ?_⟩
    have none : byteOffset cs (0 : Nat) = 0 := byteOffset_natCast cs 0
    rw [rows, none, lineEnds_zero]
    rcases rest with _ | ⟨next, rest⟩
    · rfl
    · rw [List.map_cons, rowAndByte_cons (by simp), if_pos]
      · rfl
      · exact byteLength_pos (Text.rows_nonempty rows)

theorem byteOffset_cons (c : Char) (cs : List Char) (n : Nat) :
    byteOffset (c :: cs) (n + 1 : Nat) = c.utf8Size + byteOffset cs n := by
  rw [byteOffset_natCast, byteOffset_natCast, List.take_succ_cons, Text.byteLength_cons]

theorem between_cons (c : Char) (cs : List Char) (i n : Nat) :
    between (c :: cs) (i + 1) (n + 1) = between cs i n := by
  simp [between]

theorem rowStart_cons {c : Char} {cs : List Char} {n : Nat}
    (h : Text.endsLine c cs = true ∨ lineEnds cs n ≠ []) :
    rowStart (c :: cs) (n + 1) = rowStart cs n + 1 := by
  rw [rowStart, rowStart, lineEnds_cons]
  rcases none : lineEnds cs n with _ | ⟨e, es⟩
  · have ends : Text.endsLine c cs = true := h.resolve_right (by simp [none])
    simp [ends]
  · rw [List.getLastD_eq_getLast?, List.getLastD_eq_getLast?,
      List.getLast?_append_of_ne_nil _ (by simp), List.getLast?_map]
    rw [List.getLast?_cons]
    rfl

section InRow

variable {c : Char} {cs before behind : List Char} {n : Nat}

/-- A line end makes a row of its own, in front of the others. -/
theorem InRow.behind_lineEnd (inRow : InRow cs n before behind)
    (ends : Text.endsLine c cs = true) : InRow (c :: cs) (n + 1) before behind := by
  have count : (lineEnds (c :: cs) (n + 1)).length = (lineEnds cs n).length + 1 := by
    simp [lineEnds_cons, ends, Nat.add_comm]
  have rows : Text.rows (c :: cs) = [c] :: Text.rows cs := by rw [Text.rows_cons, if_pos ends]
  refine ⟨?_, ?_, ?_⟩
  · rw [rows, count, List.getElem?_cons_succ, inRow.row]
  · rw [rowStart_cons (.inl ends), between_cons, ← inRow.before_eq]
  · have width : (SourceRow.of [c]).width = c.utf8Size := rfl
    rw [rows, count, byteOffset_cons, List.map_cons, rowAndByte_cons (by simp [Text.rows_ne_nil]),
      width, if_neg (by omega), Nat.add_sub_cancel_left, inRow.found]

theorem length_lineEnds_cons (goesOn : ¬ Text.endsLine c cs = true) :
    (lineEnds (c :: cs) (n + 1)).length = (lineEnds cs n).length := by
  simp [lineEnds_cons, goesOn]

/-- Any other character makes the first row longer. -/
theorem exists_rows_cons (goesOn : ¬ Text.endsLine c cs = true) :
    ∃ row rest, Text.rows cs = row :: rest ∧ Text.rows (c :: cs) = (c :: row) :: rest := by
  rcases shown : Text.rows cs with _ | ⟨row, rest⟩
  · exact absurd shown (Text.rows_ne_nil cs)
  · exact ⟨row, rest, rfl, by rw [Text.rows_cons, if_neg goesOn, shown, Text.extendRow]⟩

theorem InRow.found_cons (inRow : InRow cs n before behind)
    (goesOn : ¬ Text.endsLine c cs = true) :
    LineMap.rowAndByte ((Text.rows (c :: cs)).map SourceRow.of)
        (byteOffset (c :: cs) (n + 1 : Nat)) =
      if (lineEnds cs n).length = 0 then (0, c.utf8Size + Text.byteLength before)
      else ((lineEnds cs n).length, Text.byteLength before) := by
  obtain ⟨row, rest, shown, rows⟩ := exists_rows_cons goesOn
  have found := inRow.found
  rw [shown, List.map_cons] at found
  rw [rows, byteOffset_cons, List.map_cons, rowAndByte_extend, found]

/-- A place in the first row has one character more in front of it. -/
theorem InRow.cons_first (inRow : InRow cs n before behind) (goesOn : ¬ Text.endsLine c cs = true)
    (first : lineEnds cs n = []) : InRow (c :: cs) (n + 1) (c :: before) behind := by
  obtain ⟨row, rest, shown, rows⟩ := exists_rows_cons goesOn
  have start : rowStart cs n = 0 := by rw [rowStart, first]; rfl
  have start' : rowStart (c :: cs) (n + 1) = 0 := by simp [rowStart, lineEnds_cons, goesOn, first]
  refine ⟨?_, ?_, ?_⟩
  · have own := inRow.row
    rw [first, shown] at own
    rw [rows, length_lineEnds_cons goesOn, first]
    simpa using own
  · rw [start', inRow.before_eq, start]
    rfl
  · rw [inRow.found_cons goesOn, length_lineEnds_cons goesOn, first]
    rfl

/-- A place in a later row stays where it is in its row. -/
theorem InRow.cons_later (inRow : InRow cs n before behind) (goesOn : ¬ Text.endsLine c cs = true)
    (later : lineEnds cs n ≠ []) : InRow (c :: cs) (n + 1) before behind := by
  obtain ⟨row, rest, shown, rows⟩ := exists_rows_cons goesOn
  have below := List.length_pos_iff.2 later
  refine ⟨?_, ?_, ?_⟩
  · have own := inRow.row
    rw [shown] at own
    rw [rows, length_lineEnds_cons goesOn]
    cases length : (lineEnds cs n).length with
    | zero => omega
    | succ k => simpa [length] using own
  · rw [rowStart_cons (.inr later), between_cons, ← inRow.before_eq]
  · rw [inRow.found_cons goesOn, length_lineEnds_cons goesOn, if_neg (Nat.ne_of_gt below)]

end InRow

/-- Every place lies in its row. -/
theorem exists_inRow {cs : List Char} {n : Nat} (le : n ≤ cs.length) :
    ∃ before behind, InRow cs n before behind := by
  induction cs generalizing n with
  | nil =>
    obtain rfl : n = 0 := Nat.le_zero.1 le
    exact ⟨[], inRow_zero []⟩
  | cons c cs ih =>
    rcases n with _ | n
    · exact ⟨[], inRow_zero (c :: cs)⟩
    obtain ⟨before, behind, inRow⟩ := ih (Nat.le_of_succ_le_succ le)
    by_cases ends : Text.endsLine c cs = true
    · exact ⟨before, behind, inRow.behind_lineEnd ends⟩
    · by_cases first : lineEnds cs n = []
      · exact ⟨c :: before, behind, inRow.cons_first ends first⟩
      · exact ⟨before, behind, inRow.cons_later ends first⟩

/-! ## Locations -/

theorem Text.splitBytes?_append (before behind : List Char) :
    Text.splitBytes? (Text.byteLength before) (before ++ behind) = some before := by
  induction before with
  | nil =>
    rw [Text.byteLength_nil, List.nil_append]
    cases behind <;> rfl
  | cons c before ih =>
    have pos := c.utf8Size_pos
    obtain ⟨m, width⟩ : ∃ m, Text.byteLength (c :: before) = m + 1 :=
      ⟨Text.byteLength (c :: before) - 1, by rw [Text.byteLength_cons]; omega⟩
    have left : m + 1 - c.utf8Size = Text.byteLength before := by
      rw [← width, Text.byteLength_cons]
      omega
    rw [width, List.cons_append, Text.splitBytes?, left, ih, if_pos]
    · rfl
    · rw [← width, Text.byteLength_cons]
      omega

theorem foldl_widths (rows : List (List Char)) (k : Nat) :
    ((rows.map SourceRow.of).map (·.width)).foldl (· + ·) k =
      k + Text.byteLength rows.flatten := by
  induction rows generalizing k with
  | nil => rfl
  | cons row rows ih =>
    simp only [List.map_cons, List.foldl_cons, List.flatten_cons, Text.byteLength_append]
    rw [ih]
    simp [SourceRow.of, Nat.add_assoc]

theorem size_ofSource (source file : String) :
    (LineMap.ofSource source file).size = Text.byteLength source.toList := by
  rw [LineMap.size, rows_ofSource, foldl_widths, Text.flatten_rows, Nat.zero_add]

/-- A byte column is measured anew: the row is there, and the column does not lie inside a
character. So the column does not stay as it is for want of better. -/
def LineMap.Measures (m : LineMap) (line column : Int) : Prop :=
  1 ≤ line ∧ ∃ row before, m.rows[(line - 1).toNat]? = some row ∧
    Text.splitBytes? (LineMap.bytesBefore column row.width) row.text = some before ∧
    m.displayColumn line column = Text.unitLength before + 1

/-- Where a place between two characters is located. -/
theorem location_of_inRow (source file : String) {n : Nat} (le : n ≤ source.toList.length)
    {before behind : List Char} (inRow : InRow source.toList n before behind) :
    (LineMap.ofSource source file).location (byteOffset source.toList n) =
      { file, line := (lineEnds source.toList n).length + 1,
        column := Text.byteLength before + 1, offset := byteOffset source.toList n } := by
  have clamped : (LineMap.ofSource source file).clamp (byteOffset source.toList n) =
      byteOffset source.toList n := by
    have := @byteOffset_mono source.toList _ _ le
    rw [byteOffset_length] at this
    rw [LineMap.clamp, size_ofSource, Int.toNat_natCast, Nat.min_eq_left this]
  have found := inRow.found
  rw [← rows_ofSource source file] at found
  simp only [LineMap.location, clamped, found]
  rfl

/-- A place between two characters is located in its row and column. -/
theorem location_byteOffset (source file : String) {n : Nat} (le : n ≤ source.toList.length) :
    let m := LineMap.ofSource source file
    let l := m.location (byteOffset source.toList n)
    l.line = rowNumber source.toList n ∧ m.Measures l.line l.column ∧
      m.displayColumn l.line l.column = columnNumber source.toList n := by
  intro m l
  obtain ⟨before, behind, inRow⟩ := exists_inRow le
  have place := location_of_inRow source file le inRow
  have line : l.line = (lineEnds source.toList n).length + 1 := congrArg Location.line place
  have bytes : l.column = Text.byteLength before + 1 := congrArg Location.column place
  have first : ¬ l.line < 1 := by omega
  have row : m.rows[(l.line - 1).toNat]? = some (.of (before ++ behind)) := by
    have index : (l.line - 1).toNat = (lineEnds source.toList n).length := by omega
    rw [index, rows_ofSource, List.getElem?_map, inRow.row]
    rfl
  have cut : Text.splitBytes? (LineMap.bytesBefore l.column (SourceRow.of (before ++ behind)).width)
      (SourceRow.of (before ++ behind)).text = some before := by
    have width : (l.column - 1).toNat = Text.byteLength before := by omega
    rw [LineMap.bytesBefore, if_pos (by omega), width]
    exact Text.splitBytes?_append before behind
  have column : m.displayColumn l.line l.column = Text.unitLength before + 1 := by
    simp only [LineMap.displayColumn, if_neg first, row, cut]
  refine ⟨?_, ⟨Int.not_lt.1 first, _, before, row, cut, column⟩, ?_⟩
  · rw [line, rowNumber]
    push_cast
    omega
  · rw [column, columnNumber, inRow.before_eq]
    push_cast
    omega

/-! ## Places one behind the other -/

theorem lineEnds_prefix (source : List Char) {i j : Nat} (le : i ≤ j) :
    lineEnds source i <+: lineEnds source j := by
  have ranges : List.range (i + 1) <+: List.range (j + 1) := by
    obtain ⟨k, rfl⟩ := Nat.exists_eq_add_of_le le
    have cut : List.range (i + 1 + k) = _ := List.range_add
    rw [Nat.add_right_comm i k 1, cut]
    exact List.prefix_append _ _
  exact ranges.filter _

theorem rowStart_le (source : List Char) (n : Nat) : rowStart source n ≤ n := by
  rw [rowStart, List.getLastD_eq_getLast?]
  rcases last : (lineEnds source n).getLast? with _ | e
  · exact Nat.zero_le n
  · have mem := (List.mem_filter.1 (List.mem_of_getLast? last)).1
    rw [List.mem_range] at mem
    exact Nat.le_of_lt_succ mem

/-- Rows and columns come in the order of the places. -/
theorem place_le {source : List Char} {i j : Nat} (le : i ≤ j) :
    rowNumber source i < rowNumber source j ∨ rowNumber source i = rowNumber source j ∧
      columnNumber source i ≤ columnNumber source j := by
  have sub := lineEnds_prefix source le
  rcases Nat.lt_or_ge (rowNumber source i) (rowNumber source j) with lt | ge
  · exact .inl lt
  · have same : lineEnds source i = lineEnds source j :=
      sub.eq_of_length_le (by unfold rowNumber at ge; omega)
    refine .inr ⟨by rw [rowNumber, rowNumber, same], ?_⟩
    have start : rowStart source i = rowStart source j := by rw [rowStart, rowStart, same]
    rw [columnNumber, columnNumber, ← start, ← between_append (rowStart_le source i) le,
      Text.unitLength_append]
    omega

end SyntaxAtlas
