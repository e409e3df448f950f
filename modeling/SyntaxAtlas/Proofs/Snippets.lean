-- Snippets: the line of the source that an error shows, with a caret under the place. The
-- location counts rows, which end at line feeds and carriage returns. A snippet ends its lines
-- at more characters than that. It shows the row that the location names where none of those
-- stands up to the end of that row.

import SyntaxAtlas.Proofs.Budget
import SyntaxAtlas.Proofs.Passages
import SyntaxAtlas.Proofs.Rows

namespace SyntaxAtlas

/-! ## Rows without their ends -/

namespace Text

/-- A character that ends a row, alone or with another. -/
def isRowEnd (c : Char) : Bool := c == '\n' || c == '\r'

/-- A character that ends a line of a snippet and no row. -/
def isSoftBreak (c : Char) : Bool := isLineBreak c && !isRowEnd c

/-- The text of a row without its end. -/
def rowText (row : List Char) : List Char := row.takeWhile (!isRowEnd ·)

/-- The ends that a row can have. The last row has none. -/
def rowEnds : List (List Char) := [[], ['\n'], ['\r'], ['\r', '\n']]

theorem rowText_cons {c : Char} (inside : isRowEnd c = false) (row : List Char) :
    rowText (c :: row) = c :: rowText row := by
  rw [rowText, List.takeWhile_cons_of_pos (by simp [inside])]
  rfl

theorem rowText_end {c : Char} (ends : isRowEnd c = true) (row : List Char) :
    rowText (c :: row) = [] := by
  rw [rowText, List.takeWhile_cons_of_neg (by simp [ends])]

/-- A row is its text and one end. -/
theorem rows_text {cs row : List Char} (mem : row ∈ rows cs) :
    ∃ stop ∈ rowEnds, row = rowText row ++ stop := by
  fun_induction rows cs generalizing row with
  | case1 =>
    obtain rfl := List.mem_singleton.1 mem
    exact ⟨[], by decide, rfl⟩
  | case2 cs ih =>
    rcases List.mem_cons.1 mem with rfl | mem
    · exact ⟨['\r', '\n'], by decide, by decide⟩
    · exact ih mem
  | case3 c cs _ ends ih =>
    rcases List.mem_cons.1 mem with rfl | mem
    · rcases ends with rfl | rfl
      · exact ⟨['\n'], by decide, by decide⟩
      · exact ⟨['\r'], by decide, by decide⟩
    · exact ih mem
  | case4 c cs _ inside ih =>
    have inside : isRowEnd c = false := by simpa [isRowEnd] using inside
    rcases shown : rows cs with _ | ⟨first, rest⟩
    · exact absurd shown (rows_ne_nil cs)
    rw [shown, extendRow] at mem
    rw [shown] at ih
    rcases List.mem_cons.1 mem with rfl | mem
    · obtain ⟨stop, known, parts⟩ := ih List.mem_cons_self
      refine ⟨stop, known, ?_⟩
      rw [rowText_cons inside, List.cons_append, ← parts]
    · exact ih (List.mem_cons_of_mem _ mem)

/-! ## Lines of a snippet -/

/-- Some first rows of a text are shown as they are: each line of a snippet is the row of the
same number without its end. -/
def ShowsRows (cs : List Char) (n : Nat) : Prop :=
  ∀ k < n, (snippetLines cs).getD k [] = rowText ((rows cs).getD k [])

/-- No row of the first ones is broken inside. -/
def Unbroken (cs : List Char) (n : Nat) : Prop :=
  ∀ c ∈ ((rows cs).take n).flatten, isSoftBreak c = false

theorem unbroken_of_plain {cs : List Char} (plain : cs.any isSoftBreak = false) (n : Nat) :
    Unbroken cs n := by
  intro c mem
  obtain ⟨row, first, mem⟩ := List.mem_flatten.1 mem
  have inside := List.mem_flatten_of_mem (List.mem_of_mem_take first) mem
  rw [flatten_rows] at inside
  simpa using List.any_eq_false.1 plain c inside

theorem isSoftBreak_of_isRowEnd {c : Char} (ends : isRowEnd c = true) : isSoftBreak c = false := by
  simp [isSoftBreak, ends]

theorem isLineBreak_of_isRowEnd {c : Char} (ends : isRowEnd c = true) : isLineBreak c = true := by
  simp only [isRowEnd, Bool.or_eq_true] at ends
  unfold isLineBreak
  rcases ends with ends | ends <;> simp [ends]

theorem shows_zero_iff (cs : List Char) : ShowsRows cs 0 ↔ Unbroken cs 0 := by
  simp [ShowsRows, Unbroken]

/-- A row that ends is a line of its own. -/
theorem shows_ended {cs ds row : List Char} (lines : snippetLines ds = [] :: snippetLines cs)
    (listed : rows ds = row :: rows cs) (ends : ∀ c ∈ row, isRowEnd c = true)
    (ih : ∀ n, ShowsRows cs n ↔ Unbroken cs n) (n : Nat) : ShowsRows ds n ↔ Unbroken ds n := by
  cases n with
  | zero => exact shows_zero_iff ds
  | succ n =>
    have none : rowText row = [] := by
      cases row with
      | nil => rfl
      | cons c row => exact rowText_end (ends c List.mem_cons_self) row
    have shown : ShowsRows ds (n + 1) ↔ ShowsRows cs n := by
      unfold ShowsRows
      rw [Nat.forall_lt_succ_left, lines, listed]
      simp [none]
    have unbroken : Unbroken ds (n + 1) ↔ Unbroken cs n := by
      unfold Unbroken
      rw [listed, List.take_succ_cons, List.flatten_cons, List.forall_mem_append]
      exact and_iff_right fun c mem => isSoftBreak_of_isRowEnd (ends c mem)
    rw [shown, unbroken, ih]

/-- A character that ends no row goes on with the first line, unless it breaks it. -/
theorem shows_extended {c : Char} {cs : List Char} (inside : isRowEnd c = false)
    (lines : snippetLines (c :: cs) =
      if isLineBreak c then [] :: snippetLines cs else extendRow c (snippetLines cs))
    (listed : rows (c :: cs) = extendRow c (rows cs))
    (ih : ∀ n, ShowsRows cs n ↔ Unbroken cs n) (n : Nat) :
    ShowsRows (c :: cs) n ↔ Unbroken (c :: cs) n := by
  cases n with
  | zero => exact shows_zero_iff _
  | succ n =>
    have soft : isSoftBreak c = isLineBreak c := by simp [isSoftBreak, inside]
    have before := ih (n + 1)
    rcases shown : rows cs with _ | ⟨row, rest⟩
    · exact absurd shown (rows_ne_nil cs)
    rw [shown, extendRow] at listed
    unfold ShowsRows Unbroken at before ⊢
    rw [Nat.forall_lt_succ_left, shown] at before
    rw [Nat.forall_lt_succ_left, lines, listed]
    simp only [List.getD_cons_zero, List.getD_cons_succ, List.take_succ_cons, List.flatten_cons,
      List.cons_append, List.forall_mem_cons, rowText_cons inside] at before ⊢
    by_cases breaks : isLineBreak c = true
    · -- The line ends at once, while the row goes on.
      simp [breaks, soft]
    · rw [if_neg breaks, ← before, soft]
      cases snippetLines cs <;> simp [extendRow, breaks]

/-- The first rows of a text are the first lines of its snippets exactly if they are not
broken. -/
theorem showsRows_iff (cs : List Char) (n : Nat) : ShowsRows cs n ↔ Unbroken cs n := by
  fun_induction rows cs generalizing n with
  | case1 =>
    have shown : ShowsRows [] n := by
      intro k _
      cases k <;> rfl
    have unbroken : Unbroken [] n := by
      cases n <;> simp [Unbroken, rows]
    exact iff_of_true shown unbroken
  | case2 cs ih => exact shows_ended rfl rfl (by simp [isRowEnd]) ih n
  | case3 c cs apart ends ih =>
    have listed : rows (c :: cs) = [c] :: rows cs := by
      rw [rows, if_pos ends]
      exact apart
    have ends : isRowEnd c = true := by simpa [isRowEnd] using ends
    have lines : snippetLines (c :: cs) = [] :: snippetLines cs := by
      rw [snippetLines, if_pos (isLineBreak_of_isRowEnd ends)]
      exact apart
    exact shows_ended lines listed (by simpa using ends) ih n
  | case4 c cs apart inside ih =>
    have listed : rows (c :: cs) = extendRow c (rows cs) := by
      rw [rows, if_neg inside]
      exact apart
    have lines : snippetLines (c :: cs) =
        if isLineBreak c then [] :: snippetLines cs else extendRow c (snippetLines cs) := by
      rw [snippetLines]
      exact apart
    exact shows_extended (by simpa [isRowEnd] using inside) lines listed ih n

end Text

/-! ## Places in their rows -/

/-- The row of a place starts behind every line end up to it. -/
theorem le_rowStart {source : List Char} {n e : Nat} (ends : endsLineAt source e = true)
    (le : e ≤ n) : e ≤ rowStart source n := by
  have mem : e ∈ lineEnds source n :=
    List.mem_filter.2 ⟨List.mem_range.2 (Nat.lt_succ_of_le le), ends⟩
  have sorted : (lineEnds source n).Pairwise (· < ·) := List.pairwise_lt_range.filter _
  obtain ⟨front, last, split⟩ := List.eq_nil_or_concat (lineEnds source n) |>.resolve_left
    (List.ne_nil_of_mem mem)
  rw [rowStart, split, List.concat_eq_append, List.getLastD_concat]
  rw [split, List.concat_eq_append] at mem sorted
  rcases List.mem_append.1 mem with front | last
  · exact Nat.le_of_lt ((List.pairwise_append.1 sorted).2.2 e front _ List.mem_cons_self)
  · exact Nat.le_of_eq (List.mem_singleton.1 last)

/-- No row ends between the start of a row and a place in it, unless the place lies between the
two characters of an end. -/
theorem between_rowStart {source : List Char} {n : Nat} (apart : source[n]? ≠ some '\n') :
    ∀ c ∈ between source (rowStart source n) n, Text.isRowEnd c = false := by
  intro c mem
  obtain ⟨k, at_k⟩ := List.mem_iff_getElem?.1 mem
  rw [between, List.getElem?_take] at at_k
  split at at_k
  · rename_i lt
    rw [List.getElem?_drop] at at_k
    have inside : ∀ i, rowStart source n < i → i ≤ n → endsLineAt source i ≠ true := by
      intro i behind le ends
      have := le_rowStart ends le
      omega
    have here := inside (rowStart source n + k + 1) (by omega) (by omega)
    simp only [endsLineAt, at_k, Text.endsLine, List.head?_drop, Bool.not_eq_true,
      Bool.or_eq_false_iff, Bool.and_eq_false_iff] at here
    obtain ⟨noFeed, noReturn | feeds⟩ := here
    · simp [Text.isRowEnd, noFeed, noReturn]
    · -- A carriage return in front of a line feed, which ends the row in its place.
      have next : source[rowStart source n + k + 1]? = some '\n' := by simpa using feeds
      rcases Nat.lt_or_ge (rowStart source n + k + 1) n with before | behind
      · refine absurd ?_ (inside (rowStart source n + k + 2) (by omega) (by omega))
        simp [endsLineAt, next, Text.endsLine]
      · have last : rowStart source n + k + 1 = n := by omega
        exact absurd (last ▸ next) apart
  · cases at_k

theorem Text.takeBytes_append (before behind : List Char) :
    takeBytes (byteLength before) (before ++ behind) = before := by
  induction before with
  | nil =>
    cases behind with
    | nil => rfl
    | cons c cs =>
      have pos := c.utf8Size_pos
      rw [List.nil_append, takeBytes, if_neg (by rw [byteLength_nil]; omega)]
  | cons c before ih =>
    rw [List.cons_append, byteLength_cons, takeBytes, if_pos (Nat.le_add_right _ _),
      Nat.add_sub_cancel_left, ih]

/-! ## Places of faults -/

/-- A line feed is read as part of a gap. -/
theorem Lexeme.scan_lineFeed (w : Lexeme.Wanted) (cs : List Char) :
    ∃ n, Lexeme.scan w ('\n' :: cs) = some (none, n + 1) := by
  have blank : Lexeme.blankLength ('\n' :: cs) = some ((cs.takeWhile Lexeme.isBlank).length + 1) := by
    rw [Lexeme.blankLength_eq_some, List.takeWhile_cons_of_pos (by decide)]
    exact ⟨Nat.succ_ne_zero _, rfl⟩
  rw [Lexeme.scan_silent (by decide), blank]
  exact ⟨_, rfl⟩

theorem getElem?_eq_of_drop {cs rest : List Char} {c : Char} {i : Nat}
    (h : cs.drop i = c :: rest) : cs[i]? = some c := by
  rw [← List.head?_drop, h, List.head?_cons]

theorem Lexeme.Scans.not_lineFeed {w : Lexeme.Wanted} {source : List Char} {l : Lexeme}
    {after : Lexeme.Cursor} (scans : Lexeme.Scans w source l after) :
    source[l.start]? ≠ some '\n' := by
  intro feed
  obtain ⟨n, scanned, _⟩ := scans.scanned
  rw [← List.head?_drop, List.head?_eq_some_iff] at feed
  obtain ⟨cs, feed⟩ := feed
  obtain ⟨k, gap⟩ := Lexeme.scan_lineFeed w cs
  rw [feed, gap] at scanned
  cases scanned

/-- A fault is met at the end of the source or at a character that starts no gap. -/
theorem Recovery.Situation.Meets.place {a : Automaton} {budget : Nat} {source : List Char}
    {x : Recovery.Situation} {fault : Fault} (kept : Recovery.Kept a budget source x)
    (meets : x.Meets a fault) : fault.offset source.length ≤ source.length ∧
      source[fault.offset source.length]? ≠ some '\n' := by
  have holds := kept.holds
  have lexeme : ∀ {w l after}, Lexeme.Scans w source l after →
      l.start ≤ source.length ∧ source[l.start]? ≠ some '\n' := by
    intro w l after scans
    exact ⟨Nat.le_trans (Nat.le_of_lt scans.after_eq.1) scans.stop_le_length, scans.not_lineFeed⟩
  cases meets with
  | unfit read => exact lexeme (read ▸ holds).2
  | misplaced read => exact lexeme (read ▸ holds).2.2
  | behindEnd read => exact lexeme (read ▸ holds).2
  | @stray c offset after read =>
    rw [read] at holds
    obtain ⟨_, nothing, _, here, _⟩ := holds
    have at_offset := getElem?_eq_of_drop here
    refine ⟨Nat.le_of_lt (List.getElem?_eq_some_iff.1 at_offset).1, fun feed => ?_⟩
    obtain rfl : c = '\n' := Option.some.inj (at_offset.symm.trans feed)
    obtain ⟨n, gap⟩ := Lexeme.scan_lineFeed (Recovery.wanted a x.stack) (source.drop (offset + 1))
    rw [← here] at gap
    exact nothing none n gap
  | unfinished => simp [Fault.offset]

/-! ## The snippet of an error -/

/-- What is printed of a rejected source: a line of it, and a caret behind some blanks. -/
def Rejection.printed (r : Rejection) (file source : String) (l : Location) (line : List Char)
    (before : Nat) : String :=
  let d := (r.error file source).diagnostic
  let gutter := (toString l.line).length
  String.intercalate "\n" ([
    d.headline false,
    Diagnostic.blanks gutter ++ "--> " ++ l.text,
    Diagnostic.blanks (gutter + 1) ++ "|",
    toString l.line ++ " | " ++ String.ofList line,
    Diagnostic.blanks (gutter + 1) ++ "| " ++
      (Diagnostic.blanks before ++ "^" ++ (" " ++ r.fault.label))]
      ++ d.advice false gutter)

/-- A place of a source with its location: the row that the location names is there, and the
text of the row leads up to the place. -/
structure PointsInto (file source : String) (n : Nat) (l : Location) (row : SourceRow) : Prop where
  within : n ≤ source.toList.length
  named : l.file = file
  line : l.line = rowNumber source.toList n
  offset : l.offset = byteOffset source.toList n
  found : (LineMap.ofSource source file).rows[(l.line - 1).toNat]? = some row
  ends : ∃ stop ∈ Text.rowEnds, row.text = Text.rowText row.text ++ stop
  before : (Text.rowText row.text).take (n - rowStart source.toList n) =
    between source.toList (rowStart source.toList n) n

theorem Fault.label_given (fault : Fault) : given (some fault.label) = some fault.label := by
  cases fault <;> rfl

theorem Rejection.format_error (r : Rejection) {file source : String} {l : Location}
    (place : (r.error file source).location = some l) (one : Diagnostic.caretCount l = 1) :
    (r.error file source).format false =
      let line := Diagnostic.snippetLine source l.line
      r.printed file source l line (Text.takeBytes ((max l.column 1) - 1).toNat line).length := by
  have label : (r.error file source).diagnostic.label = some r.fault.label := rfl
  have known : (Report.add {} (r.error file source)).sources = [(l.file, source)] := by
    rw [Report.add, Report.addSource, place]
    rfl
  have single : (Report.add {} (r.error file source)).errors =
      [(r.error file source).diagnostic] := rfl
  have located : (r.error file source).diagnostic.location = some l := place
  have carets : ∀ line, Diagnostic.carets line l = Diagnostic.blanks
      (Text.takeBytes ((max l.column 1) - 1).toNat line).length ++ "^" := by
    intro line
    rw [Diagnostic.carets, one]
    rfl
  simp only [SourceError.format, Report.format, known, single, List.map_cons, List.map_nil,
    String.intercalate_singleton, Diagnostic.format, Diagnostic.lines, located,
    List.lookup_cons_self, Diagnostic.snippet, label, Fault.label_given, carets, styled,
    Rejection.printed]
  rfl

section InRow

variable {file source : String} {n : Nat} {before behind : List Char}
  (inRow : InRow source.toList n before behind)

include inRow

theorem InRow.length_before (within : n ≤ source.toList.length) :
    before.length = n - rowStart source.toList n := by
  have start := rowStart_le source.toList n
  rw [inRow.before_eq, between, List.length_take, List.length_drop]
  omega

/-- No end of the row stands before a place at a character that is no line feed. -/
theorem InRow.rowText_eq (apart : source.toList[n]? ≠ some '\n') :
    Text.rowText (before ++ behind) = before ++ Text.rowText behind := by
  have plain := between_rowStart apart
  rw [← inRow.before_eq] at plain
  apply List.takeWhile_append_of_pos
  intro c mem
  simp [plain c mem]

theorem pointsInto_of_inRow (within : n ≤ source.toList.length)
    (apart : source.toList[n]? ≠ some '\n') :
    PointsInto file source n
      { file, line := (lineEnds source.toList n).length + 1,
        column := Text.byteLength before + 1, offset := byteOffset source.toList n }
      (.of (before ++ behind)) := by
  refine ⟨within, rfl, ?_, rfl, ?_, ?_, ?_⟩
  · rw [rowNumber]
    push_cast
    omega
  · simp only [Int.add_sub_cancel, Int.toNat_natCast]
    rw [rows_ofSource, List.getElem?_map, inRow.row]
    rfl
  · exact Text.rows_text (List.mem_of_getElem? inRow.row)
  · rw [← inRow.before_eq, ← inRow.length_before within]
    simp only [SourceRow.of, inRow.rowText_eq apart, List.take_left]

/-- The line of a snippet is the row of the place, where no row is broken up to it. -/
theorem snippetLine_of_inRow
    (unbroken : Text.Unbroken source.toList (rowNumber source.toList n)) :
    Diagnostic.snippetLine source ((lineEnds source.toList n).length + 1) =
      Text.rowText (before ++ behind) := by
  have shown := (Text.showsRows_iff _ _).2 unbroken (lineEnds source.toList n).length
    (by unfold rowNumber; omega)
  rw [@List.getD_eq_getElem?_getD _ (Text.rows source.toList), inRow.row] at shown
  rw [Diagnostic.snippetLine, if_neg (by omega), Int.add_sub_cancel, Int.toNat_natCast]
  exact shown

end InRow

/-- A rejected source is located in the row of its fault. The snippet shows this row without its
end, and the caret stands behind as many blanks as there are characters before the fault,
unless a line break that ends no row stands in the rows up to this one. -/
theorem format_of_rejection {budget : Nat} {file source : String} {r : Rejection}
    (failed : parse budget file source = .error (.rejected r)) :
    let n := r.fault.offset source.toList.length
    ∃ l row, (r.error file source).location = some l ∧ PointsInto file source n l row ∧
      (Text.Unbroken source.toList (rowNumber source.toList n) →
        (r.error file source).format false =
          r.printed file source l (Text.rowText row.text) (n - rowStart source.toList n)) := by
  intro n
  obtain ⟨_, ⟨⟩, rejected⟩ := parse_eq_error_iff.1 failed
  obtain ⟨x, reached, meets⟩ :=
    Recovery.parseFrom_meets Automaton.ofGrammar_sound .start rejected
  obtain ⟨within, apart⟩ := meets.place (reached.kept Automaton.ofGrammar_sound)
  obtain ⟨before, behind, inRow⟩ := exists_inRow within
  have place : (r.error file source).location = some _ :=
    congrArg some (location_of_inRow source file within inRow)
  refine ⟨_, _, place, pointsInto_of_inRow inRow within apart, fun unbroken => ?_⟩
  rw [r.format_error place]
  · have bytes : (max (((Text.byteLength before : Nat) : Int) + 1) 1 - 1).toNat =
        Text.byteLength before := by omega
    simp only [snippetLine_of_inRow inRow unbroken, bytes, inRow.rowText_eq apart, SourceRow.of,
      Text.takeBytes_append, inRow.length_before within]
    rfl
  · rw [Diagnostic.caretCount, if_neg]
    simp
    omega

/-- The snippet of a modifier without a declaration. -/
theorem format_of_lone_modifier : ∃ r l row,
    parse 1 standardFile "static" = .error (.rejected r) ∧
      (r.error standardFile "static").location = some l ∧
      PointsInto standardFile "static" (r.fault.offset 6) l row ∧
      (r.error standardFile "static").format false = r.printed standardFile "static" l
        (Text.rowText row.text) (r.fault.offset 6 - rowStart "static".toList (r.fault.offset 6)) := by
  have sample := sample_parses.2.2.1
  split at sample
  · rename_i r failed
    obtain ⟨l, row, place, points, shown⟩ := format_of_rejection failed
    exact ⟨r, l, row, failed, place, points, shown (Text.unbroken_of_plain (by decide) _)⟩
  · cases sample

end SyntaxAtlas
