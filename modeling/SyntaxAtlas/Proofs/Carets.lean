-- Carets under a span. A location counts its columns in bytes. The blanks in front of the carets
-- are counted in characters, as many as stand before the span. The carets themselves are
-- counted in bytes, so they are too many under a character that takes more than one.

import SyntaxAtlas.Proofs.Snippets

namespace SyntaxAtlas

/-! ## Spans in a line -/

/-- A location that spans some characters of a line: it names the row of the line, and its
columns are the bytes before the span and those up to its end. -/
structure Location.Spans (l : Location) (source : String) (before span behind : List Char) :
    Prop where
  line : 1 ≤ l.line
  row : ∃ row, (Text.rows source.toList)[(l.line - 1).toNat]? = some row ∧
    Text.rowText row = before ++ span ++ behind
  column : l.column = Text.byteLength before + 1
  endColumn : l.endColumn = Text.byteLength (before ++ span) + 1
  forward : l.column < l.endColumn
  sameLine : l.endLine = 0 ∨ l.endLine = l.line

/-- The row below a line of a snippet: blanks, carets, and the label of the error. -/
def Diagnostic.caretRow (color : Bool) (d : Diagnostic) (gutter blanks carets : Nat) : String :=
  let label := match given d.label with
    | some text => " " ++ text
    | none => ""
  styled color [.bold, .blue] (Diagnostic.blanks (gutter + 1) ++ "| ") ++
    styled color [.bold, .red]
      (Diagnostic.blanks blanks ++ String.ofList (List.replicate carets '^') ++ label)

namespace Text

theorem length_le_byteLength (cs : List Char) : cs.length ≤ byteLength cs := by
  induction cs with
  | nil => exact Nat.le_refl 0
  | cons c cs ih =>
    have := c.utf8Size_pos
    rw [List.length_cons, byteLength_cons]
    omega

/-- A text takes as many bytes as it has characters exactly if each of them takes one byte. -/
theorem byteLength_eq_length_iff (cs : List Char) :
    byteLength cs = cs.length ↔ ∀ c ∈ cs, c.utf8Size = 1 := by
  induction cs with
  | nil => simp
  | cons c cs ih =>
    have := c.utf8Size_pos
    have := length_le_byteLength cs
    rw [List.forall_mem_cons, ← ih, List.length_cons, byteLength_cons]
    omega

end Text

section

variable {l : Location} {source : String} {before span behind : List Char}

/-- Where all lines end at line feeds, the snippet shows the line of the span. -/
theorem Location.Spans.snippetLine_eq (spans : l.Spans source before span behind)
    (feeds : ∀ c ∈ source.toList, Text.isLineBreak c = true → c = '\n') :
    Diagnostic.snippetLine source l.line = before ++ span ++ behind := by
  obtain ⟨row, found, text⟩ := spans.row
  have := spans.line
  have plain : source.toList.any Text.isSoftBreak = false := by
    rw [List.any_eq_false]
    intro c mem soft
    obtain ⟨breaks, soft⟩ := Bool.and_eq_true_iff.1 soft
    obtain rfl := feeds c mem breaks
    cases soft
  have unbroken := Text.unbroken_of_plain plain ((l.line - 1).toNat + 1)
  have shown := (Text.showsRows_iff _ _).2 unbroken (l.line - 1).toNat (Nat.lt_succ_self _)
  rw [@List.getD_eq_getElem?_getD _ (Text.rows source.toList), found] at shown
  rw [Diagnostic.snippetLine, if_neg (by omega), shown, ← text]
  rfl

/-- The blanks and the carets below the line of a span. -/
theorem Location.Spans.carets_eq (spans : l.Spans source before span behind) :
    Diagnostic.carets (before ++ span ++ behind) l =
      Diagnostic.blanks before.length ++
        String.ofList (List.replicate (Text.byteLength span) '^') := by
  have bytes : ((max l.column 1) - 1).toNat = Text.byteLength before := by
    have := spans.column
    omega
  have count : Diagnostic.caretCount l = Text.byteLength span := by
    have stop := spans.endColumn
    have := spans.column
    rw [Text.byteLength_append] at stop
    rw [Diagnostic.caretCount, if_pos ⟨spans.forward, spans.sameLine⟩]
    omega
  unfold Diagnostic.carets
  rw [bytes, List.append_assoc, Text.takeBytes_append, count]

/-- An error that spans some characters of a line, in a source whose lines end at line feeds. The
snippet shows the line, and below it as many blanks as there are characters before the span.
Behind them there are as many carets as the span has bytes. This is one for each character
exactly if each character of the span takes one byte. -/
theorem carets_under_span {d : Diagnostic} {sources : Diagnostic.Sources} (color : Bool)
    (located : d.location = some l) (known : sources.lookup l.file = some source)
    (feeds : ∀ c ∈ source.toList, Text.isLineBreak c = true → c = '\n')
    (spans : l.Spans source before span behind) :
    let gutter := (toString l.line).length
    (d.lines color sources)[3]? = some (styled color [.bold, .blue] (toString l.line ++ " | ") ++
        String.ofList (before ++ span ++ behind)) ∧
      (d.lines color sources)[4]? =
        some (d.caretRow color gutter before.length (Text.byteLength span)) ∧
      (Text.byteLength span = span.length ↔ ∀ c ∈ span, c.utf8Size = 1) := by
  intro gutter
  have lines : d.lines color sources = d.headline color ::
      (Diagnostic.snippet color gutter source d.label l ++ d.advice color gutter) := by
    simp only [Diagnostic.lines, located, known]
    rfl
  rw [lines]
  simp only [Diagnostic.snippet, spans.snippetLine_eq feeds, spans.carets_eq]
  exact ⟨rfl, rfl, Text.byteLength_eq_length_iff span⟩

end

/-- Two carets stand under one letter with an accent. -/
theorem carets_under_accent :
    let source := "a é\n"
    let l : Location := { file := "f", line := 1, column := 3, endLine := 1, endColumn := 5 }
    let d : Diagnostic := { message := "bad", location := some l, label := some "here" }
    (∀ c ∈ source.toList, Text.isLineBreak c = true → c = '\n') ∧
      l.Spans source ['a', ' '] ['é'] [] ∧
      (d.lines false [("f", source)])[3]? = some "1 | a é" ∧
      (d.lines false [("f", source)])[4]? = some "  |   ^^ here" := by
  intro source l d
  have feeds : ∀ c ∈ source.toList, Text.isLineBreak c = true → c = '\n' := by
    simp [source, Text.isLineBreak]
  have spans : l.Spans source ['a', ' '] ['é'] [] :=
    ⟨by decide, ⟨source.toList, by decide, by decide⟩, by decide, by decide, by decide, by decide⟩
  have known : List.lookup l.file [("f", source)] = some source := rfl
  obtain ⟨line, carets, _⟩ := carets_under_span (d := d) false rfl known feeds spans
  refine ⟨feeds, spans, line.trans ?_, carets.trans ?_⟩
  · decide
  · decide

end SyntaxAtlas
