-- Colour is decoration. Each fragment of a report is written between escape sequences or as it
-- is, and the texts of the errors hold no escape character. So a coloured report without its
-- escape sequences is the plain one.

import SyntaxAtlas.Diagnostic
import SyntaxAtlas.Proofs.Rewriting
import Mathlib.Data.List.Forall2

namespace SyntaxAtlas

/-! ## Escape sequences -/

/-- A digit or a semicolon, as they stand between the bracket and the end of a sequence. -/
def isParameter (c : Char) : Bool := c.isDigit || c == ';'

/-- An escape sequence of styles: escape, bracket, parameters, and the letter at the end. -/
def IsEscapeSequence (u : List Char) : Prop :=
  ∃ parameters : List Char, parameters.all isParameter = true ∧
    u = '\x1b' :: '[' :: (parameters ++ ['m'])

/-- The length of the escape sequence at the start of a text. -/
def escapeLength? : List Char → Option Nat
  | '\x1b' :: '[' :: cs =>
    if (cs.dropWhile isParameter).head? = some 'm' then
      some ((cs.takeWhile isParameter).length + 3)
    else none
  | _ => none

/-- Finds an escape sequence, and writes nothing for it. -/
def findEscape (cs : List Char) : Option (Nat × List Char) := (escapeLength? cs).map (·, [])

/-- A text without its escape sequences. -/
def withoutEscapes (text : String) : String :=
  String.ofList (Text.rewriteFrom findEscape 0 text.toList)

/-- A text that holds no escape character. -/
def NoEscape (text : String) : Prop := '\x1b' ∉ text.toList

instance (text : String) : Decidable (NoEscape text) := inferInstanceAs (Decidable (¬ _))

/-- A text that becomes another one when its escape sequences are deleted, whatever stands
behind it. -/
def Fades (colored plain : String) : Prop :=
  Text.Rewrites findEscape colored.toList plain.toList

/-- The length is that of an escape sequence the text starts with, if there is one. -/
theorem escapeLength?_eq_some_iff {cs : List Char} {n : Nat} :
    escapeLength? cs = some n ↔ ∃ u rest, cs = u ++ rest ∧ IsEscapeSequence u ∧ u.length = n := by
  constructor
  · intro found
    unfold escapeLength? at found
    split at found
    · rename_i cs
      split at found
      · rename_i ends
        obtain ⟨rest, left⟩ := List.head?_eq_some_iff.1 ends
        have parts : cs.takeWhile isParameter ++ 'm' :: rest = cs := by
          rw [← left, List.takeWhile_append_dropWhile]
        refine ⟨'\x1b' :: '[' :: (cs.takeWhile isParameter ++ ['m']), rest, ?_, ⟨_, ?_, rfl⟩, ?_⟩
        · simp [parts]
        · exact List.all_takeWhile
        · simpa using found
      · cases found
    · cases found
  · rintro ⟨_, rest, rfl, ⟨parameters, all, rfl⟩, rfl⟩
    have all : ∀ c ∈ parameters, isParameter c = true := List.all_eq_true.1 all
    -- The letter at the end is no parameter, so the parameters are taken whole.
    have taken : (parameters ++ 'm' :: rest).takeWhile isParameter = parameters := by
      rw [List.takeWhile_append_of_pos all, List.takeWhile_cons_of_neg (by decide),
        List.append_nil]
    have left : (parameters ++ 'm' :: rest).dropWhile isParameter = 'm' :: rest := by
      rw [List.dropWhile_append_of_pos all, List.dropWhile_cons_of_neg (by decide)]
    simp [escapeLength?, taken, left]

theorem findEscape_sequence {u : List Char} (h : IsEscapeSequence u) (rest : List Char) :
    findEscape (u ++ rest) = some (u.length, []) := by
  unfold findEscape
  rw [escapeLength?_eq_some_iff.2 ⟨u, rest, rfl, h, rfl⟩]
  rfl

theorem findEscape_other {c : Char} (other : c ≠ '\x1b') (rest : List Char) :
    findEscape (c :: rest) = none := by
  unfold findEscape escapeLength?
  split
  · rename_i same
    exact absurd (List.cons.inj same).1 other
  · rfl

/-- What fades to a text is this text without the escape sequences. -/
theorem Fades.eq {colored plain : String} (h : Fades colored plain) :
    withoutEscapes colored = plain := by
  rw [withoutEscapes, Text.Rewrites.eq h, String.ofList_toList]

theorem Fades.append {colored plain colored' plain' : String} (h : Fades colored plain)
    (h' : Fades colored' plain') : Fades (colored ++ colored') (plain ++ plain') := by
  unfold Fades
  rw [String.toList_append, String.toList_append]
  exact Text.Rewrites.append h h'

theorem Fades.same {text : String} (free : NoEscape text) : Fades text text := by
  apply Text.Rewrites.same
  intro c mem rest
  apply findEscape_other
  rintro rfl
  exact free mem

theorem Fades.empty : Fades "" "" := .same (by decide)

theorem Fades.sequence {text : String} (h : IsEscapeSequence text.toList) : Fades text "" := by
  have nonempty : text.toList ≠ [] := by
    obtain ⟨_, _, same⟩ := h
    rw [same]
    exact List.cons_ne_nil _ _
  exact Text.Rewrites.found nonempty (findEscape_sequence h)

theorem Fades.intercalate {separator : String} (free : NoEscape separator)
    {colored plain : List String} (h : List.Forall₂ Fades colored plain) :
    Fades (separator.intercalate colored) (separator.intercalate plain) := by
  induction h with
  | nil => exact .empty
  | @cons x y xs ys first rest ih =>
    cases rest with
    | nil =>
      rw [String.intercalate_singleton, String.intercalate_singleton]
      exact first
    | cons =>
      rw [String.intercalate_cons_cons, String.intercalate_cons_cons]
      exact (first.append (.same free)).append ih

/-! ## Styles -/

theorem TextStyle.isEscapeSequence (style : TextStyle) :
    IsEscapeSequence style.sequence.toList := by
  cases style with
  | bold => exact ⟨['1'], by decide, by decide⟩
  | red => exact ⟨['3', '1'], by decide, by decide⟩
  | blue => exact ⟨['3', '4'], by decide, by decide⟩
  | cyan => exact ⟨['3', '6'], by decide, by decide⟩

/-- A text in styles fades to the text. -/
theorem fades_styled (styles : List TextStyle) {text : String} (free : NoEscape text) :
    Fades (styled true styles text) (styled false styles text) := by
  have opened : Fades (String.join (styles.map (·.sequence))) "" := by
    induction styles with
    | nil => exact .empty
    | cons style styles ih =>
      rw [List.map_cons, String.join_cons]
      exact (Fades.sequence style.isEscapeSequence).append ih
  have closed : Fades TextStyle.reset "" := .sequence ⟨['0'], by decide, by decide⟩
  have whole := (opened.append (.same free)).append closed
  rw [String.empty_append, String.append_empty] at whole
  exact whole

/-! ## Texts without escapes -/

theorem NoEscape.append {a b : String} (h : NoEscape a) (h' : NoEscape b) : NoEscape (a ++ b) := by
  unfold NoEscape
  rw [String.toList_append, List.mem_append]
  exact fun mem => mem.elim h h'

theorem noEscape_ofList {cs : List Char} (h : '\x1b' ∉ cs) : NoEscape (String.ofList cs) := by
  unfold NoEscape
  rwa [String.toList_ofList]

theorem noEscape_replicate {c : Char} (other : c ≠ '\x1b') (n : Nat) :
    NoEscape (String.ofList (List.replicate n c)) := by
  apply noEscape_ofList
  intro mem
  exact other (List.eq_of_mem_replicate mem).symm

theorem noEscape_blanks (n : Nat) : NoEscape (Diagnostic.blanks n) :=
  noEscape_replicate (by decide) n

theorem noEscape_nat (n : Nat) : NoEscape (toString n) := by
  intro mem
  rw [Nat.toString_eq_repr, Nat.toList_repr] at mem
  have digit := Nat.isDigit_of_mem_toDigits (by decide) (by decide) mem
  cases digit

theorem noEscape_int (i : Int) : NoEscape (toString i) := by
  cases i with
  | ofNat n => exact noEscape_nat n
  | negSucc n => exact NoEscape.append (by decide) (noEscape_nat (n + 1))

theorem noEscape_location {l : Location} (h : NoEscape l.file) : NoEscape l.text :=
  ((h.append (by decide)).append (noEscape_int _)).append (by decide) |>.append (noEscape_int _)

/-- The lines of a snippet hold no other characters than the text. -/
theorem Text.mem_of_mem_snippetLines {cs line : List Char} {c : Char}
    (listed : line ∈ snippetLines cs) (mem : c ∈ line) : c ∈ cs := by
  fun_induction snippetLines cs generalizing line with
  | case1 => cases listed
  | case2 cs ih =>
    rcases List.mem_cons.1 listed with rfl | listed
    · cases mem
    · exact List.mem_cons_of_mem _ (List.mem_cons_of_mem _ (ih listed mem))
  | case3 d cs _ breaks ih =>
    rcases List.mem_cons.1 listed with rfl | listed
    · cases mem
    · exact List.mem_cons_of_mem _ (ih listed mem)
  | case4 d cs _ inside ih =>
    cases rows : snippetLines cs with
    | nil =>
      rw [rows, extendRow, List.mem_singleton] at listed
      subst listed
      rw [List.mem_singleton.1 mem]
      exact List.mem_cons_self
    | cons row below =>
      rw [rows, extendRow] at listed
      rcases List.mem_cons.1 listed with rfl | listed
      · rcases List.mem_cons.1 mem with rfl | mem
        · exact List.mem_cons_self
        · exact List.mem_cons_of_mem _ (ih (rows ▸ List.mem_cons_self) mem)
      · exact List.mem_cons_of_mem _ (ih (rows ▸ List.mem_cons_of_mem _ listed) mem)

theorem noEscape_snippetLine {source : String} (free : NoEscape source) (line : Int) :
    NoEscape (String.ofList (Diagnostic.snippetLine source line)) := by
  apply noEscape_ofList
  intro mem
  unfold Diagnostic.snippetLine at mem
  split at mem
  · cases mem
  · rw [List.getD_eq_getElem?_getD] at mem
    cases found : (Text.snippetLines source.toList)[(line - 1).toNat]? with
    | none =>
      rw [found] at mem
      cases mem
    | some shown =>
      rw [found] at mem
      exact free (Text.mem_of_mem_snippetLines (List.mem_of_getElem? found) mem)

theorem noEscape_carets (code : List Char) (l : Location) :
    NoEscape (Diagnostic.carets code l) :=
  (noEscape_blanks _).append (noEscape_replicate (by decide) _)

/-- An error whose texts hold no escape character. -/
structure Diagnostic.NoEscapes (d : Diagnostic) : Prop where
  message : NoEscape d.message
  file : ∀ l ∈ d.location, NoEscape l.file
  code : ∀ text ∈ d.code, NoEscape text
  help : ∀ text ∈ d.help, NoEscape text
  note : ∀ text ∈ d.note, NoEscape text
  label : ∀ text ∈ d.label, NoEscape text

/-- An error of a source without escape characters, the source included. -/
structure SourceError.NoEscapes (e : SourceError) : Prop where
  diagnostic : e.diagnostic.NoEscapes
  source : ∀ text ∈ e.source, NoEscape text

/-- A report whose sources and errors hold no escape character. -/
structure Report.NoEscapes (r : Report) : Prop where
  sources : ∀ known ∈ r.sources, NoEscape known.2
  errors : ∀ d ∈ r.errors, d.NoEscapes

/-! ## Diagnostics -/

theorem mem_of_given {option : Option String} {text : String} (h : given option = some text) :
    text ∈ option :=
  (Option.filter_eq_some_iff.1 h).1

namespace Diagnostic

variable {d : Diagnostic} {sources : Sources}

theorem headline_fades (free : d.NoEscapes) : Fades (d.headline true) (d.headline false) := by
  unfold headline
  apply Fades.append
  · apply fades_styled
    apply NoEscape.append (by decide)
    split
    · rename_i code given
      exact (NoEscape.append (by decide) (free.code _ (mem_of_given given))).append (by decide)
    · decide
  · exact fades_styled _ (NoEscape.append (by decide) free.message)

theorem adviceLine_fades (gutter : Nat) {name text : String} (named : NoEscape name)
    (free : NoEscape text) :
    Fades (adviceLine true (blanks gutter) name text)
      (adviceLine false (blanks gutter) name text) := by
  have mark : NoEscape "= " := by decide
  have colon : NoEscape ": " := by decide
  have start := fades_styled [.bold, .cyan] ((noEscape_blanks gutter).append mark)
  exact (start.append (fades_styled [.bold] (named.append colon))).append (.same free)

theorem adviceLines_fade (gutter : Nat) {name : String} {text : Option String}
    (named : NoEscape name) (free : ∀ t ∈ text, NoEscape t) :
    List.Forall₂ Fades ((given text).map (adviceLine true (blanks gutter) name)).toList
      ((given text).map (adviceLine false (blanks gutter) name)).toList := by
  cases shown : given text with
  | none => exact .nil
  | some t => exact .cons (adviceLine_fades gutter named (free t (mem_of_given shown))) .nil

theorem ruled_fades {bar plainBar : String} (ruled : Fades bar plainBar)
    {colored plain : List String} (h : List.Forall₂ Fades colored plain) :
    List.Forall₂ Fades (if colored.isEmpty then [] else bar :: colored)
      (if plain.isEmpty then [] else plainBar :: plain) := by
  cases h with
  | nil => exact .nil
  | cons first rest => exact .cons ruled (.cons first rest)

theorem advice_fades (free : d.NoEscapes) (gutter : Nat) :
    List.Forall₂ Fades (d.advice true gutter) (d.advice false gutter) := by
  have rule : NoEscape "|" := by decide
  have bar := fades_styled [.bold, .blue] ((noEscape_blanks (gutter + 1)).append rule)
  have help : NoEscape "help" := by decide
  have note : NoEscape "note" := by decide
  exact ruled_fades bar (List.rel_append (adviceLines_fade (gutter + 1) help free.help)
    (adviceLines_fade (gutter + 1) note free.note))

theorem snippet_fades {source : String} {l : Location} (known : NoEscape source)
    (located : l ∈ d.location) (free : d.NoEscapes) (gutter : Nat) :
    List.Forall₂ Fades (snippet true gutter source d.label l)
      (snippet false gutter source d.label l) := by
  have rule {text : String} (free : NoEscape text) := fades_styled [.bold, .blue] free
  have margin (n : Nat) {text : String} (free : NoEscape text) :=
    rule ((noEscape_blanks n).append free)
  have place : NoEscape l.text := noEscape_location (free.file l located)
  have line : NoEscape (toString l.line ++ " | ") := (noEscape_int l.line).append (by decide)
  have code := noEscape_snippetLine known l.line
  unfold snippet
  refine .cons ?arrow (.cons ?bar (.cons ?code (.cons ?carets .nil)))
  case arrow => exact (margin gutter (by decide)).append (.same place)
  case bar => exact margin (gutter + 1) (by decide)
  case code => exact (rule line).append (.same code)
  case carets =>
    apply (margin (gutter + 1) (by decide)).append
    apply fades_styled
    apply (noEscape_carets _ l).append
    split
    · rename_i text given
      exact NoEscape.append (by decide) (free.label text (mem_of_given given))
    · decide

theorem lines_fade (known : ∀ k ∈ sources, NoEscape k.2) (free : d.NoEscapes) :
    List.Forall₂ Fades (d.lines true sources) (d.lines false sources) := by
  have plainArrow : NoEscape " --> " := by decide
  have arrow := fades_styled [.bold, .blue] plainArrow
  apply List.Forall₂.cons (headline_fades free)
  split
  case h_1 =>
    exact .cons (arrow.append (.same (by decide))) (advice_fades free 1)
  case h_2 l located =>
    split
    case h_1 =>
      have place : NoEscape l.text := noEscape_location (free.file l located)
      exact .cons (arrow.append (.same place)) (advice_fades free 1)
    case h_2 source found =>
      obtain ⟨front, behind, same, -⟩ := List.lookup_eq_some_iff.1 found
      have listed : (l.file, source) ∈ sources := same ▸ List.mem_append_cons_self
      exact List.rel_append (snippet_fades (known _ listed) located free _) (advice_fades free _)

theorem format_fades (known : ∀ k ∈ sources, NoEscape k.2) (free : d.NoEscapes) :
    Fades (d.format true sources) (d.format false sources) :=
  Fades.intercalate (by decide) (lines_fade known free)

end Diagnostic

/-! ## Reports -/

namespace Report

variable {r : Report}

theorem NoEscapes.add (free : r.NoEscapes) {e : SourceError} (clean : e.NoEscapes) :
    (r.add e).NoEscapes := by
  constructor
  · intro known mem
    unfold Report.add addSource at mem
    split at mem
    · rename_i text l given _
      split at mem
      · exact free.sources known mem
      · rcases List.mem_append.1 mem with mem | mem
        · exact free.sources known mem
        · rw [List.mem_singleton.1 mem]
          exact clean.source text given
    · exact free.sources known mem
  · intro d mem
    rcases List.mem_append.1 mem with mem | mem
    · exact free.errors d mem
    · rw [List.mem_singleton.1 mem]
      exact clean.diagnostic

theorem NoEscapes.foldl_add {es : List SourceError} (free : r.NoEscapes)
    (clean : ∀ e ∈ es, e.NoEscapes) : (es.foldl Report.add r).NoEscapes := by
  induction es generalizing r with
  | nil => exact free
  | cons e es ih =>
    rw [List.forall_mem_cons] at clean
    exact ih (free.add clean.1) clean.2

theorem NoEscapes.format_fades (free : r.NoEscapes) : Fades (r.format true) (r.format false) := by
  apply Fades.intercalate (by decide)
  rw [List.forall₂_map_left_iff, List.forall₂_map_right_iff, List.forall₂_same]
  intro d mem
  exact Diagnostic.format_fades free.sources (free.errors d mem)

/-- After any errors were reported, the coloured report without its escape sequences is the plain
one, if none of the texts has an escape character. -/
theorem withoutEscapes_format {es : List SourceError} (free : r.NoEscapes)
    (clean : ∀ e ∈ es, e.NoEscapes) :
    withoutEscapes ((es.foldl Report.add r).format true) =
      (es.foldl Report.add r).format false :=
  (free.foldl_add clean).format_fades.eq

/-- A report that knows a source and has an error without a place, and one more error in another
source. -/
theorem withoutEscapes_format_added :
    let old : Diagnostic := { message := "no input", location := none, note := some "try again" }
    let r : Report := { sources := [("b", "f()")], errors := [old] }
    let e : SourceError :=
      { message := "expected a name", location := some { file := "a", line := 1, column := 5 },
        source := some "let = 1", label := some "here", help := some "name it" }
    r.NoEscapes ∧ e.NoEscapes ∧ (r.add e).format true ≠ (r.add e).format false ∧
      withoutEscapes ((r.add e).format true) =
        "\n".intercalate ["error: no input", " --> <unknown location>", "  |",
          "  = note: try again", "", "error[E0001]: expected a name", " --> a:1:5", "  |",
          "1 | let = 1", "  |     ^ here", "  |", "  = help: name it"] := by
  intro old r e
  have known : r.NoEscapes := by
    constructor
    · decide
    · intro d mem
      rw [List.mem_singleton.1 mem]
      constructor <;> decide
  have clean : e.NoEscapes := by
    refine ⟨⟨?_, ?_, ?_, ?_, ?_, ?_⟩, ?_⟩ <;> decide
  have each : ∀ e' ∈ [e], e'.NoEscapes := by
    intro e' mem
    rw [List.mem_singleton.1 mem]
    exact clean
  refine ⟨known, clean, by decide, (withoutEscapes_format known each).trans ?_⟩
  decide +kernel

end Report

end SyntaxAtlas
