-- Texts and their labels. Each character of a text has an image of its own, and a label puts the
-- images one behind the other. That is what replacements in turn come to, though each of them
-- also runs over what those before it wrote. The images are read back one by one, so two texts
-- never have one label.

import SyntaxAtlas.Proofs.Escaping
import SyntaxAtlas.Proofs.Rewriting
import Mathlib.Logic.Function.Defs

namespace SyntaxAtlas.Markup

/-! ## Replacements in turn -/

/-- Replacements that are made one after the other, each over the whole text. -/
def replaceInTurn (pairs : List (String × String)) (text : String) : String :=
  pairs.foldl (fun text pair => replace pair.1 pair.2 text) text

/-- The replacements of single characters. -/
def ofCharacters (pairs : List (Char × String)) : List (String × String) :=
  pairs.map fun pair => (String.singleton pair.1, pair.2)

/-- The characters with a meaning and their entities. The ampersand comes first, since every
entity holds one. -/
def entityPairs : List (Char × String) :=
  [('&', "&amp;"), ('<', "&lt;"), ('>', "&gt;"), ('"', "&quot;"), (Text.singleQuote, "&apos;")]

/-- The blanks and their marks. -/
def blankPairs : List (Char × String) := [(' ', blankMark), ('\n', breakMark)]

/-- The marks and the spans that show them. -/
def markPairs : List (String × String) := [(blankMark, spaceSpan), (breakMark, lineSpan)]

/-- A text in the place of one character. -/
def substitute (old : Char) (new : List Char) (c : Char) : List Char :=
  if c = old then new else [c]

/-- Texts in the places of single characters, one after the other. -/
def substituteInTurn (pairs : List (Char × String)) (text : List Char) : List Char :=
  pairs.foldl (fun text pair => text.flatMap (substitute pair.1 pair.2.toList)) text

theorem replaceFrom_character (old : Char) (new text : List Char) :
    replaceFrom [old] new 0 text = text.flatMap (substitute old new) := by
  induction text with
  | nil => rfl
  | cons c text ih =>
    rw [List.flatMap_cons, ← ih, replaceFrom]
    by_cases found : c = old
    · simp [substitute, found]
    · have apart : ¬ old = c := fun same => found same.symm
      simp [substitute, found, apart]

theorem toList_replace (old : Char) (new text : String) :
    (replace (String.singleton old) new text).toList =
      text.toList.flatMap (substitute old new.toList) := by
  unfold replace
  rw [String.toList_ofList, String.toList_singleton, replaceFrom_character]

theorem replaceInTurn_append (first second : List (String × String)) (text : String) :
    replaceInTurn (first ++ second) text = replaceInTurn second (replaceInTurn first text) :=
  List.foldl_append

theorem toList_replaceInTurn (pairs : List (Char × String)) (text : String) :
    (replaceInTurn (ofCharacters pairs) text).toList = substituteInTurn pairs text.toList := by
  induction pairs generalizing text with
  | nil => rfl
  | cons pair pairs ih =>
    have rest := ih (replace (String.singleton pair.1) pair.2 text)
    rw [toList_replace] at rest
    exact rest

theorem substituteInTurn_cons (pair : Char × String) (pairs : List (Char × String))
    (text : List Char) : substituteInTurn (pair :: pairs) text =
      substituteInTurn pairs (text.flatMap (substitute pair.1 pair.2.toList)) := rfl

/-- What is written in the place of a character can be replaced later on, but no character of a
text meets another one there. -/
theorem substituteInTurn_eq (pairs : List (Char × String)) (text : List Char) :
    substituteInTurn pairs text = text.flatMap fun c => substituteInTurn pairs [c] := by
  induction pairs generalizing text with
  | nil => simp [substituteInTurn]
  | cons pair pairs ih =>
    rw [substituteInTurn_cons, ih, List.flatMap_assoc]
    congr
    funext c
    rw [substituteInTurn_cons, List.flatMap_singleton, ← ih]

/-- A character that is not looked for stays. -/
theorem substituteInTurn_other {pairs : List (Char × String)} {c : Char}
    (other : ∀ pair ∈ pairs, c ≠ pair.1) : substituteInTurn pairs [c] = [c] := by
  induction pairs with
  | nil => rfl
  | cons pair pairs ih =>
    rw [List.forall_mem_cons] at other
    rw [substituteInTurn_cons, List.flatMap_singleton, substitute, if_neg other.1, ih other.2]

theorem substituteInTurn_entities (c : Char) :
    substituteInTurn entityPairs [c] = escapeCharacter c := by
  by_cases mem : c ∈ meaningful
  · rcases meaningful_cases mem with rfl | rfl | rfl | rfl | rfl <;> decide
  · have known : ∀ pair ∈ entityPairs, pair.1 ∈ meaningful := by decide
    rw [escapeCharacter_plain mem]
    apply substituteInTurn_other
    rintro pair hp rfl
    exact mem (known pair hp)

theorem substituteInTurn_blanks (c : Char) :
    substituteInTurn blankPairs [c] = markBlank blankMark breakMark c := by
  by_cases space : c = ' '
  · subst space
    decide
  by_cases line : c = '\n'
  · subst line
    decide
  rw [substituteInTurn_other (by simp [blankPairs, space, line])]
  simp [markBlank, space, line]

/-- A text is escaped by the replacements of its characters in turn. -/
theorem replaceInTurn_entities (text : String) :
    replaceInTurn (ofCharacters entityPairs) text = escape text := by
  rw [← String.toList_inj, toList_replaceInTurn, substituteInTurn_eq, toList_escape]
  simp only [substituteInTurn_entities]

theorem replaceInTurn_blanks (text : String) :
    replaceInTurn (ofCharacters blankPairs) text = blanksToMarks text := by
  rw [← String.toList_inj, toList_replaceInTurn, substituteInTurn_eq, blanksToMarks,
    String.toList_ofList]
  simp only [substituteInTurn_blanks]

/-- All the replacements that make a label. -/
def labelPairs : List (String × String) :=
  ofCharacters entityPairs ++ ofCharacters blankPairs ++ markPairs

theorem replaceInTurn_label (text : String) : replaceInTurn labelPairs text = label text := by
  unfold labelPairs
  rw [replaceInTurn_append, replaceInTurn_append, replaceInTurn_entities, replaceInTurn_blanks]
  rfl

/-! ## Reading labels -/

/-- The images that stand for other characters than their own. -/
def imageTable : List (List Char × Char) :=
  (entityPairs.map fun pair => (pair.2.toList, pair.1)) ++
    [(spaceSpan.toList, ' '), (lineSpan.toList, '\n')]

/-- The character that an image at the start of a text stands for. -/
def findImage (cs : List Char) : Option (Nat × List Char) :=
  (imageTable.find? (·.1.isPrefixOf cs)).map fun e => (e.1.length, [e.2])

/-- Reads a label: an image as its character, and any other character as itself. -/
def readLabel (label : String) : String :=
  String.ofList (Text.rewriteFrom findImage 0 label.toList)

/-- A text that is read as one character, whatever stands behind it. -/
def Reads (u : List Char) (c : Char) : Prop := Text.Rewrites findImage u [c]

/-- No image begins with another one. -/
theorem imageTable_apart : ∀ e ∈ imageTable, ∀ e' ∈ imageTable, e.1 <+: e'.1 → e = e' := by
  decide

/-- An image at the start of a text is the one that is found there. -/
theorem find_image {u : List Char} {c : Char} (listed : (u, c) ∈ imageTable) (rest : List Char) :
    imageTable.find? (·.1.isPrefixOf (u ++ rest)) = some (u, c) := by
  rcases first : imageTable.find? (·.1.isPrefixOf (u ++ rest)) with _ | e
  · have absent := List.find?_eq_none.1 first _ listed
    simp at absent
  · have starts := List.find?_some first
    have other := List.mem_of_find?_eq_some first
    rw [List.isPrefixOf_iff_prefix] at starts
    rcases List.prefix_or_prefix_of_prefix starts (List.prefix_append u rest) with h | h
    · rw [first, imageTable_apart e other _ listed h]
    · rw [first, imageTable_apart _ listed e other h]

theorem reads_image {u : List Char} {c : Char} (listed : (u, c) ∈ imageTable) : Reads u c := by
  have nonempty : ∀ e ∈ imageTable, e.1 ≠ [] := by decide
  apply Text.Rewrites.found
  · exact nonempty _ listed
  · intro rest
    rw [findImage, find_image listed rest]
    rfl

theorem reads_plain {c : Char} (plain : c ∉ meaningful) : Reads [c] c := by
  have heads : ∀ e ∈ imageTable, e.1.head? ∈ meaningful.map some := by decide
  apply Text.Rewrites.stays
  intro rest
  rw [findImage, Option.map_eq_none_iff, List.find?_eq_none]
  intro e he starts
  obtain ⟨d, hd, head⟩ := List.mem_map.1 (heads e he)
  obtain ⟨ds, image⟩ := List.head?_eq_some_iff.1 head.symm
  rw [List.isPrefixOf_iff_prefix, image, List.cons_prefix_cons] at starts
  exact plain (starts.1 ▸ hd)

theorem reads_escapeCharacter (c : Char) : Reads (escapeCharacter c) c := by
  by_cases mem : c ∈ meaningful
  · apply reads_image
    rcases meaningful_cases mem with rfl | rfl | rfl | rfl | rfl <;> decide
  · rw [escapeCharacter_plain mem]
    exact reads_plain mem

theorem reads_shownCharacter (c : Char) : Reads (shownCharacter c) c := by
  unfold shownCharacter
  split
  · subst c
    exact reads_image (by decide)
  · split
    · subst c
      exact reads_image (by decide)
    · exact reads_escapeCharacter c

theorem read_flatMap {image : Char → List Char} (reads : ∀ c, Reads (image c) c)
    (text : List Char) : Text.rewriteFrom findImage 0 (text.flatMap image) = text := by
  have whole : Text.Rewrites findImage (text.flatMap image) (text.flatMap fun c => [c]) :=
    .flatMap fun c _ => reads c
  rw [whole.eq]
  simp

/-! ## Labels -/

/-- A way to write texts that gives each character its image. -/
structure Encodes (write : String → String) (image : Char → List Char)
    (pairs : List (String × String)) : Prop where
  inTurn : ∀ text, write text = replaceInTurn pairs text
  each : ∀ text, (write text).toList = text.toList.flatMap image
  append : ∀ text more, write (text ++ more) = write text ++ write more
  read : ∀ text, readLabel (write text) = text
  injective : Function.Injective write

theorem Encodes.of_images {write : String → String} {image : Char → List Char}
    {pairs : List (String × String)} (inTurn : ∀ text, write text = replaceInTurn pairs text)
    (each : ∀ text, (write text).toList = text.toList.flatMap image)
    (reads : ∀ c, Reads (image c) c) : Encodes write image pairs := by
  have read : ∀ text, readLabel (write text) = text := by
    intro text
    rw [readLabel, each, read_flatMap reads, String.ofList_toList]
  refine ⟨inTurn, each, ?_, read, Function.LeftInverse.injective read⟩
  intro text more
  rw [← String.toList_inj, String.toList_append, each, each, each, String.toList_append,
    List.flatMap_append]

/-- Texts and labels are encoded character by character. What is written for a text is the image
of each of its characters, which is what the replacements in turn come to. It can be read back,
so it belongs to one text only. -/
theorem labels_encode : Encodes escape escapeCharacter (ofCharacters entityPairs) ∧
    Encodes label shownCharacter labelPairs := by
  constructor
  · exact .of_images (fun text => (replaceInTurn_entities text).symm) toList_escape
      reads_escapeCharacter
  · exact .of_images (fun text => (replaceInTurn_label text).symm) toList_label
      reads_shownCharacter

end SyntaxAtlas.Markup
