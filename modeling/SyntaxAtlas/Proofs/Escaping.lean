-- Texts on a page are harmless. Whatever the source writes, each text is put together from plain
-- characters, entities and spans that are fixed, so it never opens a tag, closes a span or ends an
-- attribute. The marks for blanks are replaced twice over, and what they are found in is known.

import SyntaxAtlas.Proofs.Listings
import SyntaxAtlas.Proofs.Rewriting

namespace SyntaxAtlas

namespace Markup

/-! ## What texts are made of -/

/-- A text that is put together from units. -/
def MadeOf (unit : List Char → Prop) (text : List Char) : Prop :=
  ∃ units : List (List Char), (∀ u ∈ units, unit u) ∧ text = units.flatten

/-- The characters that have a meaning in markup. -/
def meaningful : List Char := ['&', '<', '>', '"', Text.singleQuote]

/-- What stands for a character with a meaning. -/
def entities : List (List Char) :=
  ["&amp;".toList, "&lt;".toList, "&gt;".toList, "&quot;".toList, "&apos;".toList]

/-- A character without a meaning, or an entity. -/
def IsAtom (u : List Char) : Prop := (∃ c, c ∉ meaningful ∧ u = [c]) ∨ u ∈ entities

/-- What a text that is shown consists of: atoms, and the spans that show blanks. -/
def IsTextUnit (u : List Char) : Prop :=
  IsAtom u ∨ u = spaceSpan.toList ∨ u = lineSpan.toList

/-- The span of a comment or of text that was skipped. Its attributes are made of atoms, and its
body is the text of the piece as it is shown. -/
def IsPieceSpan (p : TriviaPiece) (u : List Char) : Prop :=
  p.kind.isCounted = false ∧ ∃ name title content, MadeOf IsAtom name ∧ MadeOf IsAtom title ∧
    MadeOf IsAtom content ∧
      u = "<span class='".toList ++ name ++ "' data-title='".toList ++ title ++
        "' data-content='".toList ++ content ++ "' data-type='Trivia'>".toList ++
        (label p.text).toList ++ "</span>".toList

/-- What trivia consists of. -/
def IsTriviaUnit (pieces : List TriviaPiece) (u : List Char) : Prop :=
  IsTextUnit u ∨ ∃ p ∈ pieces, IsPieceSpan p u

section

variable {P Q : List Char → Prop} {text more : List Char}

theorem MadeOf.nil : MadeOf P [] := ⟨[], by simp, rfl⟩

theorem MadeOf.unit (h : P text) : MadeOf P text := ⟨[text], by simpa using h, by simp⟩

theorem MadeOf.append (h : MadeOf P text) (h' : MadeOf P more) : MadeOf P (text ++ more) := by
  obtain ⟨units, all, rfl⟩ := h
  obtain ⟨units', all', rfl⟩ := h'
  refine ⟨units ++ units', fun u hu => ?_, by rw [List.flatten_append]⟩
  exact (List.mem_append.1 hu).elim (all u) (all' u)

theorem MadeOf.imp (imp : ∀ u, P u → Q u) (h : MadeOf P text) : MadeOf Q text := by
  obtain ⟨units, all, rfl⟩ := h
  exact ⟨units, fun u hu => imp u (all u hu), rfl⟩

theorem MadeOf.flatMap {α : Type} {xs : List α} {f : α → List Char}
    (each : ∀ x ∈ xs, MadeOf P (f x)) : MadeOf P (xs.flatMap f) := by
  induction xs with
  | nil => exact .nil
  | cons x xs ih =>
    rw [List.flatMap_cons]
    exact (each x List.mem_cons_self).append (ih fun y hy => each y (List.mem_cons_of_mem x hy))

theorem plain_of_all {text : List Char} (free : text.all (!meaningful.contains ·) = true) :
    ∀ c ∈ text, c ∉ meaningful := by
  simpa using free

/-- Characters without a meaning make a text of atoms. -/
theorem madeOf_plain (plain : ∀ c ∈ text, c ∉ meaningful) : MadeOf IsAtom text := by
  have each : MadeOf IsAtom (text.flatMap fun c => [c]) :=
    .flatMap fun c hc => .unit (.inl ⟨c, plain c hc, rfl⟩)
  simpa using each

end

theorem isTextUnit_of_isAtom (u : List Char) (h : IsAtom u) : IsTextUnit u := .inl h

/-! ## Escaped characters -/

theorem meaningful_cases {c : Char} (mem : c ∈ meaningful) :
    c = '&' ∨ c = '<' ∨ c = '>' ∨ c = '"' ∨ c = Text.singleQuote := by
  simpa [meaningful] using mem

theorem escapeCharacter_plain {c : Char} (plain : c ∉ meaningful) : escapeCharacter c = [c] := by
  simp only [meaningful, List.mem_cons, List.not_mem_nil, or_false, not_or] at plain
  obtain ⟨amp, lt, gt, quote, apostrophe⟩ := plain
  simp [escapeCharacter, amp, lt, gt, quote, apostrophe]

/-- An escaped character is an entity, or it had no meaning. -/
theorem escapeCharacter_cases (c : Char) : escapeCharacter c ∈ entities ∨
    c ∉ meaningful ∧ escapeCharacter c = [c] := by
  by_cases mem : c ∈ meaningful
  · left
    rcases meaningful_cases mem with rfl | rfl | rfl | rfl | rfl <;> decide
  · exact .inr ⟨mem, escapeCharacter_plain mem⟩

theorem isAtom_escapeCharacter (c : Char) : IsAtom (escapeCharacter c) :=
  (escapeCharacter_cases c).elim .inr fun plain => .inl ⟨c, plain⟩

theorem toList_escape (text : String) : (escape text).toList = text.toList.flatMap escapeCharacter :=
  String.toList_ofList

theorem madeOf_escape (text : String) : MadeOf IsAtom (escape text).toList := by
  rw [toList_escape]
  exact .flatMap fun c _ => .unit (isAtom_escapeCharacter c)

/-- An entity holds no blanks. -/
theorem flatMap_markBlank_entity (space line : String) :
    ∀ u ∈ entities, u.flatMap (markBlank space line) = u := by
  intro u hu
  simp only [entities, List.mem_cons, List.not_mem_nil, or_false] at hu
  rcases hu with rfl | rfl | rfl | rfl | rfl <;> simp [markBlank]

/-! ## Replacing -/

/-- Replacing turns one text into another, whatever stands behind it. -/
def Replaces (old new u v : List Char) : Prop :=
  ∀ rest, replaceFrom old new 0 (u ++ rest) = v ++ replaceFrom old new 0 rest

/-- Finds a text, and writes another one in its place. -/
def findText (old new cs : List Char) : Option (Nat × List Char) :=
  if old.isPrefixOf cs then some (old.length, new) else none

section

variable {old new u v u' v' : List Char}

/-- Replacing is a rewriting from the left. -/
theorem replaceFrom_eq (old new : List Char) (skip : Nat) (cs : List Char) :
    replaceFrom old new skip cs = Text.rewriteFrom (findText old new) skip cs := by
  fun_induction replaceFrom old new skip cs with
  | case1 => simp [Text.rewriteFrom]
  | case2 skip c cs ih => rw [Text.rewriteFrom, ih]
  | case3 c cs found ih =>
    rw [Text.rewriteFrom, findText, if_pos found, ih]
  | case4 c cs absent ih =>
    rw [Text.rewriteFrom, findText, if_neg absent, ih]

theorem replaces_iff : Replaces old new u v ↔ Text.Rewrites (findText old new) u v := by
  simp only [Replaces, Text.Rewrites, replaceFrom_eq]

theorem Replaces.nil : Replaces old new [] [] := fun _ => rfl

theorem Replaces.append (h : Replaces old new u v) (h' : Replaces old new u' v') :
    Replaces old new (u ++ u') (v ++ v') := by
  rw [replaces_iff] at *
  exact Text.Rewrites.append h h'

theorem Replaces.eq (h : Replaces old new u v) : replaceFrom old new 0 u = v := by
  rw [replaceFrom_eq]
  exact (replaces_iff.1 h).eq

/-- What is looked for is replaced. -/
theorem Replaces.found (nonempty : old ≠ []) : Replaces old new old new := by
  rw [replaces_iff]
  apply Text.Rewrites.found nonempty
  intro rest
  rw [findText, if_pos (by simp)]

/-- Nowhere in a text can what is looked for begin, whatever stands behind it. -/
def Inert (old u : List Char) : Prop := ∀ v ∈ u.tails, v ≠ [] → ¬ old <+: v ∧ ¬ v <+: old

instance : Decidable (Inert old u) := inferInstanceAs (Decidable (∀ v ∈ u.tails, _))

/-- Such a text stays as it is. -/
theorem Replaces.inert (inert : Inert old u) : Replaces old new u u := by
  intro rest
  induction u with
  | nil => rfl
  | cons c u ih =>
    have here := inert (c :: u) (by simp) (List.cons_ne_nil c u)
    have absent : ¬ old.isPrefixOf (c :: (u ++ rest)) = true := by
      rw [List.isPrefixOf_iff_prefix]
      intro found
      exact (List.prefix_or_prefix_of_prefix found (List.prefix_append (c :: u) rest)).elim
        here.1 here.2
    rw [List.cons_append, replaceFrom, if_neg absent, ih]
    · rfl
    · exact fun v hv => inert v (List.mem_cons_of_mem _ hv)

end

/-- Both marks of a page are replaced one after the other. -/
def Shows (u v : List Char) : Prop := ∃ w, Replaces blankMark.toList spaceSpan.toList u w ∧
  Replaces breakMark.toList lineSpan.toList w v

section

variable {u v u' v' : List Char}

theorem Shows.nil : Shows [] [] := ⟨[], .nil, .nil⟩

theorem Shows.append (h : Shows u v) (h' : Shows u' v') : Shows (u ++ u') (v ++ v') := by
  obtain ⟨w, first, second⟩ := h
  obtain ⟨w', first', second'⟩ := h'
  exact ⟨w ++ w', first.append first', second.append second'⟩

theorem Shows.flatMap {α : Type} {xs : List α} {f g : α → List Char}
    (each : ∀ x ∈ xs, Shows (f x) (g x)) : Shows (xs.flatMap f) (xs.flatMap g) :=
  Text.flatMap_of_append .nil .append each

theorem Shows.inert (blank : Inert blankMark.toList u) (line : Inert breakMark.toList u) :
    Shows u u := ⟨u, .inert blank, .inert line⟩

theorem Shows.toList {text : String} (h : Shows text.toList v) : (showMarks text).toList = v := by
  obtain ⟨w, first, second⟩ := h
  rw [showMarks, replace, replace, String.toList_ofList, String.toList_ofList, first.eq, second.eq]

end

theorem shows_blankMark : Shows blankMark.toList spaceSpan.toList :=
  ⟨_, .found (by decide), .inert (by decide)⟩

theorem shows_breakMark : Shows breakMark.toList lineSpan.toList :=
  ⟨_, .inert (by decide), .found (by decide)⟩

theorem shows_entity : ∀ u ∈ entities, Shows u u := by
  have inert : ∀ u ∈ entities, Inert blankMark.toList u ∧ Inert breakMark.toList u := by decide
  exact fun u hu => .inert (inert u hu).1 (inert u hu).2

theorem inert_character {old : List Char} {c : Char} (first : old ≠ [] ∧ old.head? ≠ some c) :
    Inert old [c] := by
  intro v hv nonempty
  obtain rfl : v = [c] := by simpa [nonempty] using hv
  obtain ⟨⟨d, ds, rfl⟩, other⟩ := first.imp_left List.exists_cons_of_ne_nil
  have apart : d ≠ c := by simpa using other
  exact ⟨fun h => apart (List.cons_prefix_cons.1 h).1,
    fun h => apart (List.cons_prefix_cons.1 h).1.symm⟩

theorem shows_plain {c : Char} (plain : c ∉ meaningful) : Shows [c] [c] := by
  refine .inert (inert_character ⟨by decide, ?_⟩) (inert_character ⟨by decide, ?_⟩) <;>
  · rintro same
    cases same
    exact plain (by decide)

theorem shows_atoms {text : List Char} (h : MadeOf IsAtom text) : Shows text text := by
  obtain ⟨units, all, rfl⟩ := h
  have each : Shows (units.flatMap id) (units.flatMap id) := by
    refine .flatMap fun u hu => ?_
    rcases all u hu with ⟨c, plain, rfl⟩ | entity
    · exact shows_plain plain
    · exact shows_entity u entity
  simpa using each

/-! ## Labels -/

/-- What a character of a text is shown as. -/
def shownCharacter (c : Char) : List Char :=
  if c = ' ' then spaceSpan.toList else if c = '\n' then lineSpan.toList else escapeCharacter c

theorem isTextUnit_shownCharacter (c : Char) : IsTextUnit (shownCharacter c) := by
  unfold shownCharacter
  split
  · exact .inr (.inl rfl)
  · split
    · exact .inr (.inr rfl)
    · exact .inl (isAtom_escapeCharacter c)

theorem shows_character (c : Char) :
    Shows ((escapeCharacter c).flatMap (markBlank blankMark breakMark)) (shownCharacter c) := by
  by_cases space : c = ' '
  · subst space
    exact shows_blankMark
  by_cases line : c = '\n'
  · subst line
    exact shows_breakMark
  rw [shownCharacter, if_neg space, if_neg line]
  rcases escapeCharacter_cases c with entity | ⟨plain, same⟩
  · rw [flatMap_markBlank_entity _ _ _ entity]
    exact shows_entity _ entity
  · rw [same]
    simpa [markBlank, space, line] using shows_plain plain

theorem toList_blanksToMarks (text : String) : (blanksToMarks (escape text)).toList =
    text.toList.flatMap fun c => (escapeCharacter c).flatMap (markBlank blankMark breakMark) := by
  rw [blanksToMarks, String.toList_ofList, toList_escape, List.flatMap_assoc]

theorem shows_body (text : String) :
    Shows (blanksToMarks (escape text)).toList (text.toList.flatMap shownCharacter) := by
  rw [toList_blanksToMarks]
  exact .flatMap fun c _ => shows_character c

/-- A label shows its text character by character. -/
theorem toList_label (text : String) : (label text).toList = text.toList.flatMap shownCharacter :=
  (shows_body text).toList

theorem madeOf_label (text : String) : MadeOf IsTextUnit (label text).toList := by
  rw [toList_label]
  exact .flatMap fun c _ => .unit (isTextUnit_shownCharacter c)

/-! ## Trivia -/

/-- In a title blanks are shown by symbols, which have no meaning. -/
theorem madeOf_title (text : String) : MadeOf IsAtom (blanksToSymbols (escape text)).toList := by
  rw [blanksToSymbols, String.toList_ofList, toList_escape, List.flatMap_assoc]
  refine .flatMap fun c _ => ?_
  rcases escapeCharacter_cases c with entity | ⟨plain, same⟩
  · rw [flatMap_markBlank_entity _ _ _ entity]
    exact .unit (.inr entity)
  · rw [same, List.flatMap_singleton]
    unfold markBlank
    split
    · exact madeOf_plain (plain_of_all (by decide))
    · split
      · exact madeOf_plain (plain_of_all (by decide))
      · exact madeOf_plain (by simpa using plain)

/-- The name of a kind of trivia has no blanks. -/
theorem blanksToMarks_name (k : TriviaKind) : blanksToMarks (escape k.name) = escape k.name := by
  cases k <;> decide

/-- The fixed parts of a span. -/
theorem shows_frame : ∀ u ∈ ["<span class='".toList, "' data-title='".toList,
    "' data-content='".toList, "' data-type='Trivia'>".toList, "</span>".toList], Shows u u := by
  have inert : ∀ u ∈ ["<span class='".toList, "' data-title='".toList, "' data-content='".toList,
      "' data-type='Trivia'>".toList, "</span>".toList],
      Inert blankMark.toList u ∧ Inert breakMark.toList u := by decide
  exact fun u hu => .inert (inert u hu).1 (inert u hu).2

theorem toList_pieceSpan (p : TriviaPiece) : (pieceSpan p).toList =
    "<span class='".toList ++ (escape p.kind.name).toList ++ "' data-title='".toList ++
      (blanksToSymbols (escape p.description)).toList ++ "' data-content='".toList ++
      (blanksToMarks (escape p.kind.name)).toList ++ "' data-type='Trivia'>".toList ++
      (blanksToMarks (escape p.text)).toList ++ "</span>".toList := by
  unfold pieceSpan
  repeat rw [String.toList_append]

/-- The span of a piece stays a span of that piece when marks are shown. -/
theorem isPieceSpan {p : TriviaPiece} (spanned : p.kind.isCounted = false) :
    IsPieceSpan p (showMarks (pieceSpan p)).toList := by
  have name := madeOf_escape p.kind.name
  have title := madeOf_title p.description
  have content : MadeOf IsAtom (blanksToMarks (escape p.kind.name)).toList := by
    rw [blanksToMarks_name]
    exact name
  have frame := shows_frame
  simp only [List.forall_mem_cons] at frame
  obtain ⟨opening, beforeTitle, beforeContent, beforeBody, closing, _⟩ := frame
  have shown := (((((((opening.append (shows_atoms name)).append beforeTitle).append
    (shows_atoms title)).append beforeContent).append (shows_atoms content)).append
      beforeBody).append (shows_body p.text)).append closing
  rw [← toList_label] at shown
  rw [← toList_pieceSpan] at shown
  exact ⟨spanned, _, _, _, name, title, content, shown.toList⟩

theorem shows_times {text : String} {v : List Char} (h : Shows text.toList v) (n : Nat) :
    Shows (times n text).toList (List.replicate n v).flatten := by
  rw [times, String.toList_join]
  induction n with
  | zero => exact .nil
  | succ n ih =>
    rw [List.replicate_succ, List.flatMap_cons, List.replicate_succ, List.flatten_cons]
    exact h.append ih

theorem madeOf_times {P : List Char → Prop} {text : String} {v : List Char}
    (h : Shows text.toList v) (unit : P v) (n : Nat) : MadeOf P (showMarks (times n text)).toList := by
  rw [(shows_times h n).toList]
  exact ⟨List.replicate n v, fun u hu => (List.eq_of_mem_replicate hu) ▸ unit, rfl⟩

/-- A piece that is shown is the span of that piece, or it is made of text units. -/
theorem madeOf_piece (p : TriviaPiece) : MadeOf (fun u => IsTextUnit u ∨ IsPieceSpan p u)
    (showMarks (piece p)).toList := by
  have space : IsTextUnit spaceSpan.toList := .inr (.inl rfl)
  have line : IsTextUnit lineSpan.toList := .inr (.inr rfl)
  have stroke : ∀ s ∈ ["\\", "#"], Shows s.toList s.toList ∧ IsAtom s.toList := by
    have spelled : ∀ s ∈ ["\\", "#"], ∃ c ∈ ['\\', '#'], s.toList = [c] := by simp
    have plain : ∀ c ∈ ['\\', '#'], c ∉ meaningful := plain_of_all (by decide)
    intro s hs
    obtain ⟨c, hc, same⟩ := spelled s hs
    rw [same]
    exact ⟨shows_plain (plain c hc), .inl ⟨c, plain c hc, rfl⟩⟩
  have backslash := stroke "\\" (by simp)
  have pound := stroke "#" (by simp)
  obtain ⟨kind, text⟩ := p
  cases kind with
  | spaces | tabs => exact madeOf_times shows_blankMark (.inl space) _
  | verticalTabs | formfeeds =>
    have empty : Shows "".toList [] := String.toList_empty ▸ .nil
    exact empty.toList.symm ▸ .nil
  | newlines | carriageReturns | carriageReturnLineFeeds =>
    exact madeOf_times shows_breakMark (.inl line) _
  | lineComment | blockComment | docLineComment | docBlockComment | unexpectedText =>
    exact .unit (.inr (isPieceSpan rfl))
  | backslashes => exact madeOf_times backslash.1 (.inl (.inl backslash.2)) _
  | pounds => exact madeOf_times pound.1 (.inl (.inl pound.2)) _

theorem madeOf_trivia (pieces : List TriviaPiece) :
    MadeOf (IsTriviaUnit pieces) (trivia pieces).toList := by
  rw [trivia, String.toList_join, List.flatMap_map]
  refine .flatMap fun p hp => (madeOf_piece p).imp fun u hu => ?_
  exact hu.imp_right fun span => ⟨p, hp, span⟩

end Markup

/-! ## Records -/

open Markup

/-- The texts of a record are harmless: its label and the texts that it lists are made of text
units, and the trivia of a token also of the spans of its own pieces. -/
structure Harmless (u : Tree) (r : Record) : Prop where
  label : MadeOf IsTextUnit r.label.toList
  listed : ∀ p ∈ r.properties, ∀ v ∈ p.value, MadeOf IsTextUnit v.text.toList
  trivia : ∀ info ∈ r.token, ∃ t, u = .token t ∧
    MadeOf (IsTriviaUnit t.leading) info.leading.toList ∧
      MadeOf (IsTriviaUnit t.trailing) info.trailing.toList

/-- The name that a known kind has in listings is harmless, since escaping keeps the kind's name. -/
theorem madeOf_displayName {kind : Kind} {e : Entry} (entry : kind.catalogued = some e) :
    MadeOf IsAtom e.displayName.toList := by
  have known := Kind.escape_className kind (Kind.mem_registered (by simp [entry]))
  have suffix : ∀ c ∈ nodeSuffix.toList, c ∉ meaningful := plain_of_all (by decide)
  obtain ⟨_, _, rfl⟩ := Option.map_eq_some_iff.1 entry
  rw [Entry.displayName, String.toList_append, ← known]
  exact (madeOf_escape _).append (madeOf_plain suffix)

theorem madeOf_toString (n : Nat) : MadeOf IsAtom (toString n).toList := by
  refine madeOf_plain fun c hc mem => ?_
  rw [Nat.toString_eq_repr, Nat.toList_repr] at hc
  have digit := Nat.isDigit_of_mem_toDigits (by decide) (by decide) hc
  have apart : ∀ c ∈ meaningful, c.isDigit = false := by simp [meaningful, Text.singleQuote]
  rw [apart c mem] at digit
  cases digit

namespace Tree

variable {map : LineMap} {showMissing : Bool}

theorem madeOf_slotProperty {name : String} {child : Option Tree} {p : StructureProperty}
    (line : slotProperty name child = .ok p) : ∀ v ∈ p.value, MadeOf IsAtom v.text.toList := by
  match child with
  | none =>
    cases line
    rintro v ⟨⟩
    exact madeOf_plain (plain_of_all (by decide))
  | some (.token u) =>
    cases line
    rintro v ⟨⟩
    exact madeOf_escape u.text
  | some (.foreign value) =>
    cases line
    rintro v ⟨⟩
    exact madeOf_escape value.display
  | some (.node kind slots items state) =>
    obtain ⟨e, entry, same⟩ := exists_of_bind_ok line
    cases same
    rintro v ⟨⟩
    rcases known : kind.catalogued with _ | e'
    · simp [Tree.entry, known] at entry
    · simp only [Tree.entry, known, Except.ok.injEq] at entry
      exact madeOf_displayName (entry ▸ known)

theorem madeOf_structureBy {e : Entry} {t : Tree} {s : NodeStructure}
    (structured : t.structureBy e = .ok s) :
    ∀ p ∈ s.properties, ∀ v ∈ p.value, MadeOf IsAtom v.text.toList := by
  unfold structureBy at structured
  split at structured
  · split at structured
    · cases structured
      simp
    · obtain ⟨ps, listed, same⟩ := exists_of_bind_ok structured
      cases same
      intro p hp
      obtain ⟨_, _, line⟩ := exists_of_forall₂ (forall₂_of_mapM listed) p hp
      exact madeOf_slotProperty line
  · obtain ⟨cs, _, same⟩ := exists_of_bind_ok structured
    cases same
    intro p hp v hv
    simp only [List.mem_cons, List.not_mem_nil, or_false] at hp
    rcases hp with rfl | rfl <;> cases hv
    · exact madeOf_escape _
    · exact madeOf_toString _
  · cases structured
    simp

/-- A record that describes a tree is harmless. -/
theorem harmless_of_describes {u : Tree} {r : Record} (describes : Describes map showMissing u r) :
    Harmless u r := by
  cases u with
  | foreign value => exact absurd rfl (describes.syntactic value)
  | token t =>
    rw [describes.token t rfl]
    refine ⟨madeOf_label _, by simp [Token.record], ?_⟩
    rintro info ⟨⟩
    exact ⟨t, rfl, madeOf_trivia t.leading, madeOf_trivia t.trailing⟩
  | node kind slots items state =>
    obtain ⟨made, _, own⟩ := describes.node _ _ _ _ rfl
    obtain ⟨e, _, made⟩ := exists_of_bind_ok made
    obtain ⟨s, structured, made⟩ := exists_of_bind_ok made
    have same := Except.ok.inj made
    refine ⟨?_, fun p hp v hv => ?_, by simp [own]⟩
    · rw [← same]
      exact (madeOf_escape _).imp isTextUnit_of_isAtom
    · rw [← same] at hp
      exact (madeOf_structureBy structured p hp v hv).imp isTextUnit_of_isAtom

end Tree

/-- Markup cannot be injected. Whatever the options are, the texts of all records of a source that
renders are harmless. -/
theorem render_harmless {host : Host} {budget : Nat} {options : RenderOptions}
    {place : DumpPlace} {file source : String} {rs : List Record}
    (rendered : (render host budget options place file source).value = .ok rs) :
    ∃ p, (treeTraced host budget options place file source).value = .ok p ∧
      List.Forall₂ Harmless p.root.preorder rs := by
  obtain ⟨q, parsed, produced, made⟩ := parse_of_render options place rendered
  obtain ⟨_, _, fits, _⟩ := shown_settled parsed options.fold
  obtain ⟨ss, made', described⟩ :=
    Tree.records_describe fits (.ofSource source file) options.showMissing
  obtain rfl : ss = rs := by rwa [made, Except.ok.injEq, eq_comm] at made'
  exact ⟨_, produced, described.imp fun u r => Tree.harmless_of_describes⟩

/-- The texts are harmless where a text was skipped and a token is missing. -/
theorem render_harmless_of_repaired :
    let source := "x = \"é\" $+ (b ] * c"
    let options : RenderOptions := { showMissing := true }
    ∃ rs, (render .roomy 3 options .nowhere standardFile source).value = .ok rs ∧
      ∃ p, (treeTraced .roomy 3 options .nowhere standardFile source).value = .ok p ∧
        List.Forall₂ Harmless p.root.preorder rs := by
  intro source options
  obtain ⟨q, parsed, _⟩ := exists_ok_of_toOption sample_parses.2.2.2.1
  obtain ⟨rs, _, given⟩ := render_of_parse options .nowhere parsed
  have rendered := given .roomy
  rw [Host.outcome_roomy] at rendered
  exact ⟨rs, rendered, render_harmless rendered⟩

end SyntaxAtlas
