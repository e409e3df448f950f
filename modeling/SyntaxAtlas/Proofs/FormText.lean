-- The texts of forms, read back. A reader goes once over the characters with a stack of open
-- lists. Both ways of writing a form put blanks between items and escapes into texts, and
-- whatever is spelled like that is read as the form.

import SyntaxAtlas.Sexpr

namespace SyntaxAtlas.Form

/-! ## A reader -/

/-- Where a reader stands: between items, in a symbol, in a text, or behind a backslash in one.
The characters so far are kept last to first. -/
inductive Place
  | between
  | symbol (seen : List Char)
  | text (seen : List Char)
  | escape (seen : List Char)

/-- A reader with the items of the innermost open list and of the lists around it, last to
first. -/
structure Reader where
  place : Place := .between
  items : List Form := []
  around : List (List Form) := []

/-- A character that ends a symbol. -/
def isDelimiter (c : Char) : Bool := c.isWhitespace || c == '(' || c == ')' || c == '"'

/-- The character that an escape stands for. -/
def escaped? : Char → Option Char
  | '\\' => some '\\'
  | '"' => some '"'
  | 'b' => some (Char.ofNat 0x08)
  | 'f' => some (Char.ofNat 0x0c)
  | 'n' => some '\n'
  | 'r' => some '\r'
  | 't' => some '\t'
  | _ => none

namespace Reader

/-- Ends a symbol. -/
def settle (r : Reader) : Reader :=
  match r.place with
  | .symbol seen => ⟨.between, .symbol (String.ofList seen.reverse) :: r.items, r.around⟩
  | _ => r

/-- Reads a character that stands between items. -/
def enter (r : Reader) (c : Char) : Option Reader :=
  if c.isWhitespace then some r
  else if c = '(' then some ⟨.between, [], r.items :: r.around⟩
  else if c = ')' then
    match r.around with
    | [] => none
    | outer :: around => some ⟨.between, .list r.items.reverse :: outer, around⟩
  else if c = '"' then some { r with place := .text [] }
  else some { r with place := .symbol [c] }

def step (r : Reader) (c : Char) : Option Reader :=
  match r.place with
  | .between => r.enter c
  | .symbol seen =>
    if isDelimiter c then r.settle.enter c else some { r with place := .symbol (c :: seen) }
  | .text seen =>
    if c = '"' then some ⟨.between, .text (String.ofList seen.reverse) :: r.items, r.around⟩
    else if c = '\\' then some { r with place := .escape seen }
    else some { r with place := .text (c :: seen) }
  | .escape seen => (escaped? c).map fun d => { r with place := .text (d :: seen) }

/-- Reads characters one after the other. -/
def run (r : Reader) (cs : List Char) : Option Reader := cs.foldlM step r

/-- The form that has been read, if it is one and complete. -/
def finish (r : Reader) : Option Form :=
  match r.settle with
  | ⟨.between, [f], []⟩ => some f
  | _ => none

end Reader

/-- The form that a text spells. -/
def read (text : String) : Option Form :=
  (({} : Reader).run text.toList).bind Reader.finish

/-! ## Spelled forms -/

/-- Characters and how they can be written in a text. -/
inductive Escaped : List Char → List Char → Prop
  | nil : Escaped [] []
  | plain {c : Char} {input cs : List Char} (quote : c ≠ '"') (backslash : c ≠ '\\')
      (more : Escaped input cs) : Escaped (c :: input) (c :: cs)
  | escape {e c : Char} {input cs : List Char} (escape : escaped? e = some c)
      (more : Escaped input cs) : Escaped ('\\' :: e :: input) (c :: cs)

/-- A symbol that is read as one. -/
def isWord (name : String) : Bool :=
  !name.toList.isEmpty && name.toList.all fun c => !isDelimiter c

mutual

/-- A form and how it can be written: items have blanks between them. -/
inductive Spelled : Form → List Char → Prop
  | symbol {name : String} (word : isWord name = true) : Spelled (.symbol name) name.toList
  | text {s : String} {input : List Char} (escaped : Escaped input s.toList) :
      Spelled (.text s) ('"' :: (input ++ ['"']))
  | empty : Spelled (.list []) ['(', ')']
  | list {f : Form} {fs : List Form} {word more : List Char} (head : Spelled f word)
      (behind : SpelledBehind fs more) : Spelled (.list (f :: fs)) ('(' :: (word ++ more ++ [')']))

inductive SpelledBehind : List Form → List Char → Prop
  | nil : SpelledBehind [] []
  | cons {f : Form} {fs : List Form} {gap word more : List Char} (apart : gap ≠ [])
      (blank : ∀ c ∈ gap, c.isWhitespace = true) (head : Spelled f word)
      (behind : SpelledBehind fs more) : SpelledBehind (f :: fs) (gap ++ word ++ more)

end

/-! ## Reading what is spelled -/

theorem run_cons {r r' : Reader} {c : Char} (first : r.step c = some r') (cs : List Char) :
    r.run (c :: cs) = r'.run cs := by
  simp [Reader.run, first]

theorem run_append {r r' : Reader} {cs : List Char} (first : r.run cs = some r')
    (ds : List Char) : r.run (cs ++ ds) = r'.run ds := by
  rw [Reader.run] at first
  simp [Reader.run, first]

section Reading

variable (items : List Form) (around : List (List Form))

theorem run_escaped {input cs : List Char} (h : Escaped input cs) (seen : List Char) :
    Reader.run ⟨.text seen, items, around⟩ input =
      some ⟨.text (cs.reverse ++ seen), items, around⟩ := by
  induction h generalizing seen with
  | nil => rfl
  | plain quote backslash _ ih =>
    rw [run_cons (by simp only [Reader.step, quote, backslash, if_false]; rfl), ih]
    simp
  | escape escape _ ih =>
    rw [run_cons rfl, run_cons (by simp only [Reader.step, escape]; rfl), ih]
    simp

theorem run_symbol {cs : List Char} (word : ∀ c ∈ cs, isDelimiter c = false)
    (seen : List Char) : Reader.run ⟨.symbol seen, items, around⟩ cs =
      some ⟨.symbol (cs.reverse ++ seen), items, around⟩ := by
  induction cs generalizing seen with
  | nil => rfl
  | cons c cs ih =>
    have first := word c List.mem_cons_self
    rw [run_cons (by simp only [Reader.step, first]; rfl),
      ih fun d mem => word d (List.mem_cons_of_mem c mem)]
    simp

theorem run_blanks {gap : List Char} (blank : ∀ c ∈ gap, c.isWhitespace = true) :
    Reader.run ⟨.between, items, around⟩ gap = some ⟨.between, items, around⟩ := by
  induction gap with
  | nil => rfl
  | cons c gap ih =>
    have first := blank c List.mem_cons_self
    rw [run_cons (by simp only [Reader.step, Reader.enter, first]; rfl),
      ih fun d mem => blank d (List.mem_cons_of_mem c mem)]

/-- A symbol is ended by what delimits it, and all else has its end already. -/
theorem step_delimiter {r : Reader} {c : Char} (settled : r.settle = ⟨.between, items, around⟩)
    (delimiter : isDelimiter c = true) :
    r.step c = Reader.enter ⟨.between, items, around⟩ c := by
  rw [← settled]
  obtain ⟨place, items, around⟩ := r
  cases place with
  | between => rfl
  | symbol seen => simp [Reader.step, delimiter]
  | text | escape => cases settled

theorem enter_word {c : Char} (plain : isDelimiter c = false) :
    Reader.step ⟨.between, items, around⟩ c = some ⟨.symbol [c], items, around⟩ := by
  simp only [isDelimiter, Bool.or_eq_false_iff, beq_eq_false_iff_ne, ne_eq] at plain
  obtain ⟨⟨⟨blank, opening⟩, closing⟩, quote⟩ := plain
  simp [Reader.step, Reader.enter, blank, opening, closing, quote]

end Reading

theorem cons_of_isWord {name : String} (word : isWord name = true) :
    ∃ c cs, name.toList = c :: cs ∧ isDelimiter c = false ∧ ∀ d ∈ cs, isDelimiter d = false := by
  rw [isWord, Bool.and_eq_true] at word
  obtain ⟨nonempty, plain⟩ := word
  cases spelled : name.toList with
  | nil => simp [spelled] at nonempty
  | cons c cs =>
    simp only [spelled, List.all_cons, Bool.and_eq_true, Bool.not_eq_true', List.all_eq_true]
      at plain
    exact ⟨c, cs, rfl, plain.1, plain.2⟩

mutual

/-- A spelled form is read into the list around it. If it is a symbol, its end is still to
come. -/
theorem Spelled.reads : ∀ {f : Form} {word : List Char}, Spelled f word →
    ∀ (items : List Form) (around : List (List Form)),
      ∃ r, Reader.run ⟨.between, items, around⟩ word = some r ∧
        r.settle = ⟨.between, f :: items, around⟩
  | _, _, .symbol word, items, around => by
    obtain ⟨c, cs, spelled, first, rest⟩ := cons_of_isWord word
    refine ⟨⟨.symbol (cs.reverse ++ [c]), items, around⟩, ?_, ?_⟩
    · rw [spelled, run_cons (enter_word items around first), run_symbol items around rest]
    · simp [Reader.settle, ← spelled]
  | .text s, _, .text escaped, items, around => by
    refine ⟨⟨.between, .text s :: items, around⟩, ?_, rfl⟩
    have opened : Reader.step ⟨.between, items, around⟩ '"' = some ⟨.text [], items, around⟩ := rfl
    rw [run_cons opened, run_append (run_escaped items around escaped []), run_cons rfl]
    simp [Reader.run]
  | _, _, .empty, items, around => ⟨_, rfl, rfl⟩
  | .list (f :: fs), _, .list head behind, items, around => by
    have opened : Reader.step ⟨.between, items, around⟩ '(' =
        some ⟨.between, [], items :: around⟩ := rfl
    obtain ⟨r, first, settled⟩ := head.reads [] (items :: around)
    obtain ⟨r', rest, settled'⟩ := behind.reads settled
    have closed : r'.step ')' = some ⟨.between, .list (f :: fs) :: items, around⟩ := by
      rw [step_delimiter _ _ settled' rfl]
      simp [Reader.enter]
    refine ⟨⟨.between, .list (f :: fs) :: items, around⟩, ?_, rfl⟩
    rw [run_cons opened, List.append_assoc, run_append first, run_append rest, run_cons closed]
    rfl

/-- Forms with blanks in front of each are read behind what has been read. -/
theorem SpelledBehind.reads : ∀ {fs : List Form} {more : List Char}, SpelledBehind fs more →
    ∀ {r : Reader} {items : List Form} {around : List (List Form)},
      r.settle = ⟨.between, items, around⟩ → ∃ r', r.run more = some r' ∧
        r'.settle = ⟨.between, fs.reverse ++ items, around⟩
  | _, _, .nil, r, items, around, settled => ⟨r, rfl, settled⟩
  | f :: fs, _, .cons apart blank head behind, r, items, around, settled => by
    obtain ⟨r₁, first, settled₁⟩ := head.reads items around
    obtain ⟨r₂, rest, settled₂⟩ := behind.reads settled₁
    obtain ⟨c, gap, rfl⟩ := List.exists_cons_of_ne_nil apart
    have ended : r.step c = some ⟨.between, items, around⟩ := by
      have space := blank c List.mem_cons_self
      rw [step_delimiter items around settled (by simp [isDelimiter, space])]
      simp [Reader.enter, space]
    have blanks := run_blanks items around fun d mem => blank d (List.mem_cons_of_mem c mem)
    refine ⟨r₂, ?_, by simpa using settled₂⟩
    rw [List.append_assoc, List.cons_append, run_cons ended, run_append blanks, run_append first,
      rest]

end

/-- A spelled form is read. -/
theorem read_of_spelled {f : Form} {text : String} (spelled : Spelled f text.toList) :
    read text = some f := by
  obtain ⟨r, run, settled⟩ := spelled.reads [] []
  rw [read, run, Option.bind_some, Reader.finish, settled]

/-! ## Plain forms -/

mutual

/-- A form of texts, lists and symbols that are read as such. -/
def isPlain : Form → Bool
  | .symbol name => isWord name
  | .text _ => true
  | .list items => allPlain items
  | .datum _ => false

def allPlain : List Form → Bool
  | [] => true
  | f :: rest => f.isPlain && allPlain rest

end

theorem allPlain_iff {fs : List Form} : allPlain fs = true ↔ ∀ f ∈ fs, f.isPlain = true := by
  induction fs with
  | nil => simp [allPlain]
  | cons f rest ih => simp [allPlain, ih]

theorem escaped_formCharacter {c : Char} {input cs : List Char} (more : Escaped input cs) :
    Escaped (Text.formCharacter c ++ input) (c :: cs) := by
  unfold Text.formCharacter
  split
  · next backslash =>
    subst backslash
    exact .escape rfl more
  split
  · next quote =>
    subst quote
    exact .escape rfl more
  split
  · next newline =>
    subst newline
    exact .escape rfl more
  split
  · next carriageReturn =>
    subst carriageReturn
    exact .escape rfl more
  split
  · next tab =>
    subst tab
    exact .escape rfl more
  · next backslash quote _ _ _ => exact .plain quote backslash more

theorem escaped_compactCharacter {c : Char} {input cs : List Char} (more : Escaped input cs) :
    Escaped (Text.compactCharacter c ++ input) (c :: cs) := by
  have same : ∀ {n : Nat}, c.toNat = n → c = Char.ofNat n := by
    rintro _ rfl
    exact (Char.ofNat_toNat c).symm
  unfold Text.compactCharacter
  split
  · next backspace =>
    rw [same backspace]
    exact .escape rfl more
  split
  · next formFeed =>
    rw [same formFeed]
    exact .escape rfl more
  · exact escaped_formCharacter more

/-- A text between quotes, each character of which is escaped. -/
theorem spelled_quoted {write : Char → List Char} (escaped : ∀ {c : Char} {input cs : List Char},
    Escaped input cs → Escaped (write c ++ input) (c :: cs)) (s : String) :
    Spelled (.text s) ('"' :: (s.toList.flatMap write ++ ['"'])) := by
  refine .text ?_
  induction s.toList with
  | nil => exact .nil
  | cons c cs ih => exact escaped ih

/-! ## Items in a row -/

/-- Items with a blank or a new line in front of each. -/
inductive Gapped (pad : String) : List (Form × String) → List Char → Prop
  | nil : Gapped pad [] []
  | cons {gap : String} {x : Form × String} {rest : List (Form × String)} {more : List Char}
      (isGap : gap = " " ∨ gap = "\n" ++ pad) (behind : Gapped pad rest more) :
      Gapped pad (x :: rest) (gap.toList ++ x.2.toList ++ more)

theorem toList_intercalate_cons (between s : String) (rest : List String) :
    (between.intercalate (s :: rest)).toList =
      s.toList ++ rest.flatMap fun t => between.toList ++ t.toList := by
  induction rest generalizing s with
  | nil => simp
  | cons t rest ih =>
    rw [String.intercalate_cons_cons, String.toList_append, String.toList_append, ih]
    simp

theorem gapped_flat (pad : String) (shown : List (Form × String)) :
    Gapped pad shown ((shown.map (·.2)).flatMap fun s => " ".toList ++ s.toList) := by
  induction shown with
  | nil => exact .nil
  | cons x rest ih => exact .cons (.inl rfl) ih

theorem gapped_itemLines (pad : String) (shown : List (Form × String)) :
    Gapped pad shown ((itemLines pad shown).flatMap fun s => "\n".toList ++ s.toList) := by
  induction shown using itemLines.induct with
  | case1 => exact .nil
  | case2 f s =>
    have line := Gapped.cons (x := (f, s)) (.inr rfl) (@Gapped.nil pad)
    simpa [itemLines] using line
  | case3 f s g t rest pair ih =>
    have line := Gapped.cons (x := (f, s)) (.inr rfl) (.cons (x := (g, t)) (.inl rfl) ih)
    simpa [itemLines, pair] using line
  | case4 f s g t rest single ih =>
    have line := Gapped.cons (x := (f, s)) (.inr rfl) ih
    simpa [itemLines, single] using line

/-- However a list is laid out, its items stand in a row. -/
theorem gapped_layOut (style : Style) (depth : Int) (x : Form × String)
    (rest : List (Form × String)) :
    ∃ more, Gapped (style.indent (depth + 1)) rest more ∧
      (layOut style depth (x :: rest)).toList = '(' :: (x.2.toList ++ more ++ [')']) := by
  by_cases fits : style.fits depth
      ("(" ++ String.intercalate " " ((x :: rest).map (·.2)) ++ ")") = true
  · refine ⟨_, gapped_flat _ rest, ?_⟩
    rw [layOut, if_pos fits, String.toList_append, String.toList_append, List.map_cons,
      toList_intercalate_cons]
    rfl
  · refine ⟨_, gapped_itemLines _ rest, ?_⟩
    rw [layOut, if_neg fits, String.toList_append, String.toList_append, toList_intercalate_cons]
    rfl

/-- Items that are spelled and stand in a row spell a list. -/
theorem spelled_row {shown : Form → String} {pad : String}
    (blank : ∀ c ∈ pad.toList, c.isWhitespace = true) {f : Form} {fs : List Form}
    {more : List Char} (gapped : Gapped pad (fs.map fun g => (g, shown g)) more)
    (each : ∀ g ∈ f :: fs, Spelled g (shown g).toList) :
    Spelled (.list (f :: fs)) ('(' :: ((shown f).toList ++ more ++ [')'])) := by
  have behind : SpelledBehind fs more := by
    replace each := fun g mem => each g (List.mem_cons_of_mem f mem)
    induction fs generalizing more with
    | nil =>
      cases gapped
      exact .nil
    | cons g fs ih =>
      cases gapped with
      | cons isGap gapped =>
        refine .cons ?_ ?_ (each g List.mem_cons_self)
          (ih gapped fun g' mem => each g' (List.mem_cons_of_mem g mem))
        · rcases isGap with rfl | rfl <;> simp
        · rcases isGap with rfl | rfl
          · simp
          · intro c mem
            rcases List.mem_cons.1 (by simpa using mem) with rfl | mem
            · decide
            · exact blank c mem
  exact .list (each f List.mem_cons_self) behind

/-! ## Both ways of writing a form -/

theorem compactAll_eq (fs : List Form) : compactAll fs = fs.map compact := by
  induction fs with
  | nil => rfl
  | cons f rest ih => rw [compactAll, ih, List.map_cons]

mutual

theorem spelled_compact : ∀ {f : Form}, f.isPlain = true → Spelled f f.compact.toList
  | .symbol _, plain => .symbol plain
  | .text s, _ => by
    have spelled := spelled_quoted escaped_compactCharacter s
    simpa [compact, Text.compactQuoted] using spelled
  | .list [], _ => .empty
  | .list (f :: fs), plain => by
    have row := spelled_row (by simp) (gapped_flat "" (fs.map fun g => (g, g.compact)))
      (spelled_compactAll plain)
    rw [compact, compactAll, compactAll_eq, String.toList_append, String.toList_append,
      toList_intercalate_cons]
    simpa [List.map_map, Function.comp_def] using row

theorem spelled_compactAll : ∀ {fs : List Form}, allPlain fs = true →
    ∀ g ∈ fs, Spelled g g.compact.toList
  | [], _, _, mem => absurd mem List.not_mem_nil
  | f :: fs, plain, g, mem => by
    rw [allPlain, Bool.and_eq_true] at plain
    rcases List.mem_cons.1 mem with same | mem
    · rw [same]
      exact spelled_compact plain.1
    · exact spelled_compactAll plain.2 g mem

end

theorem indentedAll_eq (style : Style) (depth : Int) (fs : List Form) :
    indentedAll style depth fs = fs.map fun f => (f, f.indented style depth) := by
  induction fs with
  | nil => rfl
  | cons f rest ih => rw [indentedAll, ih, List.map_cons]

/-- One level is indented by spaces. -/
def Style.Spaced (style : Style) : Prop := ∀ c ∈ style.step.toList, c = ' '

theorem Style.indent_spaced {style : Style} (spaced : style.Spaced) (depth : Int) :
    ∀ c ∈ (style.indent depth).toList, c = ' ' := by
  intro c mem
  rw [Style.indent, String.toList_join, List.mem_flatMap] at mem
  obtain ⟨s, isStep, mem⟩ := mem
  rw [List.eq_of_mem_replicate isStep] at mem
  exact spaced c mem

section Indented

variable {style : Style}

mutual

theorem spelled_indented (spaced : style.Spaced) : ∀ {f : Form}, f.isPlain = true →
    ∀ depth, Spelled f (f.indented style depth).toList
  | .symbol _, plain, _ => .symbol plain
  | .text s, _, _ => by
    have spelled := spelled_quoted escaped_formCharacter s
    simpa [indented, Text.formQuoted] using spelled
  | .list [], _, _ => by
    rw [indented, indentedAll, layOut]
    exact .empty
  | .list (f :: fs), plain, depth => by
    obtain ⟨more, gapped, text⟩ := gapped_layOut style depth (f, f.indented style (depth + 1))
      (indentedAll style (depth + 1) fs)
    have blank : ∀ c ∈ (style.indent (depth + 1)).toList, c.isWhitespace = true := by
      intro c mem
      rw [Style.indent_spaced spaced _ c mem]
      rfl
    rw [indentedAll_eq] at gapped
    have row := spelled_row blank gapped (spelled_indentedAll spaced plain (depth + 1))
    rw [indented, indentedAll, text]
    exact row

theorem spelled_indentedAll (spaced : style.Spaced) : ∀ {fs : List Form}, allPlain fs = true →
    ∀ depth, ∀ g ∈ fs, Spelled g (g.indented style depth).toList
  | [], _, _, _, mem => absurd mem List.not_mem_nil
  | f :: fs, plain, depth, g, mem => by
    rw [allPlain, Bool.and_eq_true] at plain
    rcases List.mem_cons.1 mem with same | mem
    · rw [same]
      exact spelled_indented spaced plain.1 depth
    · exact spelled_indentedAll spaced plain.2 depth g mem

end

end Indented

/-- A plain form is read back from either text. -/
theorem read_compact {f : Form} (plain : f.isPlain = true) : read f.compact = some f :=
  read_of_spelled (spelled_compact plain)

theorem read_indented {f : Form} (plain : f.isPlain = true) {style : Style}
    (spaced : style.Spaced) (depth : Int) : read (f.indented style depth) = some f :=
  read_of_spelled (spelled_indented spaced plain depth)

end SyntaxAtlas.Form
