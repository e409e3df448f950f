-- Records as JSON. The text says one value whatever the indentation, and the records can be read
-- back from the value by the names of its members, in whatever order a reader keeps them.

import Mathlib.Data.List.Forall2
import SyntaxAtlas.Json
import SyntaxAtlas.Proofs.JsonText

namespace SyntaxAtlas

open JsonText (Blanks Characters Denotes Label Says isBlank shortEscape? unit?)

/-! ## What a value says -/

namespace JsonValue

mutual

/-- What the text of a value should say. -/
def meaning : JsonValue → JsonText.Value
  | .number n => .number n
  | .text s => .text s
  | .array items => .array (itemMeanings items)
  | .object fields => .object (fieldMeanings fields)

def itemMeanings : List JsonValue → List JsonText.Value
  | [] => []
  | v :: rest => v.meaning :: itemMeanings rest

def fieldMeanings : List (String × JsonValue) → List (String × JsonText.Value)
  | [] => []
  | (name, v) :: rest => (name, v.meaning) :: fieldMeanings rest

end

theorem itemMeanings_eq (items : List JsonValue) : itemMeanings items = items.map meaning := by
  induction items with
  | nil => rfl
  | cons v rest ih => rw [itemMeanings, ih, List.map_cons]

theorem fieldMeanings_eq (fields : List (String × JsonValue)) :
    fieldMeanings fields = fields.map fun f => (f.1, f.2.meaning) := by
  induction fields with
  | nil => rfl
  | cons f rest ih => rw [fieldMeanings, ih, List.map_cons]

end JsonValue

/-! ## Strings and numbers in a text -/

namespace JsonText

theorem unit?_hexDigits : ∀ n < 0x20, ∃ a b c d, Text.hexDigits 4 n = [a, b, c, d] ∧
    unit? a b c d = some n := by
  have digits : ∀ n < 0x20,
      Text.hexDigits 4 n = ['0', '0', (Text.hexDigits 4 n).getD 2 '0',
        (Text.hexDigits 4 n).getD 3 '0'] ∧
      unit? '0' '0' ((Text.hexDigits 4 n).getD 2 '0') ((Text.hexDigits 4 n).getD 3 '0') = some n := by
    decide
  exact fun n bound => ⟨_, _, _, _, digits n bound⟩

/-- Each character of a string is read back from how it is written. -/
theorem characters_jsonCharacter {c : Char} {input cs rest : List Char}
    (more : Characters input cs rest) :
    Characters (Text.jsonCharacter c ++ input) (c :: cs) rest := by
  have same : ∀ {n : Nat}, c.toNat = n → c = Char.ofNat n := by
    rintro _ rfl
    exact (Char.ofNat_toNat c).symm
  unfold Text.jsonCharacter
  split
  · next quote =>
    subst quote
    exact .short rfl more
  split
  · next backslash =>
    subst backslash
    exact .short rfl more
  split
  · next newline =>
    subst newline
    exact .short rfl more
  split
  · next carriageReturn =>
    subst carriageReturn
    exact .short rfl more
  split
  · next tab =>
    subst tab
    exact .short rfl more
  split
  · next backspace =>
    rw [same backspace]
    exact .short rfl more
  split
  · next formFeed =>
    rw [same formFeed]
    exact .short rfl more
  split
  · next control =>
    obtain ⟨u, v, w, x, spelled, digits⟩ := unit?_hexDigits c.toNat control
    rw [spelled]
    have read := Characters.unit digits (.inl (by omega)) more
    rwa [Char.ofNat_toNat] at read
  · next quote backslash _ _ _ _ _ control => exact .plain (by omega) quote backslash more

theorem characters_quoted (cs rest : List Char) :
    Characters (cs.flatMap Text.jsonCharacter ++ '"' :: rest) cs rest := by
  induction cs with
  | nil => exact .closed
  | cons c cs ih =>
    rw [List.flatMap_cons, List.append_assoc]
    exact characters_jsonCharacter ih

theorem toList_jsonQuoted (s : String) :
    (Text.jsonQuoted s).toList = '"' :: (s.toList.flatMap Text.jsonCharacter ++ ['"']) := by
  simp [Text.jsonQuoted]

theorem denotes_text (s : String) (rest : List Char) :
    Denotes (.value (.text s)) ((Text.jsonQuoted s).toList ++ rest) rest := by
  have read := Denotes.text (characters_quoted s.toList rest)
  rw [String.ofList_toList] at read
  simpa [toList_jsonQuoted] using read

/-- The digits of a number that is not zero do not start with a zero. -/
theorem toDigits_leading {n : Nat} (pos : 0 < n) :
    ∃ d ds, Nat.toDigits 10 n = d :: ds ∧ d ≠ '0' := by
  have single : ∀ n < 10, 0 < n → n.digitChar ≠ '0' := by decide
  induction n using Nat.strongRecOn with
  | ind n ih =>
    by_cases small : n < 10
    · exact ⟨n.digitChar, [], Nat.toDigits_of_lt_base small, single n small pos⟩
    · obtain ⟨d, ds, digits, leading⟩ := ih (n / 10) (by omega) (by omega)
      refine ⟨d, ds ++ [(n % 10).digitChar], ?_, leading⟩
      rw [Nat.toDigits_of_base_le (by decide) (by omega), digits]
      rfl

theorem whole_digits (n : Nat) (rest : List Char) : Whole (Nat.toDigits 10 n ++ rest) n rest := by
  rcases Nat.eq_zero_or_pos n with rfl | pos
  · exact .zero
  · obtain ⟨d, ds, digits, leading⟩ := toDigits_leading pos
    have run : Digits (Nat.toDigits 10 n ++ rest) (d :: ds) rest :=
      ⟨by rw [digits], List.cons_ne_nil d ds, fun c mem =>
        Nat.isDigit_of_mem_toDigits (by decide) (by decide) (digits ▸ mem)⟩
    have value : digitsValue (d :: ds) = n := by
      rw [digitsValue, ← digits, Nat.ofDigitChars_ten_toDigits]
    have read := Whole.digits run leading
    rwa [value] at read

theorem denotes_number (n : Int) (rest : List Char) :
    Denotes (.value (.number n)) ((toString n).toList ++ rest) rest := by
  cases n with
  | ofNat n =>
    have spelled : (toString (Int.ofNat n)).toList = Nat.toDigits 10 n := Nat.toList_repr
    rw [spelled]
    refine .number ⟨1, _, n, rest, 0, rest, 0, .none, whole_digits n rest, .none, .none, ?_⟩
    simp
  | negSucc n =>
    have spelled : (toString (Int.negSucc n)).toList = '-' :: Nat.toDigits 10 (n + 1) := by
      rw [Int.toString_eq_repr, Int.repr, String.toList_append, Nat.toList_repr]
      rfl
    rw [spelled]
    refine .number ⟨-1, _, n + 1, rest, 0, rest, 0, .minus, whole_digits (n + 1) rest, .none,
      .none, ?_⟩
    simp [Int.negSucc_eq]

/-! ## Blanks between the parts of a text -/

theorem Blanks.refl (rest : List Char) : Blanks rest rest := ⟨[], rfl, rfl⟩

theorem Blanks.behind {ws : List Char} (blank : ws.all isBlank = true) (rest : List Char) :
    Blanks (ws ++ rest) rest := ⟨ws, blank, rfl⟩

end JsonText

namespace JsonValue

open JsonText

/-- A layout puts nothing but blanks behind a comma and a colon. -/
structure Layout.Loose (layout : Layout) : Prop where
  comma : ∃ ws, ws.all isBlank = true ∧ layout.comma.toList = ',' :: ws
  colon : ∃ ws, ws.all isBlank = true ∧ layout.colon.toList = ':' :: ws

theorem Layout.loose_compact : Layout.Loose .compact := ⟨⟨[], rfl, rfl⟩, ⟨[], rfl, rfl⟩⟩

theorem Layout.loose_indented (width : Int) : (Layout.indented width).Loose :=
  ⟨⟨[], rfl, by simp [Layout.indented]⟩, ⟨[' '], rfl, by simp [Layout.indented]⟩⟩

theorem Layout.blank_newline (layout : Layout) (depth : Nat) :
    (layout.newline depth).toList.all isBlank = true := by
  rw [List.all_eq_true]
  unfold Layout.newline
  cases layout.indent with
  | none => simp
  | some width =>
    intro c mem
    simp only [String.toList_append, String.toList_ofList, List.mem_append,
      List.mem_replicate] at mem
    rcases mem with newline | ⟨_, rfl⟩
    · rw [List.mem_singleton.1 newline]
      rfl
    · rfl

/-! ## A written value is read back -/

theorem toList_enclose_cons (layout : Layout) (depth : Nat) (opening closing item : String)
    (items : List String) :
    (layout.enclose depth opening closing (item :: items)).toList =
      opening.toList ++ (layout.newline (depth + 1)).toList
        ++ (layout.comma.toList ++ (layout.newline (depth + 1)).toList).intercalate
            ((item :: items).map String.toList)
        ++ (layout.newline depth).toList ++ closing.toList := by
  simp only [Layout.enclose, List.isEmpty_cons, if_false, String.toList_append,
    String.toList_intercalate, Bool.false_eq_true]

section Written

variable {layout : Layout}

theorem label_written (loose : layout.Loose) {ws : List Char} (blank : ws.all isBlank = true)
    (name : String) (rest : List Char) :
    Label (ws ++ ((Text.jsonQuoted name).toList ++ layout.colon.toList ++ rest)) name.toList
      rest := by
  obtain ⟨gap, gapBlank, colon⟩ := loose.colon
  refine ⟨_, _, _, ?_, characters_quoted name.toList (':' :: (gap ++ rest)), .refl _,
    .behind gapBlank rest⟩
  simpa [toList_jsonQuoted, colon] using
    Blanks.behind blank ('"' :: (name.toList.flatMap Text.jsonCharacter ++
      '"' :: ':' :: (gap ++ rest)))

mutual

/-- The text of a value is read back as what it should say, whatever stands behind it. -/
theorem write_denotes (loose : layout.Loose) : ∀ (v : JsonValue) (depth : Nat) (rest : List Char),
    Denotes (.value v.meaning) ((v.write layout depth).toList ++ rest) rest
  | .number n, _, rest => denotes_number n rest
  | .text s, _, rest => denotes_text s rest
  | .array [], depth, rest => by
    have read : Denotes (.value (.array [])) ('[' :: ']' :: rest) rest :=
      .array (.noItem (.refl _))
    simpa [write, writeItems, Layout.enclose, meaning, itemMeanings] using read
  | .array (v :: items), depth, rest => by
    have read := itemTexts_denote loose (v :: items) (List.cons_ne_nil v items) (depth + 1)
      (layout.blank_newline (depth + 1)) (layout.blank_newline depth) rest
    rw [meaning, write, writeItems, toList_enclose_cons]
    simpa [writeItems] using Denotes.array read
  | .object [], depth, rest => by
    have read : Denotes (.value (.object [])) ('\x7b' :: '\x7d' :: rest) rest :=
      .object (.noMember (.refl _))
    simpa [write, writeFields, Layout.enclose, meaning, fieldMeanings] using read
  | .object ((name, v) :: fields), depth, rest => by
    have read := fieldTexts_denote loose ((name, v) :: fields) (List.cons_ne_nil _ fields)
      (depth + 1) (layout.blank_newline (depth + 1)) (layout.blank_newline depth) rest
    rw [meaning, write, writeFields, toList_enclose_cons]
    simpa [writeFields] using Denotes.object read

theorem itemTexts_denote (loose : layout.Loose) : ∀ (items : List JsonValue), items ≠ [] →
    ∀ (depth : Nat) {before behind : List Char}, before.all isBlank = true →
    behind.all isBlank = true → ∀ rest, Denotes (.items (itemMeanings items))
      (before ++ ((layout.comma.toList ++ (layout.newline depth).toList).intercalate
        ((writeItems layout depth items).map String.toList) ++ (behind ++ ']' :: rest))) rest
  | [], nonempty, _, _, _, _, _, _ => absurd rfl nonempty
  | [v], _, depth, before, behind, blank, blank', rest => by
    refine .lastItem (.behind blank _) ?_ (.behind blank' (']' :: rest))
    simpa [writeItems] using write_denotes loose v depth (behind ++ ']' :: rest)
  | v :: w :: items, _, depth, before, behind, blank, blank', rest => by
    obtain ⟨gap, gapBlank, comma⟩ := loose.comma
    have between : (gap ++ (layout.newline depth).toList).all isBlank = true := by
      rw [List.all_append, gapBlank, layout.blank_newline depth]
      rfl
    have more := itemTexts_denote loose (w :: items) (List.cons_ne_nil w items) depth between
      blank' rest
    refine .nextItem (.behind blank _) ?_ (.refl _) more
    have read := write_denotes loose v depth (',' :: ((gap ++ (layout.newline depth).toList) ++
      ((layout.comma.toList ++ (layout.newline depth).toList).intercalate
        ((writeItems layout depth (w :: items)).map String.toList) ++ (behind ++ ']' :: rest))))
    simpa [writeItems, comma] using read

theorem fieldTexts_denote (loose : layout.Loose) : ∀ (fields : List (String × JsonValue)),
    fields ≠ [] → ∀ (depth : Nat) {before behind : List Char}, before.all isBlank = true →
    behind.all isBlank = true → ∀ rest, Denotes (.members (fieldMeanings fields))
      (before ++ ((layout.comma.toList ++ (layout.newline depth).toList).intercalate
        ((writeFields layout depth fields).map String.toList) ++ (behind ++ '\x7d' :: rest))) rest
  | [], nonempty, _, _, _, _, _, _ => absurd rfl nonempty
  | [(name, v)], _, depth, before, behind, blank, blank', rest => by
    have label := label_written loose blank name
      ((v.write layout depth).toList ++ (behind ++ '\x7d' :: rest))
    have read := Denotes.lastMember label (write_denotes loose v depth _) (.behind blank' _)
    rw [String.ofList_toList] at read
    simpa [writeFields, fieldMeanings] using read
  | (name, v) :: (name', v') :: fields, _, depth, before, behind, blank, blank', rest => by
    obtain ⟨gap, gapBlank, comma⟩ := loose.comma
    have between : (gap ++ (layout.newline depth).toList).all isBlank = true := by
      rw [List.all_append, gapBlank, layout.blank_newline depth]
      rfl
    have more := fieldTexts_denote loose ((name', v') :: fields) (List.cons_ne_nil _ fields) depth
      between blank' rest
    have label := label_written loose blank name ((v.write layout depth).toList ++ (',' :: ((gap
      ++ (layout.newline depth).toList) ++
      ((layout.comma.toList ++ (layout.newline depth).toList).intercalate
        ((writeFields layout depth ((name', v') :: fields)).map String.toList)
          ++ (behind ++ '\x7d' :: rest)))))
    have read := Denotes.nextMember label (write_denotes loose v depth _) (.refl _) more
    rw [String.ofList_toList] at read
    simpa [writeFields, fieldMeanings, comma] using read

end

end Written

/-! ## No control characters on one line -/

/-- A character that is no control character. -/
def isVisible (c : Char) : Bool := 0x20 ≤ c.toNat

def Visible (text : String) : Prop := text.toList.all isVisible = true

instance (text : String) : Decidable (Visible text) := inferInstanceAs (Decidable (_ = true))

theorem Visible.append {s t : String} (first : Visible s) (second : Visible t) :
    Visible (s ++ t) := by
  rw [Visible, String.toList_append, List.all_append, Bool.and_eq_true]
  exact ⟨first, second⟩

theorem Visible.intercalate {between : String} (visible : Visible between) {texts : List String}
    (each : ∀ s ∈ texts, Visible s) : Visible (between.intercalate texts) := by
  induction texts with
  | nil => exact (by decide : Visible "")
  | cons s rest ih =>
    have behind := ih fun t mem => each t (List.mem_cons_of_mem s mem)
    cases rest with
    | nil => simpa using each s List.mem_cons_self
    | cons t rest =>
      rw [String.intercalate_cons_cons]
      exact ((each s List.mem_cons_self).append visible).append behind

theorem visible_jsonQuoted (s : String) : Visible (Text.jsonQuoted s) := by
  have digits : ∀ n < 0x20, (Text.hexDigits 4 n).all isVisible = true := by decide
  have character : ∀ c, (Text.jsonCharacter c).all isVisible = true := by
    intro c
    unfold Text.jsonCharacter
    split_ifs with _ _ _ _ _ _ _ control
    iterate 7 · rfl
    · rw [List.all_append, digits c.toNat control]
      rfl
    · simpa [isVisible] using control
  have quote : isVisible '"' = true := rfl
  rw [Visible, toList_jsonQuoted]
  simp [List.all_flatMap, character, quote]

theorem visible_number (n : Int) : Visible (toString n) := by
  have digits : ∀ n : Nat, Visible n.repr := by
    intro n
    rw [Visible, Nat.toList_repr, List.all_eq_true]
    intro c mem
    have digit := Nat.isDigit_of_mem_toDigits (by decide) (by decide) mem
    simp only [Char.isDigit, Bool.and_eq_true, decide_eq_true_eq] at digit
    have low : 0x30 ≤ c.toNat := UInt32.le_iff_toNat_le.1 digit.1
    simp only [isVisible, decide_eq_true_eq]
    omega
  cases n with
  | ofNat n => exact digits n
  | negSucc n => exact Visible.append (by decide) (digits (n + 1))

theorem Visible.enclose {depth : Nat} {opening closing : String} {items : List String}
    (before : Visible opening) (behind : Visible closing) (each : ∀ s ∈ items, Visible s) :
    Visible (Layout.compact.enclose depth opening closing items) := by
  have newline : ∀ d, Layout.compact.newline d = "" := fun _ => rfl
  unfold Layout.enclose
  split
  · exact before.append behind
  · rw [newline, newline]
    have between : Visible (Layout.compact.comma ++ "") := by decide
    exact (((before.append (by decide)).append (between.intercalate each)).append
      (by decide)).append behind

mutual

theorem write_visible : ∀ (v : JsonValue) (depth : Nat), Visible (v.write .compact depth)
  | .number n, _ => visible_number n
  | .text s, _ => visible_jsonQuoted s
  | .array items, depth => by
    rw [write]
    exact .enclose (by decide) (by decide) (writeItems_visible items (depth + 1))
  | .object fields, depth => by
    rw [write]
    exact .enclose (by decide) (by decide) (writeFields_visible fields (depth + 1))

theorem writeItems_visible : ∀ (items : List JsonValue) (depth : Nat),
    ∀ s ∈ writeItems .compact depth items, Visible s
  | [], _, _, mem => absurd mem List.not_mem_nil
  | v :: rest, depth, s, mem => by
    rcases List.mem_cons.1 mem with rfl | mem
    · exact write_visible v depth
    · exact writeItems_visible rest depth s mem

theorem writeFields_visible : ∀ (fields : List (String × JsonValue)) (depth : Nat),
    ∀ s ∈ writeFields .compact depth fields, Visible s
  | [], _, _, mem => absurd mem List.not_mem_nil
  | (name, v) :: rest, depth, s, mem => by
    rcases List.mem_cons.1 mem with rfl | mem
    · exact ((visible_jsonQuoted name).append (by decide)).append (write_visible v depth)
    · exact writeFields_visible rest depth s mem

end

end JsonValue

/-! ## Readers -/

namespace JsonText

/-- Two values that a reader need not tell apart: members of an object count by their names, in
whatever order they are kept. -/
inductive Alike : Value → Value → Prop
  | same (v : Value) : Alike v v
  | array {vs ws : List Value} (each : List.Forall₂ Alike vs ws) : Alike (.array vs) (.array ws)
  | object {ms ns : List (String × Value)}
      (each : ∀ name, Option.Rel Alike (ms.lookup name) (ns.lookup name)) :
      Alike (.object ms) (.object ns)

/-- No object in a value has two members of one name. -/
inductive Apart : Value → Prop
  | null : Apart .null
  | truth (b : Bool) : Apart (.truth b)
  | number (q : Rat) : Apart (.number q)
  | text (s : String) : Apart (.text s)
  | array {vs : List Value} (each : ∀ v ∈ vs, Apart v) : Apart (.array vs)
  | object {ms : List (String × Value)} (names : (ms.map Prod.fst).Nodup)
      (each : ∀ m ∈ ms, Apart m.2) : Apart (.object ms)

namespace Value

def text? : Value → Option String
  | .text s => some s
  | _ => none

def integer? : Value → Option Int
  | .number q => if q.den = 1 then some q.num else none
  | _ => none

def natural? (v : Value) : Option Nat := do
  let n ← v.integer?
  if 0 ≤ n then some n.toNat else none

def items? {α : Type} (item? : Value → Option α) : Value → Option (List α)
  | .array vs => vs.mapM item?
  | _ => none

/-- The member of an object with a name. -/
def member? (name : String) : Value → Option Value
  | .object ms => ms.lookup name
  | _ => none

/-- What a member that must be there says. -/
def required? {α : Type} (read : Value → Option α) (name : String) (v : Value) : Option α :=
  (v.member? name).bind read

/-- What a member that can be left out says. -/
def optional? {α : Type} (read : Value → Option α) (name : String) (v : Value) :
    Option (Option α) :=
  match v.member? name with
  | none => some none
  | some w => (read w).map some

def category? (v : Value) : Option Category := do
  let name ← v.text?
  Category.all.find? (·.name = name)

def structureValue? (v : Value) : Option StructureValue := do
  let text ← v.required? text? "text"
  let kind ← v.optional? text? "kind"
  pure { text, kind }

def property? (v : Value) : Option StructureProperty := do
  let name ← v.required? text? "name"
  let value ← v.optional? structureValue? "value"
  let ref ← v.optional? text? "ref"
  pure { name, value, ref }

def range? (v : Value) : Option SourceRange := do
  let startRow ← v.required? integer? "startRow"
  let startColumn ← v.required? integer? "startColumn"
  let endRow ← v.required? integer? "endRow"
  let endColumn ← v.required? integer? "endColumn"
  pure { startRow, startColumn, endRow, endColumn }

def tokenInfo? (v : Value) : Option TokenInfo := do
  let kind ← v.required? text? "kind"
  let leading ← v.required? text? "leadingTrivia"
  let trailing ← v.required? text? "trailingTrivia"
  pure { kind, leading, trailing }

def record? (v : Value) : Option Record := do
  let id ← v.required? natural? "id"
  let parent ← v.optional? natural? "parent"
  let label ← v.required? text? "label"
  let range ← v.required? range? "range"
  let category ← v.required? category? "category"
  let properties ← v.required? (items? property?) "structure"
  let token ← v.optional? tokenInfo? "tokenInfo"
  pure { id, label, range, category, parent, properties, token }

/-- The records that a value says. -/
def records? : Value → Option (List Record) := items? record?

end Value

/-- A reading gives a result for a value, in whatever order members are kept. -/
def Reads {α : Type} (read : Value → Option α) (v : Value) (a : α) : Prop :=
  ∀ w, Alike v w → read w = some a

open Value

theorem reads_text (s : String) : Reads text? (.text s) s := by
  rintro _ ⟨⟩
  rfl

theorem reads_integer (n : Int) : Reads integer? (.number n) n := by
  rintro _ ⟨⟩
  simp [integer?]

theorem reads_natural (n : Nat) : Reads natural? (.number (n : Int)) n := by
  intro w alike
  simp [natural?, reads_integer n w alike]

theorem reads_category (c : Category) : Reads category? (.text c.name) c := by
  intro w alike
  rw [category?, reads_text c.name w alike]
  cases c <;> simp [Category.all, Category.name]

theorem reads_items {α : Type} {read : Value → Option α} {vs : List Value} {as : List α}
    (each : List.Forall₂ (Reads read) vs as) : Reads (items? read) (.array vs) as := by
  have all : ∀ {ws : List Value}, List.Forall₂ Alike vs ws → ws.mapM read = some as := by
    intro ws alike
    induction each generalizing ws with
    | nil =>
      cases alike
      rfl
    | cons head _ ih =>
      cases alike with
      | cons first rest => simp [head _ first, ih rest]
  intro w alike
  cases alike with
  | same => exact all (List.forall₂_same.2 fun v _ => .same v)
  | array alike => exact all alike

section Members

variable {α : Type} {read : Value → Option α} {ms : List (String × Value)} {w : Value}

theorem Alike.member (alike : Alike (.object ms) w) (name : String) :
    Option.Rel Alike (ms.lookup name) (w.member? name) := by
  cases alike with
  | same =>
    rw [member?]
    cases ms.lookup name with
    | none => exact .none
    | some v => exact .some (.same v)
  | object each => exact each name

theorem Alike.required {v : Value} {a : α} (alike : Alike (.object ms) w) (name : String)
    (found : ms.lookup name = some v) (reads : Reads read v a) :
    w.required? read name = some a := by
  have member := alike.member name
  rw [found] at member
  unfold required?
  generalize w.member? name = there at member ⊢
  cases member with
  | some alike => exact reads _ alike

theorem Alike.optional {o : Option Value} {x : Option α} (alike : Alike (.object ms) w)
    (name : String) (found : ms.lookup name = o) (reads : Option.Rel (Reads read) o x) :
    w.optional? read name = some x := by
  have member := alike.member name
  rw [found] at member
  unfold optional?
  generalize w.member? name = there at member ⊢
  cases member with
  | none =>
    cases reads
    rfl
  | some alike =>
    cases reads with
    | some reads => simp [reads _ alike]

end Members

/-! ## Records are read back -/

/-- A member that is left out when there is no value says whether there is one. -/
theorem rel_optional {α : Type} {read : Value → Option α} (write : α → JsonValue)
    (reads : ∀ a, Reads read (write a).meaning a) (x : Option α) :
    Option.Rel (Reads read) ((x.map write).map JsonValue.meaning) x := by
  cases x with
  | none => exact .none
  | some a => exact .some (reads a)

theorem lookup_optionalField (name key : String) (value : Option JsonValue) :
    ((JsonValue.optionalField name value).map fun f => (f.1, f.2.meaning)).lookup key =
      if key = name then value.map JsonValue.meaning else none := by
  by_cases same : key = name <;> cases value <;> simp [JsonValue.optionalField, same]

theorem reads_structureValue (s : StructureValue) :
    Reads structureValue? s.json.meaning s := by
  intro w alike
  rw [StructureValue.json, JsonValue.meaning, JsonValue.fieldMeanings_eq] at alike
  have text := alike.required "text" (by simp [JsonValue.meaning]) (reads_text s.text)
  have kind := alike.optional "kind"
    (by simp [List.lookup_cons, lookup_optionalField]) (rel_optional .text reads_text s.kind)
  simp [structureValue?, text, kind]

theorem reads_property (p : StructureProperty) : Reads property? p.json.meaning p := by
  intro w alike
  rw [StructureProperty.json, JsonValue.meaning, JsonValue.fieldMeanings_eq] at alike
  have name := alike.required "name" (by simp [JsonValue.meaning]) (reads_text p.name)
  have value := alike.optional "value"
    (by simp [List.lookup_cons, List.lookup_append, lookup_optionalField])
    (rel_optional (·.json) reads_structureValue p.value)
  have ref := alike.optional "ref"
    (by simp [List.lookup_cons, List.lookup_append, lookup_optionalField])
    (rel_optional .text reads_text p.ref)
  simp [property?, name, value, ref]

theorem reads_range (r : SourceRange) : Reads range? r.json.meaning r := by
  intro w alike
  rw [SourceRange.json, JsonValue.meaning, JsonValue.fieldMeanings_eq] at alike
  have startRow := alike.required "startRow" (by simp [JsonValue.meaning])
    (reads_integer r.startRow)
  have startColumn := alike.required "startColumn"
    (by simp [List.lookup_cons, JsonValue.meaning]) (reads_integer r.startColumn)
  have endRow := alike.required "endRow"
    (by simp [List.lookup_cons, JsonValue.meaning]) (reads_integer r.endRow)
  have endColumn := alike.required "endColumn"
    (by simp [List.lookup_cons, JsonValue.meaning]) (reads_integer r.endColumn)
  simp [range?, startRow, startColumn, endRow, endColumn]

theorem reads_tokenInfo (t : TokenInfo) : Reads tokenInfo? t.json.meaning t := by
  intro w alike
  rw [TokenInfo.json, JsonValue.meaning, JsonValue.fieldMeanings_eq] at alike
  have kind := alike.required "kind" (by simp [JsonValue.meaning]) (reads_text t.kind)
  have leading := alike.required "leadingTrivia"
    (by simp [List.lookup_cons, JsonValue.meaning]) (reads_text t.leading)
  have trailing := alike.required "trailingTrivia"
    (by simp [List.lookup_cons, JsonValue.meaning]) (reads_text t.trailing)
  simp [tokenInfo?, kind, leading, trailing]

theorem reads_list {α : Type} {read : Value → Option α} {write : α → JsonValue}
    (reads : ∀ a, Reads read (write a).meaning a) (as : List α) :
    Reads (items? read) (JsonValue.array (as.map write)).meaning as := by
  rw [JsonValue.meaning, JsonValue.itemMeanings_eq, List.map_map]
  exact reads_items (List.forall₂_map_left_iff.2 (List.forall₂_same.2 fun a _ => reads a))

theorem reads_record (r : Record) : Reads record? r.json.meaning r := by
  intro w alike
  rw [Record.json, JsonValue.meaning, JsonValue.fieldMeanings_eq] at alike
  have id := alike.required "id" (by simp [JsonValue.meaning]) (reads_natural r.id)
  have parent := alike.optional "parent"
    (by cases r.parent <;> simp [List.lookup_cons, List.lookup_append, lookup_optionalField])
    (rel_optional (fun p : Nat => .number p) reads_natural r.parent)
  have label := alike.required "label"
    (by simp [List.lookup_cons, List.lookup_append, lookup_optionalField, JsonValue.meaning])
    (reads_text r.label)
  have range := alike.required "range"
    (by simp [List.lookup_cons, List.lookup_append, lookup_optionalField]) (reads_range r.range)
  have category := alike.required "category"
    (by simp [List.lookup_cons, List.lookup_append, lookup_optionalField, JsonValue.meaning])
    (reads_category r.category)
  have properties := alike.required "structure"
    (by simp [List.lookup_cons, List.lookup_append, lookup_optionalField])
    (reads_list reads_property r.properties)
  have token := alike.optional "tokenInfo"
    (by simp [List.lookup_cons, List.lookup_append, lookup_optionalField])
    (rel_optional (·.json) reads_tokenInfo r.token)
  simp [record?, id, parent, label, range, category, properties, token]

/-! ## Names are apart -/

theorem apart_object {fields : List (String × JsonValue)} (names : (fields.map Prod.fst).Nodup)
    (each : ∀ f ∈ fields, Apart f.2.meaning) : Apart (JsonValue.object fields).meaning := by
  rw [JsonValue.meaning, JsonValue.fieldMeanings_eq]
  refine .object ?_ fun m mem => ?_
  · rwa [List.map_map]
  · obtain ⟨f, among, rfl⟩ := List.mem_map.1 mem
    exact each f among

theorem apart_list {α : Type} {write : α → JsonValue} (each : ∀ a, Apart (write a).meaning)
    (as : List α) : Apart (JsonValue.array (as.map write)).meaning := by
  rw [JsonValue.meaning, JsonValue.itemMeanings_eq, List.map_map]
  refine .array fun v mem => ?_
  obtain ⟨a, _, rfl⟩ := List.mem_map.1 mem
  exact each a

theorem apart_structureValue (s : StructureValue) : Apart s.json.meaning := by
  refine apart_object ?_ ?_ <;> cases s.kind <;>
    simp [JsonValue.optionalField, JsonValue.meaning, Apart.text]

theorem apart_property (p : StructureProperty) : Apart p.json.meaning := by
  refine apart_object ?_ ?_ <;> cases p.value <;> cases p.ref <;>
    simp [JsonValue.optionalField, JsonValue.meaning, Apart.text, apart_structureValue]

theorem apart_range (r : SourceRange) : Apart r.json.meaning :=
  apart_object (by simp) (by simp [JsonValue.meaning, Apart.number])

theorem apart_tokenInfo (t : TokenInfo) : Apart t.json.meaning :=
  apart_object (by simp) (by simp [JsonValue.meaning, Apart.text])

theorem apart_record (r : Record) : Apart r.json.meaning := by
  have properties := apart_list apart_property r.properties
  rw [JsonValue.meaning] at properties
  refine apart_object ?_ ?_ <;> cases r.parent <;> cases r.token <;>
    simp [JsonValue.optionalField, JsonValue.meaning, Apart.text, Apart.number, apart_range,
      apart_tokenInfo, properties]

end JsonText

/-! ## The text of records -/

/-- Records as JSON say one value in every indentation, and the records are read back from it. On
one line they have no control characters. -/
theorem encodeRecords_lossless (records : List Record) :
    ∃ v : JsonText.Value,
      (∀ indent w, JsonText.Says (encodeRecords records indent).toList w ↔ w = v) ∧
      JsonText.Apart v ∧
      (∀ w, JsonText.Alike v w → w.records? = some records) ∧
      ∀ c ∈ (encodeRecords records none).toList, 0x20 ≤ c.toNat := by
  have said : ∀ indent, Says (encodeRecords records indent).toList
      (JsonValue.array (records.map Record.json)).meaning := by
    intro indent
    have read : ∀ layout : JsonValue.Layout, layout.Loose →
        Says ((JsonValue.array (records.map Record.json)).write layout 0).toList
          (JsonValue.array (records.map Record.json)).meaning := by
      intro layout loose
      have read := JsonValue.write_denotes loose (.array (records.map Record.json)) 0 []
      rw [List.append_nil] at read
      exact ⟨_, _, .refl _, read, .refl []⟩
    cases indent with
    | none => exact read _ JsonValue.Layout.loose_compact
    | some width => exact read _ (JsonValue.Layout.loose_indented width)
  refine ⟨(JsonValue.array (records.map Record.json)).meaning, fun indent w => ⟨fun other => ?_, ?_⟩,
    JsonText.apart_list JsonText.apart_record records,
    JsonText.reads_list JsonText.reads_record records, fun c mem => ?_⟩
  · exact other.unique (said indent)
  · rintro rfl
    exact said indent
  · have visible := JsonValue.write_visible (.array (records.map Record.json)) 0
    simpa [JsonValue.isVisible] using List.all_eq_true.1 visible c mem

end SyntaxAtlas
