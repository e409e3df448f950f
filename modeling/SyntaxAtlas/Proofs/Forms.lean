-- The S-expressions of trees. Both texts of a tree are read back as its form, and the indented
-- one differs from that on a single line in its line breaks alone.

import SyntaxAtlas.Proofs.Filled
import SyntaxAtlas.Proofs.FormText

namespace SyntaxAtlas

namespace Form

/-! ## Line breaks -/

/-- Puts one space for each new line and the spaces behind it. The flag tells whether such a new
line has just been seen. -/
def unwrapFrom : Bool → List Char → List Char
  | _, [] => []
  | broken, c :: rest =>
    if c = '\n' then ' ' :: unwrapFrom true rest
    else if broken && c == ' ' then unwrapFrom true rest
    else c :: unwrapFrom false rest

/-- A text with its lines joined. -/
def unwrap (text : String) : String := String.ofList (unwrapFrom false text.toList)

theorem not_newline_of_unwrapFrom {broken : Bool} {cs : List Char} :
    ∀ c ∈ unwrapFrom broken cs, c ≠ '\n' := by
  induction cs generalizing broken with
  | nil => simp [unwrapFrom]
  | cons d cs ih =>
    rw [unwrapFrom]
    split_ifs with newline
    · rintro c (_ | ⟨_, mem⟩)
      · decide
      · exact ih c mem
    · exact ih
    · rintro c (_ | ⟨_, mem⟩)
      · exact newline
      · exact ih c mem

mutual

/-- An indented text without line breaks. -/
def flat : Form → String
  | .symbol name => name
  | .text s => Text.formQuoted s
  | .datum value => value.display
  | .list items => "(" ++ String.intercalate " " (flatAll items) ++ ")"

def flatAll : List Form → List String
  | [] => []
  | f :: rest => f.flat :: flatAll rest

end

theorem flatAll_eq (fs : List Form) : flatAll fs = fs.map flat := by
  induction fs with
  | nil => rfl
  | cons f rest ih => rw [flatAll, ih, List.map_cons]

/-- A text that starts an item becomes another one when lines are joined, wherever it stands. -/
def Unwraps (word joined : List Char) : Prop :=
  ∀ broken rest, unwrapFrom broken (word ++ rest) = joined ++ unwrapFrom false rest

theorem unwrapFrom_run {word : List Char} (lineless : ∀ c ∈ word, c ≠ '\n') (rest : List Char) :
    unwrapFrom false (word ++ rest) = word ++ unwrapFrom false rest := by
  induction word with
  | nil => rfl
  | cons c word ih =>
    have first := lineless c List.mem_cons_self
    have others := ih fun d mem => lineless d (List.mem_cons_of_mem c mem)
    simp [unwrapFrom, first, others]

theorem unwraps_run {c : Char} {word : List Char} (solid : c ≠ ' ')
    (lineless : ∀ d ∈ c :: word, d ≠ '\n') : Unwraps (c :: word) (c :: word) := by
  intro broken rest
  have first := lineless c List.mem_cons_self
  have others := unwrapFrom_run (fun d mem => lineless d (List.mem_cons_of_mem c mem)) rest
  simp [unwrapFrom, first, solid, others]

theorem unwrapFrom_spaces {pad : List Char} (spaces : ∀ c ∈ pad, c = ' ') (rest : List Char) :
    unwrapFrom true (pad ++ rest) = unwrapFrom true rest := by
  induction pad with
  | nil => rfl
  | cons c pad ih =>
    obtain rfl := spaces c List.mem_cons_self
    rw [List.cons_append, unwrapFrom, if_neg (by decide), if_pos (by decide)]
    exact ih fun d mem => spaces d (List.mem_cons_of_mem _ mem)

theorem unwraps_word {name : String} (word : isWord name = true) :
    Unwraps name.toList name.toList := by
  obtain ⟨c, cs, spelled, first, rest⟩ := cons_of_isWord word
  have lineless : ∀ {d : Char}, isDelimiter d = false → d ≠ '\n' ∧ d ≠ ' ' := by
    intro d plain
    constructor <;> rintro rfl <;> exact absurd plain (by decide)
  rw [spelled]
  refine unwraps_run (lineless first).2 ?_
  rintro d (_ | ⟨_, mem⟩)
  · exact (lineless first).1
  · exact (lineless (rest d mem)).1

theorem unwraps_quoted (s : String) :
    Unwraps (Text.formQuoted s).toList (Text.formQuoted s).toList := by
  have character : ∀ c, (Text.formCharacter c).all (· != '\n') = true := by
    intro c
    unfold Text.formCharacter
    split_ifs with _ _ newline
    iterate 5 · rfl
    · simpa using newline
  rw [Text.formQuoted, String.toList_ofList, List.cons_append]
  refine unwraps_run (by decide) ?_
  intro d mem
  simp only [List.mem_cons, List.mem_append, List.mem_flatMap, List.not_mem_nil, or_false] at mem
  rcases mem with rfl | ⟨c, _, mem⟩ | rfl
  · decide
  · simpa using List.all_eq_true.1 (character c) d mem
  · decide

/-- Items in a row, joined: each has one space in front. -/
theorem unwrapFrom_gapped {shown : Form → String} {pad : String}
    (spaces : ∀ c ∈ pad.toList, c = ' ') {fs : List Form} {more : List Char}
    (gapped : Gapped pad (fs.map fun g => (g, shown g)) more)
    (each : ∀ g ∈ fs, Unwraps (shown g).toList g.flat.toList) (rest : List Char) :
    unwrapFrom false (more ++ rest) =
      (fs.map flat).flatMap (fun s => " ".toList ++ s.toList) ++ unwrapFrom false rest := by
  induction fs generalizing more with
  | nil =>
    cases gapped
    rfl
  | cons g fs ih =>
    cases gapped with
    | @cons gap _ _ more isGap gapped =>
      have first : ∀ rest, unwrapFrom false (gap.toList ++ ((shown g).toList ++ rest)) =
          ' ' :: (g.flat.toList ++ unwrapFrom false rest) := by
        intro rest
        have item := each g List.mem_cons_self
        rcases isGap with rfl | rfl
        · simp [unwrapFrom, item false rest]
        · simp [unwrapFrom, unwrapFrom_spaces spaces, item true rest]
      have others := ih gapped fun g' mem => each g' (List.mem_cons_of_mem g mem)
      simp [first, others]

theorem unwraps_row {shown : Form → String} {pad : String}
    (spaces : ∀ c ∈ pad.toList, c = ' ') {f : Form} {fs : List Form} {more : List Char}
    (gapped : Gapped pad (fs.map fun g => (g, shown g)) more)
    (each : ∀ g ∈ f :: fs, Unwraps (shown g).toList g.flat.toList) :
    Unwraps ('(' :: ((shown f).toList ++ more ++ [')'])) (Form.list (f :: fs)).flat.toList := by
  intro broken rest
  have opening : ∀ cs, unwrapFrom broken ('(' :: cs) = '(' :: unwrapFrom false cs := by
    intro cs
    simp [unwrapFrom]
  have closing : unwrapFrom false (')' :: rest) = ')' :: unwrapFrom false rest := by
    simp [unwrapFrom]
  have first := each f List.mem_cons_self
  have others := unwrapFrom_gapped spaces gapped
    (fun g mem => each g (List.mem_cons_of_mem f mem)) (')' :: rest)
  rw [flat, flatAll, flatAll_eq, String.toList_append, String.toList_append,
    toList_intercalate_cons]
  simp [opening, first false, others, closing]

section Indented

variable {style : Style}

mutual

theorem unwraps_indented (spaced : style.Spaced) : ∀ {f : Form}, f.isPlain = true →
    ∀ depth, Unwraps (f.indented style depth).toList f.flat.toList
  | .symbol _, plain, _ => unwraps_word plain
  | .text s, _, _ => unwraps_quoted s
  | .list [], _, _ => by
    rw [indented, indentedAll, layOut]
    exact @unwraps_run '(' [')'] (by decide) (by simp)
  | .list (f :: fs), plain, depth => by
    obtain ⟨more, gapped, text⟩ := gapped_layOut style depth (f, f.indented style (depth + 1))
      (indentedAll style (depth + 1) fs)
    rw [indentedAll_eq] at gapped
    have row := unwraps_row (Style.indent_spaced spaced (depth + 1)) gapped
      (unwraps_indentedAll spaced plain (depth + 1))
    rw [indented, indentedAll, text]
    exact row

theorem unwraps_indentedAll (spaced : style.Spaced) : ∀ {fs : List Form}, allPlain fs = true →
    ∀ depth, ∀ g ∈ fs, Unwraps (g.indented style depth).toList g.flat.toList
  | [], _, _, _, mem => absurd mem List.not_mem_nil
  | f :: fs, plain, depth, g, mem => by
    rw [allPlain, Bool.and_eq_true] at plain
    rcases List.mem_cons.1 mem with same | mem
    · rw [same]
      exact unwraps_indented spaced plain.1 depth
    · exact unwraps_indentedAll spaced plain.2 depth g mem

end

theorem unwrap_indented {f : Form} (plain : f.isPlain = true) (spaced : style.Spaced)
    (depth : Int) : unwrap (f.indented style depth) = f.flat := by
  have joined := unwraps_indented spaced plain depth false []
  rw [List.append_nil, unwrapFrom, List.append_nil] at joined
  rw [unwrap, joined, String.ofList_toList]

/-- The usual style is indented by spaces. -/
theorem Style.spaced_usual : Style.Spaced {} := by
  intro c mem
  simpa using mem

theorem not_newline_of_flat {f : Form} (plain : f.isPlain = true) :
    ∀ c ∈ f.flat.toList, c ≠ '\n' := by
  rw [← unwrap_indented plain Style.spaced_usual 0, unwrap, String.toList_ofList]
  exact not_newline_of_unwrapFrom

mutual

/-- A line that is wide enough takes the whole form. -/
theorem indented_wide (style : Style) : ∀ {f : Form}, f.isPlain = true → ∀ depth, ∃ enough : Int,
    ∀ width, enough ≤ width → f.indented { style with width } depth = f.flat
  | .symbol _, _, _ => ⟨0, fun _ _ => rfl⟩
  | .text _, _, _ => ⟨0, fun _ _ => rfl⟩
  | .list [], _, _ => ⟨0, fun _ _ => rfl⟩
  | .list (f :: fs), plain, depth => by
    obtain ⟨enough, wide⟩ := indentedAll_wide style plain (depth + 1)
    have lineless := not_newline_of_flat (f := .list (f :: fs)) plain
    have line : "(" ++ String.intercalate " "
        (((f, f.flat) :: fs.map fun g => (g, g.flat)).map (·.2)) ++ ")" = (Form.list (f :: fs)).flat := by
      rw [flat, flatAll_eq, List.map_cons, List.map_map]
      rfl
    refine ⟨max enough (style.step.length * depth + (Form.list (f :: fs)).flat.length),
      fun width wideEnough => ?_⟩
    have fits : Style.fits { style with width } depth (Form.list (f :: fs)).flat = true := by
      have noBreak : (Form.list (f :: fs)).flat.contains (· == '\n') = false := by
        rw [String.contains_bool_eq, List.any_eq_false]
        simpa using lineless
      rw [Style.fits, noBreak]
      simp only [Bool.not_false, Bool.true_and, decide_eq_true_eq]
      omega
    rw [indented, wide width (by omega), List.map_cons, layOut, line, if_pos fits]

theorem indentedAll_wide (style : Style) : ∀ {fs : List Form}, allPlain fs = true → ∀ depth,
    ∃ enough : Int, ∀ width, enough ≤ width →
      indentedAll { style with width } depth fs = fs.map fun g => (g, g.flat)
  | [], _, _ => ⟨0, fun _ _ => rfl⟩
  | f :: fs, plain, depth => by
    rw [allPlain, Bool.and_eq_true] at plain
    obtain ⟨enough, first⟩ := indented_wide style plain.1 depth
    obtain ⟨enough', rest⟩ := indentedAll_wide style plain.2 depth
    refine ⟨max enough enough', fun width fits => ?_⟩
    rw [indentedAll, first width (by omega), rest width (by omega), List.map_cons]

end

end Indented

end Form

/-! ## Trees -/

open Form (isWord allPlain allPlain_iff)

/-- The bytes of a name are above those of all delimiters. They are looked at instead of its
characters, as these would have to be decoded first. -/
def hasWordBytes (name : String) : Bool :=
  !name.toByteArray.data.toList.isEmpty && name.toByteArray.data.toList.all fun b => 0x30 ≤ b.toNat

theorem isWord_of_bytes {name : String} (bytes : hasWordBytes name = true) :
    isWord name = true := by
  simp only [hasWordBytes, ← String.utf8Encode_toList, List.utf8Encode, List.data_toByteArray,
    Bool.and_eq_true, Bool.not_eq_true', List.all_eq_true, List.mem_flatMap, decide_eq_true_eq,
    forall_exists_index, and_imp] at bytes
  obtain ⟨nonempty, high⟩ := bytes
  rw [isWord, Bool.and_eq_true]
  constructor
  · cases spelled : name.toList with
    | nil => simp [spelled] at nonempty
    | cons c cs => rfl
  · rw [List.all_eq_true]
    intro c mem
    rw [Bool.not_eq_true', Bool.eq_false_iff]
    intro delimiter
    have low : String.utf8EncodeChar c = [UInt8.ofNat c.toNat] ∧ c.toNat < 0x30 := by
      simp only [Form.isDelimiter, Char.isWhitespace, Bool.or_eq_true, beq_iff_eq,
        decide_eq_true_eq] at delimiter
      rcases delimiter with ((((((rfl | rfl) | rfl) | rfl) | rfl) | rfl) | rfl) <;> decide
    have above := high (UInt8.ofNat c.toNat) c mem (by rw [low.1]; exact List.mem_singleton_self _)
    rw [UInt8.toNat_ofNat'] at above
    omega

/-- The names in the form of a node are words. -/
theorem Kind.isWord_names {kind : Kind} (registered : kind ∈ Kind.registered) :
    isWord kind.name = true ∧ ∀ s ∈ kind.slots, isWord (":" ++ s.name) = true := by
  have bytes : ∀ kind ∈ Kind.registered, hasWordBytes kind.name = true ∧
      ∀ s ∈ kind.slots, hasWordBytes s.name = true := by
    decide +kernel
  obtain ⟨name, slots⟩ := bytes kind registered
  refine ⟨isWord_of_bytes name, fun s slot => ?_⟩
  have word := isWord_of_bytes (slots s slot)
  rw [isWord, Bool.and_eq_true] at word ⊢
  rw [String.toList_append, List.all_append, word.2]
  exact ⟨rfl, rfl⟩

theorem Token.form_isPlain (withTrivia : Bool) (t : Token) :
    (t.form withTrivia).isPlain = true := by
  have words : isWord "token" = true ∧ isWord ":missing" = true ∧ isWord ":leading" = true ∧
      isWord ":trailing" = true := by decide
  obtain ⟨token, missing, leading, trailing⟩ := words
  have pieces : ∀ ps : List TriviaPiece, allPlain (ps.map fun p => .text p.description) = true := by
    intro ps
    simp [allPlain_iff, Form.isPlain]
  unfold Token.form
  cases t.isMissing <;> cases withTrivia <;>
    simp [Form.isPlain, allPlain, token, missing, leading, trailing, pieces]

namespace Tree

theorem isOk_bind (t : Tree) (next : Except Violation Unit) :
    (t.checkKinds.bind fun _ => next).isOk = (t.isKnown && next.isOk) := by
  unfold isKnown
  cases t.checkKinds <;> rfl

theorem isOk_checkSlots (slots : List (String × Tree)) :
    (checkSlots slots).isOk = (slots.map (·.2)).all isKnown := by
  induction slots with
  | nil => rfl
  | cons s rest ih => rw [checkSlots, isOk_bind, ih, List.map_cons, List.all_cons]

theorem isOk_checkItems (items : List Tree) : (checkItems items).isOk = items.all isKnown := by
  induction items with
  | nil => rfl
  | cons t rest ih => rw [checkItems, isOk_bind, ih, List.all_cons]

theorem isKnown_node_iff {kind : Kind} {slots : List (String × Tree)} {items : List Tree}
    {state : NodeState} :
    (Tree.node kind slots items state).isKnown = true ↔ kind.catalogued.isSome = true ∧
      ∀ c ∈ (Tree.node kind slots items state).children, c.isKnown = true := by
  rw [isKnown, checkKinds, children, ← List.all_eq_true]
  cases kind.catalogued with
  | none => simp [Except.isOk, Except.toBool]
  | some e =>
    by_cases layout : kind.isLayout = true
    · simp [layout, isOk_checkSlots]
    · simp [layout, isOk_checkItems]

theorem slotForms_eq (withTrivia : Bool) (slots : List (String × Tree)) :
    slotForms withTrivia slots = slots.map fun s => (s.1, s.2.form withTrivia) := by
  induction slots with
  | nil => rfl
  | cons s rest ih => rw [slotForms, ih, List.map_cons]

theorem itemForms_eq (withTrivia : Bool) (items : List Tree) :
    itemForms withTrivia items = items.map (form withTrivia) := by
  induction items with
  | nil => rfl
  | cons t rest ih => rw [itemForms, ih, List.map_cons]

/-- The form of a tree of known kinds and without plain data is a plain form. -/
theorem form_isPlain (withTrivia : Bool) {t : Tree} (known : t.isKnown = true)
    (syntactic : t.Everywhere fun u => ∀ value, u ≠ .foreign value) :
    (t.form withTrivia).isPlain = true := by
  induction syntactic using everywhere_induction with
  | step t here below each =>
    cases t with
    | token t => exact t.form_isPlain withTrivia
    | foreign value => exact absurd rfl (here value)
    | node kind slots items state =>
      obtain ⟨catalogued, known⟩ := isKnown_node_iff.1 known
      obtain ⟨name, slotNames⟩ := Kind.isWord_names (Kind.mem_registered catalogued)
      have plain : ∀ c ∈ (Tree.node kind slots items state).children,
          (c.form withTrivia).isPlain = true := fun c mem => each c mem (known c mem)
      by_cases layout : kind.isLayout = true
      · simp only [children, layout, if_true, List.mem_map, forall_exists_index, and_imp,
          forall_apply_eq_imp_iff₂] at plain
        rw [form, if_pos layout, Form.isPlain, allPlain, Form.isPlain, name, Bool.true_and,
          allPlain_iff, slotForms_eq]
        intro f mem
        rw [slotPairs, List.mem_flatMap] at mem
        obtain ⟨s, slot, mem⟩ := mem
        rcases List.mem_cons.1 mem with rfl | mem
        · exact slotNames s slot
        · rw [List.mem_singleton.1 mem]
          cases found : (slots.map fun s => (s.1, s.2.form withTrivia)).lookup s.name with
          | none => decide
          | some g =>
            obtain ⟨before, after, split, _⟩ := List.lookup_eq_some_iff.1 found
            have among : (s.name, g) ∈ slots.map fun s => (s.1, s.2.form withTrivia) := by
              rw [split]
              simp
            obtain ⟨filled, isFilled, same⟩ := List.mem_map.1 among
            change g.isPlain = true
            rw [← (Prod.mk.inj same).2]
            exact plain filled isFilled
      · simp only [children, layout, if_false, Bool.false_eq_true] at plain
        rw [form, if_neg layout, Form.isPlain, allPlain, Form.isPlain, name, Bool.true_and,
          allPlain_iff, itemForms_eq]
        intro f mem
        obtain ⟨c, isChild, rfl⟩ := List.mem_map.1 mem
        exact plain c isChild

end Tree

/-! ## The texts of trees -/

theorem Tree.sexpr_of_isKnown {t : Tree} (known : t.isKnown = true) (withTrivia indent : Bool) :
    t.sexpr withTrivia indent =
      .ok (if indent then (t.form withTrivia).pretty else (t.form withTrivia).compact) := by
  unfold isKnown at known
  unfold sexpr
  cases checked : t.checkKinds with
  | error v => simp [checked, Except.isOk, Except.toBool] at known
  | ok _ => rfl

/-- The text of a tree whose form is plain is read back as the form. -/
theorem Tree.read_sexpr {t : Tree} (known : t.isKnown = true) {withTrivia : Bool}
    (plain : (t.form withTrivia).isPlain = true) (indent : Bool) :
    ∃ text, t.sexpr withTrivia indent = .ok text ∧ Form.read text = some (t.form withTrivia) := by
  refine ⟨_, Tree.sexpr_of_isKnown known withTrivia indent, ?_⟩
  cases indent with
  | true => exact Form.read_indented plain Form.Style.spaced_usual 0
  | false => exact Form.read_compact plain

/-- Both texts of a tree are read back as its form, in every layout whose levels are indented by
spaces. An indented text with its lines joined is what a line that is wide enough takes. -/
theorem Tree.sexpr_denotes_form (t : Tree) (known : t.isKnown = true)
    (syntactic : t.Everywhere fun u => ∀ value, u ≠ .foreign value) (withTrivia : Bool) :
    (∀ (style : Form.Style) (depth : Int), style.Spaced →
      Form.read ((t.form withTrivia).indented style depth) = some (t.form withTrivia) ∧
      ∃ enough : Int, ∀ width, enough ≤ width →
        (t.form withTrivia).indented { style with width } depth =
          Form.unwrap ((t.form withTrivia).indented style depth)) ∧
    Form.read (t.form withTrivia).compact = some (t.form withTrivia) ∧
    ∀ indent, ∃ text, t.sexpr withTrivia indent = .ok text ∧
      Form.read text = some (t.form withTrivia) := by
  have plain := Tree.form_isPlain withTrivia known syntactic
  refine ⟨fun style depth spaced => ⟨Form.read_indented plain spaced depth, ?_⟩,
    Form.read_compact plain, Tree.read_sexpr known plain⟩
  rw [Form.unwrap_indented plain spaced depth]
  exact Form.indented_wide style plain depth

/-- A `return` with a comment behind it, and with a text that has to be escaped. -/
theorem Tree.sexpr_denotes_form_of_returned :
    let word : Token := { Token.ofText (.keyword .returnWord) "return" 0 with
      trailing := [⟨.blockComment, "/* \"\\\" */"⟩] }
    let t := Tree.layout .returnStmt [("returnKeyword", .token word),
      ("expression", .token (.ofText .string "\"\t\\n\"" 15))]
    (∀ depth, Form.read ((t.form true).indented ⟨0, "    "⟩ depth) = some (t.form true)) ∧
      ∀ indent, ∃ text, t.sexpr true indent = .ok text ∧
        Form.read text = some (t.form true) := by
  intro word t
  have spaced : Form.Style.Spaced ⟨0, "    "⟩ := by
    intro c mem
    simpa using mem
  have syntactic : t.Everywhere fun u => ∀ value, u ≠ .foreign value := by
    refine ⟨?_, ?_, ?_, trivial⟩ <;> rintro _ ⟨⟩
  obtain ⟨indented, _, both⟩ := Tree.sexpr_denotes_form t (by decide) syntactic true
  exact ⟨fun depth => (indented _ depth spaced).1, both⟩

end SyntaxAtlas
