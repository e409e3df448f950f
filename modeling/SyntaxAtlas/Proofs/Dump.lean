-- What the S-expression of a tree with trivia tells of its source: everything. The form of a tree
-- has the forms of its tokens in order, and the form of a token gives its text and its trivia, as
-- a piece that is only counted is a run of one unit.

import SyntaxAtlas.Proofs.Belonging
import SyntaxAtlas.Proofs.Conforming
import SyntaxAtlas.Proofs.Forms
import SyntaxAtlas.Proofs.Interchange
import SyntaxAtlas.Proofs.Listings

namespace SyntaxAtlas

/-! ## The pieces of tokens -/

/-- The tokens of a parsed source write it, and the trivia of each is of uniform pieces. -/
theorem parse_uniform {budget : Nat} {file source : String} {p : Parsed}
    (parsed : parse budget file source = .ok p) :
    written p.root.tokens = source.toList ∧
      ∀ u ∈ p.root.tokens, u.isMissing = false → ∀ q ∈ u.leading ++ u.trailing, q.Uniform := by
  obtain ⟨ts, dropped, spells, tokens⟩ := parse_spells parsed
  rw [tokens]
  exact ⟨written_attach (toList_split dropped) spells,
    ((belonging_attach spells).pieces (Trivia.split_uniform dropped)).2⟩

/-! ## Descriptions of pieces -/

theorem jsonQuoted_injective {s t : String} (same : Text.jsonQuoted s = Text.jsonQuoted t) :
    s = t := by
  have texts := congrArg String.toList same
  rw [JsonText.toList_jsonQuoted, JsonText.toList_jsonQuoted, List.cons.injEq] at texts
  have read := JsonText.characters_quoted s.toList []
  rw [texts.2] at read
  exact String.toList_inj.1 (read.unique (JsonText.characters_quoted t.toList [])).1

theorem TriviaKind.name_injective {k l : TriviaKind} (same : k.name = l.name) : k = l := by
  have own : ∀ k : TriviaKind, TriviaKind.ofName? k.name = some k := by
    intro k
    cases k <;> decide
  rw [← Option.some.injEq, ← own k, ← own l, same]

/-- A description begins with the name of the kind and an opening bracket. -/
theorem TriviaPiece.description_injective {q r : TriviaPiece} (uniform : q.Uniform)
    (uniform' : r.Uniform) (same : q.description = r.description) : q = r := by
  have bracketless : ∀ k : TriviaKind, ∀ c ∈ k.name.toList, (c != '(') = true := by
    intro k
    rw [← List.all_eq_true]
    cases k <;> decide
  have shape : ∀ q : TriviaPiece, q.description.toList = q.kind.name.toList ++
      '(' :: ((if q.kind.isCounted then toString q.count else Text.jsonQuoted q.text).toList
        ++ [')']) := by
    intro q
    simp [description]
  have texts := congrArg String.toList same
  rw [shape, shape] at texts
  obtain ⟨names, contents⟩ := JsonText.run_unique (bracketless q.kind) (bracketless r.kind)
    (by simp) (by simp) texts
  have kinds := TriviaKind.name_injective (String.toList_inj.1 names)
  have content := String.toList_inj.1 (List.append_cancel_right (List.cons.inj contents).2)
  rw [kinds] at content
  obtain ⟨k, text⟩ := q
  obtain ⟨l, text'⟩ := r
  obtain rfl : k = l := kinds
  by_cases counted : k.isCounted = true
  · simp only [counted, if_true] at content
    have counts : TriviaPiece.count ⟨k, text⟩ = TriviaPiece.count ⟨k, text'⟩ := by
      have numbers := congrArg (fun s => Nat.ofDigitChars 10 s.toList 0) content
      simpa [Nat.toString_eq_repr, Nat.toList_repr, Nat.ofDigitChars_ten_toDigits] using numbers
    have texts := uniform counted
    rw [counts, ← uniform' counted] at texts
    exact congrArg (TriviaPiece.mk k) (String.toList_inj.1 texts)
  · simp only [counted, if_false, Bool.false_eq_true] at content
    exact congrArg (TriviaPiece.mk k) (jsonQuoted_injective content)

/-! ## Forms of tokens -/

/-- The form of a token with trivia tells what the token writes. -/
theorem Token.fullText_of_form {t u : Token}
    (uniform : t.isMissing = false → ∀ q ∈ t.leading ++ t.trailing, q.Uniform)
    (uniform' : u.isMissing = false → ∀ q ∈ u.leading ++ u.trailing, q.Uniform)
    (same : t.form true = u.form true) : t.fullText = u.fullText := by
  have pieces : ∀ {ps qs : List TriviaPiece}, (∀ q ∈ ps, q.Uniform) → (∀ q ∈ qs, q.Uniform) →
      (ps.map fun q => Form.text q.description) = (qs.map fun q => Form.text q.description) →
      ps = qs := by
    intro ps
    induction ps with
    | nil =>
      intro qs _ _ same
      exact (List.map_eq_nil_iff.1 same.symm).symm
    | cons q ps ih =>
      intro qs uniform uniform' same
      cases qs with
      | nil => cases same
      | cons r qs =>
        obtain ⟨first, rest⟩ := List.cons.inj same
        rw [TriviaPiece.description_injective (uniform q List.mem_cons_self)
            (uniform' r List.mem_cons_self) (Form.text.inj first),
          ih (fun s mem => uniform s (List.mem_cons_of_mem q mem))
            (fun s mem => uniform' s (List.mem_cons_of_mem r mem)) rest]
  unfold Token.form at same
  by_cases isMissing : t.isMissing = true <;> by_cases isMissing' : u.isMissing = true
  · rw [fullText, if_pos isMissing, fullText, if_pos isMissing']
  · simp [isMissing, isMissing'] at same
  · simp [isMissing, isMissing'] at same
  · have uniform := uniform (by simpa using isMissing)
    have uniform' := uniform' (by simpa using isMissing')
    simp only [isMissing, isMissing', Bool.false_eq_true, if_false, if_true, List.cons_append,
      List.nil_append, Form.list.injEq, List.cons.injEq, Form.text.injEq, and_true, true_and]
      at same
    obtain ⟨_, text, leading, trailing⟩ := same
    have leading := pieces (fun q mem => uniform q (List.mem_append_left _ mem))
      (fun q mem => uniform' q (List.mem_append_left _ mem)) leading
    have trailing := pieces (fun q mem => uniform q (List.mem_append_right _ mem))
      (fun q mem => uniform' q (List.mem_append_right _ mem)) trailing
    rw [fullText, if_neg isMissing, fullText, if_neg isMissing', text, leading, trailing]

/-! ## Forms of trees -/

namespace Form

/-- The form of a token. -/
def isToken : Form → Bool
  | .list (.symbol name :: _) => name == "token"
  | _ => false

mutual

/-- The forms of tokens in a form, in order. -/
def tokenForms : Form → List Form
  | .list items => if (Form.list items).isToken then [.list items] else allTokenForms items
  | _ => []

def allTokenForms : List Form → List Form
  | [] => []
  | f :: rest => f.tokenForms ++ allTokenForms rest

end

theorem tokenForms_symbol (name : String) : (symbol name).tokenForms = [] := by
  simp [tokenForms]

theorem allTokenForms_eq (fs : List Form) : allTokenForms fs = fs.flatMap tokenForms := by
  induction fs with
  | nil => rfl
  | cons f rest ih => rw [allTokenForms, ih, List.flatMap_cons]

end Form

theorem Kind.name_ne_token : ∀ kind ∈ Kind.registered, kind.name ≠ "token" := by
  decide +kernel

namespace Tree

theorem itemTokens_eq (ts : List Tree) : itemTokens ts = ts.flatMap tokens := by
  induction ts with
  | nil => rfl
  | cons t rest ih => rw [itemTokens, ih, List.flatMap_cons]

theorem lookup_slotForms (withTrivia : Bool) (slots : List (String × Tree)) (name : String) :
    (slotForms withTrivia slots).lookup name = (slots.lookup name).map (form withTrivia) := by
  induction slots with
  | nil => rfl
  | cons s rest ih =>
    rw [slotForms, List.lookup_cons, List.lookup_cons, ih]
    cases name == s.1 <;> rfl

/-- The slots of a layout have the forms of the tokens in them. -/
theorem allTokenForms_slotPairs {kind : Kind} {slots : List (String × Tree)}
    (sub : (slots.map (·.1)).Sublist (kind.slots.map (·.name)))
    (nodup : (kind.slots.map (·.name)).Nodup) (withTrivia : Bool) :
    Form.allTokenForms (slotPairs kind (slotForms withTrivia slots)) =
      (slots.map (·.2)).flatMap fun c => (c.form withTrivia).tokenForms := by
  have filled := @filterMap_child? kind slots [] {} _ sub nodup
  rw [← filled, Form.allTokenForms_eq, slotPairs, List.flatMap_assoc, List.filterMap_map]
  simp only [child?]
  induction kind.slots with
  | nil => rfl
  | cons s rest ih =>
    rw [List.flatMap_cons, ih, List.filterMap_cons, lookup_slotForms]
    simp only [Function.comp_apply]
    cases slots.lookup s.name with
    | none => rfl
    | some c => simp [Form.tokenForms]

/-- The form of a tree has the forms of its tokens. -/
theorem tokenForms_form {t : Tree} (fits : t.Everywhere Fits) (withTrivia : Bool) :
    (t.form withTrivia).tokenForms = t.tokens.map (Token.form withTrivia) := by
  induction fits using everywhere_induction with
  | step t here below each =>
    cases t with
    | token t => rfl
    | foreign value => cases here
    | node kind slots items state =>
      have listed : (Tree.node kind slots items state).children.flatMap
            (fun c => (c.form withTrivia).tokenForms) =
          (Tree.node kind slots items state).tokens.map (Token.form withTrivia) := by
        rw [tokens_node, itemTokens_eq, List.map_flatMap]
        exact List.flatMap_congr each
      obtain ⟨e, entry⟩ := catalogued_of_fits here
      have registered := @Kind.mem_registered kind (Option.isSome_iff_exists.2 ⟨e, entry⟩)
      have noToken : ∀ fs, (Form.list (.symbol kind.name :: fs)).isToken = false := fun fs =>
        beq_eq_false_iff_ne.2 (Kind.name_ne_token kind registered)
      rw [← listed, form, Form.tokenForms, noToken, if_neg Bool.false_ne_true, Form.allTokenForms,
        Form.tokenForms_symbol, List.nil_append]
      by_cases layout : kind.isLayout = true
      · rw [if_pos layout, children, if_pos layout]
        refine allTokenForms_slotPairs ?_ (slot_names_nodup kind registered) withTrivia
        rcases described : Catalog.describe kind with _ | ⟨category, shape⟩
        · simp [Fits, described] at here
        cases shape with
        | layout declared =>
          simp only [Fits, described] at here
          simpa only [Kind.slots, described, Shape.slots] using here.2.1
        | choice => simp [Kind.isLayout, described] at layout
        | collection => simp [Kind.isLayout, described] at layout
      · rw [if_neg layout, children, if_neg layout, itemForms_eq, Form.allTokenForms_eq,
          List.flatMap_map]

theorem isKnown_of_fits {t : Tree} (fits : t.Everywhere Fits) : t.isKnown = true := by
  induction fits using everywhere_induction with
  | step t here below each =>
    cases t with
    | token t => rfl
    | foreign value => cases here
    | node kind slots items state =>
      obtain ⟨e, entry⟩ := catalogued_of_fits here
      exact isKnown_node_iff.2 ⟨Option.isSome_iff_exists.2 ⟨e, entry⟩, each⟩

end Tree

/-! ## Dumps of sources -/

theorem written_of_forms {ts us : List Token}
    (uniform : ∀ t ∈ ts, t.isMissing = false → ∀ q ∈ t.leading ++ t.trailing, q.Uniform)
    (uniform' : ∀ u ∈ us, u.isMissing = false → ∀ q ∈ u.leading ++ u.trailing, q.Uniform)
    (same : ts.map (Token.form true) = us.map (Token.form true)) : written ts = written us := by
  induction ts generalizing us with
  | nil => rw [List.map_eq_nil_iff.1 same.symm]
  | cons t ts ih =>
    cases us with
    | nil => cases same
    | cons u us =>
      obtain ⟨first, rest⟩ := List.cons.inj same
      have text := Token.fullText_of_form (uniform t List.mem_cons_self)
        (uniform' u List.mem_cons_self) first
      have texts := ih (fun t mem => uniform t (List.mem_cons_of_mem _ mem))
        (fun u mem => uniform' u (List.mem_cons_of_mem _ mem)) rest
      simp only [written, List.flatMap_cons] at texts ⊢
      rw [text, texts]

/-- Every parsed source has a dump, which is read back as the form of its tree. -/
theorem parse_sexpr {budget : Nat} {file source : String} {p : Parsed}
    (parsed : parse budget file source = .ok p) (withTrivia pretty : Bool) :
    p.root.Everywhere Tree.Fits ∧ ∃ text, p.root.sexpr withTrivia pretty = .ok text ∧
      Form.read text = some (p.root.form withTrivia) := by
  have fits : p.root.Everywhere Tree.Fits := (parse_conforms parsed).1.imp fun _ h => h.fits
  have known := Tree.isKnown_of_fits fits
  have syntactic := fits.imp fun _ h => Tree.isSyntax_of_fits h
  exact ⟨fits, Tree.read_sexpr known (Tree.form_isPlain withTrivia known syntactic) pretty⟩

/-- The dump with trivia of a parsed source determines the source. Every parsed source has one,
indented and on one line, and two sources with the same dump are the same. -/
theorem sexpr_determines_source {budget budget' : Nat} {file file' source source' : String}
    {p p' : Parsed} (parsed : parse budget file source = .ok p)
    (parsed' : parse budget' file' source' = .ok p') (pretty : Bool) :
    ∃ text text', p.root.sexpr true pretty = .ok text ∧ p'.root.sexpr true pretty = .ok text' ∧
      (text = text' → source = source') := by
  obtain ⟨fits, text, dumped, denotes⟩ := parse_sexpr parsed true pretty
  obtain ⟨fits', text', dumped', denotes'⟩ := parse_sexpr parsed' true pretty
  refine ⟨text, text', dumped, dumped', ?_⟩
  rintro rfl
  have forms : p.root.form true = p'.root.form true :=
    Option.some.inj (denotes.symm.trans denotes')
  have tokens : p.root.tokens.map (Token.form true) = p'.root.tokens.map (Token.form true) := by
    rw [← Tree.tokenForms_form fits, ← Tree.tokenForms_form fits', forms]
  obtain ⟨whole, uniform⟩ := parse_uniform parsed
  obtain ⟨whole', uniform'⟩ := parse_uniform parsed'
  rw [← String.toList_inj, ← whole, ← whole']
  exact written_of_forms uniform uniform' tokens

/-- A source that was repaired and one that was not have different dumps, indented and on one
line. -/
theorem sexpr_differs_of_samples :
    ∃ p p', parse 3 standardFile "f($\"a\" ]" = .ok p ∧
      parse 0 standardFile "static variable" = .ok p' ∧
      (∃ text text', p.root.sexpr true true = .ok text ∧ p'.root.sexpr true true = .ok text' ∧
        text ≠ text') ∧
      ∃ text text', p.root.sexpr true false = .ok text ∧ p'.root.sexpr true false = .ok text' ∧
        text ≠ text' := by
  obtain ⟨p, parsed, _⟩ := exists_ok_of_toOption parse_samples.1
  obtain ⟨p', parsed', _⟩ := exists_ok_of_toOption parse_samples.2
  have differ : ∀ pretty, ∃ text text', p.root.sexpr true pretty = .ok text ∧
      p'.root.sexpr true pretty = .ok text' ∧ text ≠ text' := by
    intro pretty
    obtain ⟨text, text', dumped, dumped', determines⟩ :=
      sexpr_determines_source parsed parsed' pretty
    exact ⟨text, text', dumped, dumped', fun same => absurd (determines same) (by decide)⟩
  exact ⟨p, p', parsed, parsed', differ true, differ false⟩

end SyntaxAtlas
