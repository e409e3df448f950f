-- Every alternative of every rule can be built. The slots that a form of a kind
-- fills are known from the form alone, so one look at the grammar and the
-- catalog shows that no child is left over and none changes its place.

import SyntaxAtlas.Parse
import SyntaxAtlas.Proofs.Lists

namespace SyntaxAtlas

/-! ## One rule -/

/-- A token as its terminal and text alone make it. -/
def Token.plain (t : Token) : Token := { t with kind := .ofTerminal t.terminal t.text }

def Symbol.isRepetition : Symbol → Bool
  | .rule (.repetition _) => true
  | _ => false

namespace Tree

/-- Trees that stand for a symbol: those of one block or more for a repetition,
otherwise a single one. -/
def ShowAll : Symbol → List Tree → Prop
  | .rule (.repetition r), ts =>
    ∃ n, List.Forall₂ Shows (List.replicate (n + 1) ((Grammar.repeated r).map Symbol.heads)).flatten ts
  | s, ts => List.Forall₂ Shows [s.heads] ts

theorem showAll_single {s : Symbol} {ts : List Tree} (single : s.isRepetition = false) :
    ShowAll s ts ↔ ∃ t, ts = [t] ∧ t.Shows s.heads := by
  have : ShowAll s ts ↔ List.Forall₂ Shows [s.heads] ts := by
    unfold ShowAll
    split
    · simp [Symbol.isRepetition] at single
    · rfl
  rw [this]
  constructor
  · rintro (_ | ⟨shows, _ | _⟩)
    exact ⟨_, rfl, shows⟩
  · rintro ⟨t, rfl, shows⟩
    exact .cons shows .nil

/-- Without repetitions there is one tree for each symbol of a body. -/
theorem shows_body {body : List Symbol} {tss : List (List Tree)}
    (single : ∀ s ∈ body, s.isRepetition = false) (shows : List.Forall₂ ShowAll body tss) :
    List.Forall₂ Shows (body.map Symbol.heads) tss.flatten := by
  induction shows with
  | nil => exact .nil
  | @cons s ts body tss first _ ih =>
    obtain ⟨t, rfl, shown⟩ := (showAll_single (single s (by simp))).1 first
    exact .cons shown (ih fun s' hs => single s' (List.mem_cons_of_mem _ hs))

/-- A tree that a kind builds from children: it is good, it is of that kind, and
it keeps the tokens. -/
structure BuiltFrom (kind : Kind) (ts : List Tree) (t : Tree) : Prop where
  good : t.Good
  head : t.head = some (.rule (.node kind))
  tokens : t.tokens.map Token.plain = (itemTokens ts).map Token.plain

/-! ### Layouts -/

/-- The kinds whose children only have to go into the slots of the kind. -/
def isPlainLayout (kind : Kind) : Bool :=
  kind.isLayout && kind != .sourceFile && kind != .stringLiteralExpr

/-- The children of a form go into slots, and none into that of a separator. -/
def formFits (kind : Kind) (body : List Symbol) : Bool :=
  (assign kind.slots (body.map Symbol.heads)).any fun chosen =>
    chosen.all fun slot => !separators.contains slot.name

/-- Grammar and catalog agree on every form of a layout. -/
theorem formFits_of_layout : ∀ kind ∈ Kind.registered, isPlainLayout kind = true →
    ∀ body ∈ Grammar.forms kind, formFits kind body = true ∧
      (∀ s ∈ body, s.isRepetition = false) ∧ kind ≠ .sequenceExpr := by
  decide

/-- Children that have slots of their own make a good node, and keep their order. -/
theorem layout_of_assign {kind : Kind} {chosen : List Slot} {heads : List (List Symbol)}
    {ts : List Tree} (isLayout : kind.isLayout = true) (notSequence : kind ≠ .sequenceExpr)
    (assigned : assign kind.slots heads = some chosen)
    (room : ∀ slot ∈ chosen, slot.name ∉ separators) (shows : List.Forall₂ Shows heads ts) :
    buildLayout kind ts = .ok (layout kind ((chosen.map (·.name)).zip ts)) ∧
      (layout kind ((chosen.map (·.name)).zip ts)).Good ∧
      (layout kind ((chosen.map (·.name)).zip ts)).tokens = itemTokens ts := by
  obtain ⟨category, described⟩ := describe_of_isLayout isLayout
  obtain ⟨filled, sub, admits⟩ := fillSlots_of_assign kind 0 assigned shows
  have length : (chosen.map (·.name)).length = ts.length := by simp [admits.length_eq]
  refine ⟨?_, ?_, ?_⟩
  · simp [buildLayout, Kind.catalogued, described, Shape.slots, filled, bind, Except.bind, pure,
      Except.pure]
  · refine good_layout described sub room admits ?_ (alternates_of_ne _ _ _ notSequence)
    intro t ht
    obtain ⟨_, _, shown⟩ := exists_of_forall₂ shows t ht
    exact shown.1.sound
  · have children := children_layout isLayout length
    simp only [layout, layoutAt] at children ⊢
    rw [tokens_node, children]

theorem buildLayout_of_form {kind : Kind} {body : List Symbol} {ts : List Tree}
    (registered : kind ∈ Kind.registered) (plain : isPlainLayout kind = true)
    (form : body ∈ Grammar.forms kind)
    (shows : List.Forall₂ Shows (body.map Symbol.heads) ts) :
    ∃ t, buildLayout kind ts = .ok t ∧ BuiltFrom kind ts t := by
  obtain ⟨fits, _, notSequence⟩ := formFits_of_layout kind registered plain body form
  have isLayout : kind.isLayout = true := by
    simp only [isPlainLayout, Bool.and_eq_true] at plain
    exact plain.1.1
  obtain ⟨chosen, assigned, room⟩ := (Option.any_eq_true _ _).1 fits
  have room' : ∀ slot ∈ chosen, slot.name ∉ separators := by
    intro slot hslot
    simpa using List.all_eq_true.1 room slot hslot
  obtain ⟨built, good, tokens⟩ := layout_of_assign isLayout notSequence assigned room' shows
  exact ⟨_, built, good, rfl, by rw [tokens]⟩

/-- A kind that needs nothing more is built by its shape. -/
theorem buildKind_eq_buildByShape {kind : Kind} (notFile : kind ≠ .sourceFile)
    (notPrefix : kind ≠ .prefixOperatorExpr) (notString : kind ≠ .stringLiteralExpr)
    (unseparated : separatorSlot? kind = none) (ts : List Tree) :
    buildKind kind ts = buildByShape kind ts := by
  unfold buildKind
  split
  · contradiction
  · contradiction
  · contradiction
  · rw [unseparated]

theorem buildKind_layout {kind : Kind} (plain : isPlainLayout kind = true)
    (notPrefix : kind ≠ .prefixOperatorExpr) (ts : List Tree) :
    buildKind kind ts = buildLayout kind ts := by
  simp only [isPlainLayout, Bool.and_eq_true, bne_iff_ne] at plain
  obtain ⟨⟨isLayout, notFile⟩, notString⟩ := plain
  have unseparated : separatorSlot? kind = none := by
    unfold separatorSlot?
    split <;> first | rfl | simp [Kind.isLayout, Catalog.describe] at isLayout
  obtain ⟨category, described⟩ := describe_of_isLayout isLayout
  rw [buildKind_eq_buildByShape notFile notPrefix notString unseparated]
  simp [buildByShape, Kind.catalogued, described]

theorem shows_markPrefix {t : Tree} (h : t.Shows [.terminal .operator]) :
    t.markPrefix.Shows [.terminal .operator] ∧
      t.markPrefix.tokens.map Token.plain = t.tokens.map Token.plain := by
  obtain ⟨good, s, hs, head⟩ := h
  obtain rfl := List.mem_singleton.1 hs
  cases t with
  | node kind slots items state => simp [Tree.head] at head
  | foreign value => simp [Tree.head] at head
  | token u =>
    have operator : u.terminal = .operator := by simpa [Tree.head] using head
    refine ⟨⟨⟨⟨Or.inr ⟨operator, rfl⟩, trivial⟩, ?_⟩, _, hs, head⟩, rfl⟩
    intro kind slots items state same
    cases same

/-- The operator in front of an operand is marked, and stays the same token. -/
theorem buildKind_prefixOperator {ts : List Tree}
    (shows : List.Forall₂ Shows
      [[.terminal .operator], Symbol.heads (.rule (.group .prefixExpr))] ts) :
    ∃ t, buildKind .prefixOperatorExpr ts = .ok t ∧ BuiltFrom .prefixOperatorExpr ts t := by
  rcases shows with _ | ⟨operator, _ | ⟨operand, _ | _⟩⟩
  rename_i op x
  obtain ⟨marked, same⟩ := shows_markPrefix operator
  have registered : Kind.prefixOperatorExpr ∈ Kind.registered := by decide
  obtain ⟨t, built, from'⟩ := buildLayout_of_form registered (by decide)
    (List.mem_singleton_self _) (.cons marked (.cons operand .nil))
  refine ⟨t, built, from'.good, from'.head, ?_⟩
  rw [from'.tokens]
  simp [itemTokens, same]

/-! ### Lists -/

/-- A list of elements without separators. -/
theorem builtFrom_collection {kind element : Kind} {category : Category} {ts : List Tree}
    (described : Catalog.describe kind = some (category, .collection element.name))
    (elements : ∀ t ∈ ts, t.Sound ∧ t.head = some (.rule (.node element))) :
    BuiltFrom kind ts (collection kind ts) := by
  refine ⟨?_, rfl, ?_⟩
  · exact good_collection described fun t ht =>
      ⟨(elements t ht).1, isElement_of_head (elements t ht).2⟩
  · have notLayout : kind.isLayout = false := by simp [Kind.isLayout, described]
    simp [collection, tokens_node, children, notLayout]

/-- The lists with separators. -/
def listForm? : Kind → Option ListForm
  | .patternBindingList =>
    some ⟨.patternBinding, .morePatternBindings, .comma, "trailingComma"⟩
  | .functionParameterList =>
    some ⟨.functionParameter, .moreFunctionParameters, .comma, "trailingComma"⟩
  | .enumCaseElementList =>
    some ⟨.enumCaseElement, .moreEnumCaseElements, .comma, "trailingComma"⟩
  | .importPathComponentList =>
    some ⟨.importPathComponent, .morePathComponents, .period, "trailingPeriod"⟩
  | .conditionElementList => some ⟨.conditionElement, .moreConditions, .comma, "trailingComma"⟩
  | .labeledExprList => some ⟨.labeledExpr, .moreLabeledExprs, .comma, "trailingComma"⟩
  | .arrayElementList => some ⟨.arrayElement, .moreArrayElements, .comma, "trailingComma"⟩
  | _ => none

/-- Grammar and catalog agree on the lists with separators. -/
theorem listForm?_facts : ∀ kind ∈ Kind.registered, ∀ f ∈ listForm? kind,
    f.element.isLayout = true ∧ f.element.slots = f.element.slots.dropLast ++ [f.lastSlot] ∧
      (f.element.slots.map (·.name)).Nodup ∧ f.slot ∈ separators ∧
      Grammar.repeated f.more = [.terminal (.mark f.mark), .rule (.node f.element)] ∧
      f.element ≠ .sequenceExpr ∧ separatorSlot? kind = some f.slot ∧
      Catalog.describe kind = some (.collection, .collection f.element.name) ∧
      ∀ body ∈ Grammar.forms kind, body = [] ∨ body ∈ Grammar.separated f.element f.more := by
  decide

theorem ListForm.fits_of_mem {kind : Kind} {f : ListForm} (registered : kind ∈ Kind.registered)
    (form : listForm? kind = some f) : f.Fits := by
  obtain ⟨isLayout, last, nodup, separator, repeated, notSequence, _⟩ :=
    listForm?_facts kind registered f form
  exact ⟨isLayout, last, nodup, separator, repeated, notSequence⟩

/-- The children of a list with separators: none, or an element and more of them
each behind a mark. -/
theorem shows_separated {kind : Kind} {f : ListForm} {body : List Symbol} {tss : List (List Tree)}
    (registered : kind ∈ Kind.registered) (form : listForm? kind = some f)
    (hbody : body ∈ Grammar.forms kind) (shows : List.Forall₂ ShowAll body tss) :
    tss.flatten = [] ∨ ∃ n, List.Forall₂ Shows ([.rule (.node f.element)] ::
      (List.replicate n [[.terminal (.mark f.mark)], [.rule (.node f.element)]]).flatten)
      tss.flatten := by
  obtain ⟨_, _, _, _, repeated, _, _, _, forms⟩ := listForm?_facts kind registered f form
  have pair : ((Grammar.repeated f.more).map Symbol.heads) =
      [[.terminal (.mark f.mark)], [.rule (.node f.element)]] := by rw [repeated]; rfl
  rcases forms body hbody with rfl | hbody
  · cases shows
    exact Or.inl rfl
  · right
    rcases List.mem_cons.1 hbody with rfl | hbody
    · rcases shows with _ | ⟨first, _ | ⟨⟨n, more⟩, _ | _⟩⟩
      obtain ⟨t, rfl, shown⟩ := (showAll_single rfl).1 first
      rw [pair] at more
      have children : ∀ ts : List Tree, [[t], ts].flatten = t :: ts := by simp
      rw [children]
      exact ⟨n + 1, .cons shown more⟩
    · obtain rfl := List.mem_singleton.1 hbody
      rcases shows with _ | ⟨first, _ | _⟩
      obtain ⟨t, rfl, shown⟩ := (showAll_single rfl).1 first
      exact ⟨0, .cons shown .nil⟩

theorem buildKind_of_separatorSlot {kind : Kind} {slot : String}
    (h : separatorSlot? kind = some slot) (ts : List Tree) :
    buildKind kind ts = buildSeparated kind slot ts := by
  unfold buildKind
  split
  · cases h
  · cases h
  · cases h
  · rw [h]

theorem buildKind_separated {kind : Kind} {f : ListForm} {body : List Symbol}
    {tss : List (List Tree)} (registered : kind ∈ Kind.registered)
    (form : listForm? kind = some f) (hbody : body ∈ Grammar.forms kind)
    (shows : List.Forall₂ ShowAll body tss) :
    ∃ t, buildKind kind tss.flatten = .ok t ∧ BuiltFrom kind tss.flatten t := by
  obtain ⟨_, _, _, _, _, _, slot, described, _⟩ := listForm?_facts kind registered f form
  rw [buildKind_of_separatorSlot slot]
  rcases shows_separated registered form hbody shows with none | ⟨n, shown⟩
  · rw [none]
    exact ⟨collection kind [], rfl, builtFrom_collection described (by simp)⟩
  · generalize tss.flatten = ts at shown
    rcases shown with _ | ⟨⟨good, s, hs, head⟩, more⟩
    rename_i first rest
    obtain rfl := List.mem_singleton.1 hs
    have none : ∀ e ∈ ([] : List Tree), e.Sound ∧ e.head = some (.rule (.node f.element)) := by
      simp
    obtain ⟨es, folded, same, elements⟩ := foldlM_addSeparated
      (ListForm.fits_of_mem registered form) kind none good head more
    have notToken : first.isToken = false := by
      cases first with
      | token u => simp [Tree.head] at head
      | node kind slots items state => rfl
      | foreign value => rfl
    have built := builtFrom_collection described elements
    refine ⟨collection kind es, ?_, built.good, rfl, ?_⟩
    · have start : addSeparated kind f.slot [] first = .ok [first] := by
        simp [addSeparated, notToken]
      simp only [buildSeparated, List.foldlM_cons, start, bind, Except.bind]
      simp only [List.nil_append] at folded
      rw [folded]
      rfl
    · rw [built.tokens, same]
      rfl

/-- The lists without separators: their elements, and what repeats them. -/
def plainList? : Kind → Option (Kind × Repetition)
  | .codeBlockItemList => some (.codeBlockItem, .codeBlockItems)
  | .declModifierList => some (.declModifier, .declModifiers)
  | .memberBlockItemList => some (.memberBlockItem, .memberBlockItems)
  | _ => none

/-- Grammar and catalog agree on the lists without separators. -/
theorem plainList?_facts : ∀ kind ∈ Kind.registered, ∀ l ∈ plainList? kind,
    Catalog.describe kind = some (.collection, .collection l.1.name) ∧
      Grammar.repeated l.2 = [.rule (.node l.1)] ∧
      (kind ≠ .sourceFile ∧ kind ≠ .prefixOperatorExpr ∧ kind ≠ .stringLiteralExpr ∧
        separatorSlot? kind = none) ∧
      ∀ body ∈ Grammar.forms kind, body = [.rule (.repetition l.2)] ∨ body = [] := by
  decide

theorem buildKind_plainList {kind element : Kind} {r : Repetition} {body : List Symbol}
    {tss : List (List Tree)} (registered : kind ∈ Kind.registered)
    (form : plainList? kind = some (element, r)) (hbody : body ∈ Grammar.forms kind)
    (shows : List.Forall₂ ShowAll body tss) :
    ∃ t, buildKind kind tss.flatten = .ok t ∧ BuiltFrom kind tss.flatten t := by
  obtain ⟨described, repeated, ⟨notFile, notPrefix, notString, unseparated⟩, forms⟩ :=
    plainList?_facts kind registered _ form
  have elements : ∀ t ∈ tss.flatten, t.Sound ∧ t.head = some (.rule (.node element)) := by
    rcases forms body hbody with rfl | rfl
    · rcases shows with _ | ⟨⟨n, all⟩, _ | _⟩
      rename_i ts
      intro t ht
      have flat : [ts].flatten = ts := by simp
      rw [repeated] at all
      obtain ⟨h, hh, good, s, hs, head⟩ := exists_of_forall₂ all t (flat ▸ ht)
      obtain ⟨block, hblock, hh⟩ := List.mem_flatten.1 hh
      obtain rfl := List.eq_of_mem_replicate hblock
      obtain rfl := List.mem_singleton.1 hh
      obtain rfl := List.mem_singleton.1 hs
      exact ⟨good.sound, head⟩
    · cases shows
      simp
  refine ⟨collection kind tss.flatten, ?_, builtFrom_collection described elements⟩
  rw [buildKind_eq_buildByShape notFile notPrefix notString unseparated]
  simp [buildByShape, Kind.catalogued, described]

/-! ### Choices -/

/-- What a choice chooses from. -/
def choicesOf (kind : Kind) : List Accept :=
  match Catalog.describe kind with
  | some (_, .choice alternatives) => alternatives
  | _ => []

/-- Grammar and catalog agree on the choices. -/
theorem choicesOf_facts : ∀ kind ∈ [Kind.condition, .elseBody],
    Catalog.describe kind = some (.other, .choice (choicesOf kind)) ∧
      (kind ≠ .sourceFile ∧ kind ≠ .prefixOperatorExpr ∧ kind ≠ .stringLiteralExpr ∧
        separatorSlot? kind = none) ∧
      ∀ body ∈ Grammar.forms kind, ∃ s ∈ body, body = [s] ∧ s.isRepetition = false ∧
        s.heads.all (Slot.takes ⟨kind.name, choicesOf kind⟩) = true := by
  decide

theorem buildKind_choice {kind : Kind} {body : List Symbol} {tss : List (List Tree)}
    (isChoice : kind ∈ [Kind.condition, .elseBody]) (hbody : body ∈ Grammar.forms kind)
    (shows : List.Forall₂ ShowAll body tss) :
    ∃ t, buildKind kind tss.flatten = .ok t ∧ BuiltFrom kind tss.flatten t := by
  obtain ⟨described, ⟨notFile, notPrefix, notString, unseparated⟩, forms⟩ :=
    choicesOf_facts kind isChoice
  obtain ⟨s, _, rfl, single, takes⟩ := forms body hbody
  rcases shows with _ | ⟨first, _ | _⟩
  obtain ⟨t, rfl, shown⟩ := (showAll_single single).1 first
  have notLayout : kind.isLayout = false := by simp [Kind.isLayout, described]
  refine ⟨choice kind t, ?_, good_choice described shown.1.sound (shown.admits takes), rfl, ?_⟩
  · rw [buildKind_eq_buildByShape notFile notPrefix notString unseparated]
    simp [buildByShape, Kind.catalogued, described]
  · simp [choice, tokens_node, children, notLayout]

/-! ### All rules -/

/-- The kinds that are built with a token more or a token cut. -/
def isSpecial (kind : Kind) : Bool := kind == .sourceFile || kind == .stringLiteralExpr

/-- Every kind that the grammar makes is of one of these sorts. -/
theorem kind_cases : ∀ kind ∈ Kind.registered, isSpecial kind = false → Grammar.forms kind ≠ [] →
    isPlainLayout kind = true ∨ (listForm? kind).isSome ∨ (plainList? kind).isSome ∨
      kind ∈ [Kind.condition, .elseBody] := by
  decide

theorem registered_of_form {kind : Kind} {body : List Symbol} (h : body ∈ Grammar.forms kind) :
    kind ∈ Kind.registered := by
  cases kind with
  | unregistered name => simp [Grammar.forms] at h
  | _ => decide

/-- The rule of a kind always builds a node of that kind. -/
theorem buildKind_of_form {kind : Kind} {body : List Symbol} {tss : List (List Tree)}
    (plain : isSpecial kind = false) (hbody : body ∈ Grammar.forms kind)
    (shows : List.Forall₂ ShowAll body tss) :
    ∃ t, buildKind kind tss.flatten = .ok t ∧ BuiltFrom kind tss.flatten t := by
  have registered := registered_of_form hbody
  rcases kind_cases kind registered plain (List.ne_nil_of_mem hbody) with
    isLayout | isList | isList | isChoice
  · obtain ⟨_, single, _⟩ := formFits_of_layout kind registered isLayout body hbody
    have shown := shows_body single shows
    by_cases isPrefix : kind = .prefixOperatorExpr
    · subst isPrefix
      obtain rfl := List.mem_singleton.1 hbody
      exact buildKind_prefixOperator shown
    · rw [buildKind_layout isLayout isPrefix]
      exact buildLayout_of_form registered isLayout hbody shown
  · obtain ⟨f, form⟩ := Option.isSome_iff_exists.1 isList
    exact buildKind_separated registered form hbody shows
  · obtain ⟨⟨element, r⟩, form⟩ := Option.isSome_iff_exists.1 isList
    exact buildKind_plainList registered form hbody shows
  · exact buildKind_choice isChoice hbody shows

/-- A choice without a node of its own is what it chooses. -/
theorem group_facts : ∀ g ∈ Grammar.groups, ∀ s ∈ Grammar.choices g,
    s.isRepetition = false ∧ ∀ h ∈ s.heads, h ∈ Symbol.heads (.rule (.group g)) := by
  decide

theorem repeated_single : ∀ r ∈ Grammar.repetitions, ∀ s ∈ Grammar.repeated r,
    s.isRepetition = false := by
  decide

/-- One more block of a repetition. -/
theorem showAll_repetition {r : Repetition} {body : List Symbol} {tss : List (List Tree)}
    (hbody : body ∈ Grammar.alternatives (.repetition r)) (shows : List.Forall₂ ShowAll body tss) :
    ShowAll (.rule (.repetition r)) tss.flatten := by
  have single : ∀ s ∈ Grammar.repeated r, s.isRepetition = false :=
    repeated_single r (by cases r <;> decide)
  rcases List.mem_cons.1 hbody with rfl | hbody
  · exact ⟨0, by simpa using shows_body single shows⟩
  · obtain rfl := List.mem_singleton.1 hbody
    rcases shows with _ | ⟨⟨n, before⟩, block⟩
    refine ⟨n + 1, ?_⟩
    rw [List.replicate_succ', List.flatten_append, List.flatten_cons]
    exact List.rel_append before (by simpa using shows_body single block)

/-- An expression is its only operand, or a sequence of operands and operators. -/
theorem showAll_expression {body : List Symbol} {tss : List (List Tree)}
    (hbody : body ∈ Grammar.alternatives .expression) (shows : List.Forall₂ ShowAll body tss) :
    (buildExpression tss.flatten).Shows (Symbol.heads (.rule .expression)) ∧
      (buildExpression tss.flatten).tokens = itemTokens tss.flatten := by
  have widen : ∀ s ∈ Symbol.heads (.rule (.group .prefixExpr)),
      s ∈ Symbol.heads (.rule .expression) := by decide
  rcases List.mem_cons.1 hbody with rfl | hbody
  · rcases shows with _ | ⟨first, _ | ⟨⟨n, more⟩, _ | _⟩⟩
    obtain ⟨t, rfl, shown⟩ := (showAll_single rfl).1 first
    obtain ⟨run, rfl, length, all⟩ := run_of_shows more
    have nonempty : run ≠ [] := List.ne_nil_of_length_eq_add_one length
    have built : buildExpression [[t], run.flatMap fun entry => [entry.1, entry.2]].flatten =
        layout .sequenceExpr [("elements", collection .exprList (alternated t run))] := by
      obtain ⟨entry, rest, rfl⟩ := List.exists_cons_of_ne_nil nonempty
      simp [buildExpression, alternated]
    rw [built]
    refine ⟨⟨good_sequence nonempty shown all, .rule (.node .sequenceExpr), by decide, rfl⟩, ?_⟩
    simp [layout, layoutAt, collection, alternated, Tree.tokens, slotTokens, Kind.isLayout,
      Catalog.describe]
  · obtain rfl := List.mem_singleton.1 hbody
    rcases shows with _ | ⟨first, _ | _⟩
    obtain ⟨t, rfl, shown⟩ := (showAll_single rfl).1 first
    exact ⟨shown.mono widen, by simp [buildExpression, itemTokens]⟩

/-- The children of a rule always make what the rule stands for, and the tokens
stay as they are. -/
theorem buildNode_of_alternative {rule : Rule} {body : List Symbol} {tss : List (List Tree)}
    (notStart : rule ≠ .start) (plain : ∀ kind, rule = .node kind → isSpecial kind = false)
    (hbody : body ∈ Grammar.alternatives rule) (shows : List.Forall₂ ShowAll body tss) :
    ∃ ts, ParseTree.buildNode rule tss.flatten = .ok ts ∧ ShowAll (.rule rule) ts ∧
      (itemTokens ts).map Token.plain = (itemTokens tss.flatten).map Token.plain := by
  cases rule with
  | start => exact absurd rfl notStart
  | node kind =>
    obtain ⟨t, built, good, head, tokens⟩ := buildKind_of_form (plain kind rfl) hbody shows
    refine ⟨[t], by simp [ParseTree.buildNode, built, Except.map], ?_, ?_⟩
    · exact (showAll_single rfl).2 ⟨t, rfl, good, _, List.mem_singleton_self _, head⟩
    · simpa [itemTokens] using tokens
  | expression =>
    obtain ⟨shown, tokens⟩ := showAll_expression hbody shows
    refine ⟨_, rfl, (showAll_single rfl).2 ⟨_, rfl, shown⟩, ?_⟩
    simp [itemTokens, tokens]
  | group g =>
    obtain ⟨s, hs, rfl⟩ := List.mem_map.1 hbody
    obtain ⟨single, widen⟩ := group_facts g (by cases g <;> decide) s hs
    rcases shows with _ | ⟨first, _ | _⟩
    obtain ⟨t, rfl, shown⟩ := (showAll_single single).1 first
    exact ⟨_, rfl, (showAll_single rfl).2 ⟨t, rfl, shown.mono widen⟩, rfl⟩
  | repetition r => exact ⟨_, rfl, showAll_repetition hbody shows, rfl⟩

/-! ### Strings and whole files -/

theorem shows_token {u : Token} (kind : u.plain = u) :
    (Tree.token u).Shows [.terminal u.terminal] := by
  have fits : u.KindFits := Or.inl (congrArg Token.kind kind.symm)
  refine ⟨⟨⟨fits, trivial⟩, ?_⟩, _, List.mem_singleton_self _, rfl⟩
  intro kind slots items state same
  cases same

/-- A string token becomes a literal of its three parts. -/
theorem good_stringLiteral (u : Token) :
    (stringLiteral u).Good ∧ (stringLiteral u).tokens =
      [u.splitString.1, u.splitString.2.1, u.splitString.2.2] := by
  obtain ⟨_, segment, segmentTokens⟩ := layout_of_assign
    (show Kind.stringSegment.isLayout = true by decide) (by decide)
    (show assign Kind.stringSegment.slots [[.terminal .stringSegment]] =
      some Kind.stringSegment.slots by decide) (by decide)
    (.cons (shows_token (show u.splitString.2.1.plain = _ from rfl)) .nil)
  have described : Catalog.describe .stringLiteralSegmentList =
      some (.collection, .collection "StringSegment") := rfl
  have list := good_collection described (fun t ht => by
    obtain rfl := List.mem_singleton.1 ht
    exact ⟨segment.sound, Or.inl rfl⟩)
  obtain ⟨_, literal, literalTokens⟩ := layout_of_assign
    (show Kind.stringLiteralExpr.isLayout = true by decide) (by decide)
    (show assign Kind.stringLiteralExpr.slots [[.terminal .stringQuote],
        [.rule (.node .stringLiteralSegmentList)], [.terminal .stringQuote]] =
      some Kind.stringLiteralExpr.slots by decide) (by decide)
    (.cons (shows_token (show u.splitString.1.plain = _ from rfl))
      (.cons ⟨list, _, List.mem_singleton_self _, rfl⟩
        (.cons (shows_token (show u.splitString.2.2.plain = _ from rfl)) .nil)))
  exact ⟨literal, literalTokens⟩

/-- A whole file is its statements and the token at its end. -/
theorem buildKind_sourceFile {statements : Tree}
    (shown : statements.Shows [.rule (.node .codeBlockItemList)]) :
    ∃ root, buildKind .sourceFile [statements] = .ok root ∧ root.Sound ∧
      root.head = some (.rule (.node .sourceFile)) ∧ root.tokens = statements.tokens ++ [.endOfFile] := by
  have notVacant : statements.isVacant = false := by
    obtain ⟨_, _, _, head⟩ := shown
    cases statements with
    | foreign value => simp [Tree.head] at head
    | token u => rfl
    | node kind slots items state => rfl
  obtain ⟨_, good, tokens⟩ := layout_of_assign
    (show Kind.sourceFile.isLayout = true by decide) (by decide)
    (show assign Kind.sourceFile.slots [[.rule (.node .codeBlockItemList)],
      [.terminal .endOfFile]] = some Kind.sourceFile.slots by decide) (by decide)
    (.cons shown (.cons (shows_token (show Token.endOfFile.plain = _ from rfl)) .nil))
  refine ⟨_, ?_, good.sound, rfl, tokens.trans (by simp [itemTokens, Tree.tokens])⟩
  simp only [buildKind, single, bind, Except.bind, pure, Except.pure, notVacant,
    Bool.false_eq_true, if_false]
  rfl

end Tree

end SyntaxAtlas
