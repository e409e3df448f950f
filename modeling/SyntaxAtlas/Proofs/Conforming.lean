-- The tree of a source conforms to the catalog, as the tree of its derivation does. Trivia
-- and spans come to it later, and they change nothing of what the catalog asks for.

import SyntaxAtlas.Proofs.Narrowing

namespace SyntaxAtlas

/-! ## Trees without their places in the source -/

/-- A token without its place in the source and its trivia. -/
def Token.bare (t : Token) : Token := { t with position := 0, leading := [], trailing := [] }

namespace Tree

mutual

/-- A tree without the places of its nodes and tokens in the source. -/
def bare : Tree → Tree
  | .token u => .token u.bare
  | .node kind slots items state =>
    .node kind (bareSlots slots) (bareItems items) { state with span := {} }
  | .foreign value => .foreign value

def bareSlots : List (String × Tree) → List (String × Tree)
  | [] => []
  | (name, t) :: rest => (name, t.bare) :: bareSlots rest

def bareItems : List Tree → List Tree
  | [] => []
  | t :: rest => t.bare :: bareItems rest

end

theorem bareSlots_eq (slots : List (String × Tree)) :
    bareSlots slots = slots.map fun s => (s.1, s.2.bare) := by
  induction slots with
  | nil => rfl
  | cons slot rest ih => simp [bareSlots, ih]

theorem bareItems_eq (items : List Tree) : bareItems items = items.map bare := by
  induction items with
  | nil => rfl
  | cons t rest ih => simp [bareItems, ih]

theorem children_bare (t : Tree) : t.bare.children = t.children.map bare := by
  cases t with
  | token u => rfl
  | foreign value => rfl
  | node kind slots items state =>
    by_cases layout : kind.isLayout = true
    · simp only [bare, children, layout, if_true, bareSlots_eq, List.map_map]
      rfl
    · simp only [bare, children, layout, Bool.false_eq_true, if_false, bareItems_eq]

theorem head_bare (t : Tree) : t.bare.head = t.head := by
  cases t <;> rfl

/-- What does not look at places holds everywhere in a tree when it does so without them. -/
theorem everywhere_bare {P : Tree → Prop} (same : ∀ t, P t.bare ↔ P t) (t : Tree) :
    t.bare.Everywhere P ↔ t.Everywhere P := by
  induction t using children_induction with
  | step t ih =>
    rw [everywhere_iff, everywhere_iff, same, children_bare]
    simp only [List.forall_mem_map]
    exact and_congr_right fun _ => forall₂_congr ih

mutual

/-- New tokens that differ in their places only leave the rest of a tree as it is. -/
theorem bare_withTokens (t : Tree) (new rest : List Token)
    (same : new.map Token.bare = t.tokens.map Token.bare) :
    (t.withTokens (new ++ rest)).1.bare = t.bare := by
  match t with
  | .token u =>
    obtain ⟨v, rfl, bare⟩ : ∃ v, new = [v] ∧ v.bare = u.bare := by
      simpa [tokens, List.map_eq_singleton_iff] using same
    simp [withTokens, Tree.bare, bare]
  | .foreign value => rfl
  | .node kind slots items state =>
    by_cases layout : kind.isLayout = true
    · simp only [tokens, withTokens, layout, if_true, bare] at same ⊢
      rw [bareSlots_withTokens slots new rest same]
    · simp only [tokens, withTokens, layout, Bool.false_eq_true, if_false, bare] at same ⊢
      rw [bareItems_withTokens items new rest same]

theorem bareSlots_withTokens (slots : List (String × Tree)) (new rest : List Token)
    (same : new.map Token.bare = (slotTokens slots).map Token.bare) :
    bareSlots (slotsWithTokens slots (new ++ rest)).1 = bareSlots slots := by
  match slots with
  | [] => rfl
  | (name, t) :: more =>
    rw [slotTokens, List.map_append] at same
    obtain ⟨first, others, rfl, here, behind⟩ := List.map_eq_append_iff.1 same
    have length : first.length = t.tokens.length := by simpa using congrArg List.length here
    obtain ⟨_, left⟩ := t.withTokens_tokens first (others ++ rest) length
    simp only [slotsWithTokens, List.append_assoc, bareSlots, left,
      bare_withTokens t first (others ++ rest) here, bareSlots_withTokens more others rest behind]

theorem bareItems_withTokens (items : List Tree) (new rest : List Token)
    (same : new.map Token.bare = (itemTokens items).map Token.bare) :
    bareItems (itemsWithTokens items (new ++ rest)).1 = bareItems items := by
  match items with
  | [] => rfl
  | t :: more =>
    rw [itemTokens, List.map_append] at same
    obtain ⟨first, others, rfl, here, behind⟩ := List.map_eq_append_iff.1 same
    have length : first.length = t.tokens.length := by simpa using congrArg List.length here
    obtain ⟨_, left⟩ := t.withTokens_tokens first (others ++ rest) length
    simp only [itemsWithTokens, List.append_assoc, bareItems, left,
      bare_withTokens t first (others ++ rest) here, bareItems_withTokens more others rest behind]

end

mutual

/-- Spans are places, too. -/
theorem bare_place (next : Option Int) (t : Tree) : (t.place next).bare = t.bare := by
  match t with
  | .token u => rfl
  | .foreign value => rfl
  | .node kind slots items state =>
    simp only [place]
    split
    · simp only [bare, bareSlots_place]
    · simp only [bare, bareItems_place]

theorem bareSlots_place (next : Option Int) (slots : List (String × Tree)) :
    bareSlots (placeSlots next slots) = bareSlots slots := by
  match slots with
  | [] => rfl
  | (name, t) :: rest =>
    simp only [placeSlots, bareSlots, bare_place _ t, bareSlots_place next rest]

theorem bareItems_place (next : Option Int) (items : List Tree) :
    bareItems (placeItems next items) = bareItems items := by
  match items with
  | [] => rfl
  | t :: rest =>
    simp only [placeItems, bareItems, bare_place _ t, bareItems_place next rest]

end

/-- A tree with trivia and spans is the tree before, but for the places. -/
theorem bare_attachTrivia_assignSpans (t : Tree) (source : List Char) (cut : Cutter) :
    (t.attachTrivia source cut).assignSpans.bare = t.bare := by
  have same : (Token.attach source cut t.tokens).map Token.bare = t.tokens.map Token.bare := by
    have attached := attach_attached source cut t.tokens
    generalize Token.attach source cut t.tokens = new at attached
    generalize t.tokens = old at attached
    induction attached with
    | nil => rfl
    | cons first _ ih =>
      rw [List.map_cons, List.map_cons, ih]
      simp only [Token.bare, first.terminal, first.kind, first.text, first.presence]
  have bare := bare_withTokens t (Token.attach source cut t.tokens) [] same
  rw [List.append_nil] at bare
  rw [assignSpans, bare_place, attachTrivia, bare]

/-! ## What does not look at places -/

theorem admits_bare (slot : Slot) (t : Tree) : slot.admits t.bare = slot.admits t := by
  cases t <;> rfl

theorem isElement_bare (element : String) (t : Tree) :
    t.bare.IsElement element ↔ t.IsElement element := by
  cases t <;> rfl

theorem fits_bare (t : Tree) : t.bare.Fits ↔ t.Fits := by
  cases t with
  | token u => rfl
  | foreign value => rfl
  | node kind slots items state =>
    simp only [bare, Fits, bareSlots_eq, bareItems_eq]
    rcases Catalog.describe kind with _ | ⟨category, declared | element | alternatives⟩
    · rfl
    · simp only [List.map_eq_nil_iff, List.map_map, Function.comp_def, List.forall_mem_map,
        admits_bare]
    · simp [isElement_bare]
    · simp only [List.map_eq_nil_iff, List.map_eq_singleton_iff]
      refine and_congr_right fun _ => ⟨?_, ?_⟩
      · rintro ⟨_, ⟨t, rfl, rfl⟩, admits⟩
        exact ⟨t, rfl, by rwa [admits_bare] at admits⟩
      · rintro ⟨t, rfl, admits⟩
        exact ⟨_, ⟨t, rfl, rfl⟩, by rwa [admits_bare]⟩

theorem isOperator_bare (t : Tree) : t.bare.IsOperator ↔ t.IsOperator := by
  rcases t with u | ⟨kind, _, _, _⟩ | value
  · rfl
  · cases kind <;> rfl
  · rfl

theorem isOperand_bare (t : Tree) : t.bare.IsOperand ↔ t.IsOperand := by
  rcases t with u | ⟨kind, _, _, _⟩ | value
  · rfl
  · cases kind <;> rfl
  · rfl

theorem map_alternated (first : Tree) (run : List (Tree × Tree)) (f : Tree → Tree) :
    (alternated first run).map f =
      alternated (f first) (run.map fun entry => (f entry.1, f entry.2)) := by
  simp [alternated, List.map_flatMap, List.flatMap_map]

/-- What alternates without places does so with them. -/
theorem exists_alternated {items : List Tree} {first : Tree} {run : List (Tree × Tree)}
    (same : items.map bare = alternated first run) :
    ∃ first' run', items = alternated first' run' ∧ first'.bare = first ∧
      run'.map (fun entry => (entry.1.bare, entry.2.bare)) = run := by
  rcases items with _ | ⟨first', rest⟩
  · cases same
  · rw [List.map_cons, alternated, List.cons.injEq] at same
    obtain ⟨rfl, same⟩ := same
    have even : rest.length % 2 = 0 := by
      have length := congrArg List.length same
      rw [List.length_map, length_alternated] at length
      omega
    obtain ⟨run', rfl⟩ := exists_run even
    refine ⟨first', run', rfl, rfl, ?_⟩
    rw [← runOf_alternated run, ← same, ← runOf_alternated (run'.map _)]
    simp [List.map_flatMap, List.flatMap_map]

theorem alternates_bare (t : Tree) : t.bare.Alternates ↔ t.Alternates := by
  rcases t with u | ⟨kind, slots, items, state⟩ | value
  · rfl
  · by_cases isSequence : kind = .sequenceExpr
    · subst isSequence
      simp only [bare, Alternates, bareSlots_eq]
      constructor
      · rintro ⟨first, run, state', same, nonempty, operand, pairs⟩
        obtain ⟨⟨name, list⟩, rfl, own⟩ := List.map_eq_singleton_iff.1 same
        rw [Prod.mk.injEq] at own
        obtain ⟨rfl, own⟩ := own
        rcases list with u | ⟨kind, slots', items', state''⟩ | value
        · cases own
        · simp only [bare, bareSlots_eq, bareItems_eq, Tree.node.injEq, List.map_eq_nil_iff] at own
          obtain ⟨rfl, rfl, own, _⟩ := own
          obtain ⟨first', run', rfl, rfl, rfl⟩ := exists_alternated own
          simp only [List.forall_mem_map, isOperand_bare, isOperator_bare] at operand pairs
          exact ⟨first', run', state'', rfl, by simpa using nonempty, operand, pairs⟩
        · cases own
      · rintro ⟨first, run, state', rfl, nonempty, operand, pairs⟩
        refine ⟨first.bare, run.map fun entry => (entry.1.bare, entry.2.bare),
          { state' with span := {} }, ?_, ?_, ?_, ?_⟩
        · simp only [List.map_cons, List.map_nil, bare, bareSlots, bareItems_eq, map_alternated]
        · simpa using nonempty
        · rwa [isOperand_bare]
        · simpa only [List.forall_mem_map, isOperand_bare, isOperator_bare] using pairs
    · exact iff_of_true (alternates_of_ne _ _ _ isSequence) (alternates_of_ne _ _ _ isSequence)
  · rfl

theorem isFilled_bare (t : Tree) : t.bare.isFilled = t.isFilled := by
  rw [isFilled, isFilled, head_bare]

theorem isToken_bare (t : Tree) : t.bare.isToken = t.isToken := by
  cases t <;> rfl

theorem closed_bare (t : Tree) : t.bare.Closed ↔ t.Closed := by
  have last : (∀ c ∈ t.bare.children.getLast?, c.isFilled = true) ↔
      ∀ c ∈ t.children.getLast?, c.isFilled = true := by
    rw [children_bare, List.getLast?_map]
    cases t.children.getLast? <;> simp [isFilled_bare]
  have nonempty : (t.bare.isFilled = true → t.bare.isToken = false → t.bare.children ≠ []) ↔
      (t.isFilled = true → t.isToken = false → t.children ≠ []) := by
    rw [isFilled_bare, isToken_bare, children_bare, ne_eq, List.map_eq_nil_iff]
  exact ⟨fun h => ⟨last.1 h.last, nonempty.1 h.nonempty⟩,
    fun h => ⟨last.2 h.last, nonempty.2 h.nonempty⟩⟩

/-! ## Lists of elements -/

/-- A tree that is no list of the elements of an operator sequence. -/
def Unlisted (t : Tree) : Prop := t.head ≠ some (.rule (.node .exprList))

/-- Only operator sequences hold lists of elements. -/
def Lists (t : Tree) : Prop :=
  t.head = some (.rule (.node .sequenceExpr)) ∨ ∀ c ∈ t.children, c.Unlisted

theorem lists_bare (t : Tree) : t.bare.Lists ↔ t.Lists := by
  simp only [Lists, Unlisted, head_bare, children_bare, List.forall_mem_map]

/-- No rule asks for a list of elements. -/
theorem unlisted_of_alternative : ∀ rule ∈ Grammar.rules, ∀ body ∈ Grammar.alternatives rule,
    ∀ s ∈ body, s.always (· != .rule (.node .exprList)) = true := by
  decide

theorem unlisted_of_body {rule : Rule} {body : List Symbol} {tss : List (List Tree)}
    (hbody : body ∈ Grammar.alternatives rule) (shows : List.Forall₂ ShowAll body tss) :
    ∀ c ∈ tss.flatten, c.Unlisted := by
  intro c hc
  obtain ⟨ts, hts, hc⟩ := List.mem_flatten.1 hc
  obtain ⟨s, hs, shown⟩ := exists_of_forall₂ shows ts hts
  have other := any_head_of_showAll shown
    (unlisted_of_alternative rule (mem_rules_of_alternative hbody) body hbody s hs) c hc
  intro same
  simp [same] at other

theorem lists_node {kind : Kind} {slots : List (String × Tree)} {items : List Tree}
    {state : NodeState}
    (below : ∀ c ∈ (Tree.node kind slots items state).children,
      c.Everywhere Lists ∧ c.Unlisted) :
    (Tree.node kind slots items state).Everywhere Lists :=
  everywhere_iff.2 ⟨.inr fun c hc => (below c hc).2, fun c hc => (below c hc).1⟩

theorem lists_token (u : Token) : (Tree.token u).Everywhere Lists ∧ (Tree.token u).Unlisted :=
  ⟨.inr (by simp [children]), by simp [Unlisted, Tree.head]⟩

theorem lists_layout {kind : Kind} {slots : List (String × Tree)}
    (isLayout : kind.isLayout = true)
    (below : ∀ c ∈ slots.map (·.2), c.Everywhere Lists ∧ c.Unlisted) :
    (layout kind slots).Everywhere Lists :=
  lists_node (by simpa only [children, isLayout, if_true] using below)

theorem lists_collection {kind : Kind} {items : List Tree} (notLayout : kind.isLayout = false)
    (below : ∀ c ∈ items, c.Everywhere Lists ∧ c.Unlisted) :
    (collection kind items).Everywhere Lists :=
  lists_node (by simpa only [children, notLayout, Bool.false_eq_true, if_false] using below)

/-- A separator changes nothing about lists of elements. -/
theorem setChild_lists {t t' : Tree} {name : String} {u : Token} (lists : t.Everywhere Lists)
    (separator : name ∈ separators) (set : t.setChild name (some (.token u)) = .ok t') :
    t'.Everywhere Lists := by
  obtain ⟨head, kind, slots, items, state, front, rfl, shown, from'⟩ := setChild_behind separator set
  obtain ⟨here, below⟩ := everywhere_iff.1 lists
  have each : ∀ c ∈ (Tree.node kind slots items state).children, c = .token u ∨ c ∈ t.children := by
    intro c hc
    rw [shown, List.mem_append, List.mem_singleton] at hc
    exact hc.elim (from' c) .inl
  refine everywhere_iff.2 ⟨here.imp head.trans fun all c hc => ?_, fun c hc => ?_⟩
  · rcases each c hc with rfl | mem
    · exact (lists_token u).2
    · exact all c mem
  · rcases each c hc with rfl | mem
    · exact (lists_token u).1
    · exact below c mem

theorem markPrefix_lists {t : Tree} (below : t.Everywhere Lists ∧ t.Unlisted) :
    t.markPrefix.Everywhere Lists ∧ t.markPrefix.Unlisted := by
  cases t with
  | token u => exact lists_token _
  | node kind slots items state => exact below
  | foreign value => exact below

/-- What the rule of a kind builds holds what it is built from. -/
theorem buildKind_lists {kind : Kind} {ts : List Tree} {t : Tree}
    (plain : isSpecial kind = false) (below : ∀ c ∈ ts, c.Everywhere Lists ∧ c.Unlisted)
    (built : buildKind kind ts = .ok t) : t.Everywhere Lists := by
  simp only [isSpecial, Bool.or_eq_false_iff, beq_eq_false_iff_ne] at plain
  rcases separated : separatorSlot? kind with _ | separator
  · by_cases isPrefix : kind = .prefixOperatorExpr
    · subst isPrefix
      obtain ⟨operator, operand, rfl, slots, items, state, rfl, same⟩ := buildPrefix_children built
      rw [List.forall_mem_cons] at below
      exact lists_node (same ▸ List.forall_mem_cons.2 ⟨markPrefix_lists below.1, below.2⟩)
    · rw [buildKind_eq_buildByShape plain.1 isPrefix plain.2 separated] at built
      obtain ⟨slots, items, state, rfl, same⟩ := buildByShape_children built
      exact lists_node (same ▸ below)
  · rw [buildKind_of_separatorSlot separated] at built
    have keeps : ∀ (e e' : Tree) (u : Token), (e.Everywhere Lists ∧ e.Unlisted) →
        e.setChild separator (some (.token u)) = .ok e' →
          e'.Everywhere Lists ∧ e'.Unlisted := by
      rintro e e' u ⟨lists, unlisted⟩ set
      have separator := separatorSlot?_mem separated
      refine ⟨setChild_lists lists separator set, ?_⟩
      rwa [Unlisted, (setChild_behind separator set).1]
    obtain ⟨es, rfl, shown, _, elements⟩ := buildSeparated_all keeps separated below built
    exact lists_node (shown.symm ▸ elements)

theorem stringLiteral_lists (u : Token) : (stringLiteral u).Everywhere Lists := by
  have content :
      (layout .stringSegment [("content", .token u.splitString.2.1)]).Everywhere Lists :=
    lists_layout (by decide) (by simpa using lists_token _)
  have segments : (collection .stringLiteralSegmentList
      [layout .stringSegment [("content", .token u.splitString.2.1)]]).Everywhere Lists :=
    lists_collection (by decide) (by simpa [Unlisted, head, layout, layoutAt] using content)
  refine lists_layout (by decide) ?_
  intro c hc
  simp only [List.map_cons, List.map_nil, List.mem_cons, List.not_mem_nil, or_false] at hc
  rcases hc with rfl | rfl | rfl
  · exact lists_token _
  · exact ⟨segments, by simp [Unlisted, head, collection]⟩
  · exact lists_token _

theorem buildExpression_lists {ts : List Tree}
    (below : ∀ c ∈ ts, c.Everywhere Lists ∧ c.Unlisted) :
    (buildExpression ts).Everywhere Lists := by
  unfold buildExpression
  split
  · exact (below _ (by simp)).1
  · have list : (collection .exprList ts).Everywhere Lists := lists_collection (by decide) below
    refine everywhere_iff.2 ⟨.inl rfl, fun c hc => ?_⟩
    exact List.mem_singleton.1 hc ▸ list

theorem sourceFile_lists {statements root : Tree} (lists : statements.Everywhere Lists)
    (unlisted : statements.Unlisted) (built : buildKind .sourceFile [statements] = .ok root) :
    root.Everywhere Lists := by
  simp only [buildKind, single, bind, Except.bind, pure, Except.pure, Except.ok.injEq] at built
  subst built
  have ends := lists_token .endOfFile
  split
  · exact lists_layout (by decide) (by simpa using ends)
  · exact lists_layout (by decide) (by simpa using ⟨⟨lists, unlisted⟩, ends⟩)

end Tree

open ParseTree in
theorem ParseTree.lists_inherited : Inherited Tree.Lists where
  token u := (Tree.lists_token u).1
  literal := Tree.stringLiteral_lists
  rule := by
    intro rule body tss ts plain hbody shows below built
    have below' : ∀ c ∈ tss.flatten, c.Everywhere Tree.Lists ∧ c.Unlisted :=
      fun c hc => ⟨below c hc, Tree.unlisted_of_body hbody shows c hc⟩
    cases rule with
    | node kind =>
      rcases made : Tree.buildKind kind tss.flatten with v | t
      · simp [buildNode, made, Except.map] at built
      · simp only [buildNode, made, Except.map, Except.ok.injEq] at built
        subst built
        simpa using Tree.buildKind_lists (plain kind rfl) below' made
    | expression =>
      cases built
      simpa using Tree.buildExpression_lists below'
    | start | group | repetition =>
      cases built
      exact below
  file shown below := by
    obtain ⟨_, s, hs, head⟩ := shown
    refine Tree.sourceFile_lists below ?_
    rw [Tree.Unlisted, head, List.mem_singleton.1 hs]
    decide

/-! ## The tree of a source -/

/-- A tree conforms to the catalog, its operators stand between operands, only operator
sequences hold lists of elements, and only some lists are without tokens. -/
structure Tree.Conforms (t : Tree) : Prop where
  fits : t.Fits
  alternates : t.Alternates
  lists : t.Lists
  closed : t.Closed

theorem Tree.conforms_bare (t : Tree) : t.bare.Conforms ↔ t.Conforms := by
  constructor
  · exact fun h => ⟨t.fits_bare.1 h.fits, t.alternates_bare.1 h.alternates, t.lists_bare.1 h.lists,
      t.closed_bare.1 h.closed⟩
  · exact fun h => ⟨t.fits_bare.2 h.fits, t.alternates_bare.2 h.alternates, t.lists_bare.2 h.lists,
      t.closed_bare.2 h.closed⟩

/-- The tree of a source conforms everywhere. -/
theorem parse_conforms {budget : Nat} {file source : String} {p : Parsed}
    (parsed : parse budget file source = .ok p) :
    p.root.Everywhere Tree.Conforms ∧ p.root.head = some (.rule (.node .sourceFile)) := by
  obtain ⟨tree, s, root, accepted, built, rfl⟩ := parse_eq_ok_iff.1 parsed
  obtain ⟨derived, start, _⟩ := Recovery.parse_ordered Automaton.ofGrammar_sound accepted
  obtain ⟨root', built', head, sound, _⟩ := ParseTree.toTree_of_derived derived start
  obtain rfl : root = root' := by rwa [built, Except.ok.injEq] at built'
  have lists := ParseTree.lists_inherited.toTree derived start built
  have closed := ParseTree.toTree_closed derived start built
  have conforms : root.Everywhere Tree.Conforms :=
    ((sound.and lists).and closed).imp fun _ h => ⟨h.1.1.1, h.1.1.2, h.1.2, h.2⟩
  have bare := root.bare_attachTrivia_assignSpans source.toList (Trivia.split s.dropped)
  constructor
  · rwa [← Tree.everywhere_bare Tree.conforms_bare, bare, Tree.everywhere_bare Tree.conforms_bare]
  · rwa [← Tree.head_bare, bare, Tree.head_bare]

end SyntaxAtlas
