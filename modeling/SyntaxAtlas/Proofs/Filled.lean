-- Which nodes hold tokens. Only lists that the grammar lets be empty can be without a
-- token, and the last child of a node is never one of them. So the last token of a node
-- is in its last child.

import SyntaxAtlas.Proofs.Derivations

namespace SyntaxAtlas

/-! ## Trees by their children -/

theorem forall₂_imp_of_mem {α β : Type} {R S : α → β → Prop} {as : List α} {bs : List β}
    (h : List.Forall₂ R as bs) (imp : ∀ a ∈ as, ∀ b, R a b → S a b) : List.Forall₂ S as bs :=
  ((List.forall₂_and_left _ _).2 ⟨fun _ mem => mem, h⟩).imp fun a b both => imp a both.1 b both.2


namespace Tree

mutual

/-- What holds of a tree whenever it holds of its children holds of every tree. -/
theorem children_induction {P : Tree → Prop} (step : ∀ t, (∀ c ∈ t.children, P c) → P t) :
    ∀ t, P t
  | .token u => step (.token u) (by simp [children])
  | .foreign value => step (.foreign value) (by simp [children])
  | .node kind slots items state => by
    apply step
    intro c hc
    by_cases layout : kind.isLayout = true
    · simp only [children, layout, if_true] at hc
      exact slots_induction step slots c hc
    · simp only [children, layout, Bool.false_eq_true, if_false] at hc
      exact items_induction step items c hc

theorem slots_induction {P : Tree → Prop} (step : ∀ t, (∀ c ∈ t.children, P c) → P t) :
    ∀ slots : List (String × Tree), ∀ c ∈ slots.map (·.2), P c
  | [] => by simp
  | (_, t) :: rest => by
    intro c hc
    rcases List.mem_cons.1 hc with same | hc
    · exact same ▸ children_induction step t
    · exact slots_induction step rest c hc

theorem items_induction {P : Tree → Prop} (step : ∀ t, (∀ c ∈ t.children, P c) → P t) :
    ∀ items : List Tree, ∀ c ∈ items, P c
  | [] => by simp
  | t :: rest => by
    intro c hc
    rcases List.mem_cons.1 hc with same | hc
    · exact same ▸ children_induction step t
    · exact items_induction step rest c hc

end

theorem everywhere_iff {P : Tree → Prop} {t : Tree} :
    t.Everywhere P ↔ P t ∧ ∀ c ∈ t.children, c.Everywhere P := by
  cases t with
  | node kind slots items state => exact everywhere_node_iff
  | token u => simp [Everywhere, children]
  | foreign value => simp [Everywhere, children]

/-- What holds of a tree whenever it holds of its children holds of every tree, and may rest on
what is known of each tree inside. -/
theorem everywhere_induction {P : Tree → Prop} {motive : (t : Tree) → t.Everywhere P → Prop}
    (step : ∀ t (here : P t) (below : ∀ c ∈ t.children, c.Everywhere P),
      (∀ c (hc : c ∈ t.children), motive c (below c hc)) →
        motive t (everywhere_iff.2 ⟨here, below⟩))
    {t : Tree} (h : t.Everywhere P) : motive t h := by
  induction t using children_induction with
  | step t ih =>
    obtain ⟨here, below⟩ := everywhere_iff.1 h
    exact step t here below fun c hc => ih c hc (below c hc)

theorem Everywhere.and {P Q : Tree → Prop} {t : Tree} (hp : t.Everywhere P) (hq : t.Everywhere Q) :
    t.Everywhere fun u => P u ∧ Q u := by
  induction t using children_induction with
  | step t ih =>
    rw [everywhere_iff] at hp hq ⊢
    exact ⟨⟨hp.1, hq.1⟩, fun c hc => ih c hc (hp.2 c hc) (hq.2 c hc)⟩

theorem itemTokens_eq_nil_iff {ts : List Tree} : itemTokens ts = [] ↔ ∀ t ∈ ts, t.tokens = [] := by
  induction ts with
  | nil => simp [itemTokens]
  | cons t ts ih => simp [itemTokens, ih]

end Tree

/-! ## Filled trees -/

theorem Kind.mem_registered {kind : Kind} (known : kind.catalogued.isSome = true) :
    kind ∈ Kind.registered := by
  cases kind with
  | unregistered n => simp [Kind.catalogued, Catalog.describe] at known
  | _ => decide

/-- The grammar lets a node of this kind have no children. -/
def Kind.mayBeEmpty (kind : Kind) : Bool := (Grammar.forms kind).contains []

/-- What is this on the outside has a token in it. -/
def Symbol.isFilled : Symbol → Bool
  | .terminal _ => true
  | .rule (.node k) => !k.mayBeEmpty
  | _ => false

/-- All that can stand for a symbol is one of some symbols on the outside. -/
def Symbol.always (p : Symbol → Bool) : Symbol → Bool
  | .rule (.repetition r) => (Grammar.repeated r).all fun s => s.heads.all p
  | s => s.heads.all p

/-- All that can stand for a symbol has a token in it. -/
def Symbol.fills (s : Symbol) : Bool := s.always isFilled

namespace Tree

def isFilled (t : Tree) : Bool := t.head.any Symbol.isFilled

/-- The last child of a node is filled, and a filled node has children. -/
structure Closed (t : Tree) : Prop where
  last : ∀ c ∈ t.children.getLast?, c.isFilled = true
  nonempty : t.isFilled = true → t.isToken = false → t.children ≠ []

/-- Where all nodes are closed, filled trees do have tokens. -/
theorem tokens_ne_nil {t : Tree} (closed : t.Everywhere Closed) (filled : t.isFilled = true) :
    t.tokens ≠ [] := by
  induction closed using everywhere_induction with
  | step t here below each =>
    cases t with
    | token u => simp [tokens]
    | foreign value => simp [isFilled, head] at filled
    | node kind slots items state =>
      obtain ⟨c, last⟩ := Option.isSome_iff_exists.1
        (List.getLast?_isSome.2 (here.nonempty filled rfl))
      have mem := List.mem_of_getLast? last
      rw [tokens_node, ne_eq, itemTokens_eq_nil_iff]
      intro none
      exact each c mem (here.last c last) (none c mem)

theorem closed_token (u : Token) : (Tree.token u).Everywhere Closed :=
  ⟨by simp [children], by simp [isToken]⟩

theorem closed_node {kind : Kind} {slots : List (String × Tree)} {items : List Tree}
    {state : NodeState}
    (below : ∀ c ∈ (Tree.node kind slots items state).children, c.Everywhere Closed)
    (last : ∀ c ∈ (Tree.node kind slots items state).children.getLast?, c.isFilled = true)
    (nonempty : kind.mayBeEmpty = false → (Tree.node kind slots items state).children ≠ []) :
    (Tree.node kind slots items state).Everywhere Closed := by
  refine everywhere_node_iff.2 ⟨⟨last, fun filled _ => nonempty ?_⟩, below⟩
  simpa [isFilled, head, Symbol.isFilled] using filled

/-! ## What fills a symbol -/

theorem Shows.any_head {heads : List Symbol} {t : Tree} {p : Symbol → Bool} (h : t.Shows heads)
    (all : heads.all p = true) : t.head.any p = true := by
  obtain ⟨_, s, hs, head⟩ := h
  simp [head, List.all_eq_true.1 all s hs]

theorem repeated_ne_nil (r : Repetition) : Grammar.repeated r ≠ [] := by
  cases r <;> decide

theorem exists_repetition {s : Symbol} (h : s.isRepetition = true) :
    ∃ r, s = .rule (.repetition r) := by
  unfold Symbol.isRepetition at h
  split at h
  · exact ⟨_, rfl⟩
  · cases h

theorem any_head_of_showAll {s : Symbol} {ts : List Tree} {p : Symbol → Bool}
    (shows : ShowAll s ts) (always : s.always p = true) : ∀ t ∈ ts, t.head.any p = true := by
  by_cases single : s.isRepetition = false
  · obtain ⟨t, rfl, shown⟩ := (showAll_single single).1 shows
    have all : s.heads.all p = true := by
      unfold Symbol.always at always
      split at always
      · simp [Symbol.isRepetition] at single
      · exact always
    simpa using shown.any_head all
  · obtain ⟨r, rfl⟩ := exists_repetition (by simpa using single)
    obtain ⟨n, shown⟩ := shows
    intro t ht
    obtain ⟨heads, hheads, shown⟩ := exists_of_forall₂ shown t ht
    obtain ⟨block, hblock, hheads⟩ := List.mem_flatten.1 hheads
    obtain rfl := List.eq_of_mem_replicate hblock
    obtain ⟨s, hs, rfl⟩ := List.mem_map.1 hheads
    exact shown.any_head (List.all_eq_true.1 always s hs)

theorem filled_of_showAll {s : Symbol} {ts : List Tree} (shows : ShowAll s ts)
    (fills : s.fills = true) : ts ≠ [] ∧ ∀ t ∈ ts, t.isFilled = true := by
  refine ⟨?_, any_head_of_showAll shows fills⟩
  by_cases single : s.isRepetition = false
  · obtain ⟨t, rfl, _⟩ := (showAll_single single).1 shows
    exact List.cons_ne_nil t []
  · obtain ⟨r, rfl⟩ := exists_repetition (by simpa using single)
    obtain ⟨n, shown⟩ := shows
    rintro rfl
    have none := List.forall₂_nil_right_iff.1 shown
    have block := List.flatten_eq_nil_iff.1 none _ (List.mem_replicate.2 ⟨by omega, rfl⟩)
    exact repeated_ne_nil r (List.map_eq_nil_iff.1 block)

/-- If the last symbol of a body is filled, so is the last tree for the body. -/
theorem filled_of_body {body : List Symbol} {tss : List (List Tree)}
    (shows : List.Forall₂ ShowAll body tss) (last : ∀ s ∈ body.getLast?, s.fills = true) :
    (body ≠ [] → tss.flatten ≠ []) ∧ ∀ t ∈ tss.flatten.getLast?, t.isFilled = true := by
  induction shows with
  | nil => simp
  | @cons s ts body tss first rest ih =>
    rw [List.flatten_cons]
    by_cases more : body = []
    · subst more
      cases rest
      obtain ⟨nonempty, all⟩ := filled_of_showAll first (last s rfl)
      simpa [nonempty] using fun t ht => all t (List.mem_of_getLast? ht)
    · obtain ⟨nonempty, filled⟩ := ih (by
        rwa [List.getLast?_cons_of_ne_nil more] at last)
      refine ⟨fun _ => by simp [nonempty more], fun t ht => filled t ?_⟩
      rwa [List.getLast?_append_of_ne_nil _ (nonempty more)] at ht

/-- The last symbol of every form is filled, but not that of a file. -/
theorem fills_of_last : ∀ kind ∈ Kind.registered, kind ≠ .sourceFile →
    ∀ body ∈ Grammar.forms kind, ∀ s ∈ body.getLast?, s.fills = true := by
  decide

/-- All that stands in a list with separators is filled. -/
theorem fills_of_separated : ∀ kind ∈ Kind.registered, (separatorSlot? kind).isSome = true →
    ∀ body ∈ Grammar.forms kind, ∀ s ∈ body, s.fills = true := by
  decide

/-! ## Building closed nodes -/

/-- Slots are filled with all the children, in order. -/
theorem fillSlots_children {kind : Kind} {index : Nat} {slots : List Slot} {ts : List Tree}
    {filled : List (String × Tree)} (h : fillSlots kind index slots ts = .ok filled) :
    filled.map (·.2) = ts := by
  induction ts generalizing index slots filled with
  | nil =>
    cases h
    rfl
  | cons t ts ih =>
    rw [fillSlots] at h
    rcases found : findSlot t index slots with e | _ | ⟨taken, slot, left⟩
    · simp [found, bind, Except.bind] at h
    · rcases shown : t.description with e | d <;> simp [found, shown, bind, Except.bind] at h
    · rcases filled' : fillSlots kind (taken + 1) left ts with e | more
      · simp [found, filled', bind, Except.bind] at h
      · simp only [found, filled', bind, Except.bind, pure, Except.pure, Except.ok.injEq] at h
        subst h
        simp [ih filled']

theorem buildLayout_children {kind : Kind} {ts : List Tree} {t : Tree}
    (isLayout : kind.isLayout = true) (built : buildLayout kind ts = .ok t) :
    ∃ slots items state, t = .node kind slots items state ∧ t.children = ts := by
  obtain ⟨category, described⟩ := describe_of_isLayout isLayout
  rcases filled : fillSlots kind 0 kind.slots ts with e | slots
  · simp [buildLayout, Kind.catalogued, described, Shape.slots, filled, bind, Except.bind] at built
  · simp only [buildLayout, Kind.catalogued, described, Option.map_some, Shape.slots, filled, bind,
      Except.bind, pure, Except.pure, Except.ok.injEq] at built
    subst built
    refine ⟨slots, [], _, rfl, ?_⟩
    simp only [layout, layoutAt, children, isLayout, if_true]
    exact fillSlots_children filled

/-- A node that is built by shape has the children that it is built from. -/
theorem buildByShape_children {kind : Kind} {ts : List Tree} {t : Tree}
    (built : buildByShape kind ts = .ok t) :
    ∃ slots items state, t = .node kind slots items state ∧ t.children = ts := by
  unfold buildByShape Kind.catalogued at built
  rcases described : Catalog.describe kind with _ | ⟨category, declared | element | alternatives⟩
  · simp [described] at built
  · simp only [described, Option.map_some] at built
    exact buildLayout_children (by simp [Kind.isLayout, described]) built
  · simp only [described, Option.map_some, Except.ok.injEq] at built
    subst built
    exact ⟨[], ts, {}, rfl, by simp [collection, children, Kind.isLayout, described]⟩
  · simp only [described, Option.map_some] at built
    split at built
    · rename_i selected
      cases built
      exact ⟨[], [selected], {}, rfl, by simp [choice, children, Kind.isLayout, described]⟩
    · cases built

/-- A prefix operator expression has a marked operator and an operand. -/
theorem buildPrefix_children {ts : List Tree} {t : Tree}
    (built : buildKind .prefixOperatorExpr ts = .ok t) :
    ∃ operator operand, ts = [operator, operand] ∧ ∃ slots items state,
      t = .node .prefixOperatorExpr slots items state ∧
        t.children = [operator.markPrefix, operand] := by
  rcases ts with _ | ⟨operator, _ | ⟨operand, _ | ⟨more, rest⟩⟩⟩
  · cases built
  · cases built
  · exact ⟨operator, operand, rfl, buildLayout_children (by decide) built⟩
  · cases built

theorem markPrefix_closed {t : Tree} (closed : t.Everywhere Closed) :
    t.markPrefix.Everywhere Closed := by
  cases t with
  | token u => exact closed_token _
  | node kind slots items state => exact closed
  | foreign value => exact closed

/-- The slot for separators is the last one of the kinds that have it. -/
theorem separator_last : ∀ kind ∈ Kind.registered, ∀ name ∈ separators,
    (kind.slots.any fun s => s.name == name) = true →
      kind.isLayout = true ∧ kind.slots.getLast?.map (·.name) = some name := by
  decide

theorem mem_of_lookup {name : String} {slots : List (String × Tree)} {t : Tree}
    (h : slots.lookup name = some t) : t ∈ slots.map (·.2) := by
  obtain ⟨before, after, rfl, _⟩ := List.lookup_eq_some_iff.1 h
  simp

/-- A separator comes behind all that the node holds. -/
theorem putSlot_separator {kind : Kind} {name : String} (slots : List (String × Tree))
    (child : Tree) (last : kind.slots.getLast?.map (·.name) = some name) :
    ∃ front, putSlot kind name child slots = front ++ [(name, child)] ∧
      ∀ s ∈ front, s.2 = child ∨ s.2 ∈ slots.map (·.2) := by
  obtain ⟨slot, found, rfl⟩ := Option.map_eq_some_iff.1 last
  obtain ⟨inits, split⟩ := List.getLast?_eq_some_iff.1 found
  unfold putSlot
  rw [split, List.filterMap_append]
  simp only [List.filterMap_cons, List.filterMap_nil, beq_self_eq_true, if_true]
  refine ⟨_, rfl, fun s hs => ?_⟩
  obtain ⟨declared, _, taken⟩ := List.mem_filterMap.1 hs
  split at taken
  · cases taken
    exact Or.inl rfl
  · obtain ⟨t, found, rfl⟩ := Option.map_eq_some_iff.1 taken
    exact Or.inr (mem_of_lookup found)

/-- An element takes a separator behind what it holds. -/
theorem setChild_behind {t t' : Tree} {name : String} {u : Token}
    (separator : name ∈ separators) (set : t.setChild name (some (.token u)) = .ok t') :
    t'.head = t.head ∧ ∃ kind slots items state front, t' = .node kind slots items state ∧
      t'.children = front ++ [.token u] ∧ ∀ c ∈ front, c = .token u ∨ c ∈ t.children := by
  cases t with
  | token v => simp [setChild] at set
  | foreign value => simp [setChild] at set
  | node kind slots items state =>
    rcases described : Catalog.describe kind with _ | ⟨category, shape⟩
    · simp [setChild, entry, Kind.catalogued, described, bind, Except.bind] at set
    · rcases found : shape.slots.find? (·.name == name) with _ | slot
      · simp [setChild, entry, Kind.catalogued, described, bind, Except.bind, Entry.slot?,
          found] at set
      · simp only [setChild, entry, Kind.catalogued, described, bind, Except.bind, Entry.slot?,
          found, Option.map_some, Except.ok.injEq] at set
        subst set
        have registered := @Kind.mem_registered kind (by simp [Kind.catalogued, described])
        have has : (kind.slots.any fun s => s.name == name) = true := by
          rw [List.any_eq_true]
          have same := List.find?_some found
          refine ⟨slot, ?_, same⟩
          simpa [Kind.slots, described] using List.mem_of_find?_eq_some found
        obtain ⟨isLayout, last⟩ := separator_last kind registered name separator has
        obtain ⟨front, put, from'⟩ := putSlot_separator slots (.token u) last
        refine ⟨rfl, kind, _, items, _, front.map (·.2), rfl, by simp [children, isLayout, put], ?_⟩
        intro c hc
        obtain ⟨s, hs, rfl⟩ := List.mem_map.1 hc
        simpa [children, isLayout] using from' s hs

/-- An element with a separator is closed by it. -/
theorem setChild_closed {t t' : Tree} {name : String} {u : Token}
    (closed : t.Everywhere Closed) (separator : name ∈ separators)
    (set : t.setChild name (some (.token u)) = .ok t') :
    t'.Everywhere Closed ∧ t'.isFilled = t.isFilled := by
  obtain ⟨head, kind, slots, items, state, front, rfl, shown, from'⟩ :=
    setChild_behind separator set
  refine ⟨?_, by rw [isFilled, isFilled, head]⟩
  have below := (everywhere_iff.1 closed).2
  apply closed_node <;> rw [shown]
  · intro c hc
    rcases List.mem_append.1 hc with hc | hc
    · rcases from' c hc with rfl | mem
      · exact closed_token u
      · exact below c mem
    · exact List.mem_singleton.1 hc ▸ closed_token u
  · simp [isFilled, Tree.head, Symbol.isFilled]
  · simp

section Separated

variable {E : Tree → Prop} {kind : Kind} {separator : String}

theorem addSeparated_all {es es' : List Tree} {child : Tree}
    (keeps : ∀ e e' u, E e → e.setChild separator (some (.token u)) = .ok e' → E e')
    (elements : ∀ e ∈ es, E e) (here : E child)
    (added : addSeparated kind separator es child = .ok es') : es' ≠ [] ∧ ∀ e ∈ es', E e := by
  unfold addSeparated at added
  by_cases isToken : child.isToken = true
  · rw [if_pos isToken] at added
    obtain ⟨u, rfl⟩ : ∃ u, child = .token u := by
      cases child <;> simp_all [Tree.isToken]
    rcases last : es.getLast? with _ | e
    · simp [last] at added
    · rcases set : e.setChild separator (some (.token u)) with v | e'
      · simp [last, set, bind, Except.bind] at added
      · simp only [last, set, bind, Except.bind, pure, Except.pure, Except.ok.injEq] at added
        subst added
        refine ⟨by simp, fun e'' he => ?_⟩
        rcases List.mem_append.1 he with he | he
        · exact elements e'' (List.dropLast_subset es he)
        · rw [List.mem_singleton.1 he]
          exact keeps e e' u (elements e (List.mem_of_getLast? last)) set
  · rw [if_neg isToken] at added
    cases added
    refine ⟨by simp, fun e he => ?_⟩
    rcases List.mem_append.1 he with he | he
    · exact elements e he
    · exact List.mem_singleton.1 he ▸ here

/-- What holds of the elements of a list still holds while separators come to them. -/
theorem foldlM_addSeparated_all {ts es es' : List Tree}
    (keeps : ∀ e e' u, E e → e.setChild separator (some (.token u)) = .ok e' → E e')
    (elements : ∀ e ∈ es, E e) (all : ∀ t ∈ ts, E t)
    (folded : ts.foldlM (addSeparated kind separator) es = .ok es') :
    (es' = [] → es = [] ∧ ts = []) ∧ ∀ e ∈ es', E e := by
  induction ts generalizing es with
  | nil =>
    cases folded
    exact ⟨fun none => ⟨none, rfl⟩, elements⟩
  | cons t ts ih =>
    rw [List.foldlM_cons] at folded
    rcases added : addSeparated kind separator es t with v | mid
    · simp [added, bind, Except.bind] at folded
    · rw [added] at folded
      obtain ⟨nonempty, elements'⟩ := addSeparated_all keeps elements (all t List.mem_cons_self) added
      obtain ⟨none, all'⟩ := ih elements' (fun t ht => all t (List.mem_cons_of_mem _ ht)) folded
      exact ⟨fun empty => absurd (none empty).1 nonempty, all'⟩

/-- A list with separators holds what it is built from, with separators in it. -/
theorem buildSeparated_all {ts : List Tree} {t : Tree}
    (keeps : ∀ e e' u, E e → e.setChild separator (some (.token u)) = .ok e' → E e')
    (separated : separatorSlot? kind = some separator) (all : ∀ t ∈ ts, E t)
    (built : buildSeparated kind separator ts = .ok t) :
    ∃ es, t = collection kind es ∧ t.children = es ∧ (es = [] → ts = []) ∧ ∀ e ∈ es, E e := by
  rcases folded : ts.foldlM (addSeparated kind separator) [] with v | es
  · simp [buildSeparated, folded, bind, Except.bind] at built
  · simp only [buildSeparated, folded, bind, Except.bind, pure, Except.pure,
      Except.ok.injEq] at built
    subst built
    obtain ⟨none, elements⟩ := foldlM_addSeparated_all keeps (by simp) all folded
    have notLayout : kind.isLayout = false := by
      unfold separatorSlot? at separated
      split at separated <;> first | rfl | cases separated
    exact ⟨es, rfl, by simp [collection, children, notLayout], fun empty => (none empty).2,
      elements⟩

end Separated

theorem separatorSlot?_mem {kind : Kind} {name : String} (h : separatorSlot? kind = some name) :
    name ∈ separators := by
  unfold separatorSlot? at h
  split at h <;> cases h <;> decide

/-- A mark on the operator in front leaves the operand last. -/
theorem buildKind_prefix_closed {ts : List Tree} {t : Tree}
    (below : ∀ c ∈ ts, c.Everywhere Closed) (last : ∀ c ∈ ts.getLast?, c.isFilled = true)
    (built : buildKind .prefixOperatorExpr ts = .ok t) : t.Everywhere Closed := by
  obtain ⟨operator, operand, rfl, slots, items, state, rfl, same⟩ := buildPrefix_children built
  rw [List.forall_mem_cons] at below
  apply closed_node <;> rw [same]
  · exact List.forall_mem_cons.2 ⟨markPrefix_closed below.1, below.2⟩
  · exact last
  · simp

theorem buildSeparated_closed {kind : Kind} {separator : String} {ts : List Tree} {t : Tree}
    (separated : separatorSlot? kind = some separator)
    (closed : ∀ t ∈ ts, t.Everywhere Closed) (filled : ∀ t ∈ ts, t.isFilled = true)
    (nonempty : kind.mayBeEmpty = false → ts ≠ [])
    (built : buildSeparated kind separator ts = .ok t) : t.Everywhere Closed := by
  have keeps : ∀ (e e' : Tree) (u : Token), (e.Everywhere Closed ∧ e.isFilled = true) →
      e.setChild separator (some (.token u)) = .ok e' →
        e'.Everywhere Closed ∧ e'.isFilled = true := by
    rintro e e' u ⟨closed, filled⟩ set
    obtain ⟨closed', same⟩ := setChild_closed closed (separatorSlot?_mem separated) set
    exact ⟨closed', same.trans filled⟩
  obtain ⟨es, rfl, shown, none, elements⟩ := buildSeparated_all keeps separated
    (fun t ht => ⟨closed t ht, filled t ht⟩) built
  apply closed_node <;> rw [← collection, shown]
  · exact fun e he => (elements e he).1
  · exact fun e he => (elements e (List.mem_of_getLast? he)).2
  · exact fun never empty => nonempty never (none empty)

/-- What the rule of a kind builds from closed trees is closed. -/
theorem buildKind_closed {kind : Kind} {body : List Symbol} {tss : List (List Tree)} {t : Tree}
    (plain : isSpecial kind = false) (hbody : body ∈ Grammar.forms kind)
    (shows : List.Forall₂ ShowAll body tss)
    (below : ∀ c ∈ tss.flatten, c.Everywhere Closed)
    (built : buildKind kind tss.flatten = .ok t) : t.Everywhere Closed := by
  have registered := registered_of_form hbody
  simp only [isSpecial, Bool.or_eq_false_iff, beq_eq_false_iff_ne] at plain
  obtain ⟨nonempty, last⟩ := filled_of_body shows
    (fills_of_last kind registered plain.1 body hbody)
  have nonempty' : kind.mayBeEmpty = false → tss.flatten ≠ [] := by
    intro never
    apply nonempty
    rintro rfl
    simp [Kind.mayBeEmpty, hbody] at never
  rcases separated : separatorSlot? kind with _ | separator
  · by_cases isPrefix : kind = .prefixOperatorExpr
    · subst isPrefix
      exact buildKind_prefix_closed below last built
    · rw [buildKind_eq_buildByShape plain.1 isPrefix plain.2 separated] at built
      obtain ⟨slots, items, state, rfl, same⟩ := buildByShape_children built
      rw [← same] at below last nonempty'
      exact closed_node below last nonempty'
  · rw [buildKind_of_separatorSlot separated] at built
    have filled : ∀ t ∈ tss.flatten, t.isFilled = true := by
      intro t ht
      obtain ⟨ts, hts, ht⟩ := List.mem_flatten.1 ht
      obtain ⟨s, hs, shown⟩ := exists_of_forall₂ shows ts hts
      have fills := fills_of_separated kind registered (by simp [separated]) body hbody s hs
      exact (filled_of_showAll shown fills).2 t ht
    exact buildSeparated_closed separated below filled nonempty' built

/-- A sequence ends with an operand. -/
theorem buildExpression_closed {ts : List Tree} (nonempty : ts ≠ [])
    (below : ∀ c ∈ ts, c.Everywhere Closed) (last : ∀ c ∈ ts.getLast?, c.isFilled = true) :
    (buildExpression ts).Everywhere Closed := by
  unfold buildExpression
  split
  · exact below _ (by simp)
  · have list : (collection .exprList ts).Everywhere Closed :=
      closed_node below last fun _ => nonempty
    apply closed_node
    · intro c hc
      exact List.mem_singleton.1 hc ▸ list
    · intro c hc
      cases hc
      rfl
    · exact fun _ => List.cons_ne_nil _ _

theorem layout_closed {kind : Kind} {slots : List (String × Tree)}
    (isLayout : kind.isLayout = true) (below : ∀ c ∈ slots.map (·.2), c.Everywhere Closed)
    (nonempty : slots ≠ []) (last : ∀ c ∈ (slots.map (·.2)).getLast?, c.isFilled = true) :
    (layout kind slots).Everywhere Closed := by
  have shown : (layout kind slots).children = slots.map (·.2) := by
    simp [layout, layoutAt, children, isLayout]
  apply closed_node <;> rw [← layoutAt, ← layout, shown]
  · exact below
  · exact last
  · exact fun _ => by simpa using nonempty

theorem stringLiteral_closed (u : Token) : (stringLiteral u).Everywhere Closed := by
  have content :
      (layout .stringSegment [("content", .token u.splitString.2.1)]).Everywhere Closed :=
    layout_closed (by decide) (by simpa using closed_token _) (by simp)
      (by simp [isFilled, head, Symbol.isFilled])
  have segments : (collection .stringLiteralSegmentList
      [layout .stringSegment [("content", .token u.splitString.2.1)]]).Everywhere Closed := by
    apply closed_node
    · intro c hc
      exact List.mem_singleton.1 hc ▸ content
    · intro c hc
      cases hc
      exact (by decide : Symbol.isFilled (.rule (.node .stringSegment)) = true)
    · exact fun _ => List.cons_ne_nil _ _
  refine layout_closed (by decide) ?_ (by simp) (by simp [isFilled, head, Symbol.isFilled])
  intro c hc
  simp only [List.map_cons, List.map_nil, List.mem_cons, List.not_mem_nil, or_false] at hc
  rcases hc with rfl | rfl | rfl
  · exact closed_token _
  · exact segments
  · exact closed_token _

/-- A file ends with the token at its end. -/
theorem sourceFile_closed {statements root : Tree} (closed : statements.Everywhere Closed)
    (built : buildKind .sourceFile [statements] = .ok root) : root.Everywhere Closed := by
  simp only [buildKind, single, bind, Except.bind, pure, Except.pure, Except.ok.injEq] at built
  subst built
  split
  · refine layout_closed (by decide) ?_ (by simp) (by simp [isFilled, head, Symbol.isFilled])
    simpa using closed_token _
  · refine layout_closed (by decide) ?_ (by simp) (by simp [isFilled, head, Symbol.isFilled])
    simpa using ⟨closed, closed_token _⟩

/-- What a rule builds from closed trees is closed. -/
theorem buildNode_closed {rule : Rule} {body : List Symbol} {tss : List (List Tree)}
    {ts : List Tree} (plain : ∀ kind, rule = .node kind → isSpecial kind = false)
    (hbody : body ∈ Grammar.alternatives rule) (shows : List.Forall₂ ShowAll body tss)
    (below : ∀ c ∈ tss.flatten, c.Everywhere Closed)
    (built : ParseTree.buildNode rule tss.flatten = .ok ts) : ∀ t ∈ ts, t.Everywhere Closed := by
  cases rule with
  | node kind =>
    rcases made : buildKind kind tss.flatten with v | t
    · simp [ParseTree.buildNode, made, Except.map] at built
    · simp only [ParseTree.buildNode, made, Except.map, Except.ok.injEq] at built
      subst built
      simpa using buildKind_closed (plain kind rfl) hbody shows below made
  | expression =>
    cases built
    have operands : ∀ body ∈ Grammar.alternatives .expression,
        body ≠ [] ∧ ∀ s ∈ body.getLast?, s.fills = true := by decide
    obtain ⟨some', fills⟩ := operands body hbody
    obtain ⟨nonempty, last⟩ := filled_of_body shows fills
    simpa using buildExpression_closed (nonempty some') below last
  | start | group | repetition =>
    cases built
    exact below

end Tree

namespace ParseTree

/-! ## What derivations hand on -/

/-- What holds of tokens and literals, and of all that a rule builds when it holds of the
children, for rules and for the whole file. -/
structure Inherited (P : Tree → Prop) : Prop where
  token : ∀ u, (Tree.token u).Everywhere P
  literal : ∀ u, (Tree.stringLiteral u).Everywhere P
  rule : ∀ {rule : Rule} {body : List Symbol} {tss : List (List Tree)} {ts : List Tree},
    (∀ kind, rule = .node kind → Tree.isSpecial kind = false) →
    body ∈ Grammar.alternatives rule → List.Forall₂ Tree.ShowAll body tss →
    (∀ c ∈ tss.flatten, c.Everywhere P) → buildNode rule tss.flatten = .ok ts →
      ∀ t ∈ ts, t.Everywhere P
  file : ∀ {statements root : Tree}, statements.Shows [.rule (.node .codeBlockItemList)] →
    statements.Everywhere P → Tree.buildKind .sourceFile [statements] = .ok root →
      root.Everywhere P

variable {P : Tree → Prop}

mutual

theorem Inherited.build (h : Inherited P) {c : ParseTree} (derived : Derived c)
    (inner : c.symbol.isInner = true) {ts : List Tree} (built : c.build = .ok ts) :
    ∀ t ∈ ts, t.Everywhere P := by
  cases derived with
  | leaf l =>
    cases built
    simpa using h.token l.token
  | node rule children spelled all =>
    by_cases literal : rule = .node .stringLiteralExpr
    · subst literal
      obtain ⟨l, rfl, _⟩ := stringLiteral_children spelled
      cases built
      simpa using h.literal l.token
    · obtain ⟨_, below, plain⟩ := inner_below inner literal spelled
      obtain ⟨tss, builtAll, stands⟩ := buildAll_stands all below
      rw [ParseTree.build, builtAll] at built
      exact h.rule plain spelled (stands_all stands).1 (h.buildAll all below builtAll) built

theorem Inherited.buildAll (h : Inherited P) {cs : List ParseTree} (derived : AllDerived cs)
    (inner : ∀ c ∈ cs, c.symbol.isInner = true) {ts : List Tree}
    (built : ParseTree.buildAll cs = .ok ts) : ∀ t ∈ ts, t.Everywhere P := by
  cases derived with
  | nil =>
    cases built
    simp
  | cons t rest first others =>
    obtain ⟨us, builtFirst, _⟩ := build_stands first (inner t List.mem_cons_self)
    obtain ⟨uss, builtRest, _⟩ := buildAll_stands others fun c hc =>
      inner c (List.mem_cons_of_mem _ hc)
    rw [ParseTree.buildAll, builtFirst, builtRest] at built
    cases built
    intro u hu
    rcases List.mem_append.1 hu with hu | hu
    · exact h.build first (inner t List.mem_cons_self) builtFirst u hu
    · exact h.buildAll others (fun c hc => inner c (List.mem_cons_of_mem _ hc)) builtRest u hu

end

/-- What is handed on holds everywhere in the tree of a derivation of a file. -/
theorem Inherited.toTree (h : Inherited P) {t : ParseTree} (derived : Derived t)
    (file : t.symbol = .rule (.node .sourceFile)) {root : Tree} (built : t.toTree = .ok root) :
    root.Everywhere P := by
  obtain ⟨children, statements, rfl, all, inner, builtAll, shown, _, same⟩ :=
    file_statements derived file
  have below := h.buildAll all inner builtAll statements List.mem_cons_self
  exact h.file shown below (same.symm.trans built)

theorem closed_inherited : Inherited Tree.Closed where
  token := Tree.closed_token
  literal := Tree.stringLiteral_closed
  rule := Tree.buildNode_closed
  file _ := Tree.sourceFile_closed

/-- The tree of a derivation of a file is closed everywhere. -/
theorem toTree_closed {t : ParseTree} (derived : Derived t)
    (file : t.symbol = .rule (.node .sourceFile)) {root : Tree} (built : t.toTree = .ok root) :
    root.Everywhere Tree.Closed :=
  closed_inherited.toTree derived file built

end ParseTree

end SyntaxAtlas
