-- Listings and the records below them agree. What a record lists is read from the slots by name,
-- and the records below it come from a walk over the children. Both tell of the same children in
-- the same order.

import SyntaxAtlas.Proofs.Rendered

namespace SyntaxAtlas

/-! ## Lines of a listing -/

namespace StructureProperty

/-- The line of an empty slot has neither a kind nor a reference. -/
def isEmpty (p : StructureProperty) : Bool := p.ref.isNone && (p.value.bind (·.kind)).isNone

/-- A line tells of the record of a token by its kind, and of that of a node by its label. -/
inductive TellsOf (p : StructureProperty) (r : Record) : Prop
  | token (text : String) (info : TokenInfo) (own : r.token = some info)
      (value : p.value = some ⟨text, some info.kind⟩) (ref : p.ref = none)
  | node (own : r.token = none) (value : p.value = some ⟨r.label ++ nodeSuffix, none⟩)
      (ref : p.ref = some (r.label ++ nodeSuffix))

theorem TellsOf.isEmpty {p : StructureProperty} {r : Record} (h : p.TellsOf r) :
    p.isEmpty = false := by
  cases h with
  | token text info own value ref => simp [StructureProperty.isEmpty, value]
  | node own value ref => simp [StructureProperty.isEmpty, ref]

end StructureProperty

namespace Tree

variable {map : LineMap} {showMissing : Bool}

theorem name_of_slotProperty {name : String} {child : Option Tree} {p : StructureProperty}
    (line : slotProperty name child = .ok p) : p.name = name := by
  match child with
  | none | some (.token u) | some (.foreign value) =>
    cases line
    rfl
  | some (.node kind slots items state) =>
    rcases entry : (Tree.node kind slots items state).entry with v | e
    · simp [slotProperty, entry, bind, Except.bind] at line
    · simp only [slotProperty, entry, bind, Except.bind, pure, Except.pure, Except.ok.injEq] at line
      exact line ▸ rfl

/-- The line of a filled slot tells of the record of the child there. -/
theorem tellsOf_of_slotProperty {name : String} {child : Tree} {p : StructureProperty} {r : Record}
    (line : slotProperty name (some child) = .ok p) (describes : Describes map showMissing child r) :
    p.TellsOf r := by
  cases child with
  | token u =>
    cases line
    rw [describes.token u rfl]
    exact .token _ _ rfl rfl rfl
  | foreign value => exact absurd rfl (describes.syntactic value)
  | node kind slots items state =>
    obtain ⟨_, label, own⟩ := describes.node _ _ _ _ rfl
    rcases entry : kind.catalogued with _ | e
    · simp [slotProperty, Tree.entry, entry, bind, Except.bind] at line
    · obtain ⟨_, _, rfl⟩ := Option.map_eq_some_iff.1 entry
      simp only [slotProperty, Tree.entry, entry, bind, Except.bind, pure, Except.pure,
        Except.ok.injEq] at line
      subst line
      refine .node own ?_ ?_ <;> rw [label] <;> rfl

/-- Lines of slots tell, where the slots are filled, of the records of the children. -/
theorem lines_tellOf {t : Tree} {names : List String} {ps : List StructureProperty}
    (lines : List.Forall₂ (fun n p => slotProperty n (t.child? n) = .ok p) names ps)
    {below : List Record}
    (described : List.Forall₂ (Describes map showMissing) (names.filterMap fun n => t.child? n) below) :
    List.Forall₂ StructureProperty.TellsOf (ps.filter (!·.isEmpty)) below := by
  induction lines generalizing below with
  | nil =>
    cases described
    exact .nil
  | @cons n p names ps line _ ih =>
    rw [List.filterMap_cons] at described
    rcases child : t.child? n with _ | c
    · rw [child] at line described
      cases line
      exact ih described
    · rw [child] at line described
      obtain _ | ⟨describes, others⟩ := described
      have tells := tellsOf_of_slotProperty line describes
      rw [List.filter_cons_of_pos (by simp [tells.isEmpty])]
      exact .cons tells (ih others)

/-- Where a line is empty its slot is, and it says so. -/
theorem isEmpty_of_slotProperty {name : String} {child : Option Tree} {p : StructureProperty}
    (line : slotProperty name child = .ok p)
    (described : ∀ c ∈ child, ∃ r, Describes map showMissing c r) :
    (p.isEmpty = true ↔ child = none) ∧ (p.isEmpty = true → p.value = some ⟨"nil", none⟩) := by
  rcases child with _ | c
  · cases line
    exact ⟨by simp [StructureProperty.isEmpty], fun _ => rfl⟩
  · obtain ⟨r, describes⟩ := described c rfl
    simp [(tellsOf_of_slotProperty line describes).isEmpty]

theorem exists_of_bind_ok {α β ε : Type} {x : Except ε α} {f : α → Except ε β} {b : β}
    (h : x >>= f = .ok b) : ∃ a, x = .ok a ∧ f a = .ok b := by
  rcases x with e | a
  · cases h
  · exact ⟨a, rfl, h⟩

theorem forall₂_of_mapM {α β ε : Type} {f : α → Except ε β} {xs : List α} {ys : List β}
    (run : xs.mapM f = .ok ys) : List.Forall₂ (fun x y => f x = .ok y) xs ys := by
  induction xs generalizing ys with
  | nil =>
    cases run
    exact .nil
  | cons x xs ih =>
    rw [List.mapM_cons] at run
    obtain ⟨y, first, run⟩ := exists_of_bind_ok run
    obtain ⟨zs, others, last⟩ := exists_of_bind_ok run
    cases last
    exact .cons first (ih others)

/-! ## Whole listings -/

/-- What a record lists agrees with the records below it, as the shape of its kind asks for. -/
def ListsBelow (u : Tree) (r : Record) (below : List Record) : Shape → Prop
  | .layout declared =>
    r.properties.map (·.name) = declared.map (·.name) ∧
      (∀ p ∈ r.properties, (p.isEmpty = true ↔ u.child? p.name = none) ∧
        (p.isEmpty = true → p.value = some ⟨"nil", none⟩)) ∧
      List.Forall₂ StructureProperty.TellsOf (r.properties.filter (!·.isEmpty)) below
  | .collection element =>
    r.category = .collection ∧ r.properties = [
      { name := "Element", value := some ⟨Markup.escape (element ++ nodeSuffix), none⟩ },
      { name := "Count", value := some ⟨toString below.length, none⟩ }]
  | .choice _ => r.properties = [] ∧ below.length = 1

/-- The filled slots of a layout are those that are looked up. -/
theorem filterMap_child? {kind : Kind} {slots : List (String × Tree)} {items : List Tree}
    {state : NodeState} {names : List String} (sub : (slots.map (·.1)).Sublist names)
    (nodup : names.Nodup) : names.filterMap (fun n => (Tree.node kind slots items state).child? n) =
      slots.map (·.2) := by
  have pairs := congrArg (List.map Prod.snd) (filterMap_lookup sub nodup)
  rw [List.map_filterMap] at pairs
  rw [← pairs]
  refine List.filterMap_congr fun n _ => ?_
  change slots.lookup n = _
  cases slots.lookup n <;> rfl

/-- What a node's record lists is the structure of the node. -/
theorem structure_of_nodeRecord {kind : Kind} {slots : List (String × Tree)} {items : List Tree}
    {state : NodeState} {category : Category} {shape : Shape}
    (described : Catalog.describe kind = some (category, shape)) {parent : Option Nat} {id : Nat}
    {r : Record} (made : nodeRecord map parent id (.node kind slots items state) = .ok r) :
    ∃ s, structureBy ⟨kind.name, category, shape⟩ (.node kind slots items state) = .ok s ∧
      r.properties = s.properties ∧ (s.isCollection = true → r.category = .collection) := by
  have entry : (Tree.node kind slots items state).entry = .ok ⟨kind.name, category, shape⟩ := by
    simp [Tree.entry, Kind.catalogued, described]
  obtain ⟨e, entry', made⟩ := exists_of_bind_ok made
  rw [entry, Except.ok.injEq] at entry'
  subst entry'
  obtain ⟨s, structured, made⟩ := exists_of_bind_ok made
  refine ⟨s, structured, ?_⟩
  rw [← Except.ok.inj made]
  exact ⟨rfl, fun isCollection => if_pos isCollection⟩

/-- The lines of a layout's listing, one for each slot that is declared. -/
theorem listsBelow_layout {kind : Kind} {slots : List (String × Tree)} {items : List Tree}
    {state : NodeState} {declared : List Slot} {r : Record} {below : List Record}
    (layout : kind.isLayout = true) (sub : (slots.map (·.1)).Sublist (declared.map (·.name)))
    (nodup : (declared.map (·.name)).Nodup)
    (lines : List.Forall₂ (fun s p => slotProperty s.name
      ((Tree.node kind slots items state).child? s.name) = .ok p) declared r.properties)
    (linked : List.Forall₂ (Describes map showMissing)
      (Tree.node kind slots items state).children below) :
    ListsBelow (.node kind slots items state) r below (.layout declared) := by
  have byName : List.Forall₂ (fun n p => slotProperty n
      ((Tree.node kind slots items state).child? n) = .ok p) (declared.map (·.name))
      r.properties := List.forall₂_map_left_iff.2 lines
  refine ⟨?_, fun p hp => ?_, @lines_tellOf map showMissing _ _ _ byName below ?_⟩
  · have names : List.Forall₂ (· = ·) (r.properties.map (·.name)) (declared.map (·.name)) := by
      rw [List.forall₂_map_left_iff]
      exact (byName.imp fun n p line => name_of_slotProperty line).flip
    rwa [List.forall₂_eq_eq_eq] at names
  · obtain ⟨n, _, line⟩ := exists_of_forall₂ byName p hp
    have described : ∀ c ∈ (Tree.node kind slots items state).child? n,
        ∃ s, Describes map showMissing c s := by
      intro c child
      have mem : c ∈ (Tree.node kind slots items state).children := by
        simp only [children, layout, if_true]
        exact mem_of_lookup child
      obtain ⟨s, _, describes⟩ := exists_of_forall₂ linked.flip c mem
      exact ⟨s, describes⟩
    rw [name_of_slotProperty line]
    exact isEmpty_of_slotProperty line described
  · rw [filterMap_child? sub nodup]
    simpa only [children, layout, if_true] using linked

/-- A record that describes a node lists what stands below it. -/
theorem listsBelow {kind : Kind} {slots : List (String × Tree)} {items : List Tree}
    {state : NodeState} {r : Record} {below : List Record}
    (fits : (Tree.node kind slots items state).Fits)
    (describes : Describes map showMissing (.node kind slots items state) r)
    (linked : List.Forall₂ (Describes map showMissing)
      (Tree.node kind slots items state).children below) :
    ∃ category shape, Catalog.describe kind = some (category, shape) ∧
      ListsBelow (.node kind slots items state) r below shape := by
  rcases described : Catalog.describe kind with _ | ⟨category, shape⟩
  · simp [Fits, described] at fits
  obtain ⟨s, structured, properties, collection⟩ :=
    structure_of_nodeRecord described (describes.node _ _ _ _ rfl).1
  refine ⟨category, shape, rfl, ?_⟩
  simp only [Fits, described] at fits
  cases shape with
  | choice alternatives =>
    cases structured
    obtain ⟨rfl, c, rfl, _⟩ := fits
    have layout : kind.isLayout = false := by simp [Kind.isLayout, described]
    simp only [children, layout, Bool.false_eq_true, if_false] at linked
    exact ⟨properties, linked.length_eq.symm⟩
  | collection element =>
    obtain ⟨cs, known, structured⟩ := exists_of_bind_ok structured
    cases structured
    obtain rfl : cs = (Tree.node kind slots items state).children := by
      simpa [knownChildren, Tree.entry, Kind.catalogued, described, Except.map, eq_comm] using known
    exact ⟨collection rfl, by rw [properties, linked.length_eq]⟩
  | layout declared =>
    have layout : kind.isLayout = true := by simp [Kind.isLayout, described]
    have nodup := slot_names_nodup kind (Kind.mem_registered (by simp [Kind.catalogued, described]))
    simp only [Kind.slots, described, Shape.slots] at nodup
    simp only [structureBy, isToken, Bool.false_eq_true, if_false] at structured
    obtain ⟨ps, listed, same⟩ := exists_of_bind_ok structured
    cases same
    exact listsBelow_layout layout fits.2.1 nodup (properties ▸ forall₂_of_mapM listed) linked

end Tree

/-- Listings and the records below them agree. Whatever the options are, a source that renders has
records numbered from zero on, and each of them that is of no token lists what the records below
it are, as the shape of its kind asks for. -/
theorem render_lists_below {host : Host} {budget : Nat} {options : RenderOptions}
    {place : DumpPlace} {file source : String} {rs : List Record}
    (rendered : (render host budget options place file source).value = .ok rs) :
    rs.map (·.id) = List.range rs.length ∧
    ∃ p, (treeTraced host budget options place file source).value = .ok p ∧
      List.Forall₂ (fun u r => r.token = none → ∃ kind slots items state category shape,
        u = .node kind slots items state ∧ r.label = kind.name ∧
          Catalog.describe kind = some (category, shape) ∧ u.ListsBelow r (r.below rs) shape)
        p.root.preorder rs := by
  obtain ⟨q, parsed, produced, made⟩ := parse_of_render options place rendered
  obtain ⟨_, _, fits, _⟩ := shown_settled parsed options.fold
  obtain ⟨ss, made', numbered, linked⟩ :=
    Tree.records_linked fits (.ofSource source file) options.showMissing
  obtain rfl : ss = rs := by rwa [made, Except.ok.injEq, eq_comm] at made'
  refine ⟨numbered, _, produced, forall₂_imp_of_mem linked fun u mem r own bare => ?_⟩
  obtain ⟨describes, below⟩ := own
  cases u with
  | token v =>
    rw [describes.token v rfl] at bare
    cases bare
  | foreign value => exact absurd rfl (describes.syntactic value)
  | node kind slots items state =>
    obtain ⟨category, shape, described, lists⟩ :=
      Tree.listsBelow (fits.of_mem_preorder mem) describes below
    exact ⟨kind, slots, items, state, category, shape, rfl, (describes.node _ _ _ _ rfl).2.1,
      described, lists⟩

/-- Listings agree with a missing token and an infix node in the tree. -/
theorem render_lists_below_of_folded :
    let source := "x = \"é\" $+ (b ] * c"
    ∃ rs, (render .roomy 3 { fold := true } .nowhere standardFile source).value = .ok rs ∧
      rs.map (·.id) = List.range rs.length ∧
      ∃ p, (treeTraced .roomy 3 { fold := true } .nowhere standardFile source).value = .ok p ∧
        List.Forall₂ (fun u r => r.token = none → ∃ kind slots items state category shape,
          u = .node kind slots items state ∧ r.label = kind.name ∧
            Catalog.describe kind = some (category, shape) ∧ u.ListsBelow r (r.below rs) shape)
          p.root.preorder rs := by
  obtain ⟨q, parsed, _⟩ := exists_ok_of_toOption sample_parses.2.2.2.1
  obtain ⟨rs, _, given⟩ := render_of_parse { fold := true } .nowhere parsed
  have rendered := given .roomy
  rw [Host.outcome_roomy] at rendered
  exact ⟨rs, rendered, render_lists_below rendered⟩

end SyntaxAtlas
