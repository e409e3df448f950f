-- The list of records is the tree again. The records stand in pre-order, each one tells its
-- parent's number, and from these numbers alone the tree can be built anew.

import SyntaxAtlas.Proofs.Places
import SyntaxAtlas.Record.Visitor

namespace SyntaxAtlas

namespace Tree

/-! ## Trees of known kinds -/

/-- A token, or a node of a kind that has an entry. -/
def IsRegistered : Tree → Prop
  | .token _ => True
  | .node kind _ _ _ => kind.catalogued.isSome = true
  | .foreign _ => False

end Tree

/-- The name of a known kind is shown as it is. -/
theorem Kind.escape_className : ∀ kind ∈ Kind.registered,
    Markup.escape (Markup.className kind.name) = kind.name := by
  have plain : ∀ kind ∈ Kind.registered,
      nodeSuffix.toList.isSuffixOf kind.name.toList = false ∧
        kind.name.toList.all (fun c => Markup.escapeCharacter c == [c]) = true := by
    decide +kernel
  intro kind known
  obtain ⟨noSuffix, all⟩ := plain kind known
  have kept : kind.name.toList.flatMap Markup.escapeCharacter = kind.name.toList := by
    conv_rhs => rw [← List.flatMap_singleton' kind.name.toList]
    exact List.flatMap_congr fun c hc => eq_of_beq (List.all_eq_true.1 all c hc)
  rw [Markup.className, noSuffix, if_neg Bool.false_ne_true, Markup.escape, kept,
    String.ofList_toList]

/-- The name of a known kind tells the kind. -/
theorem Kind.ofName_name : ∀ kind ∈ Kind.registered, Kind.ofName kind.name = kind := by
  decide +kernel

/-! ## One record -/

namespace Tree

variable {map : LineMap} {showMissing : Bool}

theorem mapM_ok {α β ε : Type} {f : α → Except ε β} {xs : List α}
    (each : ∀ x ∈ xs, ∃ y, f x = .ok y) : ∃ ys, xs.mapM f = .ok ys := by
  induction xs with
  | nil => exact ⟨[], rfl⟩
  | cons x xs ih =>
    obtain ⟨y, first⟩ := each x (by simp)
    obtain ⟨ys, others⟩ := ih fun z hz => each z (by simp [hz])
    exact ⟨y :: ys, by simp [List.mapM_cons, first, others, bind, Except.bind, pure, Except.pure]⟩

theorem slotProperty_ok (name : String) (child : Option Tree)
    (known : ∀ c ∈ child, c.IsRegistered) : ∃ p, slotProperty name child = .ok p := by
  match child with
  | none => exact ⟨_, rfl⟩
  | some (.token u) => exact ⟨_, rfl⟩
  | some (.foreign value) => exact ⟨_, rfl⟩
  | some (.node kind slots items state) =>
    obtain ⟨e, entry⟩ := Option.isSome_iff_exists.1 (known _ rfl)
    exact ⟨_, by simp only [slotProperty, Tree.entry, entry]; rfl⟩

/-- A node of a known kind has a structure when its children are of known kinds. -/
theorem structureBy_ok {kind : Kind} {slots : List (String × Tree)} {items : List Tree}
    {state : NodeState} {e : Entry} (entry : kind.catalogued = some e)
    (below : ∀ c ∈ (Tree.node kind slots items state).children, c.IsRegistered) :
    ∃ s, structureBy e (.node kind slots items state) = .ok s := by
  obtain ⟨⟨category, shape⟩, described, rfl⟩ := Option.map_eq_some_iff.1 entry
  cases shape with
  | choice alternatives => exact ⟨_, rfl⟩
  | collection element =>
    exact ⟨_, by simp only [structureBy, knownChildren, Tree.entry, entry]; rfl⟩
  | layout declared =>
    have layout : kind.isLayout = true := by simp [Kind.isLayout, described]
    simp only [children, layout, if_true] at below
    obtain ⟨ps, listed⟩ : ∃ ps, declared.mapM (fun s =>
        slotProperty s.name ((Tree.node kind slots items state).child? s.name)) = .ok ps := by
      refine mapM_ok fun s _ => slotProperty_ok _ _ fun c filled => ?_
      exact below c (mem_of_lookup filled)
    exact ⟨⟨ps, false⟩, by simp [structureBy, isToken, listed, bind, Except.bind, pure, Except.pure]⟩

/-- A record says what there is to say of one tree. The label of a node is the name of its
kind, and only tokens have a token's information. -/
structure Describes (map : LineMap) (showMissing : Bool) (u : Tree) (r : Record) : Prop where
  range : r.range = map.range u.start u.stop
  token : ∀ v, u = .token v → r = v.record map showMissing r.parent r.id
  node : ∀ kind slots items state, u = .node kind slots items state →
    nodeRecord map r.parent r.id u = .ok r ∧ r.label = kind.name ∧ r.token = none
  syntactic : ∀ value, u ≠ .foreign value

theorem nodeRecord_ok {kind : Kind} {slots : List (String × Tree)} {items : List Tree}
    {state : NodeState} (here : (Tree.node kind slots items state).IsRegistered)
    (below : ∀ c ∈ (Tree.node kind slots items state).children, c.IsRegistered)
    (parent : Option Nat) (id : Nat) :
    ∃ r, nodeRecord map parent id (.node kind slots items state) = .ok r ∧
      r.id = id ∧ r.parent = parent ∧
      Describes map showMissing (.node kind slots items state) r := by
  obtain ⟨e, entry⟩ := Option.isSome_iff_exists.1 here
  obtain ⟨s, structured⟩ := structureBy_ok entry below
  have made : nodeRecord map parent id (.node kind slots items state) = .ok {
      id, parent
      label := Markup.escape (Markup.className e.name)
      range := map.range state.span.start state.span.stop
      category := if s.isCollection then .collection else e.category
      properties := s.properties } := by
    simp [nodeRecord, Tree.entry, entry, structured, start, stop, bind, Except.bind, pure,
      Except.pure]
  have name : e.name = kind.name := by
    obtain ⟨_, _, rfl⟩ := Option.map_eq_some_iff.1 entry
    rfl
  refine ⟨_, made, rfl, rfl, ⟨rfl, by rintro _ ⟨⟩, ?_, by rintro _ ⟨⟩⟩⟩
  rintro _ _ _ _ ⟨⟩
  exact ⟨made, by rw [name, Kind.escape_className kind (Kind.mem_registered here)], rfl⟩

theorem describes_token (u : Token) (parent : Option Nat) (id : Nat) :
    Describes map showMissing (.token u) (u.record map showMissing parent id) where
  range := rfl
  token := by rintro _ ⟨⟩; rfl
  node := by rintro _ _ _ _ ⟨⟩
  syntactic := by rintro _ ⟨⟩

end Tree

/-! ## Building the tree anew -/

/-- The outline of a tree: the kinds of its nodes and tokens, and how they are nested. -/
inductive Outline
  | token (kind : String)
  | node (kind : Kind) (children : List Outline)

namespace Tree

mutual

def outline : Tree → Outline
  | .token u => .token u.kind.description
  | .node kind slots items _ =>
    .node kind (if kind.isLayout then slotOutlines slots else itemOutlines items)
  | .foreign value => .node (.unregistered value.display) []

def slotOutlines : List (String × Tree) → List Outline
  | [] => []
  | (_, t) :: rest => t.outline :: slotOutlines rest

def itemOutlines : List Tree → List Outline
  | [] => []
  | t :: rest => t.outline :: itemOutlines rest

end

theorem slotOutlines_eq (slots : List (String × Tree)) :
    slotOutlines slots = (slots.map (·.2)).map outline := by
  induction slots with
  | nil => rfl
  | cons slot rest ih => simp [slotOutlines, ih]

theorem itemOutlines_eq (items : List Tree) : itemOutlines items = items.map outline := by
  induction items with
  | nil => rfl
  | cons t rest ih => simp [itemOutlines, ih]

theorem outline_node (kind : Kind) (slots : List (String × Tree)) (items : List Tree)
    (state : NodeState) :
    (Tree.node kind slots items state).outline =
      .node kind ((Tree.node kind slots items state).children.map outline) := by
  by_cases layout : kind.isLayout = true
  · simp only [outline, children, layout, if_true, slotOutlines_eq]
  · simp only [outline, children, layout, Bool.false_eq_true, if_false, itemOutlines_eq]

end Tree

namespace Record

/-- The outline that a record gives, around what is inside. -/
def outline (r : Record) (inside : List Outline) : Outline :=
  match r.token with
  | some info => .token info.kind
  | none => .node (.ofName r.label) inside

/-- The outlines that have the given parent, in the order of their records. A record finds its
children behind it, by its number. -/
def forest (parent : Option Nat) : List Record → List Outline
  | [] => []
  | r :: later =>
    if r.parent = parent then r.outline (forest (some r.id) later) :: forest parent later
    else forest parent later

theorem forest_eq_nil {parent : Option Nat} {rs : List Record} (other : ∀ r ∈ rs, r.parent ≠ parent) :
    forest parent rs = [] := by
  induction rs with
  | nil => rfl
  | cons r rs ih =>
    rw [forest, if_neg (other r (by simp))]
    exact ih fun s hs => other s (by simp [hs])

/-- Records of which none has its parent among the ones before them stand for themselves. -/
theorem forest_append {parent : Option Nat} {rs more : List Record}
    (apart : ∀ r ∈ rs, ∀ s ∈ more, s.parent ≠ some r.id) :
    forest parent (rs ++ more) = forest parent rs ++ forest parent more := by
  induction rs generalizing parent with
  | nil => rfl
  | cons r rs ih =>
    have later : ∀ q, forest q (rs ++ more) = forest q rs ++ forest q more :=
      fun q => ih fun s hs => apart s (by simp [hs])
    have none : forest (some r.id) more = [] := forest_eq_nil (apart r (by simp))
    rw [List.cons_append, forest, forest, later, later, none, List.append_nil]
    split <;> rfl

end Record

/-! ## The records of a tree -/

namespace Tree

variable {map : LineMap} {showMissing : Bool}

/-- The records of one tree: they describe the trees inside it, are numbered on, and name their
parents by the numbers of the places. -/
structure Records (map : LineMap) (showMissing : Bool) (parent : Option Nat) (id : Nat) (t : Tree)
    (rs : List Record) : Prop where
  described : List.Forall₂ (Describes map showMissing) t.preorder rs
  numbered : rs.map (·.id) = List.range' id t.places.length
  linked : List.Forall₂ (fun place r => r.parent =
    if place = [] then parent else some (id + t.places.idxOf place.dropLast)) t.places rs
  rebuilt : (∀ i, parent = some i → i < id) → Record.forest parent rs = [t.outline]

/-- The records of some trees below one parent. -/
structure ItemRecords (map : LineMap) (showMissing : Bool) (parent id k : Nat) (ts : List Tree)
    (rs : List Record) : Prop where
  described : List.Forall₂ (Describes map showMissing) (ts.flatMap preorder) rs
  numbered : rs.map (·.id) = List.range' id (itemPlaces k ts).length
  linked : List.Forall₂ (fun place r => r.parent = some
    (if place.dropLast = [] then parent else id + (itemPlaces k ts).idxOf place.dropLast))
    (itemPlaces k ts) rs
  rebuilt : parent < id → Record.forest (some parent) rs = ts.map outline

theorem Records.bounds {parent : Option Nat} {id : Nat} {t : Tree} {rs : List Record}
    (h : Records map showMissing parent id t rs) : ∀ r ∈ rs, id ≤ r.id ∧ r.id < id + rs.length := by
  intro r hr
  have mem : r.id ∈ rs.map (·.id) := List.mem_map_of_mem hr
  have length := congrArg List.length h.numbered
  rw [h.numbered, List.mem_range'_1] at mem
  rw [List.length_map, List.length_range'] at length
  omega

theorem ItemRecords.parents {parent id k : Nat} {ts : List Tree} {rs : List Record}
    (h : ItemRecords map showMissing parent id k ts rs) :
    ∀ r ∈ rs, ∃ i, r.parent = some i ∧ (i = parent ∨ id ≤ i) := by
  intro r hr
  obtain ⟨place, _, linked⟩ := exists_of_forall₂ h.linked r hr
  refine ⟨_, linked, ?_⟩
  split
  · exact .inl rfl
  · exact .inr (Nat.le_add_right _ _)

theorem itemRecords_nil (parent id k : Nat) : ItemRecords map showMissing parent id k [] [] where
  described := .nil
  numbered := rfl
  linked := .nil
  rebuilt _ := rfl

theorem idxOf_map_cons (k : Nat) (ps : List (List Nat)) (place : List Nat) :
    (ps.map (k :: ·)).idxOf (k :: place) = ps.idxOf place := by
  induction ps with
  | nil => rfl
  | cons p ps ih => simp [List.idxOf_cons, ih]

/-- The records of a tree with those of the trees behind it. -/
theorem Records.cons {parent id k : Nat} {t : Tree} {ts : List Tree} {first more : List Record}
    (head : Records map showMissing (some parent) id t first)
    (tail : ItemRecords map showMissing parent (id + first.length) (k + 1) ts more) :
    ItemRecords map showMissing parent id k (t :: ts) (first ++ more) := by
  have counted : first.length = t.places.length := by
    simpa using congrArg List.length head.numbered
  refine ⟨?_, ?_, ?_, ?_⟩
  · exact List.rel_append head.described tail.described
  · rw [List.map_append, head.numbered, tail.numbered, counted]
    simp [itemPlaces, List.range'_append_1]
  · refine List.rel_append ?_ ?_
    · rw [List.forall₂_map_left_iff]
      refine forall₂_imp_of_mem head.linked fun place mem r linked => ?_
      rcases eq : place with _ | ⟨j, rest⟩
      · simpa [eq] using linked
      · rw [eq, if_neg (List.cons_ne_nil j rest)] at linked
        have inside : k :: (j :: rest).dropLast ∈ t.places.map (k :: ·) :=
          List.mem_map_of_mem (dropLast_mem_places (eq ▸ mem))
        rw [linked, List.dropLast_cons_of_ne_nil (List.cons_ne_nil j rest),
          if_neg (List.cons_ne_nil _ _), itemPlaces, List.idxOf_append_of_mem inside,
          idxOf_map_cons]
    · refine forall₂_imp_of_mem tail.linked fun place mem r linked => ?_
      rw [linked]
      obtain ⟨j, rest, _, rfl, _⟩ := mem_itemPlaces.1 mem
      rcases rest with _ | ⟨i, rest⟩
      · rfl
      · have outside : (k + 1 + j) :: (i :: rest).dropLast ∉ t.places.map (k :: ·) := by
          simp only [List.mem_map, List.cons.injEq, not_exists, not_and]
          omega
        rw [List.dropLast_cons_of_ne_nil (List.cons_ne_nil i rest), if_neg (List.cons_ne_nil _ _),
          if_neg (List.cons_ne_nil _ _), itemPlaces, List.idxOf_append_of_notMem outside,
          List.length_map, counted, Nat.add_assoc]
  · intro before
    rw [Record.forest_append, head.rebuilt, tail.rebuilt (by omega)]
    · rfl
    · rintro _ ⟨⟩
      exact before
    · intro r hr s hs same
      obtain ⟨i, linked, own⟩ := tail.parents s hs
      obtain ⟨lower, upper⟩ := head.bounds r hr
      rw [linked] at same
      cases same
      omega

theorem slotRecords_eq (parent id : Nat) (slots : List (String × Tree)) :
    slotRecords map showMissing parent id slots =
      itemRecords map showMissing parent id (slots.map (·.2)) := by
  induction slots generalizing id with
  | nil => rfl
  | cons slot rest ih => simp only [slotRecords, itemRecords, List.map_cons, ih]

/-- The records of a node are its own and those of its children. -/
theorem recordsFrom_node (parent : Option Nat) (id : Nat) (kind : Kind)
    (slots : List (String × Tree)) (items : List Tree) (state : NodeState) :
    recordsFrom map showMissing parent id (.node kind slots items state) =
      (nodeRecord map parent id (.node kind slots items state)).bind fun first =>
        (itemRecords map showMissing id (id + 1)
          (Tree.node kind slots items state).children).map (first :: ·) := by
  by_cases layout : kind.isLayout = true
  · simp only [recordsFrom, children, layout, if_true, slotRecords_eq]
    rfl
  · simp only [recordsFrom, children, layout, Bool.false_eq_true, if_false]
    rfl

/-- A record with those of the children. -/
theorem ItemRecords.node {parent : Option Nat} {id : Nat} {kind : Kind}
    {slots : List (String × Tree)} {items : List Tree} {state : NodeState} {r : Record}
    {rs : List Record}
    (below : ItemRecords map showMissing id (id + 1) 0
      (Tree.node kind slots items state).children rs)
    (known : kind ∈ Kind.registered)
    (own : Describes map showMissing (.node kind slots items state) r) (number : r.id = id)
    (link : r.parent = parent) :
    Records map showMissing parent id (.node kind slots items state) (r :: rs) := by
  refine ⟨?_, ?_, ?_, ?_⟩
  · rw [preorder_eq]
    exact .cons own below.described
  · rw [places_eq, List.map_cons, below.numbered, number, List.length_cons, List.range'_succ]
  · rw [places_eq]
    refine .cons (by simpa using link)
      (forall₂_imp_of_mem below.linked fun place mem s linked => ?_)
    obtain ⟨j, rest, _, rfl, _⟩ := mem_itemPlaces.1 mem
    rw [linked, if_neg (List.cons_ne_nil _ _)]
    rcases rest with _ | ⟨i, rest⟩
    · simp
    · rw [List.dropLast_cons_of_ne_nil (List.cons_ne_nil i rest), if_neg (List.cons_ne_nil _ _),
        List.idxOf_cons_ne _ (List.cons_ne_nil _ _).symm]
      simp [Nat.add_assoc, Nat.add_comm 1]
  · intro before
    obtain ⟨_, label, token⟩ := own.node _ _ _ _ rfl
    have none : Record.forest parent rs = [] := by
      refine Record.forest_eq_nil fun s hs same => ?_
      obtain ⟨i, linked, own⟩ := below.parents s hs
      have := before i (by rw [← same, linked])
      omega
    rw [Record.forest, if_pos link, none, number, below.rebuilt (Nat.lt_succ_self id),
      outline_node, Record.outline, token, label, Kind.ofName_name kind known]

/-- Where all children have their records, whatever number they start from, so have they all
together. -/
theorem itemRecords_ok {ts : List Tree}
    (each : ∀ t ∈ ts, ∀ parent id, ∃ rs, t.recordsFrom map showMissing parent id = .ok rs ∧
      Records map showMissing parent id t rs) (parent id k : Nat) :
    ∃ rs, itemRecords map showMissing parent id ts = .ok rs ∧
      ItemRecords map showMissing parent id k ts rs := by
  induction ts generalizing id k with
  | nil => exact ⟨[], rfl, itemRecords_nil parent id k⟩
  | cons t ts ih =>
    obtain ⟨first, made, head⟩ := each t (by simp) (some parent) id
    obtain ⟨more, made', tail⟩ :=
      ih (fun u hu => each u (by simp [hu])) (id + first.length) (k + 1)
    exact ⟨first ++ more, by simp [itemRecords, made, made', bind, Except.bind, pure, Except.pure],
      head.cons tail⟩

/-- A tree of known kinds has its records. -/
theorem recordsFrom_ok {t : Tree} (known : t.Everywhere IsRegistered) (parent : Option Nat)
    (id : Nat) : ∃ rs, t.recordsFrom map showMissing parent id = .ok rs ∧
      Records map showMissing parent id t rs := by
  induction t using children_induction generalizing parent id with
  | step t ih =>
    obtain ⟨here, below⟩ := everywhere_iff.1 known
    cases t with
    | foreign value => exact here.elim
    | token u =>
      refine ⟨_, rfl, .cons (describes_token u parent id) .nil, rfl, .cons rfl .nil, fun _ => ?_⟩
      simp [Record.forest, Token.record, Record.outline, outline]
    | node kind slots items state =>
      obtain ⟨r, own, number, link, describes⟩ :=
        @nodeRecord_ok map showMissing _ _ _ _ here (fun c hc => (below c hc).self) parent id
      obtain ⟨rs, made, records⟩ :=
        itemRecords_ok (fun c hc => ih c hc (below c hc)) id (id + 1) 0
      exact ⟨r :: rs, by simp [recordsFrom_node, own, made, Except.bind, Except.map],
        records.node (Kind.mem_registered here) describes number link⟩

/-! ## The list as an encoding of the tree -/

/-- The list of records of a tree. There is one for each place, in pre-order, and the parents'
numbers tell the shape. -/
structure Encodes (map : LineMap) (showMissing : Bool) (t : Tree) (rs : List Record) : Prop where
  /-- The places are those where there is a tree. -/
  complete : ∀ place, place ∈ t.places ↔ ∃ u, t.below? place = some u
  /-- They stand in pre-order. -/
  ordered : t.places.Pairwise (· < ·)
  /-- Each record describes the tree at its place. -/
  described : List.Forall₂ (fun place r =>
    ∃ u, t.below? place = some u ∧ Describes map showMissing u r ∧ r.token.isSome = u.isToken)
    t.places rs
  /-- The numbers count the records. -/
  numbered : rs.map (·.id) = List.range t.places.length
  /-- The parent of a record is the record of the parent. -/
  linked : List.Forall₂ (fun place r =>
    r.parent = if place = [] then none else some (t.number place.dropLast)) t.places rs
  /-- Only the first record has no parent, and parents come first. -/
  root : ∀ r ∈ rs, r.parent = none ↔ r.id = 0
  forward : ∀ r ∈ rs, ∀ i, r.parent = some i → i < r.id
  /-- What is below a tree has the numbers behind it. -/
  contiguous : ∀ place u, t.below? place = some u → ∀ other ∈ t.places,
    (place <+: other ↔
      t.number place ≤ t.number other ∧ t.number other < t.number place + u.places.length)
  /-- From the parents' numbers the tree is built anew. -/
  rebuilt : Record.forest none rs = [t.outline]

theorem Describes.token_isSome {u : Tree} {r : Record} (h : Describes map showMissing u r) :
    r.token.isSome = u.isToken := by
  cases u with
  | token v =>
    rw [h.token v rfl]
    rfl
  | foreign value => exact absurd rfl (h.syntactic value)
  | node kind slots items state =>
    rw [(h.node _ _ _ _ rfl).2.2]
    rfl

/-- In a whole list a record has the number of its place, and names the place above. -/
theorem Records.numbers {t : Tree} {rs : List Record} (h : Records map showMissing none 0 t rs) :
    List.Forall₂ (fun place r => r.id = t.number place ∧
      r.parent = if place = [] then none else some (t.number place.dropLast)) t.places rs := by
  obtain ⟨length, linked⟩ := List.forall₂_iff_get.1 h.linked
  refine List.forall₂_iff_get.2 ⟨length, fun i inside inside' => ⟨?_, ?_⟩⟩
  · have within : i < (rs.map (·.id)).length := by simpa using inside'
    have numbered : (rs.map (·.id))[i] = i := by
      simp [h.numbered]
    rw [List.getElem_map] at numbered
    simp only [List.get_eq_getElem, number, numbered]
    exact (t.places_nodup.idxOf_getElem i inside).symm
  · simpa [number] using linked i inside inside'

theorem Records.encodes {t : Tree} {rs : List Record} (h : Records map showMissing none 0 t rs) :
    Encodes map showMissing t rs where
  complete _ := mem_places
  ordered := t.places_pairwise
  described := by
    have shown : List.Forall₂ (fun found r => ∃ u, found = some u ∧
        Describes map showMissing u r ∧ r.token.isSome = u.isToken) (t.preorder.map some) rs :=
      List.forall₂_map_left_iff.2
        (h.described.imp fun u r own => ⟨u, rfl, own, own.token_isSome⟩)
    rw [← below?_places, List.forall₂_map_left_iff] at shown
    exact shown
  numbered := by rw [h.numbered, List.range_eq_range']
  linked := h.numbers.imp fun _ _ both => both.2
  root r hr := by
    obtain ⟨place, _, number, linked⟩ := exists_of_forall₂ h.numbers r hr
    rw [number, number_eq_zero, linked]
    split <;> simp_all
  forward r hr i parent := by
    obtain ⟨place, mem, number, linked⟩ := exists_of_forall₂ h.numbers r hr
    rw [linked] at parent
    split at parent
    · cases parent
    · rename_i nonempty
      cases parent
      exact number ▸ number_dropLast_lt mem nonempty
  contiguous _ _ found _ mem := prefix_iff_number found mem
  rebuilt := h.rebuilt (by simp)

/-- The list of records is a faithful encoding of a tree of known kinds. The visitor finds the
records, and they are those that are numbered from above. -/
theorem visit_encodes (map : LineMap) (showMissing : Bool) {t : Tree}
    (known : t.Everywhere IsRegistered) :
    ∃ rs, Visitor.visit map showMissing t = .ok rs ∧ t.records map showMissing = .ok rs ∧
      Encodes map showMissing t rs := by
  obtain ⟨rs, made, records⟩ := recordsFrom_ok known none 0
  exact ⟨rs, (Visitor.visit_eq_records map showMissing t).trans made, made, records.encodes⟩

/-- A list of two items, of which the first one holds a node with a token. -/
theorem visit_encodes_items :
    let word := Token.ofText (.keyword .nilWord) "nil" 0
    let items := Tree.collection .codeBlockItemList [
      .layout .codeBlockItem [("item", .layout .nilLiteralExpr [("nilKeyword", .token word)])],
      .layout .codeBlockItem []]
    items.Everywhere IsRegistered ∧
      ∃ rs, Visitor.visit (.ofSource "nil" "") true items = .ok rs ∧
        items.records (.ofSource "nil" "") true = .ok rs ∧
        Encodes (.ofSource "nil" "") true items rs := by
  intro word items
  have known : items.Everywhere IsRegistered := by
    simp [items, collection, layout, layoutAt, Everywhere, SlotsEverywhere, ItemsEverywhere,
      IsRegistered, Kind.isLayout, Kind.catalogued, Catalog.describe]
  exact ⟨known, visit_encodes _ true known⟩

end Tree

end SyntaxAtlas
