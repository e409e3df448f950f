-- Places in a tree: where each tree inside stands. In pre-order a place comes before all
-- places below it, and these follow it in one row.

import SyntaxAtlas.Proofs.Filled
import SyntaxAtlas.Tree.Spans

namespace SyntaxAtlas.Tree

/-! ## Places in a tree -/

/-- The tree at a place. A place says which child to take at each step, counted from zero. -/
def below? : Tree → List Nat → Option Tree
  | t, [] => some t
  | t, k :: place => t.children[k]?.bind fun c => c.below? place

mutual

/-- The places of a tree: its own, then those of its children. -/
def places : Tree → List (List Nat)
  | .node kind slots items _ =>
    [] :: if kind.isLayout then slotPlaces 0 slots else itemPlaces 0 items
  | _ => [[]]

def slotPlaces (k : Nat) : List (String × Tree) → List (List Nat)
  | [] => []
  | (_, t) :: rest => t.places.map (k :: ·) ++ slotPlaces (k + 1) rest

def itemPlaces (k : Nat) : List Tree → List (List Nat)
  | [] => []
  | t :: rest => t.places.map (k :: ·) ++ itemPlaces (k + 1) rest

end

theorem slotPlaces_eq (k : Nat) (slots : List (String × Tree)) :
    slotPlaces k slots = itemPlaces k (slots.map (·.2)) := by
  induction slots generalizing k with
  | nil => rfl
  | cons slot rest ih => simp [slotPlaces, itemPlaces, ih]

theorem places_eq (t : Tree) : t.places = [] :: itemPlaces 0 t.children := by
  cases t with
  | token u => rfl
  | foreign value => rfl
  | node kind slots items state =>
    by_cases layout : kind.isLayout = true
    · simp only [places, children, layout, if_true, slotPlaces_eq]
    · simp only [places, children, layout, Bool.false_eq_true, if_false]

theorem itemPlaces_append (k : Nat) (xs ys : List Tree) :
    itemPlaces k (xs ++ ys) = itemPlaces k xs ++ itemPlaces (k + xs.length) ys := by
  induction xs generalizing k with
  | nil => simp [itemPlaces]
  | cons t xs ih => simp [itemPlaces, ih, Nat.add_assoc, Nat.add_comm 1]

theorem mem_itemPlaces {k : Nat} {ts : List Tree} {place : List Nat} :
    place ∈ itemPlaces k ts ↔
      ∃ j rest c, place = (k + j) :: rest ∧ ts[j]? = some c ∧ rest ∈ c.places := by
  induction ts generalizing k with
  | nil => simp [itemPlaces]
  | cons t ts ih =>
    simp only [itemPlaces, List.mem_append, List.mem_map, ih]
    constructor
    · rintro (⟨rest, mem, rfl⟩ | ⟨j, rest, c, rfl, at_j, mem⟩)
      · exact ⟨0, rest, t, rfl, rfl, mem⟩
      · exact ⟨j + 1, rest, c, by simp [Nat.add_assoc, Nat.add_comm 1], at_j, mem⟩
    · rintro ⟨_ | j, rest, c, rfl, at_j, mem⟩
      · cases at_j
        exact .inl ⟨rest, mem, rfl⟩
      · exact .inr ⟨j, rest, c, by simp [Nat.add_assoc, Nat.add_comm 1], at_j, mem⟩

/-- The places are those where there is a tree. -/
theorem mem_places {t : Tree} {place : List Nat} : place ∈ t.places ↔ ∃ u, t.below? place = some u := by
  induction place generalizing t with
  | nil => simp [places_eq, below?]
  | cons k place ih =>
    rw [places_eq, List.mem_cons, mem_itemPlaces]
    simp only [reduceCtorEq, false_or, Nat.zero_add, List.cons.injEq, below?]
    constructor
    · rintro ⟨_, _, c, ⟨rfl, rfl⟩, at_k, mem⟩
      simpa [at_k] using ih.1 mem
    · rcases at_k : t.children[k]? with _ | c
      · simp
      · exact fun found => ⟨k, place, c, ⟨rfl, rfl⟩, at_k, ih.2 found⟩

/-- Pre-order: the places stand in the order of their digits, a place before all below it. -/
theorem places_pairwise (t : Tree) : t.places.Pairwise (· < ·) := by
  induction t using children_induction with
  | step t ih =>
    rw [places_eq, List.pairwise_cons]
    constructor
    · intro place mem
      obtain ⟨j, rest, c, rfl, _⟩ := mem_itemPlaces.1 mem
      exact List.nil_lt_cons _ _
    · generalize 0 = k
      generalize t.children = ts at ih ⊢
      induction ts generalizing k with
      | nil => exact .nil
      | cons c ts rest =>
        simp only [itemPlaces, List.pairwise_append, List.pairwise_map]
        refine ⟨(ih c (by simp)).imp fun less => List.cons_lt_cons_iff.2 (.inr ⟨rfl, less⟩),
          rest _ (fun d hd => ih d (List.mem_cons_of_mem c hd)), ?_⟩
        intro place mem behind mem'
        obtain ⟨p, _, rfl⟩ := List.mem_map.1 mem
        obtain ⟨j, q, _, rfl, _⟩ := mem_itemPlaces.1 mem'
        exact List.cons_lt_cons_iff.2 (.inl (by omega))

/-- Below a place stand the places of the tree there, all in one row. -/
theorem places_split {t u : Tree} {place : List Nat} (found : t.below? place = some u) :
    ∃ front behind, t.places = front ++ u.places.map (place ++ ·) ++ behind ∧
      ∀ other ∈ front ++ behind, ¬ place <+: other := by
  induction place generalizing t with
  | nil =>
    cases found
    exact ⟨[], [], by simp, by simp⟩
  | cons k place ih =>
    rw [below?] at found
    obtain ⟨c, at_k, found⟩ := Option.bind_eq_some_iff.1 found
    obtain ⟨front, behind, split, outside⟩ := ih found
    obtain ⟨lt, rfl⟩ := List.getElem?_eq_some_iff.1 at_k
    -- The children before this one, and those behind it.
    have cut : itemPlaces 0 t.children =
        itemPlaces 0 (t.children.take k) ++
          (t.children[k].places.map (k :: ·) ++ itemPlaces (k + 1) (t.children.drop (k + 1))) := by
      conv_lhs => rw [← List.take_append_drop k t.children, List.drop_eq_getElem_cons lt]
      rw [itemPlaces_append, List.length_take, Nat.zero_add, Nat.min_eq_left (Nat.le_of_lt lt),
        itemPlaces]
    refine ⟨[] :: itemPlaces 0 (t.children.take k) ++ front.map (k :: ·),
      behind.map (k :: ·) ++ itemPlaces (k + 1) (t.children.drop (k + 1)), ?_, ?_⟩
    · simp [places_eq t, cut, split]
    · intro other mem under
      obtain ⟨rest, rfl⟩ := under
      simp only [List.cons_append, List.mem_append, List.mem_cons, List.mem_map, reduceCtorEq,
        false_or, mem_itemPlaces, List.cons.injEq, true_and] at mem
      rcases mem with (⟨j, _, _, ⟨same, _⟩, taken, _⟩ | ⟨_, mem, rfl⟩) | ⟨_, mem, rfl⟩ |
        ⟨j, _, _, ⟨same, _⟩, _⟩
      · have := (List.getElem?_eq_some_iff.1 taken).1
        rw [List.length_take] at this
        omega
      · exact outside _ (List.mem_append_left _ mem) (List.prefix_append _ _)
      · exact outside _ (List.mem_append_right _ mem) (List.prefix_append _ _)
      · omega

/-- The trees inside a tree, itself first, as a listing has them. -/
def preorder (t : Tree) : List Tree := (t.listing 0).map (·.2)

mutual

theorem listing_map (depth : Nat) (t : Tree) : (t.listing depth).map (·.2) = t.preorder := by
  match t with
  | .token u => rfl
  | .foreign value => rfl
  | .node kind slots items state =>
    simp only [preorder, listing, List.map_cons, List.cons.injEq, true_and]
    split
    · rw [slotListing_map, slotListing_map]
    · rw [itemListing_map, itemListing_map]

theorem slotListing_map (depth : Nat) (slots : List (String × Tree)) :
    (slotListing depth slots).map (·.2) = slots.flatMap (·.2.preorder) := by
  match slots with
  | [] => rfl
  | (_, t) :: rest => simp [slotListing, listing_map depth t, slotListing_map depth rest]

theorem itemListing_map (depth : Nat) (items : List Tree) :
    (itemListing depth items).map (·.2) = items.flatMap preorder := by
  match items with
  | [] => rfl
  | t :: rest => simp [itemListing, listing_map depth t, itemListing_map depth rest]

end

theorem preorder_eq (t : Tree) : t.preorder = t :: t.children.flatMap preorder := by
  cases t with
  | token u => rfl
  | foreign value => rfl
  | node kind slots items state =>
    by_cases layout : kind.isLayout = true
    · simp [preorder, listing, children, layout, slotListing_map, List.flatMap_map]
    · simp [preorder, listing, children, layout, itemListing_map]

/-- The tokens of a tree are those that stand among the trees inside it. -/
theorem filter_isToken_preorder (t : Tree) :
    t.preorder.filter isToken = t.tokens.map Tree.token := by
  induction t using children_induction with
  | step t ih =>
    rw [preorder_eq]
    cases t with
    | token u => rfl
    | foreign value => rfl
    | node kind slots items state =>
      rw [tokens_node, List.filter_cons_of_neg (by simp [isToken])]
      generalize (Tree.node kind slots items state).children = ts at ih
      induction ts with
      | nil => rfl
      | cons c ts rest =>
        rw [List.flatMap_cons, List.filter_append, ih c List.mem_cons_self, itemTokens,
          List.map_append, rest fun d hd => ih d (List.mem_cons_of_mem c hd)]

theorem Everywhere.of_mem_preorder {P : Tree → Prop} {t u : Tree} (everywhere : t.Everywhere P)
    (mem : u ∈ t.preorder) : P u := by
  induction everywhere using everywhere_induction with
  | step t here below each =>
    rw [preorder_eq, List.mem_cons, List.mem_flatMap] at mem
    rcases mem with rfl | ⟨c, hc, inside⟩
    · exact here
    · exact each c hc inside

/-- The trees at the places are the trees of the listing. -/
theorem below?_places (t : Tree) : t.places.map t.below? = t.preorder.map some := by
  induction t using children_induction with
  | step t ih =>
    rw [places_eq, preorder_eq, List.map_cons, List.map_cons]
    congr 1
    -- For the children from any one on, with those before it left out.
    suffices behind : ∀ ts before, t.children = before ++ ts →
        (itemPlaces before.length ts).map t.below? = (ts.flatMap preorder).map some from
      behind t.children [] rfl
    intro ts
    induction ts with
    | nil => simp [itemPlaces]
    | cons c ts rest =>
      intro before split
      have here : t.children[before.length]? = some c := by simp [split]
      have first : (c.places.map (before.length :: ·)).map t.below? = c.preorder.map some := by
        rw [← ih c (by simp [split]), List.map_map]
        exact List.map_congr_left fun place _ => by simp [below?, here]
      have others := rest (before ++ [c]) (by simp [split])
      rw [List.length_append, List.length_singleton] at others
      simp only [itemPlaces, List.map_append, List.flatMap_cons, first, others]

theorem below?_append (t : Tree) (place more : List Nat) :
    t.below? (place ++ more) = (t.below? place).bind (·.below? more) := by
  induction place generalizing t with
  | nil => rfl
  | cons k place ih =>
    simp only [List.cons_append, below?]
    cases t.children[k]? with
    | none => rfl
    | some c => exact ih c

/-- Above a place is a place. -/
theorem dropLast_mem_places {t : Tree} {place : List Nat} (mem : place ∈ t.places) :
    place.dropLast ∈ t.places := by
  rcases place.eq_nil_or_concat with rfl | ⟨above, k, rfl⟩
  · exact mem
  · obtain ⟨u, found⟩ := mem_places.1 mem
    rw [List.concat_eq_append, below?_append] at found
    obtain ⟨c, found, _⟩ := Option.bind_eq_some_iff.1 found
    rw [List.concat_eq_append, List.dropLast_concat]
    exact mem_places.2 ⟨c, found⟩

/-! ## Numbers of places -/

/-- The number of a place, in pre-order. -/
def number (t : Tree) (place : List Nat) : Nat := t.places.idxOf place

theorem places_nodup (t : Tree) : t.places.Nodup :=
  t.places_pairwise.imp fun {place other} less (same : place = other) =>
    List.lt_irrefl other (by rwa [same] at less)

/-- What is below a place has the numbers behind it, up to the size of the tree there. -/
theorem prefix_iff_number {t u : Tree} {place other : List Nat} (found : t.below? place = some u)
    (mem : other ∈ t.places) :
    place <+: other ↔
      t.number place ≤ t.number other ∧ t.number other < t.number place + u.places.length := by
  obtain ⟨front, behind, split, outside⟩ := places_split found
  have notFront : ∀ q, place <+: q → q ∉ front :=
    fun q under mem => outside q (List.mem_append_left _ mem) under
  have start : t.number place = front.length := by
    rw [number, split, places_eq u, List.append_assoc,
      List.idxOf_append_of_notMem (notFront place (List.prefix_refl place))]
    simp
  rw [start]
  unfold number
  by_cases under : place <+: other
  · obtain ⟨rest, rfl⟩ := under
    have inside : place ++ rest ∈ u.places.map (place ++ ·) := by
      rw [split, List.mem_append, List.mem_append] at mem
      rcases mem with (mem | mem) | mem
      · exact absurd mem (notFront _ (List.prefix_append _ _))
      · exact mem
      · exact absurd (List.prefix_append _ _) (outside _ (List.mem_append_right _ mem))
    have lt := List.idxOf_lt_length_of_mem inside
    rw [List.length_map] at lt
    rw [split, List.append_assoc,
      List.idxOf_append_of_notMem (notFront _ (List.prefix_append _ _)),
      List.idxOf_append_of_mem inside]
    simp only [List.prefix_append, true_iff]
    omega
  · have notInside : other ∉ u.places.map (place ++ ·) := by
      rintro inside
      obtain ⟨rest, _, rfl⟩ := List.mem_map.1 inside
      exact under (List.prefix_append _ _)
    simp only [under, false_iff, not_and, Nat.not_lt]
    by_cases first : other ∈ front
    · have lt := List.idxOf_lt_length_of_mem first
      rw [split, List.append_assoc, List.idxOf_append_of_mem first]
      omega
    · rw [split, List.append_assoc, List.idxOf_append_of_notMem first,
        List.idxOf_append_of_notMem notInside, List.length_map]
      omega

theorem number_eq_zero {t : Tree} {place : List Nat} : t.number place = 0 ↔ place = [] := by
  rw [number, places_eq, List.idxOf_cons]
  cases place <;> simp

/-- A place comes behind the place above it. -/
theorem number_dropLast_lt {t : Tree} {place : List Nat} (mem : place ∈ t.places)
    (nonempty : place ≠ []) : t.number place.dropLast < t.number place := by
  obtain ⟨u, found⟩ := mem_places.1 (dropLast_mem_places mem)
  have le := ((prefix_iff_number found mem).1 place.dropLast_prefix).1
  refine Nat.lt_of_le_of_ne le fun same => ?_
  have short := congrArg List.length ((List.idxOf_inj (dropLast_mem_places mem)).1 same)
  have := List.length_pos_iff.2 nonempty
  rw [List.length_dropLast] at short
  omega

end SyntaxAtlas.Tree
