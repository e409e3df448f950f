-- What rendering gives: the records of the tree that is shown of a source. Each record describes
-- a tree, and the records that name it as their parent describe the children of that tree.

import SyntaxAtlas.Proofs.Coordinates

namespace SyntaxAtlas

/-! ## The records below a record -/

/-- The records that name a record as their parent, in order. -/
def Record.below (rs : List Record) (r : Record) : List Record :=
  rs.filter fun s => s.parent = some r.id

namespace Tree

variable {map : LineMap} {showMissing : Bool}

theorem below?_concat (t : Tree) (place : List Nat) (k : Nat) :
    t.below? (place ++ [k]) = (t.below? place).bind fun u => u.children[k]? := by
  rw [below?_append]
  congr 1
  funext u
  rcases at_k : u.children[k]? with _ | c <;> simp [below?, at_k]

/-- The places one step below a place, in order. -/
theorem filter_places {t u : Tree} {place : List Nat} (found : t.below? place = some u) :
    t.places.filter (fun q => q ≠ [] ∧ q.dropLast = place) =
      (List.range u.children.length).map fun k => place ++ [k] := by
  have ordered : ((List.range u.children.length).map fun k => place ++ [k]).Pairwise (· < ·) := by
    rw [List.pairwise_map]
    refine List.pairwise_lt_range.imp fun {i j} less => ?_
    exact List.append_left_lt (List.cons_lt_cons_iff.2 (.inl less))
  have places := t.places_pairwise.filter fun q => q ≠ [] ∧ q.dropLast = place
  refine List.Perm.eq_of_pairwise (fun p q _ _ less more => ?_) places ordered ?_
  · exact absurd (List.lt_trans less more) (List.lt_irrefl p)
  · have nodup : ((List.range u.children.length).map fun k => place ++ [k]).Nodup :=
      ordered.imp fun {p q} less (same : p = q) => List.lt_irrefl q (by rwa [same] at less)
    refine (List.perm_ext_iff_of_nodup (t.places_nodup.filter _) nodup).2 fun q => ?_
    simp only [List.mem_filter, decide_eq_true_eq, List.mem_map, List.mem_range, mem_places]
    constructor
    · rintro ⟨⟨v, at_q⟩, nonempty, rfl⟩
      rw [← List.dropLast_append_getLast nonempty, below?_concat, found, Option.bind_some] at at_q
      exact ⟨_, (List.getElem?_eq_some_iff.1 at_q).1, List.dropLast_append_getLast nonempty⟩
    · rintro ⟨k, inside, rfl⟩
      refine ⟨⟨u.children[k], ?_⟩, by simp, by simp⟩
      rw [below?_concat, found, Option.bind_some, List.getElem?_eq_getElem inside]

/-- The records below the record of a place describe the children of the tree there. -/
theorem Encodes.below {t u : Tree} {rs : List Record} (h : Encodes map showMissing t rs)
    {place : List Nat} (found : t.below? place = some u) {r : Record}
    (own : r.id = t.number place) :
    List.Forall₂ (Describes map showMissing) u.children (r.below rs) := by
  have described : List.Forall₂ (fun q s => ∃ v, t.below? q = some v ∧
      Describes map showMissing v s) t.places rs := by
    refine h.described.imp ?_
    rintro q s ⟨v, at_q, describes, _⟩
    exact ⟨v, at_q, describes⟩
  have chosen : List.Forall₂ (fun q s => q ≠ [] ∧ q.dropLast = place ↔ s.parent = some r.id)
      t.places rs := by
    refine forall₂_imp_of_mem h.linked fun q mem s linked => ?_
    rw [linked, own]
    by_cases top : q = []
    · simp [top]
    · simp [top, number, List.idxOf_inj (dropLast_mem_places mem)]
  have both := described.mp (fun _ _ => And.intro) chosen
  have filtered := List.rel_filter (p := fun q => q ≠ [] ∧ q.dropLast = place)
    (q := fun s => s.parent = some r.id) (fun q s h => by simpa using h.2) both
  rw [filter_places found, List.forall₂_map_left_iff] at filtered
  have listed : u.children.map some = (List.range u.children.length).map (u.children[·]?) := by
    apply List.ext_getElem <;> simp
  have shown : List.Forall₂ (fun o s => ∃ v, o = some v ∧ Describes map showMissing v s)
      (u.children.map some) (r.below rs) := by
    rw [listed, List.forall₂_map_left_iff]
    refine filtered.imp ?_
    rintro k s ⟨⟨v, at_k, describes⟩, _⟩
    refine ⟨v, ?_, describes⟩
    rwa [below?_concat, found, Option.bind_some] at at_k
  simpa [List.forall₂_map_left_iff] using shown

/-- The records of a tree that fits the catalog. Each describes one of the trees inside, and the
records below it describe the children. -/
theorem records_linked {t : Tree} (fits : t.Everywhere Fits) (m : LineMap) (showMissing : Bool) :
    ∃ rs, t.records m showMissing = .ok rs ∧ rs.map (·.id) = List.range rs.length ∧
      List.Forall₂ (fun u r => Describes m showMissing u r ∧
        List.Forall₂ (Describes m showMissing) u.children (r.below rs)) t.preorder rs := by
  obtain ⟨rs, made, records⟩ := @recordsFrom_ok m showMissing _
    (fits.imp fun _ h => isRegistered_of_fits h) none 0
  have encodes := records.encodes
  have size : t.places.length = rs.length := records.numbers.length_eq
  refine ⟨rs, made, size ▸ encodes.numbered, ?_⟩
  have each : List.Forall₂ (fun found r => ∃ u, found = some u ∧ Describes m showMissing u r ∧
      List.Forall₂ (Describes m showMissing) u.children (r.below rs)) (t.preorder.map some) rs := by
    rw [← below?_places, List.forall₂_map_left_iff]
    exact encodes.described.mp (fun place r ⟨u, found, describes, _⟩ numbers =>
      ⟨u, found, describes, encodes.below found numbers.1⟩) records.numbers
  simpa [List.forall₂_map_left_iff] using each

end Tree

/-! ## Rendering -/

/-- The work that rendering a source takes. A source that is rejected takes no more than its
parse. -/
def renderWork (budget : Nat) (options : RenderOptions) (place : DumpPlace)
    (file source : String) : List Work :=
  .parse budget source ::
    match parse budget file source with
    | .error _ => []
    | .ok q => q.treeWork options place ++ .list (q.shown options.fold).root ::
      match (q.shown options.fold).root.records (.ofSource source file) options.showMissing with
      | .error _ => []
      | .ok rs => [.encode rs none]

/-- Where open calls are counted in copies only, there is room for a render exactly if it does not
fold or the tree can be copied within the room. -/
theorem hasRoom_renderWork_iff {room budget : Nat} {options : RenderOptions} {place : DumpPlace}
    {file source : String} :
    (Host.ofRoom room).HasRoom (renderWork budget options place file source) ↔
      ∀ q, parse budget file source = .ok q → options.fold = true → q.root.copyCalls ≤ room := by
  rw [Host.ofRoom_hasRoom_iff]
  rcases parsed : parse budget file source with f | q
  · simp [renderWork, parsed]
  · have folds : ∀ t, .fold t ∈ renderWork budget options place file source ↔
        options.fold = true ∧ t = q.root := by
      intro t
      rw [renderWork, parsed, ← @Parsed.fold_mem_treeWork q options place t]
      dsimp only
      split <;> simp
    simp only [folds, Except.ok.injEq]
    constructor
    · rintro within _ rfl folding
      exact within _ ⟨folding, rfl⟩
    · rintro within _ ⟨folding, rfl⟩
      exact within q rfl folding

/-- What is rendered is what is listed, with room for it as JSON. Only an event is added for a
source that is rejected. -/
theorem render_listed (host : Host) (budget : Nat) (options : RenderOptions) (place : DumpPlace)
    (file source : String) : (render host budget options place file source).value =
      (recordsTraced host budget options place file source).value.bind fun rs =>
        host.outcome [.encode rs none] (.ok rs) := by
  dsimp only [render]
  split <;> simp only [Traced.andThen_value, Host.take_value, Host.outcome_ok_bind]

section Rendering

variable {budget : Nat} {file source : String} (options : RenderOptions) (place : DumpPlace)

theorem render_of_rejection (host : Host) {r : Rejection}
    (failed : parse budget file source = .error (.rejected r)) :
    (render host budget options place file source).value =
      host.outcome (renderWork budget options place file source) (.error (.rejected r)) := by
  rw [render_listed, recordsTraced, Traced.andThen_value, treeTraced_of_rejection host _ _ failed,
    Host.outcome_bind, Host.outcome_bind, renderWork, failed]
  rfl

/-- A source that parses renders, if there is room for the work: the tree that is shown of it has
records. -/
theorem render_of_parse {q : Parsed} (parsed : parse budget file source = .ok q) :
    ∃ rs, (q.shown options.fold).root.records (.ofSource source file) options.showMissing =
        .ok rs ∧
      ∀ host : Host, (render host budget options place file source).value =
        host.outcome (renderWork budget options place file source) (.ok rs) := by
  obtain ⟨_, _, fits, _⟩ := shown_settled parsed options.fold
  obtain ⟨rs, made, _⟩ := Tree.records_describe fits (.ofSource source file) options.showMissing
  refine ⟨rs, made, fun host => ?_⟩
  rw [render_listed, recordsTraced_of_parse host parsed options place made, Host.outcome_ok_bind,
    ← Host.outcome_append, renderWork, parsed]
  simp only [made, List.cons_append, List.append_assoc, List.nil_append]

/-- A source that renders has been parsed, and its records are those of the tree that is shown
of it. -/
theorem parse_of_render {host : Host} {rs : List Record}
    (rendered : (render host budget options place file source).value = .ok rs) :
    ∃ q, parse budget file source = .ok q ∧
      (treeTraced host budget options place file source).value = .ok (q.shown options.fold) ∧
      (q.shown options.fold).root.records (.ofSource source file) options.showMissing = .ok rs := by
  have listed := rendered
  rw [render_listed, recordsTraced, Traced.andThen_value] at listed
  rcases produced : (treeTraced host budget options place file source).value with f | p
  · rw [produced] at listed
    cases listed
  obtain ⟨q, parsed, rfl⟩ := shown_of_treeTraced host options place produced
  obtain ⟨ss, made, given⟩ := render_of_parse options place parsed
  rw [given, Host.outcome_eq_ok_iff] at rendered
  rw [← Except.ok.inj rendered.2]
  exact ⟨q, parsed, rfl, made⟩

end Rendering

end SyntaxAtlas
