-- Seats: which slots the children of a node go into. Each child takes the first slot that will
-- have it, and no child gives up a slot that one behind it would need. So whenever children can
-- be seated in order, they are.

import SyntaxAtlas.Proofs.Preorder

namespace SyntaxAtlas

/-! ## Seats in order -/

/-- Children have seats in order: the numbers of slots that take them, each one greater than
those before it. -/
structure Seated (slots : List Slot) (seats : List (Fin slots.length)) (children : List Tree) :
    Prop where
  ordered : seats.Pairwise (· < ·)
  taken : List.Forall₂ (fun i c => slots[i].admits c = .ok true) seats children

/-- Slots chosen in their order are seats. -/
theorem exists_seated {slots chosen : List Slot} {children : List Tree}
    (sub : chosen.Sublist slots)
    (taken : List.Forall₂ (fun slot c => slot.admits c = .ok true) chosen children) :
    ∃ seats, Seated slots seats children ∧ chosen = seats.map fun i => slots[i] := by
  obtain ⟨seats, rfl, ordered⟩ := List.sublist_eq_map_getElem sub
  exact ⟨seats, ⟨ordered, List.forall₂_map_left_iff.1 taken⟩, rfl⟩

theorem Seated.chosen {slots : List Slot} {seats : List (Fin slots.length)} {children : List Tree}
    (seated : Seated slots seats children) :
    (seats.map fun i => slots[i]).Sublist slots ∧
      List.Forall₂ (fun slot c => slot.admits c = .ok true) (seats.map fun i => slots[i])
        children :=
  ⟨List.map_getElem_sublist seated.ordered, List.forall₂_map_left_iff.2 seated.taken⟩

namespace Tree

/-! ## The first slot that takes a child -/

/-- A slot takes a child of a known kind, or it does not. -/
theorem admits_of_isRegistered {child : Tree} (known : child.IsRegistered) (slot : Slot) :
    slot.admits child = .ok true ∨ slot.admits child = .ok false := by
  cases child with
  | token u => exact (Bool.eq_false_or_eq_true _).imp (congrArg _) (congrArg _)
  | foreign value => exact absurd known id
  | node kind slots items state =>
    obtain ⟨e, entry⟩ := Option.isSome_iff_exists.1 known
    simp only [Slot.admits, Tree.entry, entry, Except.map]
    split
    · exact .inl rfl
    · exact (Bool.eq_false_or_eq_true _).imp (congrArg _) (congrArg _)

/-- A child of a known kind can be named in an error. -/
theorem description_of_isRegistered {child : Tree} (known : child.IsRegistered) :
    ∃ shown, child.description = .ok shown := by
  cases child with
  | token u => exact ⟨_, rfl⟩
  | foreign value => exact absurd known id
  | node kind slots items state =>
    obtain ⟨e, entry⟩ := Option.isSome_iff_exists.1 known
    exact ⟨_, by simp only [description, knownChildren, Tree.entry, entry]; rfl⟩

/-- What a search for a slot finds: none where no slot takes the child, or else the first
one that does. -/
theorem findSlot_cases {child : Tree} (known : child.IsRegistered) (index : Nat)
    (slots : List Slot) :
    (findSlot child index slots = .ok none ∧ ∀ slot ∈ slots, slot.admits child = .ok false) ∨
      ∃ passed slot left, slots = passed ++ slot :: left ∧
        (∀ s ∈ passed, s.admits child = .ok false) ∧ slot.admits child = .ok true ∧
        findSlot child index slots = .ok (some (index + passed.length, slot, left)) := by
  induction slots generalizing index with
  | nil => exact .inl ⟨rfl, by simp⟩
  | cons s slots ih =>
    rcases admits_of_isRegistered known s with yes | no
    · refine .inr ⟨[], s, slots, rfl, by simp, yes, ?_⟩
      simp [findSlot, yes, bind, Except.bind, pure, Except.pure]
    · have next : findSlot child index (s :: slots) = findSlot child (index + 1) slots := by
        simp [findSlot, no, bind, Except.bind]
      rw [next]
      rcases ih (index + 1) with ⟨none, all⟩ | ⟨passed, slot, left, rfl, before, yes, found⟩
      · exact .inl ⟨none, List.forall_mem_cons.2 ⟨no, all⟩⟩
      · refine .inr ⟨s :: passed, slot, left, rfl, List.forall_mem_cons.2 ⟨no, before⟩, yes, ?_⟩
        rw [found, List.length_cons, Nat.add_assoc, Nat.add_comm 1]

/-! ## Greed is no loss -/

/-- Wherever a child is seated, those behind it have seats behind the first slot that takes
it. -/
theorem sublist_left {passed left chosen : List Slot} {slot s : Slot} (other : s ∉ passed)
    (sub : (s :: chosen).Sublist (passed ++ slot :: left)) : chosen.Sublist left := by
  induction passed with
  | nil => exact sub.tail
  | cons p passed ih =>
    rw [List.mem_cons, not_or] at other
    exact ih other.2 (sub.of_cons_of_ne other.1)

/-- Children are given to slots chosen in order, or there are no slots for them and the error
names one of them. -/
theorem fillSlots_cases (kind : Kind) {children : List Tree}
    (known : ∀ c ∈ children, c.IsRegistered) (index : Nat) (slots : List Slot) :
    (∃ chosen : List Slot, chosen.Sublist slots ∧
        List.Forall₂ (fun slot c => slot.admits c = .ok true) chosen children ∧
        fillSlots kind index slots children = .ok ((chosen.map (·.name)).zip children)) ∨
      (∀ chosen : List Slot, chosen.Sublist slots →
        ¬ List.Forall₂ (fun slot c => slot.admits c = .ok true) chosen children) ∧
      ∃ c ∈ children, ∃ shown i, c.description = .ok shown ∧
        fillSlots kind index slots children = .error (.noSlotAccepts kind.name shown i) := by
  induction children generalizing index slots with
  | nil => exact .inl ⟨[], List.nil_sublist _, .nil, rfl⟩
  | cons c children ih =>
    obtain ⟨here, behind⟩ := List.forall_mem_cons.1 known
    rcases findSlot_cases here index slots with ⟨none, all⟩ | ⟨passed, slot, left, rfl, before, yes, found⟩
    · obtain ⟨shown, described⟩ := description_of_isRegistered here
      refine .inr ⟨?_, c, List.mem_cons_self, shown, index, described, ?_⟩
      · rintro _ sub (_ | ⟨taken, _⟩)
        rw [all _ (sub.subset List.mem_cons_self)] at taken
        cases taken
      · simp [fillSlots, none, described, bind, Except.bind]
    · rcases ih behind (index + passed.length + 1) left with
        ⟨chosen, sub, taken, filled⟩ | ⟨none, d, mem, shown, i, described, failed⟩
      · refine .inl ⟨slot :: chosen, (sub.cons_cons slot).trans (List.sublist_append_right _ _),
          .cons yes taken, ?_⟩
        simp [fillSlots, found, filled, bind, Except.bind, pure, Except.pure]
      · refine .inr ⟨?_, d, List.mem_cons_of_mem c mem, shown, i, described, ?_⟩
        · rintro _ sub (_ | ⟨taken, others⟩)
          refine none _ (sublist_left (fun passedBy => ?_) sub) others
          rw [before _ passedBy] at taken
          cases taken
        · simp [fillSlots, found, failed, bind, Except.bind]

/-! ## Nodes with their children seated -/

theorem buildLayout_eq {kind : Kind} (layout : kind.isLayout = true) (children : List Tree) :
    buildLayout kind children =
      (fillSlots kind 0 kind.slots children).map (Tree.layout kind) := by
  obtain ⟨category, described⟩ := describe_of_isLayout layout
  have entry : kind.catalogued = some ⟨kind.name, category, .layout kind.slots⟩ := by
    simp [Kind.catalogued, described]
  simp only [buildLayout, entry, Shape.slots]
  cases fillSlots kind 0 kind.slots children <;> rfl

/-- Of slots with names of their own each one gives the child that was put into it. -/
theorem lookup_zip {chosen : List Slot} {children : List Tree}
    (nodup : (chosen.map (·.name)).Nodup) (length : chosen.length = children.length) :
    List.Forall₂ (fun slot c => ((chosen.map (·.name)).zip children).lookup slot.name = some c)
      chosen children := by
  induction chosen generalizing children with
  | nil =>
    cases children with
    | nil => exact .nil
    | cons c children => cases length
  | cons slot chosen ih =>
    cases children with
    | nil => cases length
    | cons c children =>
      rw [List.map_cons, List.nodup_cons] at nodup
      refine .cons (by simp) (forall₂_imp_of_mem (ih nodup.2 (Nat.succ.inj length)) ?_)
      intro s mem d found
      have other : s.name ≠ slot.name := fun same =>
        nodup.1 (same ▸ List.mem_map_of_mem mem)
      rw [List.map_cons, List.zip_cons_cons, List.lookup_cons, beq_false_of_ne other]
      exact found

/-- A layout is built exactly when its children can be seated in order, each in a slot that
takes it. Then it has these children and no others, in the same order, and each of them is in
its seat. Otherwise there is an error that names one of them. -/
theorem buildLayout_seats {kind : Kind} (layout : kind.isLayout = true) {children : List Tree}
    (known : ∀ c ∈ children, c.IsRegistered) :
    ((∃ t, buildLayout kind children = .ok t) ↔ ∃ seats, Seated kind.slots seats children) ∧
    (∀ t, buildLayout kind children = .ok t → t.kindName = kind.name ∧ t.children = children ∧
      ∃ seats, Seated kind.slots seats children ∧
        List.Forall₂ (fun i c => t.child? kind.slots[i].name = some c) seats children) ∧
    ((¬ ∃ seats, Seated kind.slots seats children) → ∃ c ∈ children, ∃ shown slot,
      c.description = .ok shown ∧
        buildLayout kind children = .error (.noSlotAccepts kind.name shown slot)) := by
  rw [buildLayout_eq layout]
  rcases fillSlots_cases kind known 0 kind.slots with
    ⟨chosen, sub, taken, filled⟩ | ⟨none, c, mem, shown, slot, described, failed⟩
  · obtain ⟨seats, seated, rfl⟩ := exists_seated sub taken
    have length := taken.length_eq
    rw [filled]
    refine ⟨⟨fun _ => ⟨seats, seated⟩, fun _ => ⟨_, rfl⟩⟩, ?_, fun none => absurd ⟨seats, seated⟩ none⟩
    rintro _ ⟨⟩
    refine ⟨rfl, children_layout layout (by simpa using length), seats, seated, ?_⟩
    obtain ⟨category, entry⟩ := describe_of_isLayout layout
    have registered := @Kind.mem_registered kind (by simp [Kind.catalogued, entry])
    have nodup := (sub.map (·.name)).nodup (slot_names_nodup kind registered)
    exact List.forall₂_map_left_iff.1 (lookup_zip nodup length)
  · rw [failed]
    refine ⟨⟨?_, ?_⟩, ?_, fun _ => ⟨c, mem, shown, slot, described, rfl⟩⟩
    · rintro ⟨_, ⟨⟩⟩
    · rintro ⟨seats, seated⟩
      exact absurd seated.chosen.2 (none _ seated.chosen.1)
    · rintro _ ⟨⟩

/-- A parameter with one name and without a default value leaves two slots open. -/
theorem buildLayout_seats_of_parameter :
    let children := [.token (.ofText .identifier "x" 0), .token (.ofText (.mark .colon) ":" 1),
      layout .identifierType [("name", .token (.ofText .identifier "Int" 3))],
      .token (.ofText (.mark .comma) "," 6)]
    Kind.functionParameter.isLayout = true ∧ (∀ c ∈ children, c.IsRegistered) ∧
      ∃ t, buildLayout .functionParameter children = .ok t ∧ t.children = children := by
  intro children
  have known : ∀ c ∈ children, c.IsRegistered := by
    simp [children, IsRegistered, layout, layoutAt, Kind.catalogued, Catalog.describe]
  have seated : Seated Kind.functionParameter.slots
      [⟨0, by decide⟩, ⟨2, by decide⟩, ⟨3, by decide⟩, ⟨5, by decide⟩] children :=
    ⟨by decide, .cons rfl (.cons rfl (.cons rfl (.cons rfl .nil)))⟩
  obtain ⟨iff, seats, _⟩ := @buildLayout_seats .functionParameter rfl _ known
  obtain ⟨t, built⟩ := iff.2 ⟨_, seated⟩
  exact ⟨rfl, known, t, built, (seats t built).2.1⟩

end Tree

end SyntaxAtlas
