-- Folded trees conform to the catalog. Wherever an operator sequence may stand an infix node
-- may stand as well, and an infix node takes what a sequence holds.

import SyntaxAtlas.Proofs.Folded

namespace SyntaxAtlas

namespace Tree

/-! ## One tree in the place of another -/

/-- A tree that can take the place of another in all slots and lists: it is of the same kind,
or an infix node for an operator sequence. -/
def Replaces (t t' : Tree) : Prop :=
  t'.head = t.head ∨
    t.head = some (.rule (.node .sequenceExpr)) ∧ t'.head = some (.rule (.node .infixOperatorExpr))

end Tree

/-- A slot that takes operator sequences takes infix nodes. -/
def Slot.takesInfix (slot : Slot) : Bool :=
  !slot.takes (.rule (.node .sequenceExpr)) || slot.takes (.rule (.node .infixOperatorExpr))

/-- Wherever the catalog lets a sequence be, it lets an infix node be. -/
def Shape.takesInfix (name : String) : Shape → Bool
  | .layout declared => declared.all Slot.takesInfix
  | .collection element => element != Kind.sequenceExpr.name
  | .choice alternatives => Slot.takesInfix ⟨name, alternatives⟩

theorem Catalog.takesInfix : ∀ kind ∈ Kind.registered,
    (Catalog.describe kind).all (fun entry => entry.2.takesInfix kind.name) = true := by
  decide

namespace Tree

theorem exists_head {t : Tree} (fits : t.Fits) : ∃ s, t.head = some s := by
  cases t with
  | token u => exact ⟨_, rfl⟩
  | node kind slots items state => exact ⟨_, rfl⟩
  | foreign value => exact absurd fits id

theorem Replaces.admits {slot : Slot} {t t' : Tree} (h : Replaces t t')
    (infix' : slot.takesInfix = true) (fits : t.Fits) (fits' : t'.Fits)
    (admits : slot.admits t = .ok true) : slot.admits t' = .ok true := by
  obtain ⟨s, head⟩ := exists_head fits
  rw [Slot.admits_of_head fits head, Except.ok.injEq] at admits
  rcases h with same | ⟨sequence, isInfix⟩
  · rw [Slot.admits_of_head fits' (same.trans head), admits]
  · obtain rfl : s = .rule (.node .sequenceExpr) := by
      rw [head, Option.some.injEq] at sequence
      exact sequence
    rw [Slot.takesInfix, admits, Bool.not_true, Bool.false_or] at infix'
    rw [Slot.admits_of_head fits' isInfix, infix']

theorem Replaces.isElement {element : String} {t t' : Tree} (h : Replaces t t')
    (other : element ≠ Kind.sequenceExpr.name) (own : t.IsElement element) :
    t'.IsElement element := by
  cases t with
  | token u => exact absurd own id
  | foreign value => exact absurd own id
  | node kind slots items state =>
    cases t' with
    | token u => simp [Replaces, head] at h
    | foreign value => simp [Replaces, head] at h
    | node kind' slots' items' state' =>
      simp only [Replaces, head, Option.some.injEq, Symbol.rule.injEq, Rule.node.injEq] at h
      rcases h with rfl | ⟨rfl, rfl⟩
      · exact own
      · exact .inr ⟨(own.resolve_left other.symm).1, rfl⟩

theorem exists_slot {R : Tree → Tree → Prop} {slots slots' : List (String × Tree)}
    (names : slots'.map (·.1) = slots.map (·.1))
    (filled : List.Forall₂ R (slots.map (·.2)) (slots'.map (·.2))) :
    ∀ s' ∈ slots', ∃ s ∈ slots, s.1 = s'.1 ∧ R s.2 s'.2 := by
  induction slots' generalizing slots with
  | nil => simp
  | cons s' slots' ih =>
    rcases slots with _ | ⟨s, slots⟩
    · cases names
    · rw [List.map_cons, List.map_cons, List.cons.injEq] at names
      cases filled with
      | cons first others =>
        intro s'' hs''
        rcases List.mem_cons.1 hs'' with rfl | hs''
        · exact ⟨s, by simp, names.1.symm, first⟩
        · obtain ⟨found, mem, same⟩ := ih names.2 others s'' hs''
          exact ⟨found, List.mem_cons_of_mem _ mem, same⟩

/-- A node conforms when its children give place to others that do. -/
theorem fits_replaced {kind : Kind} {slots slots' : List (String × Tree)}
    {items items' : List Tree} {state : NodeState}
    (fits : (Tree.node kind slots items state).Fits)
    (below : ∀ c ∈ (Tree.node kind slots items state).children, c.Fits)
    (names : slots'.map (·.1) = slots.map (·.1))
    (filled : List.Forall₂ (fun t t' => t'.Fits ∧ Replaces t t') (slots.map (·.2))
      (slots'.map (·.2)))
    (listed : List.Forall₂ (fun t t' => t'.Fits ∧ Replaces t t') items items') :
    (Tree.node kind slots' items' state).Fits := by
  obtain ⟨e, catalogued⟩ := catalogued_of_fits fits
  have takes := Catalog.takesInfix kind (Kind.mem_registered (by simp [catalogued]))
  have belowSlots : kind.isLayout = true → ∀ s ∈ slots, s.2.Fits := fun layout s hs =>
    below s.2 (by simpa only [children, layout, if_true] using List.mem_map_of_mem hs)
  have belowItems : kind.isLayout ≠ true → ∀ t ∈ items, t.Fits := fun layout t ht =>
    below t (by simpa only [children, layout, Bool.false_eq_true, if_false] using ht)
  unfold Fits at fits ⊢
  unfold Kind.isLayout at belowSlots belowItems
  rcases described : Catalog.describe kind with _ | ⟨category, declared | element | alternatives⟩ <;>
    simp only [described, Option.all_some, Shape.takesInfix] at fits takes belowSlots belowItems ⊢
  · obtain ⟨rfl, sub, admits⟩ := fits
    cases listed
    refine ⟨rfl, names ▸ sub, fun s' hs' => ?_⟩
    obtain ⟨s, hs, same, fits', replaces⟩ := exists_slot names filled s' hs'
    obtain ⟨slot, mem, name, taken⟩ := admits s hs
    exact ⟨slot, mem, name.trans same, replaces.admits (List.all_eq_true.1 takes slot mem)
      (belowSlots trivial s hs) fits' taken⟩
  · obtain ⟨rfl, elements⟩ := fits
    obtain rfl : slots' = [] := List.map_eq_nil_iff.1 names
    refine ⟨rfl, fun t' ht' => ?_⟩
    obtain ⟨t, ht, _, replaces⟩ := exists_of_forall₂ listed t' ht'
    exact replaces.isElement (by simpa using takes) (elements t ht)
  · obtain ⟨rfl, t, rfl, taken⟩ := fits
    obtain rfl : slots' = [] := List.map_eq_nil_iff.1 names
    cases listed with
    | cons first others =>
      cases others
      exact ⟨rfl, _, rfl, first.2.admits takes (belowItems (by simp) t (by simp)) first.1 taken⟩

/-! ## Infix nodes -/

/-- A node of some expression. -/
def IsExpression (t : Tree) : Prop :=
  ∃ kind, t.head = some (.rule (.node kind)) ∧
    (Catalog.describe kind).map (·.1) = some .expression

theorem admits_expression {slot : Slot} {t : Tree} (fits : t.Fits) (expression : t.IsExpression)
    (accepts : slot.accepts.contains (.category .expression) = true) :
    slot.admits t = .ok true := by
  obtain ⟨kind, head, category⟩ := expression
  obtain ⟨entry, described, same⟩ := Option.map_eq_some_iff.1 category
  rw [Slot.admits_of_head fits head]
  simp only [Slot.takes, described, Option.any_some, same, accepts, Bool.or_true]

theorem admits_operator {slot : Slot} {t : Tree} (fits : t.Fits) (operator : t.IsOperator)
    (binary : slot.takes (.rule (.node .binaryOperatorExpr)) = true)
    (assignment : slot.takes (.rule (.node .assignmentExpr)) = true) :
    slot.admits t = .ok true := by
  unfold IsOperator at operator
  split at operator
  · rw [Slot.admits_of_head fits rfl, binary]
  · rw [Slot.admits_of_head fits rfl, assignment]
  · exact absurd operator id

theorem fits_infixNode {left operator right : Tree} (fitsLeft : left.Fits)
    (fitsOperator : operator.Fits) (fitsRight : right.Fits) (isLeft : left.IsExpression)
    (isOperator : operator.IsOperator) (isRight : right.IsExpression) :
    (infixNode left operator right).Fits := by
  have between := @admits_operator ⟨"operator",
    [.kind .binaryOperatorExpr, .kind .assignmentExpr]⟩ operator fitsOperator isOperator
    (by decide) (by decide)
  have before := @admits_expression ⟨"leftOperand", [.category .expression]⟩ left fitsLeft isLeft
    (by decide)
  have behind := @admits_expression ⟨"rightOperand", [.category .expression]⟩ right fitsRight isRight
    (by decide)
  simp only [infixNode, layoutAt, Fits, Catalog.describe]
  refine ⟨trivial, List.Sublist.refl _, ?_⟩
  intro s hs
  simp only [List.mem_cons, List.not_mem_nil, or_false] at hs
  rcases hs with rfl | rfl | rfl
  · exact ⟨_, .head _, rfl, before⟩
  · exact ⟨_, .tail _ (.head _), rfl, between⟩
  · exact ⟨_, .tail _ (.tail _ (.head _)), rfl, behind⟩

/-- A nest of conforming expressions with operators between them conforms. -/
theorem fits_ofNest {n : Nest Tree Tree}
    (fits : ∀ c ∈ alternated n.first n.rest, c.Everywhere Fits)
    (expressions : ∀ c ∈ alternated n.first n.rest, c.IsExpression)
    (operators : ∀ entry ∈ n.rest, entry.1.IsOperator) :
    (ofNest n).Everywhere Fits ∧ (ofNest n).IsExpression := by
  induction n with
  | operand t =>
    have mem : t ∈ alternated (Nest.operand t : Nest Tree Tree).first
      (Nest.operand t : Nest Tree Tree).rest := by simp [alternated, Nest.first]
    exact ⟨fits t mem, expressions t mem⟩
  | join left operator right ihl ihr =>
    rw [alternated_join] at fits expressions
    rw [Nest.rest] at operators
    obtain ⟨fitsLeft, isLeft⟩ := ihl (fun c hc => fits c (by simp [hc]))
      (fun c hc => expressions c (by simp [hc])) fun e he => operators e (by simp [he])
    obtain ⟨fitsRight, isRight⟩ := ihr (fun c hc => fits c (by simp [hc]))
      (fun c hc => expressions c (by simp [hc])) fun e he => operators e (by simp [he])
    have between := fits operator (by simp)
    refine ⟨everywhere_infixNode.2 ⟨?_, fitsLeft, between, fitsRight⟩, _, rfl, rfl⟩
    exact fits_infixNode fitsLeft.self between.self fitsRight.self isLeft
      (operators (operator, right.first) (by simp)) isRight

theorem forall₂_alternated {R : Tree → Tree → Prop} {first first' : Tree}
    {run run' : List (Tree × Tree)}
    (h : List.Forall₂ R (alternated first run) (alternated first' run')) :
    R first first' ∧ List.Forall₂ (fun e e' => R e.1 e'.1 ∧ R e.2 e'.2) run run' := by
  cases h with
  | cons head rest =>
    refine ⟨head, ?_⟩
    clear head
    induction run generalizing run' with
    | nil =>
      cases run' with
      | nil => exact .nil
      | cons e' run' => cases rest
    | cons e run ih =>
      cases run' with
      | nil => cases rest
      | cons e' run' =>
        cases rest with
        | cons operator rest =>
          cases rest with
          | cons operand rest => exact .cons ⟨operator, operand⟩ (ih rest)

theorem isOperator_of_head {t t' : Tree} (same : t'.head = t.head) (operator : t.IsOperator) :
    t'.IsOperator := by
  unfold IsOperator at operator
  split at operator
  · obtain ⟨slots, items, state, rfl⟩ : ∃ slots items state,
        t' = .node .binaryOperatorExpr slots items state := by
      cases t' <;> simp_all [head]
    trivial
  · obtain ⟨slots, items, state, rfl⟩ : ∃ slots items state,
        t' = .node .assignmentExpr slots items state := by
      cases t' <;> simp_all [head]
    trivial
  · exact absurd operator id

theorem Replaces.isOperator {t t' : Tree} (h : Replaces t t') (operator : t.IsOperator) :
    t'.IsOperator := by
  rcases h with same | ⟨sequence, _⟩
  · exact isOperator_of_head same operator
  · unfold IsOperator at operator
    split at operator <;> simp [head] at sequence operator

/-- No kind is named as the elements of sequences are. -/
theorem Kind.name_ne_expr : ∀ kind ∈ Kind.registered, kind.name ≠ "Expr" := by
  decide

theorem isExpression_of_isElement {t : Tree} (fits : t.Fits) (element : t.IsElement "Expr") :
    t.IsExpression := by
  cases t with
  | token u => exact absurd element id
  | foreign value => exact absurd element id
  | node kind slots items state =>
    obtain ⟨e, catalogued⟩ := catalogued_of_fits fits
    have registered := @Kind.mem_registered kind (by simp [catalogued])
    exact ⟨kind, rfl, (element.resolve_left (Kind.name_ne_expr kind registered)).2⟩

/-! ## Folded trees -/

theorem forall₂_node {P Q : Tree → Tree → Prop} {kind : Kind} {state : NodeState}
    {slots slots' : List (String × Tree)} {items items' : List Tree}
    (fits : (Tree.node kind slots items state).Fits)
    (filled : List.Forall₂ P (slots.map (·.2)) (slots'.map (·.2)))
    (listed : List.Forall₂ P items items')
    (imp : ∀ c ∈ (Tree.node kind slots items state).children, ∀ c', P c c' → Q c c') :
    List.Forall₂ Q (slots.map (·.2)) (slots'.map (·.2)) ∧ List.Forall₂ Q items items' := by
  have single := items_eq_nil fits
  by_cases layout : kind.isLayout = true
  · simp only [layout, if_true] at single
    simp only [children, layout, if_true] at imp
    subst single
    cases listed
    exact ⟨forall₂_imp_of_mem filled imp, .nil⟩
  · simp only [layout, Bool.false_eq_true, if_false] at single
    simp only [children, layout, Bool.false_eq_true, if_false] at imp
    subst single
    generalize slots'.map (·.2) = ts at filled ⊢
    cases filled
    exact ⟨.nil, forall₂_imp_of_mem listed imp⟩

/-- What the folded elements of a conforming sequence are nested to. -/
theorem fits_folded {n : Nest Tree Tree} {elements : List Tree} {items : List Tree}
    {state state' : NodeState}
    (alternates : (Tree.node .sequenceExpr [("elements", .node .exprList [] elements state')] items
      state).Alternates)
    (list : (Tree.node .exprList [] elements state').Fits)
    (inside : List.Forall₂ (fun t t' => t'.Everywhere Fits ∧ Replaces t t') elements
      (alternated n.first n.rest)) :
    (ofNest n).Everywhere Fits ∧ (ofNest n).head = some (.rule (.node .infixOperatorExpr)) := by
  obtain ⟨first, run, state'', same, nonempty, _, pairs⟩ := alternates
  simp only [List.cons.injEq, Prod.mk.injEq, Tree.node.injEq, true_and, and_true] at same
  obtain ⟨rfl, _⟩ := same
  have elements : ∀ t ∈ alternated first run, t.IsElement "Expr" := by
    simpa [Fits, Catalog.describe] using list
  obtain ⟨_, pairs'⟩ := forall₂_alternated inside
  have operators : ∀ entry ∈ n.rest, entry.1.IsOperator := by
    intro entry' mem'
    obtain ⟨entry, mem, ⟨_, replaces⟩, _⟩ := exists_of_forall₂ pairs' entry' mem'
    exact replaces.isOperator (pairs entry mem).1
  have expressions : ∀ t' ∈ alternated n.first n.rest, t'.IsExpression := by
    intro t' ht'
    obtain ⟨t, ht, fits', replaces⟩ := exists_of_forall₂ inside t' ht'
    exact isExpression_of_isElement fits'.self (replaces.isElement (by decide) (elements t ht))
  have folded : ∀ t' ∈ alternated n.first n.rest, t'.Everywhere Fits := by
    intro t' ht'
    obtain ⟨_, _, fits', _⟩ := exists_of_forall₂ inside t' ht'
    exact fits'
  refine ⟨(fits_ofNest folded expressions operators).1, ?_⟩
  cases n with
  | operand t =>
    cases pairs'
    exact absurd rfl nonempty
  | join left operator right => rfl

/-- What folding makes of a conforming tree conforms, and can take its place. -/
theorem FoldsTo.fits {table : OperatorTable} {t t' : Tree} (h : FoldsTo table t t')
    (conforms : t.Everywhere Conforms) : t'.Everywhere Fits ∧ Replaces t t' := by
  refine h.induct (P := fun t t' => t.Everywhere Conforms → t'.Everywhere Fits ∧ Replaces t t')
    ?token ?node ?sequence conforms
  case token => exact fun u conforms => ⟨conforms.self.fits, .inl rfl⟩
  case node =>
    intro kind slots slots' items items' state other names filled listed conforms
    obtain ⟨here, below⟩ := everywhere_iff.1 conforms
    obtain ⟨filled, listed⟩ := forall₂_node here.fits filled listed
      (Q := fun t t' => t'.Everywhere Fits ∧ Replaces t t') fun c hc c' both => both.2 (below c hc)
    refine ⟨everywhere_iff.2 ⟨?_, fun c' hc' => ?_⟩, .inl rfl⟩
    · exact fits_replaced here.fits (fun c hc => (below c hc).self.fits) names
        (filled.imp fun _ _ both => ⟨both.1.self, both.2⟩)
        (listed.imp fun _ _ both => ⟨both.1.self, both.2⟩)
    · obtain ⟨_, _, fits', _⟩ := exists_of_forall₂ (forall₂_children filled listed) c' hc'
      exact fits'
  case sequence =>
    intro elements elements' items state state' t inside folded conforms
    obtain ⟨here, below⟩ := everywhere_iff.1 conforms
    have list := below (.node .exprList [] elements state') (by simp [children_sequence])
    obtain ⟨hereList, belowList⟩ := everywhere_iff.1 list
    obtain ⟨n, rfl, rfl⟩ := foldSequence_nest rfl folded
    obtain ⟨fits', isInfix⟩ := fits_folded here.alternates hereList.fits
      (forall₂_imp_of_mem inside fun t ht t' both => both.2 (belowList t ht))
    exact ⟨fits', .inr ⟨rfl, isInfix⟩⟩

end Tree

end SyntaxAtlas
