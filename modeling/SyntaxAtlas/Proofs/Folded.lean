-- What folding makes of a tree. Every operator sequence becomes a nest of its elements, in
-- their order, and all around stays as it is. So no token moves, and there is nothing left
-- to fold.

import SyntaxAtlas.Proofs.Conforming

namespace SyntaxAtlas

namespace Tree

/-! ## What becomes of a tree -/

/-- A tree and what folding makes of it. A sequence becomes what its folded elements fold to,
and any other node stays around its folded children. -/
inductive FoldsTo (table : OperatorTable) : Tree → Tree → Prop
  | token (u : Token) : FoldsTo table (.token u) (.token u)
  | node {kind : Kind} {slots slots' : List (String × Tree)} {items items' : List Tree}
      {state : NodeState} (other : kind ≠ .sequenceExpr)
      (names : slots'.map (·.1) = slots.map (·.1))
      (filled : List.Forall₂ (FoldsTo table) (slots.map (·.2)) (slots'.map (·.2)))
      (listed : List.Forall₂ (FoldsTo table) items items') :
      FoldsTo table (.node kind slots items state) (.node kind slots' items' state)
  | sequence {elements elements' items : List Tree} {state state' : NodeState} {t : Tree}
      (inside : List.Forall₂ (FoldsTo table) elements elements')
      (folded : foldSequence table (.node .sequenceExpr
        [("elements", .node .exprList [] elements' state')] items state) = .ok t) :
      FoldsTo table (.node .sequenceExpr [("elements", .node .exprList [] elements state')] items
        state) t

/-! ## Folding that succeeds -/

theorem andThen_ok {α β γ : Type} {first : FoldRun α} {unfolded : β} {next : Unit → FoldRun β}
    {put : α → β → γ} (ok : (first.andThen unfolded next put).failure = none) :
    first.failure = none ∧ (next ()).failure = none ∧
      (first.andThen unfolded next put).result = put first.result (next ()).result := by
  unfold FoldRun.andThen at ok ⊢
  rcases failure : first.failure with _ | f
  · simp only [failure] at ok
    exact ⟨rfl, ok, rfl⟩
  · simp [failure] at ok

theorem foldItems_ok {table : OperatorTable} {ts : List Tree}
    (ok : (foldItems table ts).failure = none) :
    List.Forall₂ (fun t t' => (foldAll table t).failure = none ∧ t' = (foldAll table t).result)
      ts (foldItems table ts).result := by
  induction ts with
  | nil => exact .nil
  | cons t rest ih =>
    obtain ⟨first, others, result⟩ := andThen_ok ok
    rw [foldItems, result]
    exact .cons ⟨first, rfl⟩ (ih others)

theorem outermost_ok {table : OperatorTable} {run : FoldRun Tree}
    (ok : (run.outermost table).failure = none) :
    run.failure = none ∧ (run.result.head = some (.rule (.node .sequenceExpr)) →
      foldSequence table run.result = .ok (run.outermost table).result) := by
  unfold FoldRun.outermost at ok ⊢
  split at ok
  · rename_i slots items state failure result
    refine ⟨failure, fun _ => ?_⟩
    simp only [result]
    split
    · rename_i t folded
      exact folded
    · rename_i f failed
      simp [failed] at ok
  · rename_i other
    refine ⟨ok, fun sequence => ?_⟩
    rcases result : run.result with u | ⟨kind, slots, items, state⟩ | value
    · simp [result, head] at sequence
    · obtain rfl : kind = .sequenceExpr := by simpa [result, head] using sequence
      exact absurd result (other slots items state ok)
    · simp [result, head] at sequence

/-- A conforming node has only slots or only items. -/
theorem items_eq_nil {kind : Kind} {slots : List (String × Tree)} {items : List Tree}
    {state : NodeState} (fits : (Tree.node kind slots items state).Fits) :
    if kind.isLayout then items = [] else slots = [] := by
  unfold Fits at fits
  unfold Kind.isLayout
  rcases described : Catalog.describe kind with _ | ⟨category, declared | element | alternatives⟩ <;>
    simp only [described] at fits ⊢
  · exact fits.1
  · exact fits.1
  · exact fits.1

theorem catalogued_of_fits {kind : Kind} {slots : List (String × Tree)} {items : List Tree}
    {state : NodeState} (fits : (Tree.node kind slots items state).Fits) :
    ∃ e, kind.catalogued = some e := by
  unfold Fits at fits
  unfold Kind.catalogued
  rcases described : Catalog.describe kind with _ | entry
  · simp [described] at fits
  · exact ⟨_, rfl⟩

/-- The node around folded children. -/
theorem foldInside_ok {table : OperatorTable} {kind : Kind} {slots : List (String × Tree)}
    {items : List Tree} {state : NodeState} (fits : (Tree.node kind slots items state).Fits)
    (each : ∀ c ∈ (Tree.node kind slots items state).children,
      (foldAll table c).failure = none → FoldsTo table c (foldAll table c).result)
    (ok : (foldInside table (.node kind slots items state)).failure = none) :
    ∃ slots' items', (foldInside table (.node kind slots items state)).result =
        .node kind slots' items' state ∧
      slots'.map (·.1) = slots.map (·.1) ∧
      List.Forall₂ (FoldsTo table) (slots.map (·.2)) (slots'.map (·.2)) ∧
      List.Forall₂ (FoldsTo table) items items' := by
  obtain ⟨e, catalogued⟩ := catalogued_of_fits fits
  obtain ⟨slots', items', folded, shown, names, others⟩ :=
    foldInside_catalogued table catalogued slots items state
  rw [folded] at ok ⊢
  have inside := forall₂_imp_of_mem (foldItems_ok ok)
    fun c mem c' both => both.2 ▸ each c mem both.1
  rw [← shown] at inside
  have single := items_eq_nil fits
  refine ⟨slots', items', rfl, names, ?_⟩
  by_cases layout : kind.isLayout = true
  · simp only [layout, if_true] at single others
    subst others single
    simp only [children, layout, if_true] at inside
    exact ⟨inside, .nil⟩
  · simp only [layout, Bool.false_eq_true, if_false] at single others
    subst others single
    simp only [children, layout, Bool.false_eq_true, if_false] at inside
    exact ⟨.nil, inside⟩

theorem FoldsTo.list {table : OperatorTable} {elements : List Tree} {state : NodeState} {t' : Tree}
    (h : FoldsTo table (.node .exprList [] elements state) t') :
    ∃ elements', t' = .node .exprList [] elements' state ∧
      List.Forall₂ (FoldsTo table) elements elements' := by
  cases h with
  | @node _ _ slots' _ items' _ _ names _ listed =>
    obtain rfl : slots' = [] := List.map_eq_nil_iff.1 names
    exact ⟨items', rfl, listed⟩

/-- Where folding succeeds its result is what the tree folds to. -/
theorem foldAll_ok {table : OperatorTable} {t : Tree} (conforms : t.Everywhere Conforms)
    (ok : (foldAll table t).failure = none) : FoldsTo table t (foldAll table t).result := by
  induction conforms using everywhere_induction with
  | step t here below each =>
    cases t with
    | token u => exact .token u
    | foreign value => exact absurd here.fits id
    | node kind slots items state =>
      obtain ⟨inside, outside⟩ := outermost_ok ok
      obtain ⟨slots', items', result, names, filled, listed⟩ :=
        foldInside_ok here.fits each inside
      by_cases isSequence : kind = .sequenceExpr
      · subst isSequence
        have folded := outside (by simp [result, head])
        obtain ⟨first, run, state', rfl, _⟩ := here.alternates
        have none := items_eq_nil here.fits
        rw [if_pos (by decide)] at none
        subst none
        obtain ⟨⟨name, list⟩, rfl, rfl⟩ : ∃ s, slots' = [s] ∧ s.1 = "elements" := by
          simpa [List.map_eq_singleton_iff] using names
        cases listed
        cases filled with
        | cons list _ =>
          obtain ⟨elements', rfl, inside⟩ := list.list
          rw [result] at folded
          exact .sequence inside folded
      · rw [foldAll, outermost_other (by simpa [result, head] using isSequence), result]
        exact .node isSequence names filled listed

/-! ## What holds of a tree and its folding -/

/-- What holds of a tree and its folding, by the three ways that folding goes. -/
theorem FoldsTo.induct {table : OperatorTable} {P : Tree → Tree → Prop} {t t' : Tree}
    (h : FoldsTo table t t') (token : ∀ u, P (.token u) (.token u))
    (node : ∀ {kind : Kind} {slots slots' : List (String × Tree)} {items items' : List Tree}
      {state : NodeState}, kind ≠ .sequenceExpr → slots'.map (·.1) = slots.map (·.1) →
      List.Forall₂ (fun t t' => FoldsTo table t t' ∧ P t t') (slots.map (·.2)) (slots'.map (·.2)) →
      List.Forall₂ (fun t t' => FoldsTo table t t' ∧ P t t') items items' →
        P (.node kind slots items state) (.node kind slots' items' state))
    (sequence : ∀ {elements elements' items : List Tree} {state state' : NodeState} {t : Tree},
      List.Forall₂ (fun t t' => FoldsTo table t t' ∧ P t t') elements elements' →
      foldSequence table (.node .sequenceExpr
        [("elements", .node .exprList [] elements' state')] items state) = .ok t →
        P (.node .sequenceExpr [("elements", .node .exprList [] elements state')] items state) t) :
    P t t' :=
  @FoldsTo.rec table (fun t t' _ => P t t')
    (fun ts ts' _ => List.Forall₂ (fun t t' => FoldsTo table t t' ∧ P t t') ts ts') token
    (fun other names _ _ filled listed => node other names filled listed)
    (fun _ folded inside => sequence inside folded) .nil
    (fun first _ holds others => .cons ⟨first, holds⟩ others) t t' h

theorem itemTokens_congr {ts ts' : List Tree}
    (same : List.Forall₂ (fun t t' => t'.tokens = t.tokens) ts ts') :
    itemTokens ts' = itemTokens ts := by
  induction same with
  | nil => rfl
  | cons first _ ih => simp [itemTokens, first, ih]

theorem tokens_infixNode (left operator right : Tree) :
    (infixNode left operator right).tokens = left.tokens ++ (operator.tokens ++ right.tokens) := by
  rw [infixNode, layoutAt, tokens_node, ← layoutAt, ← infixNode, children_infixNode]
  simp [itemTokens]

theorem tokens_sequence (elements items : List Tree) (state state' : NodeState) :
    (Tree.node .sequenceExpr [("elements", .node .exprList [] elements state')] items
      state).tokens = itemTokens elements := by
  rw [tokens_node, children_sequence, itemTokens, itemTokens, List.append_nil]
  exact tokens_node .exprList [] elements state'

theorem tokens_ofNest (n : Nest Tree Tree) :
    (ofNest n).tokens = itemTokens (alternated n.first n.rest) := by
  induction n with
  | operand t => simp [ofNest, alternated, Nest.first, Nest.rest, itemTokens]
  | join left operator right ihl ihr =>
    rw [alternated_join, itemTokens_append, itemTokens, ← ihl, ← ihr, ofNest, tokens_infixNode]

/-- Folding changes no token. -/
theorem FoldsTo.tokens {table : OperatorTable} {t t' : Tree} (h : FoldsTo table t t') :
    t'.tokens = t.tokens := by
  refine h.induct (P := fun t t' => t'.tokens = t.tokens) (fun u => rfl) ?node ?sequence
  case node =>
    intro kind slots slots' items items' state _ _ filled listed
    rw [tokens_node, tokens_node]
    by_cases layout : kind.isLayout = true
    · simpa only [children, layout, if_true] using
        itemTokens_congr (filled.imp fun _ _ both => both.2)
    · simpa only [children, layout, Bool.false_eq_true, if_false] using
        itemTokens_congr (listed.imp fun _ _ both => both.2)
  case sequence =>
    intro elements elements' items state state' t inside folded
    obtain ⟨n, rfl, rfl⟩ := foldSequence_nest rfl folded
    rw [tokens_ofNest, tokens_sequence, itemTokens_congr (inside.imp fun _ _ both => both.2)]

/-- A tree that is neither an operator sequence nor a list of its elements. -/
def Flat (t : Tree) : Prop :=
  t.head ≠ some (.rule (.node .sequenceExpr)) ∧ t.head ≠ some (.rule (.node .exprList))

theorem flat_infixNode (left operator right : Tree) : (infixNode left operator right).Flat := by
  have head : (infixNode left operator right).head = some (.rule (.node .infixOperatorExpr)) := rfl
  rw [Flat, head]
  simp

theorem everywhere_infixNode {P : Tree → Prop} {left operator right : Tree} :
    (infixNode left operator right).Everywhere P ↔
      P (infixNode left operator right) ∧ left.Everywhere P ∧ operator.Everywhere P ∧
        right.Everywhere P := by
  rw [everywhere_iff, children_infixNode]
  simp

/-- What holds of all elements and of infix nodes holds everywhere in a nest. -/
theorem everywhere_ofNest {P : Tree → Prop} {n : Nest Tree Tree}
    (infix' : ∀ left operator right, P (infixNode left operator right))
    (elements : ∀ c ∈ alternated n.first n.rest, c.Everywhere P) : (ofNest n).Everywhere P := by
  induction n with
  | operand t => exact elements t (by simp [alternated, Nest.first])
  | join left operator right ihl ihr =>
    rw [alternated_join] at elements
    refine everywhere_infixNode.2 ⟨infix' _ _ _, ihl ?_, elements _ (by simp), ihr ?_⟩
    · exact fun c hc => elements c (by simp [hc])
    · exact fun c hc => elements c (by simp [hc])

theorem forall₂_children {R : Tree → Tree → Prop} {kind : Kind} {state : NodeState}
    {slots slots' : List (String × Tree)} {items items' : List Tree}
    (filled : List.Forall₂ R (slots.map (·.2)) (slots'.map (·.2)))
    (listed : List.Forall₂ R items items') :
    List.Forall₂ R (Tree.node kind slots items state).children
      (Tree.node kind slots' items' state).children := by
  by_cases layout : kind.isLayout = true
  · simpa only [children, layout, if_true] using filled
  · simpa only [children, layout, Bool.false_eq_true, if_false] using listed

/-- Folding leaves no sequence and no list of elements. -/
theorem FoldsTo.flat {table : OperatorTable} {t t' : Tree} (h : FoldsTo table t t')
    (lists : t.Everywhere Lists) (unlisted : t.Unlisted) : t'.Everywhere Flat := by
  refine h.induct (P := fun t t' => t.Everywhere Lists → t.Unlisted → t'.Everywhere Flat)
    ?token ?node ?sequence lists unlisted
  case token =>
    intro u _ _
    exact ⟨by simp [head], by simp [head]⟩
  case node =>
    intro kind slots slots' items items' state other _ filled listed lists unlisted
    obtain ⟨here, below⟩ := everywhere_iff.1 lists
    refine everywhere_iff.2 ⟨⟨by simpa [head] using other, unlisted⟩, fun c' hc' => ?_⟩
    obtain ⟨c, hc, _, flat⟩ := exists_of_forall₂ (forall₂_children filled listed) c' hc'
    refine flat (below c hc) (here.resolve_left ?_ c hc)
    simpa [head] using other
  case sequence =>
    intro elements elements' items state state' t inside folded lists _
    have list := (everywhere_iff.1 lists).2 (.node .exprList [] elements state') (by
      simp [children_sequence])
    obtain ⟨here, below⟩ := everywhere_iff.1 list
    obtain ⟨n, rfl, rfl⟩ := foldSequence_nest rfl folded
    refine everywhere_ofNest flat_infixNode fun c' hc' => ?_
    obtain ⟨c, hc, _, flat⟩ := exists_of_forall₂ inside c' hc'
    exact flat (below c hc) (here.resolve_left (by simp [head]) c hc)

/-! ## Folding again -/

theorem foldItems_same {table : OperatorTable} {ts : List Tree}
    (same : ∀ t ∈ ts, foldAll table t = { result := t }) : foldItems table ts = { result := ts } := by
  induction ts with
  | nil => rfl
  | cons t rest ih =>
    have first : (foldInside table t).outermost table = { result := t } := same t (by simp)
    rw [foldItems, first, ih fun u hu => same u (by simp [hu])]
    rfl

theorem foldSlots_same {table : OperatorTable} {slots : List (String × Tree)}
    (same : ∀ t ∈ slots.map (·.2), foldAll table t = { result := t }) :
    foldSlots table slots = { result := slots } := by
  induction slots with
  | nil => rfl
  | cons slot rest ih =>
    have first : (foldInside table slot.2).outermost table = { result := slot.2 } :=
      same slot.2 (by simp)
    rw [foldSlots, first, ih fun u hu => same u (by simp [hu])]
    rfl

/-- Where there is no sequence, folding leaves all as it is. -/
theorem foldAll_flat (table : OperatorTable) {t : Tree} (fits : t.Everywhere Fits)
    (flat : t.Everywhere Flat) : foldAll table t = { result := t } := by
  induction fits using everywhere_induction with
  | step t fits below each =>
    obtain ⟨flat, flatBelow⟩ := everywhere_iff.1 flat
    cases t with
    | token u => rfl
    | foreign value => rfl
    | node kind slots items state =>
      obtain ⟨e, catalogued⟩ := catalogued_of_fits fits
      have same : ∀ c ∈ (Tree.node kind slots items state).children,
          foldAll table c = { result := c } := fun c hc => each c hc (flatBelow c hc)
      have inside : foldInside table (.node kind slots items state) =
          { result := .node kind slots items state } := by
        by_cases layout : kind.isLayout = true
        · simp only [children, layout, if_true] at same
          simp only [foldInside, catalogued, layout, if_true, foldSlots_same same]
          rfl
        · simp only [children, layout, Bool.false_eq_true, if_false] at same
          simp only [foldInside, catalogued, layout, Bool.false_eq_true, if_false,
            foldItems_same same]
          rfl
      rw [foldAll, inside]
      exact outermost_other flat.1

/-! ## Folding that fails -/

/-- A failure that is a fault of the source, which an error tells of. -/
def OfSource (f : FoldFailure) : Prop := ∀ v, f ≠ .violated v

theorem OfSource.error {f : FoldFailure} (ofSource : OfSource f) (map : Option LineMap) :
    ∃ e, f.error map = .ok e := by
  unfold FoldFailure.error
  cases f with
  | violated v => exact absurd rfl (ofSource v)
  | _ => exact ⟨_, rfl⟩

theorem andThen_failure {α β γ : Type} {first : FoldRun α} {unfolded : β}
    {next : Unit → FoldRun β} {put : α → β → γ} {f : FoldFailure}
    (failed : (first.andThen unfolded next put).failure = some f) :
    first.failure = some f ∨ (next ()).failure = some f := by
  unfold FoldRun.andThen at failed
  split at failed
  · rename_i g failure
    exact .inl (failure.trans failed)
  · exact .inr failed

theorem foldSequence_ofSource {table : OperatorTable} {t : Tree} {f : FoldFailure}
    (failed : foldSequence table t = .error f) : OfSource f := by
  intro v same
  subst same
  unfold foldSequence at failed
  split at failed
  · cases failed
  · split at failed
    · cases failed
    · split at failed <;> cases failed

theorem outermost_ofSource {table : OperatorTable} {run : FoldRun Tree} {f : FoldFailure}
    (inside : ∀ g, run.failure = some g → OfSource g)
    (failed : (run.outermost table).failure = some f) : OfSource f := by
  unfold FoldRun.outermost at failed
  split at failed
  · split at failed
    · rename_i none _ _ _ _
      cases failed
    · rename_i g unfolded
      cases failed
      exact foldSequence_ofSource unfolded
  · exact inside f failed

theorem foldItems_ofSource {table : OperatorTable} {ts : List Tree}
    (each : ∀ t ∈ ts, ∀ f, (foldAll table t).failure = some f → OfSource f) :
    ∀ f, (foldItems table ts).failure = some f → OfSource f := by
  induction ts with
  | nil =>
    intro f failed
    cases failed
  | cons t rest ih =>
    intro f failed
    rcases andThen_failure failed with first | others
    · exact each t List.mem_cons_self f first
    · exact ih (fun u hu => each u (List.mem_cons_of_mem t hu)) f others

/-- In a tree that fits the catalog only the operators of the source can stop folding. -/
theorem foldAll_ofSource {table : OperatorTable} {t : Tree} (fits : t.Everywhere Fits) :
    ∀ f, (foldAll table t).failure = some f → OfSource f := by
  induction fits using everywhere_induction with
  | step t here below each =>
    intro f failed
    refine outermost_ofSource ?_ failed
    intro g inside
    cases t with
    | token u => cases inside
    | foreign value => cases inside
    | node kind slots items state =>
      obtain ⟨e, catalogued⟩ := catalogued_of_fits here
      obtain ⟨_, _, folded, _⟩ := foldInside_catalogued table catalogued slots items state
      rw [folded] at inside
      exact foldItems_ofSource each g inside

end Tree

end SyntaxAtlas
