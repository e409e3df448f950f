-- Folding keeps spans inside one another. What takes the place of an operator sequence
-- reaches from its first operand to its last one, so it never reaches further than the
-- sequence, and the nodes around it keep their spans.

import SyntaxAtlas.Proofs.Nesting
import SyntaxAtlas.Proofs.Positions
import SyntaxAtlas.Proofs.Room
import SyntaxAtlas.Proofs.RunOrder

namespace SyntaxAtlas

namespace Tree

/-! ## Narrower trees -/

theorem Encloses.forward {t : Tree} (h : t.Encloses) : t.start ≤ t.stop := h.laid.le

/-- A tree that can take the place of another: it reaches no further. -/
structure Narrows (t t' : Tree) : Prop where
  start : t.start ≤ t'.start
  stop : t'.stop ≤ t.stop
  encloses : t'.Everywhere Encloses

theorem Narrows.refl {t : Tree} (h : t.Everywhere Encloses) : Narrows t t :=
  ⟨Int.le_refl _, Int.le_refl _, h⟩

theorem Narrows.trans {t t' t'' : Tree} (h : Narrows t t') (h' : Narrows t' t'') :
    Narrows t t'' :=
  ⟨Int.le_trans h.start h'.start, Int.le_trans h'.stop h.stop, h'.encloses⟩

theorem Laid.widen {lo lo' hi : Int} {ts : List Tree} (h : Laid lo ts hi) (le : lo' ≤ lo) :
    Laid lo' ts hi := by
  cases ts with
  | nil => exact Int.le_trans le h
  | cons t ts => exact ⟨Int.le_trans le h.1, h.2⟩

/-- Narrower trees fit in the places of others. -/
theorem Laid.narrow {lo hi : Int} {ts ts' : List Tree} (h : Laid lo ts hi)
    (narrow : List.Forall₂ Narrows ts ts') : Laid lo ts' hi := by
  induction narrow generalizing lo with
  | nil => exact h
  | @cons t t' ts ts' first _ ih =>
    obtain ⟨low, _, rest⟩ := h
    have start := first.start
    exact ⟨by omega, first.encloses.self.forward, (ih rest).widen first.stop⟩

/-- A node stays around children that narrow. -/
theorem Encloses.narrow {t t' : Tree} (h : t.Encloses) (start : t'.start = t.start)
    (stop : t'.stop = t.stop) (token : t'.isToken = t.isToken)
    (narrow : List.Forall₂ Narrows t.children t'.children) : t'.Encloses := by
  constructor
  · rw [start, stop]
    exact h.laid.narrow narrow
  · intro node none
    rw [none] at narrow
    rw [start, stop]
    exact h.empty (token ▸ node) (List.forall₂_nil_right_iff.1 narrow)

/-! ## Sequences and infix nodes -/

theorem children_sequence (elements items : List Tree) (state state' : NodeState) :
    (Tree.node .sequenceExpr [("elements", .node .exprList [] elements state')] items
      state).children = [.node .exprList [] elements state'] := rfl

theorem children_infixNode (left operator right : Tree) :
    (infixNode left operator right).children = [left, operator, right] := rfl

theorem alternated_join (left : Nest Tree Tree) (operator : Tree) (right : Nest Tree Tree) :
    alternated (Nest.join left operator right).first (Nest.join left operator right).rest =
      alternated left.first left.rest ++ operator :: alternated right.first right.rest := by
  simp [alternated, Nest.first, Nest.rest]

/-- A nest of trees that lie one behind the other lies where they lie. -/
theorem ofNest_encloses {n : Nest Tree Tree} {lo hi : Int}
    (laid : Laid lo (alternated n.first n.rest) hi)
    (inside : ∀ c ∈ alternated n.first n.rest, c.Everywhere Encloses) :
    lo ≤ (ofNest n).start ∧ (ofNest n).stop ≤ hi ∧ (ofNest n).Everywhere Encloses := by
  induction n generalizing lo hi with
  | operand t =>
    obtain ⟨low, forward, high⟩ := laid
    exact ⟨low, high, inside t (by simp [alternated, Nest.first])⟩
  | join left operator right ihl ihr =>
    rw [alternated_join] at laid inside
    obtain ⟨mid, front, low, forward, behind⟩ := laid.split
    obtain ⟨start, stop, first⟩ := ihl front fun c hc => inside c (by simp [hc])
    obtain ⟨start', stop', last⟩ := ihr behind fun c hc => inside c (by simp [hc])
    have middle := inside operator (by simp)
    refine ⟨start, stop', ?_⟩
    rw [everywhere_iff, ofNest, children_infixNode]
    refine ⟨⟨?_, ?_⟩, ?_⟩
    · rw [children_infixNode]
      exact ⟨Int.le_refl _, first.self.forward, by omega, forward, start', last.self.forward,
        Int.le_refl _⟩
    · intro _ none
      cases none
    · intro c hc
      simp only [List.mem_cons, List.not_mem_nil, or_false] at hc
      rcases hc with rfl | rfl | rfl
      · exact first
      · exact middle
      · exact last

/-- A folded sequence can take the place of the sequence. -/
theorem foldSequence_narrows {table : OperatorTable} {elements items : List Tree}
    {state state' : NodeState} {t : Tree}
    (encloses : (Tree.node .sequenceExpr [("elements", .node .exprList [] elements state')] items
      state).Everywhere Encloses)
    (folded : foldSequence table (.node .sequenceExpr
      [("elements", .node .exprList [] elements state')] items state) = .ok t) :
    Narrows (.node .sequenceExpr [("elements", .node .exprList [] elements state')] items state)
      t := by
  obtain ⟨here, below⟩ := everywhere_iff.1 encloses
  obtain ⟨low, _, high⟩ := here.laid
  have list := below (.node .exprList [] elements state') (List.mem_singleton_self _)
  obtain ⟨laid, inside⟩ := everywhere_iff.1 list
  obtain ⟨n, rfl, rfl⟩ := foldSequence_nest rfl folded
  obtain ⟨start, stop, nested⟩ := ofNest_encloses laid.laid inside
  exact ⟨Int.le_trans low start, Int.le_trans stop high, nested⟩

/-! ## Folding a tree -/

theorem andThen_result {α β γ : Type} (first : FoldRun α) (unfolded : β) (next : Unit → FoldRun β)
    (put : α → β → γ) :
    (first.andThen unfolded next put).result = put first.result unfolded ∨
      (first.andThen unfolded next put).result = put first.result (next ()).result := by
  unfold FoldRun.andThen
  split
  · exact Or.inl rfl
  · exact Or.inr rfl

theorem foldSlots_names (table : OperatorTable) (slots : List (String × Tree)) :
    (foldSlots table slots).result.map (·.1) = slots.map (·.1) := by
  induction slots with
  | nil => rfl
  | cons slot rest ih =>
    rw [foldSlots]
    rcases andThen_result ((foldInside table slot.2).outermost table) rest
      (fun _ => foldSlots table rest) fun t rest => (slot.1, t) :: rest with result | result
    · rw [result]
      rfl
    · rw [result, List.map_cons, List.map_cons, ih]

/-- Slots are folded as their trees are. -/
theorem foldSlots_map (table : OperatorTable) (slots : List (String × Tree)) :
    (foldSlots table slots).map (·.map (·.2)) = foldItems table (slots.map (·.2)) := by
  induction slots with
  | nil => rfl
  | cons slot rest ih =>
    simp only [foldSlots, foldItems, List.map_cons, ← ih, FoldRun.andThen, FoldRun.map]
    split <;> rfl

/-- What folding does inside a node of the catalog. It folds the children, as far as it comes,
and leaves the node around them. -/
theorem foldInside_catalogued (table : OperatorTable) {kind : Kind} {e : Entry}
    (catalogued : kind.catalogued = some e) (slots : List (String × Tree)) (items : List Tree)
    (state : NodeState) :
    ∃ slots' items',
      foldInside table (.node kind slots items state) =
          ((foldItems table (Tree.node kind slots items state).children).map fun _ =>
            .node kind slots' items' state) ∧
        (Tree.node kind slots' items' state).children =
          (foldItems table (Tree.node kind slots items state).children).result ∧
        slots'.map (·.1) = slots.map (·.1) ∧
        if kind.isLayout then items' = items else slots' = slots := by
  by_cases layout : kind.isLayout = true
  · simp only [foldInside, catalogued, children, layout, if_true, ← foldSlots_map]
    exact ⟨_, items, rfl, rfl, foldSlots_names table slots, rfl⟩
  · simp only [foldInside, catalogued, children, layout, Bool.false_eq_true, if_false]
    exact ⟨slots, _, rfl, rfl, rfl, rfl⟩

/-- Folding the children of a node, as far as it comes, leaves the node around them. -/
theorem foldInside_node (table : OperatorTable) (kind : Kind) (slots : List (String × Tree))
    (items : List Tree) (state : NodeState) :
    ∃ slots' items',
      (foldInside table (.node kind slots items state)).result = .node kind slots' items' state ∧
        ((Tree.node kind slots' items' state).children =
            (Tree.node kind slots items state).children ∨
          (Tree.node kind slots' items' state).children =
            (foldItems table (Tree.node kind slots items state).children).result) := by
  rcases catalogued : kind.catalogued with _ | e
  · exact ⟨slots, items, by simp [foldInside, catalogued], .inl rfl⟩
  · obtain ⟨slots', items', folded, shown, _⟩ :=
      foldInside_catalogued table catalogued slots items state
    exact ⟨slots', items', congrArg FoldRun.result folded, .inr shown⟩

/-- Folding goes on at a tree only if it is a sequence. -/
theorem outermost_cases (table : OperatorTable) (run : FoldRun Tree) :
    (run.outermost table).result = run.result ∧ (run.outermost table).folded = run.folded ∨
      run.failure = none ∧ (run.outermost table).folded = run.folded + 1 ∧
        foldSequence table run.result = .ok (run.outermost table).result ∧
          ∃ slots items state, run.result = .node .sequenceExpr slots items state := by
  unfold FoldRun.outermost
  split
  · rename_i slots items state succeeds result
    rcases folded : foldSequence table (.node .sequenceExpr slots items state) with f | t
    · exact .inl ⟨rfl, rfl⟩
    · exact .inr ⟨succeeds, rfl, by rw [result, folded], slots, items, state, result⟩
  · exact .inl ⟨rfl, rfl⟩

theorem outermost_other {table : OperatorTable} {run : FoldRun Tree}
    (other : run.result.head ≠ some (.rule (.node .sequenceExpr))) : run.outermost table = run := by
  unfold FoldRun.outermost
  split
  · rename_i result
    rw [result] at other
    exact absurd rfl other
  · rfl

/-- A list stays around its elements. -/
theorem foldAll_list (table : OperatorTable) (elements : List Tree) (state : NodeState) :
    foldAll table (.node .exprList [] elements state) =
      (foldItems table elements).map fun elements' => .node .exprList [] elements' state := by
  have inside : foldInside table (.node .exprList [] elements state) =
      (foldItems table elements).map fun elements' => .node .exprList [] elements' state := rfl
  rw [foldAll, inside]
  exact outermost_other (by simp [FoldRun.map, head])

/-- Folding inside a sequence folds its elements, and the sequence still holds them. -/
theorem foldInside_sequence (table : OperatorTable) (elements items : List Tree)
    (state state' : NodeState) :
    foldInside table
        (.node .sequenceExpr [("elements", .node .exprList [] elements state')] items state) =
      (foldItems table elements).map fun elements' =>
        .node .sequenceExpr [("elements", .node .exprList [] elements' state')] items state := by
  change (foldSlots table [("elements", .node .exprList [] elements state')]).map
    (fun slots => Tree.node .sequenceExpr slots items state) = _
  rw [foldSlots, ← foldAll, foldAll_list]
  simp only [FoldRun.andThen, FoldRun.map, foldSlots]
  split <;> simp_all

/-- Each tree of a row is folded, as far as folding comes, or left as it is. -/
theorem foldItems_forall₂ (table : OperatorTable) (ts : List Tree) :
    List.Forall₂ (fun t t' => t' = t ∨ t' = (foldAll table t).result) ts
      (foldItems table ts).result := by
  induction ts with
  | nil => exact .nil
  | cons t rest ih =>
    rw [foldItems]
    rcases andThen_result ((foldInside table t).outermost table) rest
      (fun _ => foldItems table rest) fun t rest => t :: rest with result | result
    · rw [result]
      exact .cons (.inr rfl) (List.forall₂_same.2 fun _ _ => .inl rfl)
    · rw [result]
      exact .cons (.inr rfl) ih

theorem foldItems_narrows {table : OperatorTable} {ts : List Tree}
    (inside : ∀ t ∈ ts, t.Everywhere Encloses)
    (narrow : ∀ t ∈ ts, Narrows t (foldAll table t).result) :
    List.Forall₂ Narrows ts (foldItems table ts).result := by
  refine forall₂_imp_of_mem (foldItems_forall₂ table ts) fun t mem t' made => ?_
  rcases made with rfl | rfl
  · exact .refl (inside _ mem)
  · exact narrow t mem

/-- What folding makes of a tree, as far as it comes, can take the place of the tree. -/
theorem foldAll_narrows (table : OperatorTable) {t : Tree}
    (framed : t.Everywhere fun u => u.Encloses ∧ u.HoldsElements) :
    Narrows t (foldAll table t).result := by
  induction framed using everywhere_induction with
  | step t framed below each =>
    obtain ⟨here, holds⟩ := framed
    have inside : ∀ c ∈ t.children, c.Everywhere Encloses :=
      fun c hc => (below c hc).imp fun _ h => h.1
    cases t with
    | token u => exact .refl (everywhere_iff.2 ⟨here, inside⟩)
    | foreign value => exact .refl (everywhere_iff.2 ⟨here, inside⟩)
    | node kind slots items state =>
      have narrow := foldItems_narrows inside each
      obtain ⟨slots', items', result, shown⟩ :=
        foldInside_node table kind slots items state
      have narrow' : List.Forall₂ Narrows (Tree.node kind slots items state).children
          (Tree.node kind slots' items' state).children := by
        rcases shown with same | same
        · rw [same]
          exact List.forall₂_same.2 fun c hc => .refl (inside c hc)
        · rw [same]
          exact narrow
      have around : Narrows (.node kind slots items state)
          (foldInside table (.node kind slots items state)).result := by
        rw [result]
        refine ⟨Int.le_refl _, Int.le_refl _, everywhere_iff.2 ⟨?_, ?_⟩⟩
        · exact here.narrow rfl rfl rfl narrow'
        · intro c hc
          obtain ⟨c', _, narrower⟩ := exists_of_forall₂ narrow' c hc
          exact narrower.encloses
      rw [foldAll]
      rcases outermost_cases table (foldInside table (.node kind slots items state)) with
        ⟨same, _⟩ | ⟨_, _, folded, slots'', items'', state'', isSequence⟩
      · rw [same]
        exact around
      · rw [result] at isSequence
        cases isSequence
        obtain ⟨elements, state', rfl⟩ := holds _ _ _ rfl
        rw [foldInside_sequence] at around folded ⊢
        exact around.trans (foldSequence_narrows around.encloses folded)

/-! ## The trees of a source -/

/-- A tree within the first bytes of a source. Its children lie inside it one behind the
other, and a node without children has no width. -/
structure Nested (size : Nat) (t : Tree) : Prop where
  low : 0 ≤ t.start
  forward : t.start ≤ t.stop
  high : t.stop ≤ size
  inside : ∀ c ∈ t.children, t.start ≤ c.start ∧ c.stop ≤ t.stop
  apart : t.children.Pairwise fun c d => c.stop ≤ d.start
  empty : t.isToken = false → t.children = [] → t.start = t.stop

/-- Where each node encloses its children, all lies where the root does. -/
theorem nested_of_encloses {t : Tree} {size : Nat} (encloses : t.Everywhere Encloses)
    (low : 0 ≤ t.start) (high : t.stop ≤ size) : t.Everywhere (Nested size) := by
  induction encloses using everywhere_induction with
  | step t here below each =>
    rw [everywhere_iff]
    constructor
    · exact ⟨low, here.forward, high, here.laid.inside, here.laid.apart, here.empty⟩
    · intro c hc
      obtain ⟨start, stop⟩ := here.laid.inside c hc
      exact each c hc (by omega) (by omega)

end Tree

/-- The tree that a parse tree is built into has the frame that spans need. -/
theorem toTree_framed {a : Automaton} (sound : a.Sound) {budget : Nat} {source : List Char}
    {tree : ParseTree} {s : Session} (parsed : Recovery.parse a budget source = .ok (tree, s))
    {root : Tree} (built : tree.toTree = .ok root) : root.Everywhere Tree.Framed := by
  obtain ⟨derived, file, _⟩ := Recovery.parse_ordered sound parsed
  obtain ⟨root', built', _, conforms, _⟩ := ParseTree.toTree_of_derived derived file
  rw [built] at built'
  cases built'
  have closed := ParseTree.toTree_closed derived file built
  exact (closed.and conforms).imp fun u h =>
    ⟨h.1, Tree.isSyntax_of_fits h.2.1, Tree.holdsElements_of_alternates h.2.2⟩

/-- In a parsed source every node encloses its children, and the root lies in the source. -/
theorem parse_encloses {budget : Nat} {file source : String} {p : Parsed}
    (parsed : parse budget file source = .ok p) :
    p.root.Everywhere (fun u => u.Encloses ∧ u.HoldsElements) ∧ 0 ≤ p.root.start ∧
      p.root.stop ≤ source.toUTF8.size := by
  have placed := parse_placed parsed
  obtain ⟨front, e, last, _, _, position, endPosition⟩ := parse_endOfFile parsed
  obtain ⟨tree, s, root, accepted, built, rfl⟩ := parse_eq_ok_iff.1 parsed
  have framed := Tree.framed_withTokens (toTree_framed Automaton.ofGrammar_sound accepted built)
    (Token.attach source.toList (Trivia.split s.dropped) root.tokens)
  simp only [Tree.assignSpans] at placed last ⊢
  rw [Tree.place_tokens] at placed last
  change (root.attachTrivia source.toList (Trivia.split s.dropped)).Everywhere Tree.Framed at framed
  generalize root.attachTrivia source.toList (Trivia.split s.dropped) = t at framed placed last ⊢
  have ordered : InOrder t.tokens := placed.ordered
  have next : t.lastEnd?.getD t.stop = source.toUTF8.size := by
    rw [Tree.lastEnd?, Tree.lastToken?_eq_getLast?, last]
    simp [endPosition]
  have before : ∀ u ∈ t.tokens, u.endPosition ≤ source.toUTF8.size := by
    intro u hu
    have le := ordered.le_stopOf 0 u hu
    rw [last] at le
    simpa [stopOf, endPosition] using le
  rw [next]
  obtain ⟨start, stop⟩ := Tree.span_place framed.self.isSyntax source.toUTF8.size
  refine ⟨Tree.encloses_place framed ordered before, ?_, ?_⟩
  · rw [start]
    exact le_startOf (by omega) fun u hu => placed.home_le u hu
  · rw [stop]
    exact stopOf_le (Int.le_refl _) before

theorem shown_root (q : Parsed) (fold : Bool) : (q.shown fold).root = q.root ∨
    (q.shown fold).root = (q.root.foldAll .standard).result := by
  dsimp only [Parsed.shown]
  split
  · exact .inr rfl
  · exact .inl rfl

/-- Spans nest. In every tree of a source, folded or not, each node lies within the source
and does not end before it starts, its children lie inside it one behind the other, and a
node without children has no width. -/
theorem treeTraced_nested {host : Host} {budget : Nat} {options : RenderOptions}
    {place : DumpPlace} {file source : String} {p : Parsed}
    (produced : (treeTraced host budget options place file source).value = .ok p) :
    p.root.Everywhere (Tree.Nested source.toUTF8.size) := by
  obtain ⟨q, parsed, rfl⟩ := shown_of_treeTraced host options place produced
  obtain ⟨framed, low, high⟩ := parse_encloses parsed
  have encloses : q.root.Everywhere Tree.Encloses := framed.imp fun _ h => h.1
  rcases shown_root q options.fold with root | root
  · rw [root]
    exact Tree.nested_of_encloses encloses low high
  · have narrow : Tree.Narrows q.root (q.root.foldAll .standard).result :=
      Tree.foldAll_narrows _ framed
    rw [root]
    exact Tree.nested_of_encloses narrow.encloses (Int.le_trans low narrow.start)
      (Int.le_trans narrow.stop high)

/-- Spans nest with a folded sequence that holds a missing token. -/
theorem treeTraced_nested_of_folded : ∃ p q,
    parse 3 standardFile "x = \"é\" $+ (b ] * c" = .ok q ∧ q.recoveries = 3 ∧
      (q.root.foldAll .standard).folded = 1 ∧
      (treeTraced .roomy 3 { fold := true } .nowhere standardFile
        "x = \"é\" $+ (b ] * c").value = .ok p ∧
      p.root.Everywhere (Tree.Nested 20) := by
  obtain ⟨q, parsed, repaired⟩ := exists_ok_of_toOption sample_parses.2.2.2.1
  obtain ⟨q', parsed', folds⟩ := exists_ok_of_toOption sample_parses.1.2
  obtain rfl : q' = q := by rwa [parsed, Except.ok.injEq, eq_comm] at parsed'
  obtain ⟨recoveries, folded⟩ := Prod.mk.inj repaired
  have produced := treeTraced_value .roomy { fold := true } .nowhere parsed fun f failed => by
    rw [failed] at folds
    cases folds
  rw [Host.outcome_roomy] at produced
  exact ⟨_, q', parsed, recoveries, folded, produced, treeTraced_nested produced⟩

end SyntaxAtlas
