-- Folding that stops midway. A failure comes up inside of one sequence, after others were
-- replaced, some of them inside of the operands of that one. Every sequence of the tree is then
-- either replaced as a whole or still there with the operators that it had, no token is lost,
-- and the number that is counted is that of the sequences replaced.

import SyntaxAtlas.Proofs.Places
import SyntaxAtlas.Proofs.Replaced

namespace SyntaxAtlas

namespace Tree

/-! ## The sequences of a tree -/

def isSequence : Tree → Bool
  | .node .sequenceExpr _ _ _ => true
  | _ => false

/-- The number of operator sequences in a tree. -/
def sequences (t : Tree) : Nat := t.preorder.countP isSequence

theorem sequences_eq (t : Tree) :
    t.sequences = (if t.isSequence then 1 else 0) + (t.children.map sequences).sum := by
  rw [sequences, preorder_eq, List.countP_cons, List.countP_flatMap, Nat.add_comm]
  rfl

theorem sequences_node {kind : Kind} (other : kind ≠ .sequenceExpr) (slots : List (String × Tree))
    (items : List Tree) (state : NodeState) :
    (Tree.node kind slots items state).sequences =
      ((Tree.node kind slots items state).children.map sequences).sum := by
  rw [sequences_eq, if_neg, Nat.zero_add]
  unfold isSequence
  split
  · rename_i same
    cases same
    exact absurd rfl other
  · simp

/-- A sequence counts itself and the sequences in its elements. -/
theorem sequences_sequence (elements items : List Tree) (state state' : NodeState) :
    (Tree.node .sequenceExpr [("elements", .node .exprList [] elements state')] items
      state).sequences = 1 + (elements.map sequences).sum := by
  have list : (Tree.node .exprList [] elements state').sequences = (elements.map sequences).sum :=
    sequences_node (by simp) [] elements state'
  rw [sequences_eq, children_sequence, List.map_singleton, List.sum_singleton, list]
  rfl

/-- An infix node adds nothing to the sequences in its elements. -/
theorem sequences_ofNest (n : Nest Tree Tree) :
    (ofNest n).sequences = ((alternated n.first n.rest).map sequences).sum := by
  induction n with
  | operand t => simp [ofNest, alternated, Nest.first, Nest.rest]
  | join left operator right ihl ihr =>
    rw [alternated_join, List.map_append, List.sum_append, List.map_cons, List.sum_cons, ← ihl,
      ← ihr, ofNest, infixNode, layoutAt, sequences_node (by simp), ← layoutAt, ← infixNode,
      children_infixNode]
    simp

theorem sequences_eq_zero {t : Tree} (flat : t.Everywhere Flat) : t.sequences = 0 := by
  refine List.countP_eq_zero.2 fun u mem sequence => ?_
  obtain ⟨other, _⟩ := flat.of_mem_preorder mem
  unfold isSequence at sequence
  split at sequence
  · exact other rfl
  · cases sequence

/-! ## Trees midway -/

mutual

/-- A tree, what it is midway, and the number of sequences replaced. A sequence is kept around
its elements, of which the operators are the same. Or else it is replaced as a whole, with all
sequences inside, by an infix node over these elements. Any other node stays around its
children. -/
inductive Midway (table : OperatorTable) : Tree → Tree → Nat → Prop
  | token (u : Token) : Midway table (.token u) (.token u) 0
  | node {kind : Kind} {slots slots' : List (String × Tree)} {items items' : List Tree}
      {state : NodeState} {n : Nat} (other : kind ≠ .sequenceExpr)
      (names : slots'.map (·.1) = slots.map (·.1))
      (others : if kind.isLayout then items' = items else slots' = slots)
      (below : MidwayAll table (Tree.node kind slots items state).children
        (Tree.node kind slots' items' state).children n) :
      Midway table (.node kind slots items state) (.node kind slots' items' state) n
  | kept {first first' : Tree} {run run' : List (Tree × Tree)} {items : List Tree}
      {state state' : NodeState} {n : Nat} (operators : run'.map (·.1) = run.map (·.1))
      (inside : MidwayAll table (alternated first run) (alternated first' run') n) :
      Midway table
        (.node .sequenceExpr [("elements", .node .exprList [] (alternated first run) state')] items
          state)
        (.node .sequenceExpr [("elements", .node .exprList [] (alternated first' run') state')]
          items state) n
  | replaced {first : Tree} {run : List (Tree × Tree)} {items : List Tree}
      {state state' : NodeState} {n : Nat} {nest : Nest Tree Tree}
      (operators : nest.rest.map (·.1) = run.map (·.1))
      (inside : MidwayAll table (alternated first run) (alternated nest.first nest.rest) n)
      (complete : ∀ c ∈ alternated nest.first nest.rest, c.sequences = 0)
      (folded : foldSequence table (.node .sequenceExpr
        [("elements", .node .exprList [] (alternated nest.first nest.rest) state')] items state) =
          .ok (ofNest nest))
      (isInfix : (ofNest nest).head = some (.rule (.node .infixOperatorExpr))) :
      Midway table
        (.node .sequenceExpr [("elements", .node .exprList [] (alternated first run) state')] items
          state)
        (ofNest nest) (n + 1)

inductive MidwayAll (table : OperatorTable) : List Tree → List Tree → Nat → Prop
  | nil : MidwayAll table [] [] 0
  | cons {t t' : Tree} {ts ts' : List Tree} {m n : Nat} (first : Midway table t t' m)
      (others : MidwayAll table ts ts' n) : MidwayAll table (t :: ts) (t' :: ts') (m + n)

end

mutual

/-- No token is lost midway. -/
theorem Midway.tokens {table : OperatorTable} {t t' : Tree} {n : Nat} (h : Midway table t t' n) :
    t'.tokens = t.tokens := by
  match h with
  | .token u => rfl
  | .node other names others below => rw [tokens_node, tokens_node, below.tokens]
  | .kept operators inside => rw [tokens_sequence, tokens_sequence, inside.tokens]
  | .replaced operators inside complete folded isInfix =>
    rw [tokens_ofNest, tokens_sequence, inside.tokens]

theorem MidwayAll.tokens {table : OperatorTable} {ts ts' : List Tree} {n : Nat}
    (h : MidwayAll table ts ts' n) : itemTokens ts' = itemTokens ts := by
  match h with
  | .nil => rfl
  | .cons first others => rw [itemTokens, itemTokens, first.tokens, others.tokens]

end

mutual

/-- The sequences that are left midway are those that were not replaced. -/
theorem Midway.sequences {table : OperatorTable} {t t' : Tree} {n : Nat}
    (h : Midway table t t' n) : n + t'.sequences = t.sequences := by
  match h with
  | .token u => rfl
  | .node other names others below =>
    rw [sequences_node other, sequences_node other, below.sequences]
  | .kept operators inside =>
    rw [sequences_sequence, sequences_sequence, ← inside.sequences]
    omega
  | .replaced operators inside complete folded isInfix =>
    rw [sequences_ofNest, sequences_sequence, ← inside.sequences]
    omega

theorem MidwayAll.sequences {table : OperatorTable} {ts ts' : List Tree} {n : Nat}
    (h : MidwayAll table ts ts' n) :
    n + (ts'.map Tree.sequences).sum = (ts.map Tree.sequences).sum := by
  match h with
  | .nil => rfl
  | .cons first others =>
    rw [List.map_cons, List.sum_cons, List.map_cons, List.sum_cons, ← first.sequences,
      ← others.sequences]
    omega

end

/-! ## Operators -/

/-- Operators hold tokens and nothing else. -/
theorem not_takes_node :
    ∀ slot ∈ Kind.slots .binaryOperatorExpr ++ Kind.slots .assignmentExpr,
      ∀ kind ∈ Kind.registered, slot.takes (.rule (.node kind)) = false := by
  decide

theorem exists_slot_of_mem_children {kind : Kind} (layout : kind.isLayout = true)
    {slots : List (String × Tree)} {items : List Tree} {state : NodeState}
    (fits : (Tree.node kind slots items state).Fits) :
    ∀ c ∈ (Tree.node kind slots items state).children,
      ∃ slot ∈ kind.slots, slot.admits c = .ok true := by
  obtain ⟨category, described⟩ := describe_of_isLayout layout
  simp only [Fits, described] at fits
  simp only [children, layout, if_true, List.mem_map]
  rintro _ ⟨s, hs, rfl⟩
  obtain ⟨slot, mem, _, admits⟩ := fits.2.2 s hs
  exact ⟨slot, mem, admits⟩

theorem isToken_of_mem_operator {kind : Kind}
    (operator : kind = .binaryOperatorExpr ∨ kind = .assignmentExpr)
    {slots : List (String × Tree)} {items : List Tree} {state : NodeState}
    (fits : (Tree.node kind slots items state).Everywhere Fits) :
    ∀ c ∈ (Tree.node kind slots items state).children, ∃ u, c = .token u := by
  intro c hc
  obtain ⟨here, below⟩ := everywhere_iff.1 fits
  have layout : kind.isLayout = true := by rcases operator with rfl | rfl <;> rfl
  obtain ⟨slot, mem, admits⟩ := exists_slot_of_mem_children layout here c hc
  have only := not_takes_node slot (by rcases operator with rfl | rfl <;> simp [mem])
  have fits' := (below c hc).self
  cases c with
  | token u => exact ⟨u, rfl⟩
  | foreign value => exact absurd fits' id
  | node kind slots items state =>
    obtain ⟨e, catalogued⟩ := catalogued_of_fits fits'
    rw [Slot.admits_of_head fits' rfl, only kind (Kind.mem_registered (by simp [catalogued]))]
      at admits
    cases admits

/-- Folding leaves operators as they are. -/
theorem foldAll_operator (table : OperatorTable) {t : Tree} (fits : t.Everywhere Fits)
    (operator : t.IsOperator) : foldAll table t = { result := t } := by
  obtain ⟨kind, slots, items, state, rfl, isOperator⟩ : ∃ kind slots items state,
      t = .node kind slots items state ∧ (kind = .binaryOperatorExpr ∨ kind = .assignmentExpr) := by
    unfold IsOperator at operator
    split at operator
    · exact ⟨_, _, _, _, rfl, .inl rfl⟩
    · exact ⟨_, _, _, _, rfl, .inr rfl⟩
    · exact absurd operator id
  refine foldAll_flat table fits (everywhere_iff.2 ⟨?_, fun c hc => ?_⟩)
  · rcases isOperator with rfl | rfl <;> simp [Flat, head]
  · obtain ⟨u, rfl⟩ := isToken_of_mem_operator isOperator fits c hc
    exact ⟨by simp [head], by simp [head]⟩

/-- The elements of a sequence still alternate when some are folded, and the operators among
them are the same. -/
theorem foldItems_alternated (table : OperatorTable) {first : Tree} {run : List (Tree × Tree)}
    (fits : ∀ t ∈ alternated first run, t.Everywhere Fits)
    (operators : ∀ entry ∈ run, entry.1.IsOperator) :
    ∃ first' run', (foldItems table (alternated first run)).result = alternated first' run' ∧
      run'.map (·.1) = run.map (·.1) := by
  have each := foldItems_forall₂ table (alternated first run)
  generalize (foldItems table (alternated first run)).result = elements at each ⊢
  obtain ⟨first', rest, -, others, rfl⟩ := List.forall₂_cons_left_iff.1 each
  have even : rest.length % 2 = 0 := by
    rw [← others.length_eq, length_alternated]
    omega
  obtain ⟨run', rfl⟩ := exists_run even
  refine ⟨first', run', rfl, ?_⟩
  have pairs := (forall₂_alternated each).2
  rw [eq_comm, ← List.forall₂_eq_eq_eq, List.forall₂_map_left_iff, List.forall₂_map_right_iff]
  refine forall₂_imp_of_mem pairs fun entry mem entry' both => ?_
  have operator := operators entry mem
  have fits' := fits entry.1 (List.mem_cons_of_mem _ (List.mem_flatMap_of_mem mem (by simp)))
  rcases both.1 with same | same
  · exact same.symm
  · rw [same, foldAll_operator table fits' operator]

/-! ## Every run of folding -/

theorem MidwayAll.refl {table : OperatorTable} {ts : List Tree}
    (each : ∀ t ∈ ts, Midway table t t 0) : MidwayAll table ts ts 0 := by
  induction ts with
  | nil => exact .nil
  | cons t ts ih =>
    exact .cons (each t List.mem_cons_self) (ih fun u hu => each u (List.mem_cons_of_mem t hu))

/-- Before anything is folded. -/
theorem Midway.refl (table : OperatorTable) {t : Tree} (conforms : t.Everywhere Conforms) :
    Midway table t t 0 := by
  induction conforms using everywhere_induction with
  | step t here below each =>
    cases t with
    | token u => exact .token u
    | foreign value => exact absurd here.fits id
    | node kind slots items state =>
      by_cases isSequence : kind = .sequenceExpr
      · subst isSequence
        obtain ⟨first, run, state', rfl, _⟩ := here.alternates
        have list := each (.node .exprList [] (alternated first run) state') (by
          simp [children_sequence])
        cases list with
        | node other names others inside => exact .kept rfl inside
      · exact .node isSequence rfl (by split <;> rfl) (.refl each)

theorem foldItems_midway {table : OperatorTable} {ts : List Tree}
    (unfolded : ∀ t ∈ ts, Midway table t t 0)
    (each : ∀ t ∈ ts, Midway table t (foldAll table t).result (foldAll table t).folded) :
    MidwayAll table ts (foldItems table ts).result (foldItems table ts).folded := by
  induction ts with
  | nil => exact .nil
  | cons t ts ih =>
    have first := each t List.mem_cons_self
    rw [foldAll] at first
    rw [foldItems, FoldRun.andThen]
    split
    · exact .cons first (.refl fun u hu => unfolded u (List.mem_cons_of_mem t hu))
    · exact .cons first (ih (fun u hu => unfolded u (List.mem_cons_of_mem t hu))
        fun u hu => each u (List.mem_cons_of_mem t hu))

/-- Where folding succeeds no sequence is left. -/
theorem foldAll_sequences {table : OperatorTable} {t : Tree} (conforms : t.Everywhere Conforms)
    (unlisted : t.Unlisted) (ok : (foldAll table t).failure = none) :
    (foldAll table t).result.sequences = 0 :=
  sequences_eq_zero ((foldAll_ok conforms ok).flat (conforms.imp fun _ h => h.lists) unlisted)

theorem alternated_inj {first first' : Tree} {run run' : List (Tree × Tree)}
    (same : alternated first run = alternated first' run') : run = run' := by
  rw [← runOf_alternated run, (List.cons.inj same).2, runOf_alternated]

/-- A sequence is kept, with its elements midway, or all of them are folded and so is the
sequence. -/
theorem foldAll_sequence_midway {table : OperatorTable} {first : Tree} {run : List (Tree × Tree)}
    {items : List Tree} {state state' : NodeState} (nonempty : run ≠ [])
    (operators : ∀ entry ∈ run, entry.1.IsOperator)
    (conforms : ∀ t ∈ alternated first run, t.Everywhere Conforms ∧ t.Unlisted)
    (inside : MidwayAll table (alternated first run)
      (foldItems table (alternated first run)).result
      (foldItems table (alternated first run)).folded) :
    let t := .node .sequenceExpr [("elements", .node .exprList [] (alternated first run) state')]
      items state
    Midway table t (foldAll table t).result (foldAll table t).folded := by
  intro t
  obtain ⟨first', run', alternating, same⟩ := foldItems_alternated table
    (fun u hu => (conforms u hu).1.imp fun _ h => h.fits) operators
  rw [foldAll, foldInside_sequence]
  rcases outermost_cases table ((foldItems table (alternated first run)).map fun elements =>
    .node .sequenceExpr [("elements", .node .exprList [] elements state')] items state) with
    ⟨kept, count⟩ | ⟨succeeds, count, folded, _⟩
  · rw [kept, count]
    simp only [FoldRun.map]
    rw [alternating] at inside ⊢
    exact .kept same inside
  · obtain ⟨nest, elements, result⟩ := foldSequence_nest rfl folded
    rw [result] at folded ⊢
    rw [count]
    simp only [FoldRun.map, Tree.items] at folded succeeds elements ⊢
    rw [← alternated_inj (elements.symm.trans alternating)] at same
    have complete : ∀ c ∈ alternated nest.first nest.rest, c.sequences = 0 := by
      rw [← elements]
      intro c hc
      obtain ⟨u, hu, ok, rfl⟩ := exists_of_forall₂ (foldItems_ok succeeds) c hc
      exact foldAll_sequences (conforms u hu).1 (conforms u hu).2 ok
    have isInfix : (ofNest nest).head = some (.rule (.node .infixOperatorExpr)) := by
      cases nest with
      | operand c => exact absurd (List.map_eq_nil_iff.1 same.symm) nonempty
      | join left operator right => rfl
    rw [elements] at inside folded
    exact .replaced same inside complete folded isInfix

/-- Where folding a conforming tree comes to, whether or not it comes to an end. -/
theorem foldAll_midway (table : OperatorTable) {t : Tree} (conforms : t.Everywhere Conforms) :
    Midway table t (foldAll table t).result (foldAll table t).folded := by
  induction conforms using everywhere_induction with
  | step t here below each =>
    cases t with
    | token u => exact .token u
    | foreign value => exact absurd here.fits id
    | node kind slots items state =>
      by_cases isSequence : kind = .sequenceExpr
      · subst isSequence
        obtain ⟨first, run, state', rfl, nonempty, _, pairs⟩ := here.alternates
        have child : Tree.node .exprList [] (alternated first run) state' ∈
            (Tree.node .sequenceExpr [("elements", .node .exprList [] (alternated first run)
              state')] items state).children := by
          simp [children_sequence]
        obtain ⟨list, elements⟩ := everywhere_iff.1 (below _ child)
        have unlisted := list.lists.resolve_left (by simp [head])
        -- The list of the elements is a node of its own, which folding leaves around them.
        have inside := each _ child
        rw [foldAll_list] at inside
        cases inside with
        | node other names others inside =>
          exact foldAll_sequence_midway nonempty (fun entry mem => (pairs entry mem).1)
            (fun u hu => ⟨elements u hu, unlisted u hu⟩) inside
      · obtain ⟨e, catalogued⟩ := catalogued_of_fits here.fits
        obtain ⟨slots', items', folded, shown, names, others⟩ :=
          foldInside_catalogued table catalogued slots items state
        rw [foldAll, folded, outermost_other (by simpa [FoldRun.map, head] using isSequence)]
        refine .node isSequence names others ?_
        rw [shown]
        exact foldItems_midway (fun c hc => .refl table (below c hc)) each

theorem head_foldInside (table : OperatorTable) (t : Tree) :
    (foldInside table t).result.head = t.head := by
  cases t with
  | token u => rfl
  | foreign value => rfl
  | node kind slots items state =>
    obtain ⟨slots', items', result, _⟩ := foldInside_node table kind slots items state
    rw [result]
    rfl

/-- Folding that fails loses nothing, and neither does folding that succeeds. Whatever the
table is, the tokens of a parsed tree stay as they are, and so does its text. Every sequence is
replaced as a whole or is there with its operators, and the number that is counted is that of
the sequences replaced, which are all of them where folding comes to an end. Nothing but a fault
of the source stops it. -/
theorem foldInside_loses_nothing {budget : Nat} {file source : String} {p : Parsed}
    (parsed : parse budget file source = .ok p) (table : OperatorTable) :
    let run := foldInside table p.root
    run.result.tokens = p.root.tokens ∧ run.result.fullText = p.root.fullText ∧
      Midway table p.root run.result run.folded ∧
      run.folded + run.result.sequences = p.root.sequences ∧
      (run.failure = none → run.folded = p.root.sequences) ∧
      (∀ f, run.failure = some f → OfSource f) ∧ foldAll table p.root = run := by
  intro run
  obtain ⟨conforms, isFile⟩ := parse_conforms parsed
  have root : foldAll table p.root = run := by
    refine outermost_other ?_
    rw [head_foldInside, isFile]
    simp
  have midway := foldAll_midway table conforms
  have left : (foldAll table p.root).failure = none → _ :=
    foldAll_sequences conforms (by simp [Unlisted, isFile])
  have ofSource := @foldAll_ofSource table _ (conforms.imp fun _ h => h.fits)
  rw [root] at midway left ofSource
  have tokens := midway.tokens
  have counted := midway.sequences
  refine ⟨tokens, ?_, midway, counted, fun ok => ?_, ofSource, root⟩
  · rw [fullText, fullText, tokens]
  · rw [← counted, left ok, Nat.add_zero]

/-- A sum in parentheses is replaced before the two comparisons around it fail. -/
theorem foldInside_loses_nothing_of_failure : ∃ p f,
    parse 0 standardFile "(a + b) == c == d" = .ok p ∧
      let run := foldInside .standard p.root
      run.failure = some f ∧ OfSource f ∧ run.folded = 1 ∧ run.result.tokens = p.root.tokens ∧
        Midway .standard p.root run.result 1 ∧ 1 + run.result.sequences = p.root.sequences := by
  obtain ⟨p, parsed, outcome⟩ := exists_ok_of_toOption sample_parses.2.2.2.2.1
  obtain ⟨failed, folded⟩ := Prod.mk.inj outcome
  obtain ⟨tokens, _, midway, counted, _, ofSource, whole⟩ := foldInside_loses_nothing parsed .standard
  rw [whole] at failed folded
  rw [Option.isNone_eq_false_iff, Option.isSome_iff_exists] at failed
  obtain ⟨f, failure⟩ := failed
  rw [folded] at midway counted
  exact ⟨p, f, parsed, failure, ofSource f failure, folded, tokens, midway, counted⟩

end Tree

end SyntaxAtlas
