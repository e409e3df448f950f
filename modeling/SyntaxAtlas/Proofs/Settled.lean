-- Spans that are set already. The nodes of a parsed tree have the spans that their tokens
-- give them, and folding keeps it so, though infix nodes take theirs from their operands.

import SyntaxAtlas.Proofs.Replaced

namespace SyntaxAtlas

namespace Tree

/-! ## Setting spans twice -/

/-- A tree has the span that its tokens give it, before a token at `next`. -/
def HasSpan (next : Int) (t : Tree) : Prop :=
  t.start = startOf t.tokens next ∧ t.stop = stopOf t.tokens next

theorem pairs_ext {α β : Type} {xs ys : List (α × β)} (fst : xs.map (·.1) = ys.map (·.1))
    (snd : xs.map (·.2) = ys.map (·.2)) : xs = ys := by
  rw [List.zip_of_prod fst snd, ← List.zip_of_prod rfl rfl]

theorem placeSlots_names (next : Option Int) (slots : List (String × Tree)) :
    (placeSlots next slots).map (·.1) = slots.map (·.1) := by
  induction slots with
  | nil => rfl
  | cons slot rest ih => simp [placeSlots, ih]

/-- Spans that are set already are those that the tokens give, in the tree and below. -/
theorem place_eq_iff {t : Tree} (isSyntax : ∀ value, t ≠ .foreign value) {next : Int} :
    t.place (some next) = t ↔ t.HasSpan next ∧ placeItems (some next) t.children = t.children := by
  constructor
  · intro same
    obtain ⟨start, stop⟩ := span_place isSyntax next
    rw [same] at start stop
    exact ⟨⟨start, stop⟩, by rw [← children_place, same]⟩
  · rintro ⟨⟨start', stop'⟩, below⟩
    cases t with
    | token u => rfl
    | foreign value => exact absurd rfl (isSyntax value)
    | node kind slots items state =>
      have span : spanBefore (some next) (.node kind slots items state) = state.span := by
        rw [spanBefore_some, ← start', ← stop']
        rfl
      by_cases layout : kind.isLayout = true
      · simp only [children, layout, if_true, ← placeSlots_map] at below
        simp only [place, layout, if_true, span, pairs_ext (placeSlots_names _ _) below]
      · simp only [children, layout, Bool.false_eq_true, if_false] at below
        simp only [place, layout, Bool.false_eq_true, if_false, span, below]

theorem hasSpan_place {t : Tree} (isSyntax : ∀ value, t ≠ .foreign value) (next : Int) :
    (t.place (some next)).HasSpan next := by
  rw [HasSpan, place_tokens]
  exact span_place isSyntax next

theorem placeItems_cons (next : Int) (t : Tree) (rest : List Tree) :
    placeItems (some next) (t :: rest) =
      t.place (some (startOf (itemTokens rest) next)) :: placeItems (some next) rest := by
  rw [placeItems, following_eq]

/-- Setting spans leaves it as it is whether a tree is syntax. -/
theorem place_eq_foreign_iff {next : Option Int} {t : Tree} {value : Datum} :
    t.place next = .foreign value ↔ t = .foreign value := by
  cases t with
  | token u => exact Iff.rfl
  | foreign value => exact Iff.rfl
  | node kind slots items state =>
    unfold place
    simp only
    split <;> simp

/-- Spans that are set twice are set once. -/
theorem place_place (t : Tree) (next : Int) :
    (t.place (some next)).place (some next) = t.place (some next) := by
  induction t using children_induction generalizing next with
  | step t ih =>
    by_cases isSyntax : ∀ value, t ≠ .foreign value
    · have placed : ∀ value, t.place (some next) ≠ .foreign value :=
        fun value same => isSyntax value (place_eq_foreign_iff.1 same)
      rw [place_eq_iff placed, children_place]
      refine ⟨hasSpan_place isSyntax next, ?_⟩
      generalize t.children = ts at ih
      induction ts with
      | nil => rfl
      | cons c ts rest =>
        rw [placeItems_cons, placeItems_cons, placeItems_tokens, ih c (by simp),
          rest fun d hd => ih d (by simp [hd])]
    · obtain ⟨value, rfl⟩ : ∃ value, t = .foreign value := by simpa using isSyntax
      rfl

theorem lastEnd?_eq (t : Tree) : t.lastEnd?.getD t.stop = stopOf t.tokens t.stop := by
  rw [lastEnd?, lastToken?_eq_getLast?, stopOf]

/-- The spans of a parsed tree are those that its tokens give. -/
theorem assignSpans_eq_self_iff {t : Tree} (tokens : t.tokens ≠ []) :
    t.assignSpans = t ↔ t.place (some (stopOf t.tokens 0)) = t := by
  have last : stopOf t.tokens t.stop = stopOf t.tokens 0 := by
    obtain ⟨e, found⟩ := Option.isSome_iff_exists.1 (List.getLast?_isSome.2 tokens)
    simp [found, stopOf]
  rw [assignSpans, lastEnd?_eq, last]

/-! ## Folding keeps the spans set -/

/-- Trees with the same tokens can take the place of others in a row. -/
theorem placeItems_congr {ts ts' : List Tree}
    (each : List.Forall₂ (fun t t' => t'.tokens = t.tokens ∧
      ∀ next : Int, t.place (some next) = t → t'.place (some next) = t') ts ts') {next : Int}
    (settled : placeItems (some next) ts = ts) : placeItems (some next) ts' = ts' := by
  induction each with
  | nil => rfl
  | @cons t t' ts ts' first others ih =>
    rw [placeItems_cons, List.cons.injEq] at settled
    rw [placeItems_cons, itemTokens_congr (others.imp fun _ _ both => both.1),
      first.2 _ settled.1, ih settled.2]

theorem placeItems_append (next : Int) (xs ys : List Tree) :
    placeItems (some next) (xs ++ ys) =
      placeItems (some (startOf (itemTokens ys) next)) xs ++ placeItems (some next) ys := by
  induction xs with
  | nil => rfl
  | cons t xs ih =>
    rw [List.cons_append, placeItems_cons, placeItems_cons, ih, itemTokens_append, startOf_behind,
      List.cons_append]

theorem length_placeItems (next : Int) (ts : List Tree) :
    (placeItems (some next) ts).length = ts.length := by
  induction ts with
  | nil => rfl
  | cons t ts ih => rw [placeItems_cons, List.length_cons, List.length_cons, ih]

theorem startOf_append {ts : List Token} (nonempty : ts ≠ []) (us : List Token) (next next' : Int) :
    startOf (ts ++ us) next = startOf ts next' := by
  cases ts with
  | nil => exact absurd rfl nonempty
  | cons t ts => rfl

theorem stopOf_append {us : List Token} (nonempty : us ≠ []) (ts : List Token) (next : Int) :
    stopOf (ts ++ us) next = stopOf us next := by
  rw [stopOf, List.getLast?_append_of_ne_nil _ nonempty, ← stopOf]

theorem isSyntax_of_tokens {t : Tree} (nonempty : t.tokens ≠ []) : ∀ value, t ≠ .foreign value := by
  rintro value rfl
  exact nonempty rfl

theorem tokens_ofNest_ne_nil {n : Nest Tree Tree}
    (filled : ∀ c ∈ alternated n.first n.rest, c.tokens ≠ []) : (ofNest n).tokens ≠ [] := by
  rw [tokens_ofNest]
  exact fun none => filled n.first (by simp [alternated])
    (itemTokens_eq_nil_iff.1 none n.first (by simp [alternated]))

/-- A nest of elements that have their spans has its own from them. -/
theorem place_ofNest {n : Nest Tree Tree}
    (filled : ∀ c ∈ alternated n.first n.rest, c.tokens ≠ []) {next : Int}
    (settled : placeItems (some next) (alternated n.first n.rest) = alternated n.first n.rest) :
    (ofNest n).place (some next) = ofNest n := by
  induction n generalizing next with
  | operand t => exact (List.cons.inj settled).1
  | join left operator right ihl ihr =>
    rw [alternated_join] at filled settled
    rw [placeItems_append] at settled
    obtain ⟨front, behind⟩ := List.append_inj settled (length_placeItems _ _)
    rw [placeItems_cons, List.cons.injEq] at behind
    have filledLeft : ∀ c ∈ alternated left.first left.rest, c.tokens ≠ [] :=
      fun c hc => filled c (by simp [hc])
    have filledRight : ∀ c ∈ alternated right.first right.rest, c.tokens ≠ [] :=
      fun c hc => filled c (by simp [hc])
    have nonempty := tokens_ofNest_ne_nil filledLeft
    have nonempty' := tokens_ofNest_ne_nil filledRight
    have left' := ihl filledLeft front
    have right' := ihr filledRight behind.2
    have spanLeft := ((place_eq_iff (isSyntax_of_tokens nonempty)).1 left').1
    have spanRight := ((place_eq_iff (isSyntax_of_tokens nonempty')).1 right').1
    rw [ofNest, place_eq_iff (by simp [infixNode, layoutAt])]
    refine ⟨⟨?_, ?_⟩, ?_⟩
    · -- The infix node starts where its left operand does, which starts with its first token.
      rw [tokens_infixNode, startOf_append nonempty _ next]
      exact spanLeft.1
    · rw [tokens_infixNode, ← List.append_assoc, stopOf_append nonempty']
      exact spanRight.2
    · rw [itemTokens, ← tokens_ofNest right] at left'
      rw [← tokens_ofNest right] at behind
      rw [children_infixNode]
      simp only [placeItems_cons, itemTokens, List.append_nil, left', behind.1]
      rw [show startOf [] next = next from rfl, right']
      rfl

/-- No kind of expression may be empty. -/
theorem filled_of_expression : ∀ kind ∈ Kind.registered,
    (Catalog.describe kind).map (·.1) = some .expression → kind.mayBeEmpty = false := by
  decide

/-- Expressions hold tokens. -/
theorem tokens_ne_nil_of_isExpression {t : Tree} (conforms : t.Everywhere Conforms)
    (expression : t.IsExpression) : t.tokens ≠ [] := by
  obtain ⟨kind, head, category⟩ := expression
  obtain ⟨entry, described, _⟩ := Option.map_eq_some_iff.1 category
  have registered := @Kind.mem_registered kind (by simp [Kind.catalogued, described])
  refine tokens_ne_nil (conforms.imp fun _ h => h.closed) ?_
  simp [isFilled, head, Symbol.isFilled, filled_of_expression kind registered category]

/-- Where spans are set before folding they are set behind it. -/
theorem FoldsTo.settled {table : OperatorTable} {t t' : Tree} (h : FoldsTo table t t')
    (conforms : t.Everywhere Conforms) {next : Int} (settled : t.place (some next) = t) :
    t'.place (some next) = t' := by
  refine h.induct (P := fun t t' => t.Everywhere Conforms →
    ∀ next : Int, t.place (some next) = t → t'.place (some next) = t')
    ?token ?node ?sequence conforms next settled
  case token => exact fun u _ next settled => settled
  case node =>
    intro kind slots slots' items items' state other names filled listed conforms next settled
    obtain ⟨here, below⟩ := everywhere_iff.1 conforms
    obtain ⟨filled, listed⟩ := forall₂_node here.fits filled listed
      (Q := fun t t' => t'.tokens = t.tokens ∧
        ∀ next : Int, t.place (some next) = t → t'.place (some next) = t')
      fun c hc c' both => ⟨both.1.tokens, both.2 (below c hc)⟩
    have children := @forall₂_children _ kind state _ _ _ _ filled listed
    rw [place_eq_iff (by simp)] at settled ⊢
    refine ⟨?_, placeItems_congr children settled.2⟩
    rw [HasSpan, tokens_node, itemTokens_congr (children.imp fun _ _ both => both.1), ← tokens_node]
    exact settled.1
  case sequence =>
    intro elements elements' items state state' t inside folded conforms next settled
    obtain ⟨here, below⟩ := everywhere_iff.1 conforms
    have shown := children_sequence elements items state state'
    have list := below (.node .exprList [] elements state') (by simp [shown])
    obtain ⟨hereList, belowList⟩ := everywhere_iff.1 list
    have filled : ∀ c ∈ elements, c.tokens ≠ [] := by
      intro c hc
      have fits : [] = [] ∧ ∀ t ∈ elements, t.IsElement "Expr" := hereList.fits
      have element := fits.2 c hc
      exact tokens_ne_nil_of_isExpression (belowList c hc)
        (isExpression_of_isElement (belowList c hc).self.fits element)
    rw [place_eq_iff (by simp), shown, placeItems_cons, List.cons.injEq] at settled
    have settled' := ((place_eq_iff (by simp)).1 settled.2.1).2
    obtain ⟨n, rfl, rfl⟩ := foldSequence_nest rfl folded
    refine place_ofNest ?_ (placeItems_congr ?_ settled')
    · intro c' hc'
      obtain ⟨c, hc, folds, _⟩ := exists_of_forall₂ inside c' hc'
      rw [folds.tokens]
      exact filled c hc
    · exact forall₂_imp_of_mem inside fun c hc c' both =>
        ⟨both.1.tokens, both.2 (belowList c hc)⟩

/-- A tree ends where its last token does, or where it did without one. -/
theorem stop_assignSpans (t : Tree) : t.assignSpans.stop = stopOf t.tokens t.stop := by
  by_cases isSyntax : ∀ value, t ≠ .foreign value
  · obtain ⟨_, stop⟩ := span_place isSyntax (stopOf t.tokens t.stop)
    rw [assignSpans, lastEnd?_eq, stop]
    unfold stopOf
    cases t.tokens.getLast? <;> rfl
  · obtain ⟨value, rfl⟩ : ∃ value, t = .foreign value := by simpa using isSyntax
    rfl

/-- A tree has the same spans when they are set again. -/
theorem assignSpans_assignSpans (t : Tree) : t.assignSpans.assignSpans = t.assignSpans := by
  have tokens : t.assignSpans.tokens = t.tokens := place_tokens _ t
  have last : stopOf t.tokens (stopOf t.tokens t.stop) = stopOf t.tokens t.stop := by
    unfold stopOf
    cases t.tokens.getLast? <;> rfl
  rw [assignSpans, lastEnd?_eq, tokens, stop_assignSpans, last, assignSpans, lastEnd?_eq,
    place_place]

end Tree

/-! ## The trees of a source -/

theorem parse_tokens_ne_nil {budget : Nat} {file source : String} {p : Parsed}
    (parsed : parse budget file source = .ok p) : p.root.tokens ≠ [] := by
  obtain ⟨front, e, last, _⟩ := parse_endOfFile parsed
  rw [last]
  simp

/-- A parsed tree has the spans that would be set again. -/
theorem parse_assignSpans {budget : Nat} {file source : String} {p : Parsed}
    (parsed : parse budget file source = .ok p) : p.root.assignSpans = p.root := by
  obtain ⟨tree, s, root, accepted, built, rfl⟩ := parse_eq_ok_iff.1 parsed
  exact Tree.assignSpans_assignSpans _

namespace Tree

/-- Folding is a rewrite that keeps the tokens. Where it succeeds nothing is left of sequences
and lists of elements, the tokens are the same, the tree conforms, nodes outside of sequences
stay, spans are set as they would be set anew, and folding again changes nothing. -/
theorem foldAll_preserves {budget : Nat} {file source : String} {p : Parsed}
    (parsed : parse budget file source = .ok p) (table : OperatorTable)
    (ok : (foldAll table p.root).failure = none) :
    let t := (foldAll table p.root).result
    t.Everywhere Flat ∧ t.tokens = p.root.tokens ∧ t.Everywhere Fits ∧ FoldsTo table p.root t ∧
      t.assignSpans = t ∧ ∀ table', foldAll table' t = { result := t } := by
  intro t
  obtain ⟨conforms, isFile⟩ := parse_conforms parsed
  have folds : FoldsTo table p.root t := foldAll_ok conforms ok
  have flat : t.Everywhere Flat :=
    folds.flat (conforms.imp fun _ h => h.lists) (by simp [Unlisted, isFile])
  have fits : t.Everywhere Fits := (folds.fits conforms).1
  refine ⟨flat, folds.tokens, fits, folds, ?_, fun table' => foldAll_flat table' fits flat⟩
  have tokens := parse_tokens_ne_nil parsed
  rw [assignSpans_eq_self_iff (by rwa [folds.tokens]), folds.tokens]
  exact folds.settled conforms ((assignSpans_eq_self_iff tokens).1 (parse_assignSpans parsed))

/-- A sequence with a missing token is folded. -/
theorem foldAll_preserves_of_repaired : ∃ p,
    parse 3 standardFile "x = \"é\" $+ (b ] * c" = .ok p ∧
      (foldAll .standard p.root).failure = none ∧ (foldAll .standard p.root).folded = 1 ∧
      let t := (foldAll .standard p.root).result
      t.Everywhere Flat ∧ t.tokens = p.root.tokens ∧ t.Everywhere Fits ∧
        FoldsTo .standard p.root t ∧ t.assignSpans = t ∧
          ∀ table, foldAll table t = { result := t } := by
  obtain ⟨p, parsed, counts⟩ := exists_ok_of_toOption sample_parses.2.2.2.1
  obtain ⟨p', parsed', succeeds⟩ := exists_ok_of_toOption sample_parses.1.2
  obtain rfl : p' = p := by rwa [parsed, Except.ok.injEq, eq_comm] at parsed'
  have ok := Option.isNone_iff_eq_none.1 succeeds
  exact ⟨p', parsed, ok, (Prod.mk.inj counts).2, foldAll_preserves parsed .standard ok⟩

end Tree

end SyntaxAtlas
