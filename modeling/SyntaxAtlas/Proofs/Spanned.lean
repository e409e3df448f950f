-- What spans are once they are set. A tree with tokens reaches from the first to the last of
-- them. One without stands where the next token in pre-order starts, however far up the tree
-- that token is found, and the last ones stand where the whole tree ends.

import SyntaxAtlas.Proofs.Settled
import SyntaxAtlas.Proofs.Places

namespace SyntaxAtlas.Tree

/-! ## What comes next -/

/-- Where the first token among the trees of a listing starts, or else the end of them all. -/
def nextStart (behind : List Tree) (stop : Int) : Int :=
  ((behind.find? isToken).map start).getD stop

theorem nextStart_append (xs ys : List Tree) (stop : Int) :
    nextStart (xs ++ ys) stop = nextStart xs (nextStart ys stop) := by
  simp only [nextStart, List.find?_append]
  cases xs.find? isToken <;> rfl

theorem nextStart_eq {trees : List Tree} {tokens : List Token}
    (shown : trees.filter isToken = tokens.map Tree.token) (stop : Int) :
    nextStart trees stop = startOf tokens stop := by
  rw [nextStart, ← List.head?_filter, shown]
  cases tokens <;> rfl

/-- The first token in the listing of some trees is the first one of their tokens. -/
theorem nextStart_flatMap_preorder (ts : List Tree) (stop : Int) :
    nextStart (ts.flatMap preorder) stop = startOf (itemTokens ts) stop := by
  refine nextStart_eq ?_ stop
  induction ts with
  | nil => rfl
  | cons t ts ih =>
    rw [List.flatMap_cons, List.filter_append, filter_isToken_preorder, ih, itemTokens,
      List.map_append]

/-! ## The span of each tree in a listing -/

/-- Only for a tree without tokens it matters where the next one starts. -/
theorem HasSpan.congr {t : Tree} {next next' : Int} (has : t.HasSpan next)
    (same : t.tokens = [] → next' = next) : t.HasSpan next' := by
  by_cases none : t.tokens = []
  · rwa [same none]
  · obtain ⟨e, last⟩ := Option.isSome_iff_exists.1 (List.getLast?_isSome.2 none)
    rw [HasSpan, startOf, stopOf, List.head?_eq_some_head none, last] at has ⊢
    exact has

/-- Each tree inside one that gets its span has its own from the trees behind it. -/
theorem hasSpan_of_split {t c : Tree} {next : Int} {before behind : List Tree}
    (split : (t.place (some next)).preorder = before ++ c :: behind)
    (isSyntax : ∀ value, c ≠ .foreign value) : c.HasSpan (nextStart behind next) := by
  induction t using children_induction generalizing next before behind with
  | step t ih =>
    rw [preorder_eq, List.cons_eq_append_iff] at split
    rcases split with ⟨rfl, same⟩ | ⟨before, rfl, inside⟩
    · rw [List.cons.injEq] at same
      obtain ⟨rfl, rfl⟩ := same
      have syntactic : ∀ value, t ≠ .foreign value :=
        fun value plain => isSyntax value (place_eq_foreign_iff.2 plain)
      refine (hasSpan_place syntactic next).congr fun none => ?_
      -- Without tokens there are none among the trees below it either.
      have listed := filter_isToken_preorder (t.place (some next))
      rw [none, preorder_eq, List.filter_cons] at listed
      split at listed
      · cases listed
      · exact nextStart_eq listed next
    · rw [children_place] at inside
      generalize t.children = ts at ih inside
      induction ts generalizing before with
      | nil => simp [placeItems] at inside
      | cons d ts rest =>
        rw [placeItems_cons, List.flatMap_cons, List.append_eq_append_iff] at inside
        rcases inside with ⟨more, rfl, others⟩ | ⟨more, here, others⟩
        · exact rest more (fun e he => ih e (List.mem_cons_of_mem d he)) others
        · rw [List.cons_eq_append_iff] at others
          rcases others with ⟨rfl, others⟩ | ⟨own, rfl, rfl⟩
          · exact rest [] (fun e he => ih e (List.mem_cons_of_mem d he)) others
          · rw [nextStart_append, nextStart_flatMap_preorder, placeItems_tokens]
            exact ih d List.mem_cons_self here

/-! ## The rule -/

/-- The span that a tree has by rule, with the trees behind it in pre-order and the end of
them all. -/
structure Spanned (behind : List Tree) (stop : Int) (t : Tree) : Prop where
  first : ∀ u ∈ t.tokens.head?, t.start = u.position
  last : ∀ u ∈ t.tokens.getLast?, t.stop = u.endPosition
  empty : t.tokens = [] → t.start = nextStart behind stop ∧ t.stop = nextStart behind stop

theorem HasSpan.spanned {t : Tree} {behind : List Tree} {stop : Int}
    (has : t.HasSpan (nextStart behind stop)) : t.Spanned behind stop := by
  obtain ⟨start, stop⟩ := has
  refine ⟨fun u first => ?_, fun u last => ?_, fun none => ?_⟩
  · rw [start, startOf, Option.mem_def.1 first]
    rfl
  · rw [stop, stopOf, Option.mem_def.1 last]
    rfl
  · rw [start, stop, none]
    exact ⟨rfl, rfl⟩

/-- Setting the spans of a tree gives every tree inside it the span that it has by rule, up to
the end of the whole tree, which is where the last token ends, or the end that was there
before if there is no token. Nothing but the spans is changed, and when they are set again
they stay. -/
theorem assignSpans_spanned (t : Tree) :
    (∀ before c behind, t.assignSpans.preorder = before ++ c :: behind →
      (∀ value, c ≠ .foreign value) → c.Spanned behind t.assignSpans.stop) ∧
    (t.tokens = [] → t.assignSpans.stop = t.stop) ∧
    t.assignSpans.tokens = t.tokens ∧ t.assignSpans.bare = t.bare ∧
    t.assignSpans.assignSpans = t.assignSpans := by
  refine ⟨?_, fun none => ?_, place_tokens _ t, bare_place _ t, assignSpans_assignSpans t⟩
  · intro before c behind split isSyntax
    rw [stop_assignSpans]
    rw [assignSpans, lastEnd?_eq] at split
    exact (hasSpan_of_split split isSyntax).spanned
  · rw [stop_assignSpans, none]
    rfl

/-- Behind the last token, where that token ends. -/
example :
    let t := collection .exprList [collection .exprList [],
      token (.ofText .identifier "x" 4), collection .exprList []]
    (t.assignSpans.preorder.map fun c => (c.start, c.stop)) = [(4, 5), (4, 4), (4, 5), (5, 5)] := by
  decide

end SyntaxAtlas.Tree
