-- Spans lie inside one another. Where tokens come one behind the other so do the nodes
-- that get their spans from them, because only the last child ends a node and it has a
-- token whenever the node has one.

import SyntaxAtlas.Proofs.Filled
import SyntaxAtlas.Tree.Spans

namespace SyntaxAtlas

/-! ## Tokens in order -/

/-- No token starts before the end of one in front of it. -/
def InOrder (ts : List Token) : Prop := ts.Pairwise fun t u => t.endPosition ≤ u.position

theorem Token.position_le_endPosition (t : Token) : t.position ≤ t.endPosition := by
  unfold endPosition
  split
  · exact Int.le_refl _
  · omega

/-- Where the first of some tokens starts, or what comes next when there is none. -/
def startOf (ts : List Token) (next : Int) : Int := (ts.head?.map (·.position)).getD next

/-- Where the last of some tokens ends, or what comes next when there is none. -/
def stopOf (ts : List Token) (next : Int) : Int := (ts.getLast?.map (·.endPosition)).getD next

theorem InOrder.append {ts us : List Token} (ordered : InOrder (ts ++ us)) :
    InOrder ts ∧ InOrder us ∧ ∀ t ∈ ts, ∀ u ∈ us, t.endPosition ≤ u.position :=
  List.pairwise_append.1 ordered

theorem InOrder.startOf_le {ts : List Token} (ordered : InOrder ts) (next : Int) :
    ∀ u ∈ ts, startOf ts next ≤ u.position := by
  intro u hu
  cases ts with
  | nil => cases hu
  | cons t ts =>
    simp only [startOf, List.head?_cons, Option.map_some, Option.getD_some]
    rcases List.mem_cons.1 hu with rfl | hu
    · exact Int.le_refl _
    · have apart := (List.pairwise_cons.1 ordered).1 u hu
      have := t.position_le_endPosition
      omega

theorem InOrder.le_stopOf {ts : List Token} (ordered : InOrder ts) (next : Int) :
    ∀ u ∈ ts, u.endPosition ≤ stopOf ts next := by
  intro u hu
  obtain ⟨e, last⟩ := Option.isSome_iff_exists.1
    (List.getLast?_isSome.2 (List.ne_nil_of_mem hu))
  obtain ⟨front, rfl⟩ := List.getLast?_eq_some_iff.1 last
  simp only [stopOf, last, Option.map_some, Option.getD_some]
  rcases List.mem_append.1 hu with hu | hu
  · have apart := ordered.append.2.2 u hu e (by simp)
    have := e.position_le_endPosition
    omega
  · exact List.mem_singleton.1 hu ▸ Int.le_refl _

theorem InOrder.startOf_le_stopOf {ts : List Token} (ordered : InOrder ts) (next : Int) :
    startOf ts next ≤ stopOf ts next := by
  cases ts with
  | nil => exact Int.le_refl _
  | cons t ts =>
    have first := ordered.startOf_le next t (by simp)
    have last := ordered.le_stopOf next t (by simp)
    have := t.position_le_endPosition
    omega

/-- The first of some tokens is also the first with others behind them. -/
theorem startOf_behind (ts us : List Token) (next : Int) :
    startOf (ts ++ us) next = startOf ts (startOf us next) := by
  cases ts <;> rfl

theorem stopOf_le {ts : List Token} {next hi : Int} (le : next ≤ hi)
    (before : ∀ u ∈ ts, u.endPosition ≤ hi) : stopOf ts next ≤ hi := by
  unfold stopOf
  rcases last : ts.getLast? with _ | e
  · simpa using le
  · simpa using before e (List.mem_of_getLast? last)

theorem exists_stopOf_eq {ts : List Token} (nonempty : ts ≠ []) (next : Int) :
    ∃ u ∈ ts, stopOf ts next = u.endPosition := by
  obtain ⟨e, last⟩ := Option.isSome_iff_exists.1 (List.getLast?_isSome.2 nonempty)
  exact ⟨e, List.mem_of_getLast? last, by simp [stopOf, last]⟩

theorem le_startOf {ts : List Token} {next lo : Int} (le : lo ≤ next)
    (behind : ∀ u ∈ ts, lo ≤ u.position) : lo ≤ startOf ts next := by
  cases ts with
  | nil => exact le
  | cons t ts => exact behind t (by simp)

namespace Tree

/-! ## Trees one behind the other -/

/-- Trees that lie one behind the other, from one place to another. -/
def Laid : Int → List Tree → Int → Prop
  | lo, [], hi => lo ≤ hi
  | lo, t :: rest, hi => lo ≤ t.start ∧ t.start ≤ t.stop ∧ Laid t.stop rest hi

theorem Laid.le {lo hi : Int} {ts : List Tree} (h : Laid lo ts hi) : lo ≤ hi := by
  induction ts generalizing lo with
  | nil => exact h
  | cons t ts ih =>
    obtain ⟨first, forward, rest⟩ := h
    have := ih rest
    omega

theorem Laid.split {lo hi : Int} {ts us : List Tree} (h : Laid lo (ts ++ us) hi) :
    ∃ mid, Laid lo ts mid ∧ Laid mid us hi := by
  induction ts generalizing lo with
  | nil => exact ⟨lo, Int.le_refl lo, h⟩
  | cons t ts ih =>
    obtain ⟨mid, front, behind⟩ := ih h.2.2
    exact ⟨mid, ⟨h.1, h.2.1, front⟩, behind⟩

theorem Laid.inside {lo hi : Int} {ts : List Tree} (h : Laid lo ts hi) :
    ∀ t ∈ ts, lo ≤ t.start ∧ t.stop ≤ hi := by
  induction ts generalizing lo with
  | nil => simp
  | cons t ts ih =>
    obtain ⟨first, forward, rest⟩ := h
    intro u hu
    rcases List.mem_cons.1 hu with rfl | hu
    · exact ⟨first, rest.le⟩
    · have := ih rest u hu
      omega

theorem Laid.apart {lo hi : Int} {ts : List Tree} (h : Laid lo ts hi) :
    ts.Pairwise fun t u => t.stop ≤ u.start := by
  induction ts generalizing lo with
  | nil => exact .nil
  | cons t ts ih => exact .cons (fun u hu => (h.2.2.inside u hu).1) (ih h.2.2)

/-- The children of a tree lie inside it one behind the other, and a node without
children has no width. -/
structure Encloses (t : Tree) : Prop where
  laid : Laid t.start t.children t.stop
  empty : t.isToken = false → t.children = [] → t.start = t.stop

theorem encloses_token (u : Token) : (Tree.token u).Encloses :=
  ⟨u.position_le_endPosition, by simp [isToken]⟩

/-! ## What a tree is made of -/

/-- An operator sequence holds a list of elements and nothing else. -/
def HoldsElements (t : Tree) : Prop :=
  ∀ slots items state, t = .node .sequenceExpr slots items state →
    ∃ elements state', slots = [("elements", .node .exprList [] elements state')]

/-- There is no plain data in the place of syntax, nodes are closed, and operator
sequences hold their elements. -/
structure Framed (t : Tree) : Prop where
  closed : t.Closed
  isSyntax : ∀ value, t ≠ .foreign value
  holds : t.HoldsElements

theorem holdsElements_of_alternates {t : Tree} (h : t.Alternates) : t.HoldsElements := by
  rintro slots items state rfl
  obtain ⟨first, run, state', rfl, _⟩ := h
  exact ⟨_, _, rfl⟩

theorem isSyntax_of_fits {t : Tree} (h : t.Fits) : ∀ value, t ≠ .foreign value := by
  rintro value rfl
  exact h

/-! ### New tokens -/

theorem slotsWithTokens_map (slots : List (String × Tree)) (new : List Token) :
    (slotsWithTokens slots new).1.map (·.2) = (itemsWithTokens (slots.map (·.2)) new).1 ∧
      (slotsWithTokens slots new).2 = (itemsWithTokens (slots.map (·.2)) new).2 := by
  induction slots generalizing new with
  | nil => exact ⟨rfl, rfl⟩
  | cons slot rest ih =>
    obtain ⟨same, left⟩ := ih (slot.2.withTokens new).2
    simp [slotsWithTokens, itemsWithTokens, same, left]

theorem children_withTokens (t : Tree) (new : List Token) :
    (t.withTokens new).1.children = (itemsWithTokens t.children new).1 := by
  cases t with
  | token u => cases new <;> rfl
  | foreign value => rfl
  | node kind slots items state =>
    by_cases layout : kind.isLayout = true
    · simp only [withTokens, children, layout, if_true]
      exact (slotsWithTokens_map slots new).1
    · simp only [withTokens, children, layout, Bool.false_eq_true, if_false]

theorem isFilled_withTokens (t : Tree) (new : List Token) :
    (t.withTokens new).1.isFilled = t.isFilled ∧ (t.withTokens new).1.isToken = t.isToken := by
  cases t with
  | token u => cases new <;> exact ⟨rfl, rfl⟩
  | foreign value => exact ⟨rfl, rfl⟩
  | node kind slots items state =>
    unfold withTokens
    split <;> exact ⟨rfl, rfl⟩

theorem itemsWithTokens_forall₂ (ts : List Tree) (new : List Token) :
    List.Forall₂ (fun t t' => ∃ new, t' = (t.withTokens new).1) ts (itemsWithTokens ts new).1 := by
  induction ts generalizing new with
  | nil => exact .nil
  | cons t ts ih => exact .cons ⟨new, rfl⟩ (ih _)

theorem itemsWithTokens_filled (ts : List Tree) (new : List Token) :
    (itemsWithTokens ts new).1.map isFilled = ts.map isFilled := by
  induction ts generalizing new with
  | nil => rfl
  | cons t ts ih => simp [itemsWithTokens, ih, (isFilled_withTokens t new).1]

theorem closed_withTokens {t : Tree} (closed : t.Closed) (new : List Token) :
    (t.withTokens new).1.Closed := by
  have filled := itemsWithTokens_filled t.children new
  rw [← children_withTokens] at filled
  constructor
  · intro c hc
    have last := congrArg List.getLast? filled
    rw [List.getLast?_map, List.getLast?_map, hc] at last
    obtain ⟨c', hc', same⟩ := Option.map_eq_some_iff.1 last.symm
    rw [← same]
    exact closed.last c' hc'
  · obtain ⟨sameFilled, sameToken⟩ := isFilled_withTokens t new
    intro isFilled notToken none
    rw [none, List.map_nil, eq_comm, List.map_eq_nil_iff] at filled
    exact closed.nonempty (sameFilled ▸ isFilled) (sameToken ▸ notToken) filled

theorem holdsElements_withTokens {t : Tree} (holds : t.HoldsElements) (new : List Token) :
    (t.withTokens new).1.HoldsElements := by
  intro slots items state same
  cases t with
  | token u => cases new <;> cases same
  | foreign value => cases same
  | node kind slots' items' state' =>
    by_cases isSequence : kind = .sequenceExpr
    · subst isSequence
      obtain ⟨elements, state'', rfl⟩ := holds _ _ _ rfl
      cases same
      exact ⟨_, _, rfl⟩
    · unfold withTokens at same
      split at same <;> · cases same; exact absurd rfl isSequence

/-- New tokens leave the frame of a tree as it is. -/
theorem framed_withTokens {t : Tree} (framed : t.Everywhere Framed) (new : List Token) :
    (t.withTokens new).1.Everywhere Framed := by
  induction framed using everywhere_induction generalizing new with
  | step t here below each =>
    rw [everywhere_iff]
    refine ⟨⟨closed_withTokens here.closed new, ?_, holdsElements_withTokens here.holds new⟩, ?_⟩
    · intro value same
      cases t with
      | token u => cases new <;> cases same
      | foreign value => exact here.isSyntax value rfl
      | node kind slots items state =>
        unfold withTokens at same
        split at same <;> cases same
    · rw [children_withTokens]
      intro c hc
      obtain ⟨c', hc', new', rfl⟩ := exists_of_forall₂ (itemsWithTokens_forall₂ _ new) c hc
      exact each c' hc' new'

/-! ## Setting the spans -/

theorem slotsFirst?_eq_itemsFirst? (slots : List (String × Tree)) :
    slotsFirst? slots = itemsFirst? (slots.map (·.2)) := by
  induction slots with
  | nil => rfl
  | cons slot rest ih => simp [slotsFirst?, itemsFirst?, ih]

theorem placeSlots_map (next : Option Int) (slots : List (String × Tree)) :
    (placeSlots next slots).map (·.2) = placeItems next (slots.map (·.2)) := by
  induction slots with
  | nil => rfl
  | cons slot rest ih => simp [placeSlots, placeItems, ih, slotsFirst?_eq_itemsFirst?]

theorem children_place (next : Option Int) (t : Tree) :
    (t.place next).children = placeItems next t.children := by
  cases t with
  | token u => rfl
  | foreign value => rfl
  | node kind slots items state =>
    by_cases layout : kind.isLayout = true
    · simp only [place, children, layout, if_true]
      exact placeSlots_map next slots
    · simp only [place, children, layout, Bool.false_eq_true, if_false]

theorem spanBefore_some (next : Int) (t : Tree) :
    spanBefore (some next) t = ⟨startOf t.tokens next, stopOf t.tokens next⟩ := by
  simp only [spanBefore, firstStart?, lastEnd?, firstToken?_eq_head?, lastToken?_eq_getLast?,
    startOf, stopOf]
  cases t.tokens with
  | nil => rfl
  | cons u us =>
    obtain ⟨e, last⟩ := Option.isSome_iff_exists.1
      (List.getLast?_isSome.2 (List.cons_ne_nil u us))
    rw [last]
    rfl

/-- A tree reaches from the start of its first token to the end of its last one. Without
tokens it stands where the next one starts. -/
theorem span_place {t : Tree} (isSyntax : ∀ value, t ≠ .foreign value) (next : Int) :
    (t.place (some next)).start = startOf t.tokens next ∧
      (t.place (some next)).stop = stopOf t.tokens next := by
  cases t with
  | token u => exact ⟨rfl, rfl⟩
  | foreign value => exact absurd rfl (isSyntax value)
  | node kind slots items state =>
    have placed : (Tree.place (some next) (.node kind slots items state)).span =
        spanBefore (some next) (.node kind slots items state) := by
      unfold place
      split <;> rfl
    rw [spanBefore_some] at placed
    exact ⟨congrArg Span.start placed, congrArg Span.stop placed⟩

/-- Where the tokens of some trees start, with those of others behind them. -/
theorem following_eq (rest : List Tree) (next : Int) :
    ((itemsFirst? rest).map (·.position)).or (some next) =
      some (startOf (itemTokens rest) next) := by
  rw [itemsFirst?_eq_head?, startOf]
  cases (itemTokens rest).head? <;> rfl

/-- In front of others a tree ends where its tokens do. Without tokens it ends where the next one
starts, which is no further if one of the others has tokens. -/
theorem stopOf_le_end {t : Tree} {rest : List Tree} (others : InOrder (itemTokens rest))
    {hi next : Int} (before : ∀ u ∈ t.tokens ++ itemTokens rest, u.endPosition ≤ hi)
    (ends : hi = next ∨ ∀ e ∈ (t :: rest).getLast?, e.tokens ≠ []) :
    stopOf t.tokens (startOf (itemTokens rest) next) ≤ hi := by
  by_cases none : t.tokens = []
  · rw [none]
    change startOf (itemTokens rest) next ≤ hi
    by_cases more : itemTokens rest = []
    · rw [more]
      change next ≤ hi
      rcases ends with same | last
      · omega
      · exfalso
        rcases found : rest.getLast? with _ | e
        · rw [List.getLast?_eq_none_iff] at found
          subst found
          exact last t rfl none
        · rw [List.getLast?_cons, found] at last
          exact last e rfl (itemTokens_eq_nil_iff.1 more e (List.mem_of_getLast? found))
    · obtain ⟨u, hu⟩ := List.exists_mem_of_ne_nil _ more
      have := others.startOf_le next u hu
      have := u.position_le_endPosition
      have := before u (by simp [hu])
      omega
  · obtain ⟨u, hu, same⟩ := exists_stopOf_eq none (startOf (itemTokens rest) next)
    rw [same]
    exact before u (by simp [hu])

/-- Trees that get their spans lie one behind the other, in any place that their tokens
lie in. The last one has to have tokens, or the place reaches to the next token. -/
theorem laid_placeItems {ts : List Tree} (isSyntax : ∀ t ∈ ts, ∀ value, t ≠ .foreign value)
    (ordered : InOrder (itemTokens ts)) {lo hi next : Int} (le : lo ≤ hi) (le' : hi ≤ next)
    (behind : ∀ u ∈ itemTokens ts, lo ≤ u.position)
    (before : ∀ u ∈ itemTokens ts, u.endPosition ≤ hi)
    (ends : hi = next ∨ ∀ t ∈ ts.getLast?, t.tokens ≠ []) :
    Laid lo (placeItems (some next) ts) hi := by
  induction ts generalizing lo with
  | nil => exact le
  | cons t rest ih =>
    rw [itemTokens] at ordered behind before
    obtain ⟨own, others, apart⟩ := ordered.append
    rw [placeItems, following_eq]
    obtain ⟨start, stop⟩ := span_place (isSyntax t (by simp)) (startOf (itemTokens rest) next)
    have forward := own.startOf_le_stopOf (startOf (itemTokens rest) next)
    have low : lo ≤ startOf t.tokens (startOf (itemTokens rest) next) :=
      le_startOf (le_startOf (by omega) fun u hu => behind u (by simp [hu]))
        fun u hu => behind u (by simp [hu])
    have high := stopOf_le_end others before ends
    have ends' : hi = next ∨ ∀ t ∈ rest.getLast?, t.tokens ≠ [] := by
      refine ends.imp_right fun last e he => last e ?_
      rw [List.getLast?_cons, he]
      rfl
    refine ⟨start.symm ▸ low, by omega, ?_⟩
    rw [stop]
    refine ih (fun u hu => isSyntax u (by simp [hu])) others high ?_
      (fun u hu => before u (by simp [hu])) ends'
    intro u hu
    exact stopOf_le (others.startOf_le next u hu) fun v hv => apart v hv u hu

theorem placeItems_forall₂ {ts : List Tree} (ordered : InOrder (itemTokens ts)) {next : Int}
    (before : ∀ u ∈ itemTokens ts, u.endPosition ≤ next) :
    List.Forall₂ (fun t t' => ∃ following, t' = t.place (some following) ∧ InOrder t.tokens ∧
      ∀ u ∈ t.tokens, u.endPosition ≤ following) ts (placeItems (some next) ts) := by
  induction ts with
  | nil => exact .nil
  | cons t rest ih =>
    rw [itemTokens] at ordered before
    obtain ⟨own, others, apart⟩ := ordered.append
    rw [placeItems, following_eq]
    refine .cons ⟨_, rfl, own, ?_⟩ (ih others fun u hu => before u (by simp [hu]))
    intro u hu
    exact le_startOf (before u (by simp [hu])) fun v hv => apart u hu v hv

theorem holdsElements_place {t : Tree} (holds : t.HoldsElements) (next : Option Int) :
    (t.place next).HoldsElements := by
  intro slots items state same
  cases t with
  | token u => cases same
  | foreign value => cases same
  | node kind slots' items' state' =>
    by_cases isSequence : kind = .sequenceExpr
    · subst isSequence
      obtain ⟨elements, state'', rfl⟩ := holds _ _ _ rfl
      cases same
      exact ⟨_, _, rfl⟩
    · unfold place at same
      simp only at same
      split at same <;> · cases same; exact absurd rfl isSequence

/-- A node that gets its span encloses its children. -/
theorem encloses_place_node {t : Tree} (here : t.Framed)
    (below : ∀ c ∈ t.children, c.Everywhere Framed) (tokens : t.tokens = itemTokens t.children)
    (ordered : InOrder (itemTokens t.children)) {next : Int}
    (before : ∀ u ∈ itemTokens t.children, u.endPosition ≤ next) :
    (t.place (some next)).Encloses := by
  obtain ⟨start, stop⟩ := span_place here.isSyntax next
  rw [tokens] at start stop
  constructor
  · rw [children_place, start, stop]
    apply laid_placeItems (fun c hc => (below c hc).self.isSyntax) ordered
    · exact ordered.startOf_le_stopOf next
    · exact stopOf_le (Int.le_refl next) before
    · exact ordered.startOf_le next
    · exact ordered.le_stopOf next
    · by_cases none : itemTokens t.children = []
      · rw [none]
        exact Or.inl rfl
      · refine Or.inr fun c hc => ?_
        have closed := (below c (List.mem_of_getLast? hc)).imp fun _ h => h.closed
        exact tokens_ne_nil closed (here.closed.last c hc)
  · intro _ none
    rw [children_place] at none
    have empty : t.children = [] := by
      cases same : t.children with
      | nil => rfl
      | cons c cs => simp [same, placeItems] at none
    rw [start, stop, empty]
    rfl

/-- In a tree with tokens in order and spans set, every node encloses its children. -/
theorem encloses_place {t : Tree} (framed : t.Everywhere Framed) (ordered : InOrder t.tokens)
    {next : Int} (before : ∀ u ∈ t.tokens, u.endPosition ≤ next) :
    (t.place (some next)).Everywhere fun u => u.Encloses ∧ u.HoldsElements := by
  induction framed using everywhere_induction generalizing next with
  | step t here below each =>
    have holds := holdsElements_place here.holds (some next)
    cases t with
    | token u => exact ⟨encloses_token u, holds⟩
    | foreign value => exact absurd rfl (here.isSyntax value)
    | node kind slots items state =>
      have same := tokens_node kind slots items state
      rw [same] at ordered before
      rw [everywhere_iff, children_place]
      refine ⟨⟨encloses_place_node here below same ordered before, holds⟩, ?_⟩
      intro c hc
      obtain ⟨c', hc', following, rfl, own, before'⟩ :=
        exists_of_forall₂ (placeItems_forall₂ ordered before) c hc
      exact each c' hc' own before'

end Tree

end SyntaxAtlas
