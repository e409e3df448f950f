-- Lists, choices and operator sequences. The separators of a list go into the last
-- slot of the element before them, so that the tokens keep their order.

import SyntaxAtlas.Proofs.Slots

namespace SyntaxAtlas.Tree

/-! ## Separators -/

/-- Looking up in order the names of some pairs gives the pairs. -/
theorem filterMap_lookup {pairs : List (String × Tree)} {names : List String}
    (sub : (pairs.map (·.1)).Sublist names) (nodup : names.Nodup) :
    names.filterMap (fun n => (pairs.lookup n).map (n, ·)) = pairs := by
  induction names generalizing pairs with
  | nil =>
    have := List.map_eq_nil_iff.1 (List.sublist_nil.1 sub)
    simp [this]
  | cons n names ih =>
    obtain ⟨absent, nodup'⟩ := List.nodup_cons.1 nodup
    rcases List.sublist_cons_iff.1 sub with sub' | ⟨rest, same, sub'⟩
    · have unfilled : pairs.lookup n = none := by
        rw [List.lookup_eq_none_iff]
        intro p hp
        have := sub'.subset (List.mem_map_of_mem hp)
        simp only [bne_iff_ne, ne_eq]
        rintro rfl
        exact absent this
      simp [unfilled, ih sub' nodup']
    · rcases pairs with _ | ⟨⟨name, t⟩, pairs⟩
      · simp at same
      · simp only [List.map_cons, List.cons.injEq] at same
        obtain ⟨rfl, rfl⟩ := same
        have later : names.filterMap (fun n => (((name, t) :: pairs).lookup n).map (n, ·)) =
            names.filterMap fun n => (pairs.lookup n).map (n, ·) := by
          apply List.filterMap_congr
          intro n hn
          have : (n == name) = false := by
            rw [beq_eq_false_iff_ne]
            rintro rfl
            exact absent hn
          simp [List.lookup_cons, this]
        rw [List.filterMap_cons, later, ih sub' nodup']
        simp

/-- A name that is not in a list may be left off the end. -/
theorem sublist_of_sublist_concat {names names' : List String} {last : String}
    (sub : names.Sublist (names' ++ [last])) (absent : last ∉ names) : names.Sublist names' := by
  obtain ⟨xs, ys, rfl, hxs, hys⟩ := List.sublist_append_iff.1 sub
  have : ys = [] := by
    rcases List.sublist_singleton.1 hys with h | h
    · exact h
    · simp [h] at absent
  simpa [this] using hxs

/-- A separator goes into the last slot of an element, behind all it holds. -/
theorem putSlot_last {kind : Kind} {inits : List Slot} {last : Slot}
    {slots : List (String × Tree)} (child : Tree) (declared : kind.slots = inits ++ [last])
    (nodup : (kind.slots.map (·.name)).Nodup)
    (sub : (slots.map (·.1)).Sublist (kind.slots.map (·.name)))
    (room : last.name ∉ slots.map (·.1)) :
    putSlot kind last.name child slots = slots ++ [(last.name, child)] := by
  rw [declared, List.map_append] at nodup sub
  obtain ⟨nodup', _, apart⟩ := List.nodup_append.1 nodup
  have before : inits.filterMap (fun s => if s.name == last.name then some (last.name, child)
      else (slots.lookup s.name).map (s.name, ·)) = slots := by
    have filled := filterMap_lookup (sublist_of_sublist_concat sub room) nodup'
    rw [List.filterMap_map] at filled
    refine Eq.trans (List.filterMap_congr fun s hs => ?_) filled
    have : s.name ≠ last.name := apart _ (List.mem_map_of_mem hs) _ (by simp)
    simp [this]
  unfold putSlot
  rw [declared, List.filterMap_append, before]
  simp

/-- What a list with separators is made of: its elements, the mark between them,
and the slot of an element that takes it. -/
structure ListForm where
  element : Kind
  more : Repetition
  mark : Mark
  slot : String
deriving DecidableEq

/-- The slot of an element that takes the mark behind it. -/
def ListForm.lastSlot (f : ListForm) : Slot := ⟨f.slot, [.mark f.mark]⟩

/-- The elements of a list have a last slot for the mark of the list. -/
structure ListForm.Fits (f : ListForm) : Prop where
  isLayout : f.element.isLayout = true
  last : f.element.slots = f.element.slots.dropLast ++ [f.lastSlot]
  nodup : (f.element.slots.map (·.name)).Nodup
  separator : f.slot ∈ separators
  repeated : Grammar.repeated f.more = [.terminal (.mark f.mark), .rule (.node f.element)]
  notSequence : f.element ≠ .sequenceExpr

section Separator

variable {f : ListForm} {slots : List (String × Tree)} {state : NodeState}

/-- The last slot of an element, where it is free, is filled behind all others. -/
theorem setChild_lastSlot (fits : f.Fits) (child : Tree)
    (sub : (slots.map (·.1)).Sublist (f.element.slots.map (·.name)))
    (room : f.slot ∉ slots.map (·.1)) :
    (node f.element slots [] state).setChild f.slot (some child) =
      .ok (.node f.element (slots ++ [(f.slot, child)]) [] (state.filled f.slot)) := by
  obtain ⟨category, described⟩ := describe_of_isLayout fits.isLayout
  have put := putSlot_last child fits.last fits.nodup sub room
  change putSlot f.element f.slot _ _ = slots ++ [(f.slot, child)] at put
  obtain ⟨slot, found⟩ : ∃ slot, f.element.slots.find? (·.name == f.slot) = some slot := by
    rw [← Option.isSome_iff_exists, fits.last]
    simp [ListForm.lastSlot]
  simp [setChild, entry, Kind.catalogued, described, Entry.slot?, Shape.slots, found, put,
    bind, Except.bind]

/-- An element with a separator more still fits the catalog. -/
theorem fits_lastSlot (fits : f.Fits) {state' : NodeState} {u : Token}
    (own : (node f.element slots [] state).Fits) (room : f.slot ∉ slots.map (·.1))
    (mark : u.terminal = .mark f.mark) :
    (node f.element (slots ++ [(f.slot, .token u)]) [] state').Fits := by
  obtain ⟨category, described⟩ := describe_of_isLayout fits.isLayout
  rw [fits.last] at described
  simp only [Tree.Fits, described, true_and] at own ⊢
  obtain ⟨sub, taken⟩ := own
  rw [List.map_append] at sub
  constructor
  · rw [List.map_append, List.map_append]
    exact (sublist_of_sublist_concat sub room).append (List.Sublist.refl _)
  · intro s hs
    rcases List.mem_append.1 hs with hs | hs
    · exact taken s hs
    · obtain rfl := List.mem_singleton.1 hs
      refine ⟨f.lastSlot, by simp, rfl, ?_⟩
      simp [Slot.admits, ListForm.lastSlot, mark, Accept.mark, Accept.spelling, Terminal.name]

/-- An element of a list takes a separator, which comes behind all its tokens. -/
theorem setChild_separator (fits : f.Fits) {t : Tree} {u : Token}
    (good : t.Good) (head : t.head = some (.rule (.node f.element))) (kind : u.KindFits)
    (mark : u.terminal = .mark f.mark) :
    ∃ t', t.setChild f.slot (some (.token u)) = .ok t' ∧
      t'.Sound ∧
      t'.head = some (.rule (.node f.element)) ∧ t'.tokens = t.tokens ++ [u] := by
  have isLayout := fits.isLayout
  cases t with
  | token t => simp [Tree.head] at head
  | foreign value => simp [Tree.head] at head
  | node kind slots items state =>
    simp only [Tree.head, Option.some.injEq, Symbol.rule.injEq, Rule.node.injEq] at head
    subst head
    have room : f.slot ∉ slots.map (·.1) := by
      intro hmem
      obtain ⟨s, hs, same⟩ := List.mem_map.1 hmem
      exact good.unseparated _ slots items state rfl s hs (same ▸ fits.separator)
    obtain ⟨⟨own, _⟩, below⟩ := everywhere_node_iff.1 good.sound
    obtain ⟨rfl, sub⟩ : items = [] ∧ (slots.map (·.1)).Sublist (f.element.slots.map (·.name)) := by
      obtain ⟨category, described⟩ := describe_of_isLayout isLayout
      simp only [Tree.Fits, described] at own
      exact ⟨own.1, own.2.1⟩
    refine ⟨_, setChild_lastSlot fits (.token u) sub room, ?_, rfl, ?_⟩
    · refine everywhere_node_iff.2 ⟨⟨fits_lastSlot fits own room mark,
        alternates_of_ne _ _ _ fits.notSequence⟩, ?_⟩
      intro c hc
      simp only [children, isLayout, if_true, List.map_append, List.mem_append] at hc below
      rcases hc with hc | hc
      · exact below c hc
      · obtain rfl : c = .token u := by simpa using hc
        exact ⟨kind, trivial⟩
    · rw [tokens_node, tokens_node]
      simp [children, isLayout, itemTokens, tokens]

end Separator

/-- The elements of a list with the marks between them, as the folding over its
children finds them: each mark goes to the element before it. -/
theorem foldlM_addSeparated {f : ListForm} (fits : f.Fits) (kind : Kind) {n : Nat}
    {front : List Tree} {last : Tree} {ts : List Tree}
    (elements : ∀ e ∈ front, e.Sound ∧
      e.head = some (.rule (.node f.element)))
    (good : last.Good) (head : last.head = some (.rule (.node f.element)))
    (shows : List.Forall₂ Shows
      (List.replicate n [[.terminal (.mark f.mark)], [.rule (.node f.element)]]).flatten ts) :
    ∃ es, ts.foldlM (addSeparated kind f.slot) (front ++ [last]) = .ok es ∧
      itemTokens es = itemTokens (front ++ [last] ++ ts) ∧
      ∀ e ∈ es, e.Sound ∧
        e.head = some (.rule (.node f.element)) := by
  induction n generalizing front last ts with
  | zero =>
    cases shows
    exact ⟨front ++ [last], rfl, by simp,
      List.forall_mem_append.2 ⟨elements, List.forall_mem_singleton.2 ⟨good.sound, head⟩⟩⟩
  | succ n ih =>
    simp only [List.replicate_succ, List.flatten_cons, List.cons_append, List.nil_append] at shows
    rcases shows with _ | ⟨markShows, _ | ⟨nextShows, shows⟩⟩
    rename_i mark next ts
    obtain ⟨markGood, _, hs, markHead⟩ := markShows
    obtain rfl := List.mem_singleton.1 hs
    obtain ⟨nextGood, _, hs, nextHead⟩ := nextShows
    obtain rfl := List.mem_singleton.1 hs
    cases mark with
    | node kind slots items state => simp [Tree.head] at markHead
    | foreign value => simp [Tree.head] at markHead
    | token u =>
      simp only [Tree.head, Option.some.injEq, Symbol.terminal.injEq] at markHead
      obtain ⟨last', set, sound, head', tokens⟩ :=
        setChild_separator fits good head markGood.sound.self.1 markHead
      have notToken : next.isToken = false := by
        cases next <;> simp_all [Tree.head, Tree.isToken]
      have elements' : ∀ e ∈ front ++ [last'], e.Sound ∧
          e.head = some (.rule (.node f.element)) :=
        List.forall_mem_append.2 ⟨elements, List.forall_mem_singleton.2 ⟨sound, head'⟩⟩
      obtain ⟨es, folded, same, all⟩ := ih elements' nextGood nextHead shows
      refine ⟨es, ?_, ?_, all⟩
      · have first : addSeparated kind f.slot (front ++ [last]) (.token u) =
            .ok (front ++ [last']) := by
          simp [addSeparated, isToken, set, bind, Except.bind, pure, Except.pure]
        have second : addSeparated kind f.slot (front ++ [last']) next =
            .ok (front ++ [last'] ++ [next]) := by
          simp [addSeparated, notToken]
        simp only [List.foldlM_cons, first, second, bind, Except.bind]
        exact folded
      · rw [same]
        simp [itemTokens, tokens, Tree.tokens]

/-! ## Lists and choices -/

theorem good_collection {kind : Kind} {category : Category} {element : String} {ts : List Tree}
    (described : Catalog.describe kind = some (category, .collection element))
    (elements : ∀ t ∈ ts, t.Sound ∧ t.IsElement element) : (collection kind ts).Good := by
  have notSequence : kind ≠ .sequenceExpr := by
    rintro rfl
    simp [Catalog.describe] at described
  constructor
  · refine everywhere_node_iff.2 ⟨⟨?_, alternates_of_ne _ _ _ notSequence⟩, ?_⟩
    · simp only [Fits, described, true_and]
      exact fun t ht => (elements t ht).2
    · simp only [children, Kind.isLayout, described, Bool.false_eq_true, if_false]
      exact fun t ht => (elements t ht).1
  · intro kind' slots items state same
    cases same
    simp

theorem good_choice {kind : Kind} {category : Category} {alternatives : List Accept} {t : Tree}
    (described : Catalog.describe kind = some (category, .choice alternatives)) (sound : t.Sound)
    (admits : Slot.admits ⟨kind.name, alternatives⟩ t = .ok true) : (choice kind t).Good := by
  have notSequence : kind ≠ .sequenceExpr := by
    rintro rfl
    simp [Catalog.describe] at described
  constructor
  · refine everywhere_node_iff.2 ⟨⟨?_, alternates_of_ne _ _ _ notSequence⟩, ?_⟩
    · simp only [Fits, described, true_and]
      exact ⟨t, rfl, admits⟩
    · simp only [children, Kind.isLayout, described, Bool.false_eq_true, if_false,
        List.mem_singleton]
      rintro c rfl
      exact sound
  · intro kind' slots items state same
    cases same
    simp

theorem isElement_of_head {t : Tree} {k : Kind} (head : t.head = some (.rule (.node k))) :
    t.IsElement k.name := by
  cases t <;> simp_all [Tree.head, IsElement]

/-! ## Sequences -/

/-- Blocks of two shown trees are the pairs of a run. -/
theorem run_of_shows {n : Nat} {a b : List Symbol} {ts : List Tree}
    (shows : List.Forall₂ Shows (List.replicate n [a, b]).flatten ts) :
    ∃ run : List (Tree × Tree), ts = run.flatMap (fun entry => [entry.1, entry.2]) ∧ run.length = n ∧
      ∀ entry ∈ run, entry.1.Shows a ∧ entry.2.Shows b := by
  induction n generalizing ts with
  | zero =>
    cases shows
    exact ⟨[], rfl, rfl, by simp⟩
  | succ n ih =>
    simp only [List.replicate_succ, List.flatten_cons, List.cons_append, List.nil_append] at shows
    rcases shows with _ | ⟨first, _ | ⟨second, shows⟩⟩
    obtain ⟨run, rfl, length, all⟩ := ih shows
    refine ⟨(_, _) :: run, rfl, by simp [length], ?_⟩
    intro entry he
    rcases List.mem_cons.1 he with rfl | he
    · exact ⟨first, second⟩
    · exact all entry he

/-- What stands beside an operator is an expression and no operator. -/
theorem heads_prefixExpr : ∀ s ∈ Symbol.heads (.rule (.group .prefixExpr)),
    ∃ k ∈ Kind.registered, s = .rule (.node k) ∧ k ≠ .binaryOperatorExpr ∧ k ≠ .assignmentExpr ∧
      (Catalog.describe k).map (·.1) = some .expression := by
  decide

theorem heads_infixOperator : Symbol.heads (.rule (.group .infixOperator)) =
    [.rule (.node .binaryOperatorExpr), .rule (.node .assignmentExpr)] := rfl

theorem isOperand_of_shows {t : Tree} (h : t.Shows (Symbol.heads (.rule (.group .prefixExpr)))) :
    t.IsOperand ∧ t.IsElement "Expr" := by
  obtain ⟨_, s, hs, head⟩ := h
  obtain ⟨k, _, rfl, notBinary, notAssignment, expression⟩ := heads_prefixExpr s hs
  cases t with
  | token t => simp [Tree.head] at head
  | foreign value => simp [Tree.head] at head
  | node kind slots items state =>
    simp only [Tree.head, Option.some.injEq, Symbol.rule.injEq, Rule.node.injEq] at head
    subst head
    refine ⟨?_, Or.inr ⟨rfl, expression⟩⟩
    unfold IsOperand IsOperator
    split <;> simp_all

theorem isOperator_of_shows {t : Tree}
    (h : t.Shows (Symbol.heads (.rule (.group .infixOperator)))) :
    t.IsOperator ∧ t.IsElement "Expr" := by
  obtain ⟨_, s, hs, head⟩ := h
  rw [heads_infixOperator] at hs
  cases t with
  | token t => simp [Tree.head] at head; subst head; simp at hs
  | foreign value => simp [Tree.head] at head
  | node kind slots items state =>
    simp only [Tree.head, Option.some.injEq] at head
    subst head
    rcases List.mem_cons.1 hs with same | hs
    · cases same
      exact ⟨trivial, Or.inr ⟨rfl, rfl⟩⟩
    · cases List.mem_singleton.1 hs
      exact ⟨trivial, Or.inr ⟨rfl, rfl⟩⟩

theorem mem_alternated {first t : Tree} {run : List (Tree × Tree)} :
    t ∈ alternated first run ↔ t = first ∨ ∃ entry ∈ run, t = entry.1 ∨ t = entry.2 := by
  simp [alternated]

/-- Operands with operators between them make a good sequence. -/
theorem good_sequence {first : Tree} {run : List (Tree × Tree)} (nonempty : run ≠ [])
    (shown : first.Shows (Symbol.heads (.rule (.group .prefixExpr))))
    (all : ∀ entry ∈ run, entry.1.Shows (Symbol.heads (.rule (.group .infixOperator))) ∧
      entry.2.Shows (Symbol.heads (.rule (.group .prefixExpr)))) :
    (layout .sequenceExpr [("elements", collection .exprList (alternated first run))]).Good := by
  have list : (collection .exprList (alternated first run)).Good := by
    have described : Catalog.describe .exprList = some (.collection, .collection "Expr") := rfl
    apply good_collection described
    intro t ht
    rcases mem_alternated.1 ht with rfl | ⟨entry, he, rfl | rfl⟩
    · exact ⟨shown.1.sound, (isOperand_of_shows shown).2⟩
    · exact ⟨(all entry he).1.1.sound, (isOperator_of_shows (all entry he).1).2⟩
    · exact ⟨(all entry he).2.1.sound, (isOperand_of_shows (all entry he).2).2⟩
  have shows : (collection .exprList (alternated first run)).Shows [.rule (.node .exprList)] :=
    ⟨list, _, List.mem_singleton_self _, rfl⟩
  have described : Catalog.describe .sequenceExpr =
      some (.expression, .layout [⟨"elements", [.kind .exprList]⟩]) := rfl
  refine good_layout described (List.Sublist.refl _) (by decide)
    (.cons (shows.admits (by decide)) .nil) ?_ ?_
  · intro t ht
    obtain rfl := List.mem_singleton.1 ht
    exact list.sound
  · refine ⟨first, run, {}, rfl, nonempty, (isOperand_of_shows shown).1, fun entry he => ?_⟩
    exact ⟨(isOperator_of_shows (all entry he).1).1, (isOperand_of_shows (all entry he).2).1⟩

end SyntaxAtlas.Tree
