-- The laws of folding. A nest of operands and operators is well ranked when
-- no operator stands inside a tighter one. There is at most one such nest for
-- a run, folding finds it, and where there is none folding names the first
-- operator that cannot be placed.

import SyntaxAtlas.Folding
import SyntaxAtlas.Proofs.Conformity
import Mathlib.Data.List.Induction

namespace SyntaxAtlas

/-! ## Well-ranked nests -/

/-- An operator of group `inner` may be the root of an operand of one of group
`g`. An operand of the same rank stands on the side to which its group leans. -/
def PrecedenceGroup.Allows (g : PrecedenceGroup) (side : Associativity)
    (inner : PrecedenceGroup) : Prop :=
  g.rank < inner.rank ∨ (inner.rank = g.rank ∧ inner.associativity = side)

/-- Operators of one rank are of one group. -/
def RankedGroups {ω : Type} (group? : ω → Option PrecedenceGroup) : Prop :=
  ∀ o o' g g', group? o = some g → group? o' = some g' → g.rank = g'.rank → g = g'

namespace Nest

variable {α ω : Type} {group? : ω → Option PrecedenceGroup}

/-- The leftmost operand. -/
def first : Nest α ω → α
  | operand a => a
  | join left _ _ => left.first

/-- The operators in order, each with the operand behind it. -/
def rest : Nest α ω → List (ω × α)
  | operand _ => []
  | join left op right => left.rest ++ (op, right.first) :: right.rest

/-- The group of the root is known and satisfies `P`. An operand has no root
and satisfies all. -/
def RootGroup (group? : ω → Option PrecedenceGroup) (P : PrecedenceGroup → Prop) :
    Nest α ω → Prop
  | operand _ => True
  | join _ op _ => ∃ g, group? op = some g ∧ P g

/-- Every operator is known, and the roots of its operands may stand there. -/
def WellRanked (group? : ω → Option PrecedenceGroup) : Nest α ω → Prop
  | operand _ => True
  | join left op right =>
    ∃ g, group? op = some g ∧ left.RootGroup group? (g.Allows .left) ∧
      right.RootGroup group? (g.Allows .right) ∧
      left.WellRanked group? ∧ right.WellRanked group?

/-- A well-ranked nest whose operands and operators, in order, are those of a
run. -/
structure Nests (group? : ω → Option PrecedenceGroup) (start : α) (run : List (ω × α))
    (n : Nest α ω) : Prop where
  wellRanked : n.WellRanked group?
  starts : n.first = start
  follows : n.rest = run

/-- An operator cannot follow those before it: it is unknown, or it meets one of
its own group that combines with none, and all between the two bind tighter. -/
def CannotFollow (group? : ω → Option PrecedenceGroup) (before : List ω) (o : ω) : Prop :=
  group? o = none ∨ ∃ g earlier e between, before = earlier ++ e :: between ∧
    group? e = some g ∧ group? o = some g ∧ g.associativity = .none ∧
    ∀ m ∈ between, ∃ h, group? m = some h ∧ g.rank < h.rank

/-! ## All operators of an operand -/

theorem RootGroup.imp {P Q : PrecedenceGroup → Prop} {n : Nest α ω} (h : n.RootGroup group? P)
    (imp : ∀ o g, group? o = some g → P g → Q g) : n.RootGroup group? Q := by
  cases n with
  | operand a => trivial
  | join l op r =>
    obtain ⟨g, hg, hp⟩ := h
    exact ⟨g, hg, imp op g hg hp⟩

theorem rank_le_of_allows {g h : PrecedenceGroup} {side : Associativity}
    (a : g.Allows side h) : g.rank ≤ h.rank := by
  rcases a with a | a <;> omega

/-- What an operator allows on a side, it allows there with all that stands
inside. -/
theorem allows_inside {side side' : Associativity} {o o' : ω} {g h k : PrecedenceGroup}
    (ranked : RankedGroups group?) (ho : group? o = some h) (ho' : group? o' = some k)
    (outer : g.Allows side h) (inner : h.Allows side' k) : g.Allows side k := by
  have hle := rank_le_of_allows inner
  rcases outer with outer | ⟨same, assoc⟩
  · exact Or.inl (by omega)
  · by_cases he : h.rank = k.rank
    · obtain rfl := ranked o o' h k ho ho' he
      exact Or.inr ⟨same, assoc⟩
    · exact Or.inl (by omega)

/-- All operators of an operand may stand there, not only its root. -/
theorem WellRanked.allows_of_mem {n : Nest α ω} {g : PrecedenceGroup} {side : Associativity}
    (ranked : RankedGroups group?) (hn : n.WellRanked group?)
    (root : n.RootGroup group? (g.Allows side)) :
    ∀ e ∈ n.rest, ∃ h, group? e.1 = some h ∧ g.Allows side h := by
  induction n with
  | operand a => simp [rest]
  | join l op r ihl ihr =>
    obtain ⟨h, hh, hl, hr, hwl, hwr⟩ := hn
    obtain ⟨h', hh', ha⟩ := root
    obtain rfl : h = h' := by rw [hh] at hh'; exact Option.some.inj hh'
    intro e he
    simp only [rest, List.mem_append, List.mem_cons] at he
    rcases he with he | rfl | he
    · exact ihl hwl (hl.imp fun o k ho hk => allows_inside ranked hh ho ha hk) e he
    · exact ⟨h, hh, ha⟩
    · exact ihr hwr (hr.imp fun o k ho hk => allows_inside ranked hh ho ha hk) e he

/-- The root of a well-ranked nest, and where the other operators stand. -/
theorem WellRanked.sides {l r : Nest α ω} {op : ω} (ranked : RankedGroups group?)
    (hn : (join l op r).WellRanked group?) :
    ∃ g, group? op = some g ∧
      (∀ e ∈ l.rest, ∃ h, group? e.1 = some h ∧ g.Allows .left h) ∧
      (∀ e ∈ r.rest, ∃ h, group? e.1 = some h ∧ g.Allows .right h) := by
  obtain ⟨g, hg, hl, hr, hwl, hwr⟩ := hn
  exact ⟨g, hg, hwl.allows_of_mem ranked hl, hwr.allows_of_mem ranked hr⟩

/-! ## One nest for a run -/

/-- Two splits of a list at an element: one is behind the other, or they are
the same. -/
theorem append_cons_cases {β : Type} {xs ys zs ws : List β} {a b : β}
    (h : xs ++ a :: ys = zs ++ b :: ws) :
    (∃ t, xs = zs ++ b :: t ∧ ws = t ++ a :: ys) ∨ (xs = zs ∧ a = b ∧ ys = ws) ∨
      ∃ t, zs = xs ++ a :: t ∧ ys = t ++ b :: ws := by
  rcases List.append_eq_append_iff.1 h with ⟨t, hz, hy⟩ | ⟨t, hx, hw⟩
  · cases t with
    | nil => simp_all
    | cons c t =>
      simp only [List.cons_append, List.cons.injEq] at hy
      obtain ⟨rfl, hy⟩ := hy
      exact Or.inr (Or.inr ⟨t, hz, hy⟩)
  · cases t with
    | nil => simp_all
    | cons c t =>
      simp only [List.cons_append, List.cons.injEq] at hw
      obtain ⟨rfl, hw⟩ := hw
      exact Or.inl ⟨t, hx, hw⟩

/-- An operator is not allowed both behind another one and in front of it. -/
theorem not_allows_both {o o' : ω} {g h : PrecedenceGroup} (ranked : RankedGroups group?)
    (ho : group? o = some g) (ho' : group? o' = some h) (right : g.Allows .right h)
    (left : h.Allows .left g) : False := by
  rcases right with right | ⟨hr, assoc⟩
  · rcases left with left | ⟨hl, _⟩ <;> omega
  · obtain rfl := ranked o' o h g ho' ho hr
    rcases left with left | ⟨_, assoc'⟩
    · omega
    · rw [assoc] at assoc'; cases assoc'

/-- The root of one nest of a run does not come before the root of another. -/
theorem root_not_before {l r l' r' : Nest α ω} {op op' : ω} {between : List (ω × α)}
    (ranked : RankedGroups group?) (hn : (join l op r).WellRanked group?)
    (hm : (join l' op' r').WellRanked group?)
    (hl : l'.rest = l.rest ++ (op, r.first) :: between)
    (hr : r.rest = between ++ (op', r'.first) :: r'.rest) : False := by
  obtain ⟨g, hg, _, onRight⟩ := hn.sides ranked
  obtain ⟨h, hh, onLeft, _⟩ := hm.sides ranked
  obtain ⟨h', hh', right⟩ := onRight (op', r'.first) (by simp [hr])
  obtain ⟨g', hg', left⟩ := onLeft (op, r.first) (by simp [hl])
  simp only [hh, hg, Option.some.injEq] at hh' hg'
  subst hh' hg'
  exact not_allows_both ranked hg hh right left

/-- Two well-ranked nests of one run are the same. -/
theorem WellRanked.eq_of_run {n m : Nest α ω} (ranked : RankedGroups group?)
    (hn : n.WellRanked group?) (hm : m.WellRanked group?) (starts : n.first = m.first)
    (follows : n.rest = m.rest) : n = m := by
  induction n generalizing m with
  | operand a =>
    cases m with
    | operand b => simp only [first] at starts; rw [starts]
    | join l' op' r' => simp [rest] at follows
  | join l op r ihl ihr =>
    cases m with
    | operand b => simp [rest] at follows
    | join l' op' r' =>
      simp only [rest] at follows
      rcases append_cons_cases follows with ⟨t, hl, hr⟩ | ⟨hl, he, hr⟩ | ⟨t, hl, hr⟩
      · exact (root_not_before ranked hm hn hl hr).elim
      · obtain ⟨_, _, _, _, hwl, hwr⟩ := hn
        obtain ⟨_, _, _, _, hwl', hwr'⟩ := hm
        rw [Prod.mk.injEq] at he
        rw [ihl hwl hwl' starts hl, he.1, ihr hwr hwr' he.2 hr]
      · exact (root_not_before ranked hn hm hl hr).elim

/-- In a well-ranked nest every operator can follow those before it. -/
theorem WellRanked.canFollow {n : Nest α ω} (ranked : RankedGroups group?)
    (hn : n.WellRanked group?) {before after : List (ω × α)} {o : ω} {x : α}
    (split : n.rest = before ++ (o, x) :: after) :
    ¬ CannotFollow group? (before.map Prod.fst) o := by
  induction n generalizing before after with
  | operand a => simp [rest] at split
  | join l op r ihl ihr =>
    obtain ⟨g, hg, onLeft, onRight⟩ := hn.sides ranked
    obtain ⟨_, _, _, _, hwl, hwr⟩ := hn
    rcases append_cons_cases split with ⟨t, hl, _⟩ | ⟨hl, he, _⟩ | ⟨t, hb, hr⟩
    · exact ihl hwl hl
    · -- The operator is the root, and what it meets stands on its left.
      rw [Prod.mk.injEq] at he
      obtain ⟨rfl, _⟩ := he
      rintro (unknown | ⟨h, earlier, e, between, hbefore, he, ho, assoc, _⟩)
      · rw [hg] at unknown; cases unknown
      · obtain rfl : g = h := by rw [hg] at ho; exact Option.some.inj ho
        have hmem : e ∈ (l.rest).map Prod.fst := by rw [hl, hbefore]; simp
        obtain ⟨entry, hentry, rfl⟩ := List.mem_map.1 hmem
        obtain ⟨k, hk, allowed⟩ := onLeft entry hentry
        obtain rfl : g = k := by rw [hk] at he; exact (Option.some.inj he).symm
        rcases allowed with lt | ⟨_, assoc'⟩
        · omega
        · rw [assoc] at assoc'; cases assoc'
    · rintro (unknown | ⟨h, earlier, e, between, hbefore, he, ho, assoc, tighter⟩)
      · exact ihr hwr hr (Or.inl unknown)
      · obtain ⟨k, hk, behind⟩ := onRight (o, x) (by simp [hr])
        obtain rfl : h = k := by rw [hk] at ho; exact (Option.some.inj ho).symm
        rw [hb, List.map_append, List.map_cons] at hbefore
        rcases append_cons_cases hbefore with ⟨s, hs, hbetween⟩ | ⟨_, rfl, _⟩ | ⟨s, _, hs⟩
        · -- The root stands between the two, so it binds tighter than both.
          obtain ⟨k, hk, tight⟩ := tighter op (by rw [hbetween]; simp)
          obtain rfl : g = k := by rw [hg] at hk; exact Option.some.inj hk
          have := rank_le_of_allows behind
          omega
        · obtain rfl : g = h := by rw [hg] at he; exact Option.some.inj he
          rcases behind with lt | ⟨_, assoc'⟩
          · omega
          · rw [assoc] at assoc'; cases assoc'
        · exact ihr hwr hr (Or.inr ⟨h, s, e, between, hs, he, ho, assoc, tighter⟩)

/-! ## One more operator -/

/-- The work that stands for a nest, on top of other work: the operators of its
right edge wait, each above its left operand. -/
inductive Unwound (group? : ω → Option PrecedenceGroup) :
    Nest α ω → Work α ω → Work α ω → Prop
  | operand (a : α) (below : Work α ω) :
      Unwound group? (operand a) below ⟨operand a :: below.operands, below.waiting⟩
  | join {left right : Nest α ω} {op : ω} {g : PrecedenceGroup} {below work : Work α ω}
      (known : group? op = some g)
      (inner : Unwound group? right ⟨left :: below.operands, (op, g) :: below.waiting⟩ work) :
      Unwound group? (join left op right) below work

/-- Joining all that waits gives the nest back. -/
theorem joinAll_unwound {n : Nest α ω} {below work : Work α ω}
    (u : Unwound group? n below work) :
    ∃ last operands, work.operands = last :: operands ∧
      joinAll last operands work.waiting = joinAll n below.operands below.waiting := by
  induction u with
  | operand a below => exact ⟨_, _, rfl, rfl⟩
  | join known inner ih => exact ih

/-- An operator that goes first lets all inside its right operand go first. -/
theorem goesFirst_inside {o o' : ω} {g h next : PrecedenceGroup} (ranked : RankedGroups group?)
    (ho : group? o = some next) (ho' : group? o' = some h) (goes : goesFirst g next = true)
    (allowed : g.Allows .right h) : goesFirst h next = true := by
  simp only [goesFirst, Bool.or_eq_true, Bool.and_eq_true, decide_eq_true_eq, beq_iff_eq]
    at goes ⊢
  have hle := rank_le_of_allows allowed
  by_cases hlt : next.rank < h.rank
  · exact Or.inl hlt
  · obtain rfl := ranked o' o h next ho' ho (by omega)
    rcases allowed with lt | ⟨_, assoc⟩
    · omega
    · rcases goes with lt | ⟨_, assoc'⟩
      · omega
      · rw [assoc] at assoc'; cases assoc'

/-- A nest whose root goes first is joined before the next operator comes in. -/
theorem joinBefore_unwound {n : Nest α ω} {below work : Work α ω} {o : ω}
    {next : PrecedenceGroup} (ranked : RankedGroups group?) (u : Unwound group? n below work)
    (ho : group? o = some next) (hn : n.WellRanked group?)
    (goes : n.RootGroup group? fun g => goesFirst g next = true) :
    joinBefore o next work.operands work.waiting =
      joinBefore o next (n :: below.operands) below.waiting := by
  induction u with
  | operand a below => rfl
  | @join left right op g below work known inner ih =>
    obtain ⟨g', hg', _, hr, _, hwr⟩ := hn
    obtain rfl : g = g' := by rw [known] at hg'; exact Option.some.inj hg'
    obtain ⟨g', hg', goes⟩ := goes
    obtain rfl : g = g' := by rw [known] at hg'; exact Option.some.inj hg'
    rw [ih hwr (hr.imp fun o' h ho' hh => goesFirst_inside ranked ho ho' goes hh)]
    simp only [joinBefore, goes, if_true]

/-- A waiting operator that neither goes first nor may not meet the next one
allows it in its right operand. -/
theorem allows_of_not_goesFirst {o o' : ω} {g next : PrecedenceGroup}
    (ranked : RankedGroups group?) (ho : group? o = some next) (ho' : group? o' = some g)
    (waits : goesFirst g next = false) (meets : mayNotMeet g next = false) :
    g.Allows .right next := by
  simp only [goesFirst, mayNotMeet, Bool.or_eq_false_iff, Bool.and_eq_false_iff,
    decide_eq_false_iff_not, beq_eq_false_iff_ne] at waits meets
  by_cases hlt : g.rank < next.rank
  · exact Or.inl hlt
  · have hrank : next.rank = g.rank := by omega
    obtain rfl := ranked o o' next g ho ho' hrank
    refine Or.inr ⟨rfl, ?_⟩
    rcases hassoc : next.associativity with _ | _ | _
    · simp [hassoc] at waits
    · rfl
    · simp [hassoc] at meets

theorem allows_left_of_goesFirst {o o' : ω} {g next : PrecedenceGroup}
    (ranked : RankedGroups group?) (ho : group? o = some next) (ho' : group? o' = some g)
    (goes : goesFirst g next = true) : next.Allows .left g := by
  simp only [goesFirst, Bool.or_eq_true, Bool.and_eq_true, decide_eq_true_eq, beq_iff_eq] at goes
  rcases goes with lt | ⟨same, assoc⟩
  · exact Or.inl lt
  · obtain rfl := ranked o' o g next ho' ho same
    exact Or.inr ⟨rfl, assoc⟩

theorem CannotFollow.append {before : List ω} {o : ω} (earlier : List ω)
    (h : CannotFollow group? before o) : CannotFollow group? (earlier ++ before) o := by
  rcases h with unknown | ⟨g, earlier', e, between, rfl, he, ho, assoc, tighter⟩
  · exact Or.inl unknown
  · exact Or.inr ⟨g, earlier ++ earlier', e, between, by simp, he, ho, assoc, tighter⟩

/-- An operator and an operand come in behind a nest that stands on `below`, and
the work stands for a longer nest afterwards. -/
def TakesIn (group? : ω → Option PrecedenceGroup) (n : Nest α ω) (below work : Work α ω)
    (o : ω) (x : α) (P : PrecedenceGroup → Prop) : Prop :=
  ∃ n' work', takeIn group? work (o, x) = .ok work' ∧ Unwound group? n' below work' ∧
    n'.RootGroup group? P ∧ Nests group? n.first (n.rest ++ [(o, x)]) n'

/-- In a right operand of an operator that combines with none, all binds
tighter. -/
theorem tighter_of_allows_right {n : Nest α ω} {op : ω} {g : PrecedenceGroup}
    (ranked : RankedGroups group?) (known : group? op = some g) (assoc : g.associativity = .none)
    (hn : n.WellRanked group?) (root : n.RootGroup group? (g.Allows .right)) :
    ∀ m ∈ n.rest.map Prod.fst, ∃ h, group? m = some h ∧ g.rank < h.rank := by
  intro m hm
  obtain ⟨entry, hentry, rfl⟩ := List.mem_map.1 hm
  obtain ⟨h, hh, allowed⟩ := hn.allows_of_mem ranked root entry hentry
  refine ⟨h, hh, ?_⟩
  rcases allowed with lt | ⟨same, assoc'⟩
  · exact lt
  · obtain rfl := ranked _ op h g hh known same
    rw [assoc] at assoc'; cases assoc'

/-- The right operand is joined before the operator comes in, so that becomes
its left operand. -/
theorem takeIn_behind {right left : Nest α ω} {op o : ω} {g next : PrecedenceGroup}
    {below work : Work α ω} (x : α) (ranked : RankedGroups group?) (ho : group? o = some next)
    (known : group? op = some g) (waits : goesFirst g next = false)
    (hn : right.WellRanked group?) (root : right.RootGroup group? (g.Allows .right))
    (goes : right.RootGroup group? fun h => goesFirst h next = true)
    (u : Unwound group? right ⟨left :: below.operands, (op, g) :: below.waiting⟩ work) :
    TakesIn group? right ⟨left :: below.operands, (op, g) :: below.waiting⟩ work o x
        (g.Allows .right) ∨
      (takeIn group? work (o, x) = .error (.adjacent o next) ∧
        CannotFollow group? (op :: right.rest.map Prod.fst) o) := by
  have joined := joinBefore_unwound ranked u ho hn goes
  by_cases meets : mayNotMeet g next = true
  · right
    simp only [mayNotMeet, Bool.and_eq_true, beq_iff_eq] at meets
    obtain ⟨rfl, assoc⟩ := meets
    refine ⟨?_, Or.inr ⟨g, [], op, right.rest.map Prod.fst, rfl, known, ho, assoc, ?_⟩⟩
    · simp [takeIn, ho, joined, joinBefore, waits, mayNotMeet, assoc, bind, Except.bind]
    · exact tighter_of_allows_right ranked known assoc hn root
  · left
    simp only [Bool.not_eq_true] at meets
    refine ⟨join right o (operand x), _, ?_, .join ho (.operand x _), ?_, ?_, rfl, rfl⟩
    · simp [takeIn, ho, joined, joinBefore, waits, meets, bind, Except.bind, pure, Except.pure]
    · exact ⟨next, ho, allows_of_not_goesFirst ranked ho known waits meets⟩
    · refine ⟨next, ho, ?_, trivial, hn, trivial⟩
      exact goes.imp fun o' h ho' hh => allows_left_of_goesFirst ranked ho ho' hh

/-- An operator comes in while one waits that does not go first. It finds its
place in the right operand of that one, or it may not meet the operator beside
it. -/
theorem takeIn_below {right left : Nest α ω} {op o : ω} {g next : PrecedenceGroup}
    {below work : Work α ω} (x : α) (ranked : RankedGroups group?) (ho : group? o = some next)
    (known : group? op = some g) (waits : goesFirst g next = false)
    (hn : right.WellRanked group?) (root : right.RootGroup group? (g.Allows .right))
    (u : Unwound group? right ⟨left :: below.operands, (op, g) :: below.waiting⟩ work) :
    TakesIn group? right ⟨left :: below.operands, (op, g) :: below.waiting⟩ work o x
        (g.Allows .right) ∨
      (takeIn group? work (o, x) = .error (.adjacent o next) ∧
        CannotFollow group? (op :: right.rest.map Prod.fst) o) := by
  induction right generalizing left op g below with
  | operand a => exact takeIn_behind x ranked ho known waits hn root trivial u
  | join l op' r ihl ihr =>
    obtain ⟨h, hh, allowed⟩ := root
    by_cases goes : goesFirst h next = true
    · exact takeIn_behind x ranked ho known waits hn ⟨h, hh, allowed⟩ ⟨h, hh, goes⟩ u
    · simp only [Bool.not_eq_true] at goes
      obtain ⟨h', hh', hl, hr, hwl, hwr⟩ := hn
      obtain rfl : h = h' := by rw [hh] at hh'; exact Option.some.inj hh'
      cases u with
      | @join _ _ _ h'' _ _ known' inner =>
        obtain rfl : h = h'' := by rw [hh] at known'; exact Option.some.inj known'
        rcases ihr hh goes hwr hr inner with ⟨r', work', hw, hu, hroot, hnests⟩ | ⟨hw, clash⟩
        · left
          refine ⟨join l op' r', work', hw, .join hh hu, ⟨h, hh, allowed⟩, ?_, rfl, ?_⟩
          · exact ⟨h, hh, hl, hroot, hwl, hnests.wellRanked⟩
          · simp [rest, hnests.starts, hnests.follows]
        · right
          refine ⟨hw, ?_⟩
          simpa [rest] using clash.append (op :: l.rest.map Prod.fst)

/-! ## The whole run -/

/-- How folding fails at an operator. -/
def clashAt (group? : ω → Option PrecedenceGroup) (o : ω) : Clash ω :=
  match group? o with
  | none => .unknown o
  | some g => .adjacent o g

/-- One more operator behind the nest of all that came before. -/
theorem takeIn_unwound {n : Nest α ω} {work : Work α ω} (o : ω) (x : α)
    (ranked : RankedGroups group?) (hn : n.WellRanked group?)
    (u : Unwound group? n ⟨[], []⟩ work) :
    TakesIn group? n ⟨[], []⟩ work o x (fun _ => True) ∨
      (takeIn group? work (o, x) = .error (clashAt group? o) ∧
        CannotFollow group? (n.rest.map Prod.fst) o) := by
  rcases ho : group? o with _ | next
  · exact Or.inr ⟨by simp [takeIn, clashAt, ho], Or.inl ho⟩
  · by_cases goes : n.RootGroup group? fun g => goesFirst g next = true
    · left
      refine ⟨join n o (operand x), _, ?_, .join ho (.operand x _), ⟨next, ho, trivial⟩, ?_,
        rfl, rfl⟩
      · simp [takeIn, ho, joinBefore_unwound ranked u ho hn goes, joinBefore, bind, Except.bind,
          pure, Except.pure]
      · refine ⟨next, ho, ?_, trivial, hn, trivial⟩
        exact goes.imp fun o' h ho' hh => allows_left_of_goesFirst ranked ho ho' hh
    · cases n with
      | operand a => exact absurd trivial goes
      | join l op r =>
        obtain ⟨g, hg, hl, hr, hwl, hwr⟩ := hn
        have waits : goesFirst g next = false := by
          rw [← Bool.not_eq_true]
          exact fun h => goes ⟨g, hg, h⟩
        cases u with
        | @join _ _ _ g' _ _ known inner =>
          obtain rfl : g = g' := by rw [hg] at known; exact Option.some.inj known
          rcases takeIn_below x ranked ho hg waits hwr hr inner with
            ⟨r', work', hw, hu, hroot, hnests⟩ | ⟨hw, clash⟩
          · left
            refine ⟨join l op r', work', hw, .join hg hu, ⟨g, hg, trivial⟩, ?_, rfl, ?_⟩
            · exact ⟨g, hg, hl, hroot, hwl, hnests.wellRanked⟩
            · simp [rest, hnests.starts, hnests.follows]
          · right
            refine ⟨by rw [hw]; simp [clashAt, ho], ?_⟩
            simpa [rest] using clash.append (l.rest.map Prod.fst)

/-- After every run the work stands for its nest, or folding has failed at the
first operator that cannot follow those before it. -/
theorem foldlM_takeIn (ranked : RankedGroups group?) (start : α) (run : List (ω × α)) :
    (∃ n work, run.foldlM (takeIn group?) ⟨[operand start], []⟩ = .ok work ∧
        Unwound group? n ⟨[], []⟩ work ∧ Nests group? start run n) ∨
      ∃ before o x after, run = before ++ (o, x) :: after ∧ (∃ n, Nests group? start before n) ∧
        CannotFollow group? (before.map Prod.fst) o ∧
        run.foldlM (takeIn group?) ⟨[operand start], []⟩ = .error (clashAt group? o) := by
  induction run using List.reverseRecOn with
  | nil => exact Or.inl ⟨operand start, _, rfl, .operand start ⟨[], []⟩, trivial, rfl, rfl⟩
  | append_singleton run entry ih =>
    obtain ⟨o, x⟩ := entry
    rcases ih with ⟨n, work, hrun, hu, hn⟩ | ⟨before, o', x', after, hsplit, hbefore, clash, hrun⟩
    · rcases takeIn_unwound o x ranked hn.wellRanked hu with
        ⟨n', work', hw, hu', _, hn'⟩ | ⟨hw, clash⟩
      · left
        rw [hn.starts, hn.follows] at hn'
        refine ⟨n', work', ?_, hu', hn'⟩
        simp [List.foldlM_append, hrun, hw, bind, Except.bind, pure, Except.pure]
      · right
        rw [hn.follows] at clash
        refine ⟨run, o, x, [], rfl, ⟨n, hn⟩, clash, ?_⟩
        simp [List.foldlM_append, hrun, hw, bind, Except.bind]
    · right
      refine ⟨before, o', x', after ++ [(o, x)], by simp [hsplit], hbefore, clash, ?_⟩
      rw [List.foldlM_append, hrun]
      rfl

theorem ofRun_cases (ranked : RankedGroups group?) (start : α) (run : List (ω × α)) :
    (∃ n, Nests group? start run n ∧ ofRun group? start run = .ok n) ∨
      ∃ before o x after, run = before ++ (o, x) :: after ∧ (∃ n, Nests group? start before n) ∧
        CannotFollow group? (before.map Prod.fst) o ∧
        ofRun group? start run = .error (clashAt group? o) := by
  rcases foldlM_takeIn ranked start run with
    ⟨n, work, hrun, hu, hn⟩ | ⟨before, o, x, after, hsplit, hbefore, clash, hrun⟩
  · left
    obtain ⟨last, operands, hoperands, hjoin⟩ := joinAll_unwound hu
    refine ⟨n, hn, ?_⟩
    simp [ofRun, hrun, bind, Except.bind, hoperands, hjoin, joinAll, pure, Except.pure]
  · exact Or.inr ⟨before, o, x, after, hsplit, hbefore, clash, by
      simp [ofRun, hrun, bind, Except.bind]⟩

end Nest

/-! ## Tables and sequences -/

/-- The ranks of a table count its groups down, so no two groups share one. -/
theorem OperatorTable.ranked_ofGroups (groups : List (String × Associativity × List String)) :
    RankedGroups (OperatorTable.ofGroups groups).group? := by
  have entry : ∀ o g, (OperatorTable.ofGroups groups).group? o = some g →
      ∃ i, groups[i]?.map (fun e => (⟨e.1, groups.length - i, e.2.1⟩ : PrecedenceGroup)) = some g ∧
        i < groups.length := by
    intro o g h
    obtain ⟨⟨g', ops⟩, hfind, rfl⟩ := Option.map_eq_some_iff.1 h
    have hmem := List.mem_of_find?_eq_some hfind
    simp only [OperatorTable.ofGroups, List.mem_reverse, List.mem_map, Prod.mk.injEq,
      List.mem_zipIdx_iff_getElem?] at hmem
    obtain ⟨⟨e, i⟩, hget, rfl, _⟩ := hmem
    refine ⟨i, by simp [hget], ?_⟩
    exact (List.getElem?_eq_some_iff.1 hget).1
  intro o o' g g' h h' same
  obtain ⟨i, hi, lt⟩ := entry o g h
  obtain ⟨i', hi', lt'⟩ := entry o' g' h'
  simp only [List.getElem?_eq_getElem lt, List.getElem?_eq_getElem lt', Option.map_some,
    Option.some.injEq] at hi hi'
  subst hi hi'
  obtain rfl : i = i' := by simp only at same; omega
  rfl

namespace Tree

theorem runOf_alternated (run : List (Tree × Tree)) :
    runOf (run.flatMap fun entry => [entry.1, entry.2]) = run := by
  induction run with
  | nil => rfl
  | cons entry run ih => simp [runOf, ih]

theorem length_alternated (run : List (Tree × Tree)) :
    (run.flatMap fun entry => [entry.1, entry.2]).length = 2 * run.length := by
  induction run with
  | nil => rfl
  | cons entry run ih => simp only [List.flatMap_cons, List.length_append, ih]; simp; omega

/-- How folding a sequence fails at an operator. -/
def failureAt (table : OperatorTable) (op : Tree) : FoldFailure :=
  match table.group? op.operatorText with
  | none => .unknownOperator op.operatorText op.start
  | some g => .adjacent g.name op.start

/-- The group of an operator node. -/
def groupOf (table : OperatorTable) (op : Tree) : Option PrecedenceGroup :=
  table.group? op.operatorText

theorem foldSequence_cases (groups : List (String × Associativity × List String))
    {sequence first : Tree} {run : List (Tree × Tree)}
    (elements : (sequence.child? "elements").map Tree.items = some (alternated first run)) :
    let table := OperatorTable.ofGroups groups
    (∃ n, n.Nests (groupOf table) first run ∧
        foldSequence table sequence = .ok (ofNest n)) ∨
      ∃ before o x after, run = before ++ (o, x) :: after ∧
        (∃ n : Nest Tree Tree, n.Nests (groupOf table) first before) ∧
        Nest.CannotFollow (groupOf table) (before.map Prod.fst) o ∧
        foldSequence table sequence = .error (failureAt table o) := by
  intro table
  have ranked : RankedGroups (groupOf table) := fun o o' g g' h h' =>
    OperatorTable.ranked_ofGroups groups _ _ g g' h h'
  unfold foldSequence
  rw [elements]
  simp only [Option.getD_some, alternated, length_alternated, runOf_alternated]
  rw [if_neg (by omega)]
  rcases Nest.ofRun_cases ranked first run with
    ⟨n, hn, hrun⟩ | ⟨before, o, x, after, hsplit, hbefore, clash, hrun⟩
  · unfold groupOf at hrun
    exact Or.inl ⟨n, hn, by rw [hrun]⟩
  · refine Or.inr ⟨before, o, x, after, hsplit, hbefore, clash, ?_⟩
    unfold Nest.clashAt groupOf at hrun
    unfold failureAt
    rw [hrun]
    rcases table.group? o.operatorText with _ | g <;> rfl

/-- Folding is precedence parsing. It succeeds exactly when the sequence has a
well-ranked nest, there is at most one, and that one is the result. Otherwise
it fails at the first operator that cannot follow those before it, and the
error is located there. -/
theorem foldSequence_is_precedence_parsing
    (groups : List (String × Associativity × List String)) (sequence first : Tree)
    (run : List (Tree × Tree))
    (elements : (sequence.child? "elements").map Tree.items = some (alternated first run)) :
    let table := OperatorTable.ofGroups groups
    let nests := Nest.Nests (groupOf table) first run
    ((∃ t, foldSequence table sequence = .ok t) ↔ ∃ n, nests n) ∧
      (∀ n m, nests n → nests m → n = m) ∧
      (∀ n, nests n → foldSequence table sequence = .ok (ofNest n)) ∧
      ((¬ ∃ n, nests n) → ∃ before o x after, run = before ++ (o, x) :: after ∧
        Nest.CannotFollow (groupOf table) (before.map Prod.fst) o ∧
        (∀ earlier o' x' between, before = earlier ++ (o', x') :: between →
          ¬ Nest.CannotFollow (groupOf table) (earlier.map Prod.fst) o') ∧
        foldSequence table sequence = .error (failureAt table o) ∧
        ∀ map : Option LineMap, ((failureAt table o).error map).map (·.location) =
          .ok (map.map (·.location o.start))) := by
  intro table nests
  have ranked : RankedGroups (groupOf table) := fun o o' g g' h h' =>
    OperatorTable.ranked_ofGroups groups _ _ g g' h h'
  have unique : ∀ n m, nests n → nests m → n = m := fun n m hn hm =>
    hn.wellRanked.eq_of_run ranked hm.wellRanked (hn.starts.trans hm.starts.symm)
      (hn.follows.trans hm.follows.symm)
  rcases foldSequence_cases groups elements with
    ⟨n, hn, folded⟩ | ⟨before, o, x, after, hsplit, ⟨n, hn⟩, clash, failed⟩
  · refine ⟨⟨fun _ => ⟨n, hn⟩, fun _ => ⟨_, folded⟩⟩, unique, ?_, fun none => absurd ⟨n, hn⟩ none⟩
    intro m hm
    rw [unique m n hm hn]
    exact folded
  · have none : ¬ ∃ m, nests m := by
      rintro ⟨m, hm⟩
      exact hm.wellRanked.canFollow ranked (hm.follows.trans hsplit) clash
    refine ⟨⟨?_, fun h => absurd h none⟩, unique, fun m hm => absurd ⟨m, hm⟩ none, fun _ => ?_⟩
    · rintro ⟨t, ht⟩
      rw [failed] at ht
      cases ht
    · refine ⟨before, o, x, after, hsplit, clash, ?_, failed, ?_⟩
      · intro earlier o' x' between hbefore
        exact hn.wellRanked.canFollow ranked (hn.follows.trans hbefore)
      · intro map
        unfold failureAt
        rcases table.group? o.operatorText with _ | g <;> rfl

/-- The sequence `a - b + c * d` has the difference inside the sum, and the
product as well. -/
theorem foldSequence_difference_in_sum :
    let name := fun text => Tree.token (.ofText .identifier text 0)
    let sign := fun text =>
      layout .binaryOperatorExpr [("operator", .token (.ofText .operator text 0))]
    let sequence := layout .sequenceExpr [("elements", collection .exprList
      [name "a", sign "-", name "b", sign "+", name "c", sign "*", name "d"])]
    let groups := [("Product", .left, ["*"]), ("Sum", .left, ["+", "-"])]
    foldSequence (.ofGroups groups) sequence = .ok (infixNode (infixNode (name "a") (sign "-") (name "b"))
      (sign "+") (infixNode (name "c") (sign "*") (name "d"))) := by
  intro name sign sequence groups
  let table := OperatorTable.ofGroups groups
  let sum : PrecedenceGroup := ⟨"Sum", 1, .left⟩
  have product : groupOf table (sign "*") = some ⟨"Product", 2, .left⟩ := by decide
  have plus : groupOf table (sign "+") = some sum := by decide
  have minus : groupOf table (sign "-") = some sum := by decide
  have folded := foldSequence_is_precedence_parsing groups sequence (name "a")
    [(sign "-", name "b"), (sign "+", name "c"), (sign "*", name "d")] rfl
  refine folded.2.2.1 (.join (.join (.operand (name "a")) (sign "-") (.operand (name "b")))
    (sign "+") (.join (.operand (name "c")) (sign "*") (.operand (name "d")))) ⟨?_, rfl, rfl⟩
  exact ⟨sum, plus, ⟨sum, minus, Or.inr ⟨rfl, rfl⟩⟩, ⟨_, product, Or.inl (by decide)⟩,
    ⟨sum, minus, trivial, trivial, trivial, trivial⟩,
    ⟨_, product, trivial, trivial, trivial, trivial⟩⟩

end Tree

end SyntaxAtlas
