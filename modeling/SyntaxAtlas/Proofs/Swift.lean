-- The automaton of the grammar once more, in a form that is run in fewer steps. Folds and look-ups
-- go by recursors alone and conditions by Booleans, which takes a third of the memory. Each table
-- is shown to be the one that it stands for.

import SyntaxAtlas.Grammar.Automaton

namespace SyntaxAtlas

/-! ## Folds and maps -/

/-- A fold from the left. -/
noncomputable def sweep {α β : Type} (step : β → α → β) (l : List α) (start : β) : β :=
  List.rec (motive := fun _ => β → β) (fun b => b) (fun a _ rest b => rest (step b a)) l start

theorem sweep_eq {α β : Type} (step : β → α → β) (l : List α) (start : β) :
    sweep step l start = l.foldl step start := by
  induction l generalizing start with
  | nil => rfl
  | cons a rest ih => exact ih (step start a)

namespace NumberMap

variable {α : Type}

/-- The entry of a key. -/
noncomputable def find (map : NumberMap α) (key : Nat) : Option α :=
  NumberMap.rec (motive := fun _ => Nat → Option α) (fun _ => none)
    (fun zero _ _ even odd key =>
      bif Nat.beq key 0 then zero
      else bif Nat.beq (Nat.mod key 2) 0 then even (Nat.div key 2) else odd (Nat.div key 2)) map key

theorem cond_beq {β : Type} (m n : Nat) (x y : β) :
    (bif Nat.beq m n then x else y) = if m = n then x else y := by
  by_cases same : m = n
  · rw [if_pos same, same, Nat.beq_refl, cond_true]
  · rw [if_neg same, Bool.eq_false_iff.2 (mt Nat.eq_of_beq_eq_true same), cond_false]

theorem find_eq (map : NumberMap α) (key : Nat) : map.find key = map.get? key := by
  induction map generalizing key with
  | empty => rfl
  | node zero even odd evenIh oddIh =>
    rw [get?, ← evenIh, ← oddIh, ← cond_beq, ← cond_beq]
    rfl

/-- Changes the entry of a key that has at most `bits` bits. -/
noncomputable def put (change : Option α → Option α) (bits key : Nat) (map : NumberMap α) :
    NumberMap α :=
  Nat.rec (motive := fun _ => Nat → NumberMap α → NumberMap α)
    (fun _ map => NumberMap.rec (motive := fun _ => NumberMap α) (node (change none) empty empty)
      (fun zero even odd _ _ => node (change zero) even odd) map)
    (fun _ deeper key map =>
      let step := fun zero even odd =>
        bif Nat.beq key 0 then node (change zero) even odd
        else bif Nat.beq (Nat.mod key 2) 0 then node zero (deeper (Nat.div key 2) even) odd
        else node zero even (deeper (Nat.div key 2) odd)
      NumberMap.rec (motive := fun _ => NumberMap α) (step none empty empty)
        (fun zero even odd _ _ => step zero even odd) map)
    bits key map

theorem put_eq (change : Option α → Option α) (bits key : Nat) (map : NumberMap α) :
    put change bits key map = alter change bits key map := by
  induction bits generalizing key map with
  | zero => cases map <;> rfl
  | succ bits ih =>
    cases map <;> simp only [alter, ← ih, ← cond_beq] <;> rfl

/-- Changes the entry of a key. -/
noncomputable def putting (map : NumberMap α) (key : Nat) (change : Option α → α) : NumberMap α :=
  put (fun entry => some (change entry)) keyBits key map

theorem putting_eq (map : NumberMap α) (key : Nat) (change : Option α → α) :
    map.putting key change = map.modify key change := put_eq _ _ _ _

end NumberMap

namespace Automaton

/-- The items of the states, by their numbers. -/
def itemMap : NumberMap ItemSet :=
  states.zipIdx.foldl (fun map (st, n) => map.modify n fun _ => closure st.core) .empty

/-- The items of a state. -/
def itemsAt (state : Nat) : ItemSet := (itemMap.get? state).getD 0

end Automaton

namespace Automaton.Swift

open Grammar
open NumberMap (cond_beq find_eq putting_eq)

/-! ## Items -/

/-- All symbols of the productions, each with the item that has the dot before it there. -/
def dots : List (Symbol × ItemSet) :=
  numbered.flatMap fun e => e.2.body.zipIdx.map fun s => (s.1, 1 <<< (8 * e.1 + s.2))

noncomputable def dotted (s : Symbol) : ItemSet :=
  sweep (fun set e => bif decide (e.1 = s) then Nat.lor set e.2 else set) dots 0

theorem dotted_eq (s : Symbol) : dotted s = Automaton.dotted s := by
  simp only [dotted, dots, sweep_eq, Automaton.dotted, List.foldl_flatMap, List.foldl_map,
    Bool.cond_decide]
  rfl

noncomputable def dottedRules : List (Rule × ItemSet) := rules.map fun r => (r, dotted (.rule r))

noncomputable def dottedTerminals : List (Terminal × ItemSet) :=
  Terminal.lexical.map fun t => (t, dotted (.terminal t))

theorem dottedRules_eq : dottedRules = Automaton.dottedRules := by
  simp only [dottedRules, dotted_eq, Automaton.dottedRules]

theorem dottedTerminals_eq : dottedTerminals = Automaton.dottedTerminals := by
  simp only [dottedTerminals, dotted_eq, Automaton.dottedTerminals]

/-- Adds to a set what the items of another one open. -/
noncomputable def spread (opened : List (ItemSet × ItemSet)) (items set : ItemSet) : ItemSet :=
  sweep (fun set e => bif Nat.beq (Nat.land items e.1) 0 then set else Nat.lor set e.2) opened set

theorem spread_eq (opened : List (ItemSet × ItemSet)) (items set : ItemSet) :
    spread opened items set = opened.foldl (fun set (before, opened) =>
      if items &&& before = 0 then set else set ||| opened) set := by
  simp only [spread, sweep_eq, cond_beq]
  rfl

noncomputable def moreOpenings (opened : List (ItemSet × ItemSet)) : List (ItemSet × ItemSet) :=
  opened.map fun e => (e.1, spread opened e.2 e.2)

noncomputable def closedOpenings : List (ItemSet × ItemSet) :=
  settle (· == ·) moreOpenings 100 (dottedRules.map fun e => (e.2, openings e.1))

theorem moreOpenings_eq : moreOpenings = Automaton.moreOpenings := by
  funext opened
  simp only [moreOpenings, spread_eq, Automaton.moreOpenings]

theorem closedOpenings_eq : closedOpenings = Automaton.closedOpenings := by
  simp only [closedOpenings, moreOpenings_eq, dottedRules_eq, Automaton.closedOpenings]

theorem closure_eq (core : ItemSet) : spread closedOpenings core core = closure core := by
  rw [spread_eq, closedOpenings_eq, closure]

noncomputable def advance {α : Type} (items : ItemSet) (dotted : List (α × ItemSet)) :
    List (α × ItemSet) :=
  List.rec (motive := fun _ => List (α × ItemSet)) [] (fun e _ rest =>
    bif Nat.beq (Nat.land items e.2) 0 then rest
    else (e.1, Nat.shiftLeft (Nat.land items e.2) 1) :: rest) dotted

theorem advance_eq {α : Type} (items : ItemSet) (dotted : List (α × ItemSet)) :
    advance items dotted = Automaton.advance items dotted := by
  induction dotted with
  | nil => rfl
  | cons e rest ih =>
    have step : advance items (e :: rest) = bif Nat.beq (Nat.land items e.2) 0 then
        advance items rest else (e.1, (items &&& e.2) <<< 1) :: advance items rest := rfl
    rw [step, cond_beq, ih, Automaton.advance, Automaton.advance, List.filterMap_cons]
    by_cases none : items &&& e.2 = 0 <;> simp [none]

/-! ## States -/

noncomputable def number (found : Found) (core : ItemSet) : Found × Nat :=
  match (NumberMap.find found.shelves (Shelves.slot core)).bind (·.lookup core) with
  | some n => (found, n)
  | none =>
    ({ shelves := found.shelves.putting (Shelves.slot core) fun shelf =>
         (core, found.count) :: shelf.getD []
       count := found.count + 1
       fresh := core :: found.fresh }, found.count)

theorem number_eq (found : Found) (core : ItemSet) : number found core = found.number core := by
  simp only [number, find_eq, putting_eq]
  rfl

noncomputable def numberAll {α : Type} (found : Found) :
    List (α × ItemSet) → Found × List (α × Nat)
  | [] => (found, [])
  | (s, core) :: rest =>
    let (found, n) := number found core
    let (found, numbers) := numberAll found rest
    (found, (s, n) :: numbers)

theorem numberAll_eq {α : Type} (found : Found) (cores : List (α × ItemSet)) :
    numberAll found cores = found.numberAll cores := by
  induction cores generalizing found with
  | nil => rfl
  | cons e rest ih => simp only [numberAll, number_eq, ih, Found.numberAll]

noncomputable def opened (found : Found) (core : ItemSet) : Found × State :=
  let items := spread closedOpenings core core
  let shifted := numberAll found (advance items dottedTerminals)
  let gone := numberAll shifted.1 (advance items dottedRules)
  (gone.1, ⟨core, shifted.2, gone.2⟩)

theorem opened_eq (found : Found) (core : ItemSet) : opened found core = found.opened core := by
  simp only [opened, closure_eq, advance_eq, dottedTerminals_eq, dottedRules_eq, numberAll_eq]
  rfl

noncomputable def explore : Nat → List ItemSet → Found → List State
  | 0, _, _ => []
  | _ + 1, [], _ => []
  | fuel + 1, core :: queue, found =>
    let next := opened found core
    next.2 :: explore fuel (queue ++ next.1.fresh.reverse) { next.1 with fresh := [] }

theorem explore_eq (fuel : Nat) (queue : List ItemSet) (found : Found) :
    explore fuel queue found = Automaton.explore fuel queue found := by
  induction fuel generalizing queue found with
  | zero => rfl
  | succ fuel ih =>
    cases queue with
    | nil => rfl
    | cons core queue => simp only [explore, opened_eq, ih, Automaton.explore]

noncomputable def states : List State :=
  let (found, _) := number ⟨.empty, 0, []⟩ startCore
  explore 1000 [startCore] { found with fresh := [] }

theorem states_eq : states = Automaton.states := by
  simp only [states, number_eq, explore_eq]
  rfl

noncomputable def stateMap : NumberMap State :=
  sweep (fun map e => map.putting e.2 fun _ => e.1) states.zipIdx .empty

theorem stateMap_eq : stateMap = Automaton.stateMap := by
  simp only [stateMap, sweep_eq, putting_eq, states_eq]
  rfl

noncomputable def itemMap : NumberMap ItemSet :=
  sweep (fun map e => map.putting e.2 fun _ => spread closedOpenings e.1.core e.1.core)
    states.zipIdx .empty

theorem itemMap_eq : itemMap = Automaton.itemMap := by
  simp only [itemMap, sweep_eq, putting_eq, closure_eq, states_eq]
  rfl

noncomputable def itemsAt (state : Nat) : ItemSet := (itemMap.find state).getD 0

theorem itemsAt_eq : itemsAt = Automaton.itemsAt := by
  funext state
  rw [itemsAt, find_eq, itemMap_eq, Automaton.itemsAt]

/-! ## Lookaheads -/

noncomputable def move? (state : Nat) (s : Symbol) : Option Nat :=
  (stateMap.find state).bind fun st =>
    match s with
    | .terminal t => st.shifts.lookup t
    | .rule r => st.gotos.lookup r

theorem move?_eq (state : Nat) (s : Symbol) : move? state s = Automaton.move? state s := by
  simp only [move?, find_eq, stateMap_eq]
  rfl

noncomputable def walk : Nat → List Symbol → List (Nat × List Symbol) × Nat
  | state, [] => ([], state)
  | state, s :: rest =>
    let (found, last) := walk ((move? state s).getD 0) rest
    match s with
    | .rule r => ((hop state r, rest) :: found, last)
    | .terminal _ => (found, last)

theorem walk_eq (state : Nat) (body : List Symbol) : walk state body = Automaton.walk state body := by
  induction body generalizing state with
  | nil => rfl
  | cons s rest ih =>
    cases s <;> simp only [walk, move?_eq, ih, Automaton.walk]

noncomputable def walksOf (state : Nat) (r : Rule) : List Walk :=
  (alternatives r).map fun body =>
    let (found, last) := walk state body
    ⟨hop state r, ⟨r, body⟩, found, last⟩

theorem walksOf_eq (state : Nat) (r : Rule) : walksOf state r = Automaton.walksOf state r := by
  simp only [walksOf, walk_eq]
  rfl

noncomputable def walks : List Walk :=
  walksOf 0 .start ++
    states.zipIdx.flatMap fun (st, n) => st.gotos.flatMap fun (r, _) => walksOf n r

theorem walks_eq : walks = Automaton.walks := by
  simp only [walks, walksOf_eq, states_eq]
  rfl

noncomputable def followsAt (follows : FollowMap) (hop : Nat) : TerminalSet :=
  (NumberMap.find follows hop).getD 0

theorem followsAt_eq (follows : FollowMap) (hop : Nat) : followsAt follows hop = follows.at hop := by
  simp only [followsAt, find_eq]
  rfl

noncomputable def addFollows (follows : FollowMap) (hop : Nat) (set : TerminalSet) : FollowMap :=
  NumberMap.putting follows hop fun old => Nat.lor (old.getD 0) set

theorem addFollows_eq (follows : FollowMap) (hop : Nat) (set : TerminalSet) :
    addFollows follows hop set = follows.add hop set := by
  simp only [addFollows, putting_eq]
  rfl

noncomputable def directFollows : FollowMap :=
  sweep (fun follows w =>
    sweep (fun follows e => addFollows follows e.1 (firstOf firstSets e.2)) w.found follows)
    walks (addFollows .empty (hop 0 .start) (.of .endOfInput))

theorem directFollows_eq : directFollows = Automaton.directFollows := by
  simp only [directFollows, sweep_eq, addFollows_eq, walks_eq]
  rfl

noncomputable def inclusions : List (Nat × Nat) :=
  walks.flatMap fun w => w.found.filterMap fun (h, rest) =>
    if h != w.hop && isNullable nullableRules rest then some (w.hop, h) else none

theorem inclusions_eq : inclusions = Automaton.inclusions := by
  simp only [inclusions, walks_eq]
  rfl

noncomputable def passOn (follows : FollowMap) : FollowMap × Bool :=
  sweep (fun x e =>
    bif Nat.beq (Nat.lor (followsAt x.1 e.2) (followsAt x.1 e.1)) (followsAt x.1 e.2) then x
    else (addFollows x.1 e.2 (followsAt x.1 e.1), true)) inclusions (follows, false)

theorem passOn_eq (follows : FollowMap) : passOn follows = Automaton.passOn follows := by
  simp only [passOn, sweep_eq, followsAt_eq, addFollows_eq, inclusions_eq, Automaton.passOn]
  simp only [cond_beq]
  rfl

noncomputable def passAll : Nat → FollowMap → FollowMap
  | 0, follows => follows
  | fuel + 1, follows =>
    match passOn follows with
    | (follows, false) => follows
    | (follows, true) => passAll fuel follows

-- One step of the two recursions cannot be unfolded, since a step is then run. The step is taken
-- out of both first, as a variable.
theorem passAll_eq : passAll = Automaton.passAll := by
  have step : passOn = Automaton.passOn := funext passOn_eq
  delta passAll passAll._f Automaton.passAll Automaton.passAll._f
  generalize passOn = own at step ⊢
  generalize Automaton.passOn = pass at step ⊢
  subst step
  rfl

noncomputable def follows : FollowMap := passAll 1000 directFollows

theorem follows_eq : follows = Automaton.follows := by
  unfold follows Automaton.follows
  rw [passAll_eq, directFollows_eq]

/-! ## The automaton -/

noncomputable def reductionMap : NumberMap (List (Production × TerminalSet)) :=
  sweep (fun map w =>
    map.putting w.last fun old =>
      let old := old.getD []
      let set := followsAt follows w.hop
      if old.any (·.1 = w.production) then
        old.map fun (p, s) => if p = w.production then (p, s ||| set) else (p, s)
      else old ++ [(w.production, set)]) walks .empty

theorem reductionMap_eq : reductionMap = Automaton.reductionMap := by
  simp only [reductionMap, sweep_eq, putting_eq, followsAt_eq, follows_eq, walks_eq]
  rfl

noncomputable def ofGrammar : Automaton where
  rows := (states.zipIdx.map fun (st, n) =>
    { shifts := st.shifts
      gotos := st.gotos
      reductions := (reductionMap.find n).getD [] }).toArray

theorem ofGrammar_eq : ofGrammar = Automaton.ofGrammar := by
  simp only [ofGrammar, find_eq, states_eq, reductionMap_eq]
  rfl

end Automaton.Swift

end SyntaxAtlas
