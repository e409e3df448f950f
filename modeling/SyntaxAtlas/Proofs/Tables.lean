-- What the rows of the automaton can hold. Every reduction is a production of the
-- grammar, and that of the start rule stands in one row only, which from the
-- start nothing but a whole file leads to.

import SyntaxAtlas.Machine
import Mathlib.Algebra.Ring.Nat

namespace SyntaxAtlas

/-! ## Maps from numbers -/

namespace NumberMap

variable {α : Type}

@[simp] theorem get?_empty (n : Nat) : (empty : NumberMap α).get? n = none := rfl

/-- Changing the entry of a key changes that entry and no other. -/
theorem get?_alter (change : Option α → Option α) {bits key : Nat} (n : Nat) (m : NumberMap α)
    (small : key < 2 ^ bits) :
    (alter change bits key m).get? n = if n = key then change (m.get? key) else m.get? n := by
  induction bits generalizing key n m with
  | zero =>
    obtain rfl : key = 0 := by omega
    cases m <;> by_cases n = 0 <;> simp_all [alter, get?]
  | succ bits ih =>
    have half : key / 2 < 2 ^ bits := by omega
    have apart : n ≠ key → n % 2 = key % 2 → n / 2 ≠ key / 2 := by omega
    cases m <;> by_cases isZero : key = 0 <;> by_cases even : key % 2 = 0 <;>
      by_cases n = 0 <;> by_cases n % 2 = 0 <;> by_cases n = key <;>
      simp_all [alter, get?]

/-- Whatever the key is, no entry becomes anything but its change. -/
theorem get?_alter_cases (change : Option α → Option α) (bits key n : Nat) (m : NumberMap α) :
    (alter change bits key m).get? n = m.get? n ∨
      (alter change bits key m).get? n = change (m.get? n) := by
  induction bits generalizing key n m with
  | zero => cases m <;> by_cases n = 0 <;> simp_all [alter, get?]
  | succ bits ih =>
    cases m with
    | empty =>
      have even := ih (key / 2) (n / 2) empty
      by_cases key = 0 <;> by_cases key % 2 = 0 <;> by_cases n = 0 <;> by_cases n % 2 = 0 <;>
        simp_all [alter, get?]
    | node zero even odd =>
      have even' := ih (key / 2) (n / 2) even
      have odd' := ih (key / 2) (n / 2) odd
      by_cases key = 0 <;> by_cases key % 2 = 0 <;> by_cases n = 0 <;> by_cases n % 2 = 0 <;>
        simp_all [alter, get?]

theorem get?_zero_alter (change : Option α → Option α) {bits key : Nat} (m : NumberMap α)
    (nonzero : key ≠ 0) : (alter change (bits + 1) key m).get? 0 = m.get? 0 := by
  cases m <;> by_cases key % 2 = 0 <;> simp_all [alter, get?]

end NumberMap

namespace Automaton

open Grammar

/-! ## The numbers of the states -/

theorem Shelves.slot_lt (core : ItemSet) : Shelves.slot core < 2 ^ NumberMap.keyBits :=
  Nat.lt_trans (Nat.mod_lt core (by decide)) (by decide)

theorem Shelves.find?_modify (shelves : Shelves) (core c : ItemSet) (n : Nat) :
    Shelves.find? (NumberMap.modify shelves (Shelves.slot core) fun shelf =>
      (core, n) :: shelf.getD []) c = if c = core then some n else shelves.find? c := by
  unfold Shelves.find? NumberMap.modify
  rw [NumberMap.get?_alter _ _ _ (Shelves.slot_lt core)]
  by_cases same : c = core
  · subst same
    simp
  · by_cases shelf : Shelves.slot c = Shelves.slot core
    · rw [shelf]
      rcases NumberMap.get? shelves (Shelves.slot core) with _ | entries <;>
        simp [same, List.lookup_cons, beq_eq_false_iff_ne.2 same]
    · simp [same, shelf]

/-- Different cores have different numbers, all below the count. -/
structure Found.Numbered (found : Found) : Prop where
  below : ∀ core n, found.shelves.find? core = some n → n < found.count
  injective : ∀ core core' n, found.shelves.find? core = some n →
    found.shelves.find? core' = some n → core = core'

/-- What a numbering knows, a later one knows too. -/
def Found.Extends (later earlier : Found) : Prop :=
  ∀ core n, earlier.shelves.find? core = some n → later.shelves.find? core = some n

theorem Found.number_numbered {found : Found} (numbered : found.Numbered) (core : ItemSet) :
    (found.number core).1.Numbered ∧ (found.number core).1.Extends found ∧
      (found.number core).1.shelves.find? core = some (found.number core).2 ∧
      (found.number core).1.count ≤ found.count + 1 := by
  unfold Found.number
  rcases known : found.shelves.find? core with _ | n
  · simp only
    refine ⟨⟨?_, ?_⟩, ?_, ?_, Nat.le_refl _⟩
    · intro c n found'
      change n < found.count + 1
      rw [Shelves.find?_modify] at found'
      split at found'
      · simp only [Option.some.injEq] at found'
        omega
      · have := numbered.below c n found'
        omega
    · intro c c' n found' found''
      rw [Shelves.find?_modify] at found' found''
      split at found' <;> split at found''
      · simp_all
      · have := numbered.below c' n found''
        simp only [Option.some.injEq] at found'
        omega
      · have := numbered.below c n found'
        simp only [Option.some.injEq] at found''
        omega
      · exact numbered.injective c c' n found' found''
    · intro c n found'
      rw [Shelves.find?_modify]
      split
      · simp_all
      · exact found'
    · rw [Shelves.find?_modify, if_pos rfl]
  · exact ⟨numbered, fun _ _ h => h, known, Nat.le_succ _⟩

theorem Found.numberAll_numbered {α : Type} {found : Found} (numbered : found.Numbered)
    (cores : List (α × ItemSet)) :
    (found.numberAll cores).1.Numbered ∧ (found.numberAll cores).1.Extends found ∧
      (found.numberAll cores).1.count ≤ found.count + cores.length ∧
      ∀ x n, (x, n) ∈ (found.numberAll cores).2 → ∃ core, (x, core) ∈ cores ∧
        (found.numberAll cores).1.shelves.find? core = some n := by
  induction cores generalizing found with
  | nil => exact ⟨numbered, fun _ _ h => h, Nat.le_refl _, fun _ _ h => (by cases h)⟩
  | cons c rest ih =>
    obtain ⟨numbered', extends', known, count⟩ := found.number_numbered numbered c.2
    obtain ⟨numbered'', extends'', count', all⟩ := ih numbered'
    refine ⟨numbered'', fun core n h => extends'' core n (extends' core n h), ?_, ?_⟩
    · simp only [Found.numberAll, List.length_cons]
      omega
    · intro x n hx
      rcases List.mem_cons.1 hx with same | hx
      · obtain ⟨rfl, rfl⟩ := Prod.mk.inj same
        exact ⟨c.2, List.mem_cons_self, extends'' _ _ known⟩
      · obtain ⟨core, hcore, found'⟩ := all x n hx
        exact ⟨core, List.mem_cons_of_mem _ hcore, found'⟩

/-! ## Items -/

theorem testBit_foldl_bits {α : Type} (xs : List α) (P : α → Prop) [DecidablePred P]
    (bit : α → Nat) (set n : Nat) :
    (xs.foldl (fun set x => if P x then set ||| 1 <<< bit x else set) set).testBit n = true ↔
      set.testBit n = true ∨ ∃ x ∈ xs, P x ∧ bit x = n := by
  induction xs generalizing set with
  | nil => simp
  | cons x xs ih =>
    rw [List.foldl_cons, ih]
    by_cases holds : P x <;>
      simp [holds, Nat.testBit_or, Nat.one_shiftLeft, Nat.testBit_two_pow, or_assoc]

/-- The items with the dot before a symbol are where a body has the symbol. -/
theorem testBit_dotted (s : Symbol) (n : Nat) :
    (dotted s).testBit n = true ↔
      ∃ entry ∈ numbered, ∃ place ∈ entry.2.body.zipIdx,
        place.1 = s ∧ 8 * entry.1 + place.2 = n := by
  have all : ∀ (entries : List (Nat × Production)) (set : Nat),
      (entries.foldl (fun set entry => entry.2.body.zipIdx.foldl (fun set place =>
        if place.1 = s then set ||| 1 <<< (8 * entry.1 + place.2) else set) set) set).testBit n =
          true ↔
        set.testBit n = true ∨ ∃ entry ∈ entries, ∃ place ∈ entry.2.body.zipIdx,
          place.1 = s ∧ 8 * entry.1 + place.2 = n := by
    intro entries
    induction entries with
    | nil => simp
    | cons entry entries ih =>
      intro set
      rw [List.foldl_cons, ih, testBit_foldl_bits]
      simp [or_assoc]
  unfold dotted
  rw [all]
  simp

theorem mem_numbered {i : Nat} {p : Production} :
    (i, p) ∈ numbered ↔ productions[i]? = some p := by
  simp only [numbered, List.mem_map, Prod.mk.injEq, Prod.exists, List.mk_mem_zipIdx_iff_getElem?]
  constructor
  · rintro ⟨_, _, found, rfl, rfl⟩
    exact found
  · exact fun found => ⟨p, i, found, rfl, rfl⟩

theorem productions_zero : productions[0]? = some ⟨.start, [.rule (.node .sourceFile)]⟩ := rfl

/-- The first item has the dot before a whole file. -/
theorem testBit_dotted_zero {s : Symbol} :
    (dotted s).testBit 0 = true ↔ s = .rule (.node .sourceFile) := by
  rw [testBit_dotted]
  constructor
  · rintro ⟨⟨i, p⟩, hp, ⟨t, d⟩, ht, rfl, zero⟩
    obtain ⟨rfl, rfl⟩ : i = 0 ∧ d = 0 := by simp only at zero; omega
    rw [mem_numbered, productions_zero, Option.some.injEq] at hp
    subst hp
    simpa using ht
  · rintro rfl
    exact ⟨_, mem_numbered.2 productions_zero, _, List.mem_singleton_self _, rfl, rfl⟩

/-! ## The states -/

theorem explore_cons (fuel : Nat) (core : ItemSet) (queue : List ItemSet) (found : Found) :
    explore (fuel + 1) (core :: queue) found = (found.opened core).2 ::
      explore fuel (queue ++ (found.opened core).1.fresh.reverse)
        { (found.opened core).1 with fresh := [] } := by
  rw [explore]

theorem mem_explore {fuel : Nat} {queue : List ItemSet} {found : Found} {st : State}
    (h : st ∈ explore fuel queue found) : ∃ found' core, st = (Found.opened found' core).2 := by
  induction fuel generalizing queue found with
  | zero => simp [explore] at h
  | succ fuel ih =>
    cases queue with
    | nil => simp [explore] at h
    | cons core queue =>
      rw [explore_cons] at h
      rcases List.mem_cons.1 h with rfl | h
      · exact ⟨found, core, rfl⟩
      · exact ih h

/-- The numbering with the start alone. -/
def startFound : Found := { (Found.number ⟨.empty, 0, []⟩ startCore).1 with fresh := [] }

theorem states_eq : states = explore 1000 [startCore] startFound := rfl

theorem startFound_numbered : startFound.Numbered := by
  have none : (⟨.empty, 0, []⟩ : Found).Numbered :=
    ⟨fun _ _ h => (by cases h), fun _ _ _ h => (by cases h)⟩
  obtain ⟨numbered, _⟩ := Found.number_numbered none startCore
  exact ⟨numbered.below, numbered.injective⟩

theorem numberAll_names {α : Type} (found : Found) (cores : List (α × ItemSet)) :
    (found.numberAll cores).2.map (·.1) = cores.map (·.1) := by
  induction cores generalizing found with
  | nil => rfl
  | cons c rest ih => simp [Found.numberAll, ih]

theorem mem_advance {α : Type} {items core : ItemSet} {dots : List (α × ItemSet)} {x : α}
    (h : (x, core) ∈ advance items dots) :
    ∃ before, (x, before) ∈ dots ∧ items &&& before ≠ 0 ∧ core = (items &&& before) <<< 1 := by
  obtain ⟨⟨x', before⟩, hmem, advanced⟩ := List.mem_filterMap.1 h
  simp only [Option.ite_none_left_eq_some, Option.some.injEq, Prod.mk.injEq] at advanced
  obtain ⟨nonzero, rfl, same⟩ := advanced
  exact ⟨before, hmem, nonzero, same.symm⟩

theorem expand_gotos_names (found : Found) (core : ItemSet) (shifts : List (Terminal × ItemSet))
    (gotos : List (Rule × ItemSet)) :
    (found.expand core shifts gotos).2.gotos.map (·.1) = gotos.map (·.1) :=
  numberAll_names _ _

/-- The start rule stands in no body, so no dot moves over it. -/
theorem start_not_mem_advance (items : ItemSet) :
    .start ∉ (advance items dottedRules).map (·.1) := by
  have none : dotted (.rule .start) = 0 := by decide +kernel
  intro mem
  obtain ⟨⟨r, moved⟩, hmem, rfl⟩ := List.mem_map.1 mem
  obtain ⟨before, hbefore, nonzero, _⟩ := mem_advance hmem
  obtain ⟨r, _, same⟩ := List.mem_map.1 hbefore
  obtain ⟨rfl, rfl⟩ := Prod.mk.inj same
  exact nonzero (by rw [none, Nat.and_zero])

theorem expand_shifts_names (found : Found) (core : ItemSet) (shifts : List (Terminal × ItemSet))
    (gotos : List (Rule × ItemSet)) :
    (found.expand core shifts gotos).2.shifts.map (·.1) = shifts.map (·.1) :=
  numberAll_names _ _

/-- A state leads over terminals that can be read. -/
theorem lexical_of_mem_shifts {st : State} (h : st ∈ states) {t : Terminal} {n : Nat}
    (mem : (t, n) ∈ st.shifts) : t ∈ Terminal.lexical := by
  rw [states_eq] at h
  obtain ⟨found, core, rfl⟩ := mem_explore h
  have named := List.mem_map_of_mem (f := Prod.fst) mem
  rw [Found.opened, expand_shifts_names] at named
  obtain ⟨⟨t', moved⟩, hmem, rfl⟩ := List.mem_map.1 named
  obtain ⟨_, hbefore, _, _⟩ := mem_advance hmem
  obtain ⟨t, ht, same⟩ := List.mem_map.1 hbefore
  obtain ⟨rfl, _⟩ := Prod.mk.inj same
  exact ht

theorem start_not_mem_gotos {st : State} (h : st ∈ states) : .start ∉ st.gotos.map (·.1) := by
  rw [states_eq] at h
  obtain ⟨found, core, rfl⟩ := mem_explore h
  rw [Found.opened, expand_gotos_names]
  exact start_not_mem_advance _

/-! ## The state behind a whole file -/

theorem testBit_foldl_or {α : Type} (xs : List α) (P : α → Prop) [DecidablePred P]
    (bits : α → Nat) {set n : Nat} (h : set.testBit n = true) :
    (xs.foldl (fun set x => if P x then set else set ||| bits x) set).testBit n = true := by
  induction xs generalizing set with
  | nil => exact h
  | cons x xs ih =>
    rw [List.foldl_cons]
    apply ih
    split
    · exact h
    · simp [Nat.testBit_or, h]

/-- The first item stays in the first state. -/
theorem testBit_closure_startCore : (closure startCore).testBit 0 = true :=
  testBit_foldl_or _ _ _ (by decide)

/-- In the first state the first item moves for a whole file only. -/
theorem mem_advance_start {α : Type} {symbol : α → Symbol} {dots : List (α × ItemSet)}
    (dotsAre : ∀ entry ∈ dots, entry.2 = dotted (symbol entry.1)) {x : α} {core : ItemSet}
    (h : (x, core) ∈ advance (closure startCore) dots) :
    core.testBit 1 = true ↔ symbol x = .rule (.node .sourceFile) := by
  obtain ⟨before, hmem, _, moved⟩ := mem_advance h
  rw [moved, Nat.testBit_shiftLeft, ← testBit_dotted_zero, ← dotsAre _ hmem]
  simp only [ge_iff_le, Nat.le_refl, decide_true, Bool.true_and, Nat.sub_self, Nat.testBit_and,
    testBit_closure_startCore]

theorem mem_of_lookup {α β : Type} [DecidableEq α] {xs : List (α × β)} {x : α} {y : β}
    (h : xs.lookup x = some y) : (x, y) ∈ xs := by
  obtain ⟨before, after, rfl, _⟩ := List.lookup_eq_some_iff.1 h
  simp

theorem mem_advance_sourceFile :
    ∃ core, (Rule.node .sourceFile, core) ∈ advance (closure startCore) dottedRules := by
  have nonzero : closure startCore &&& dotted (.rule (.node .sourceFile)) ≠ 0 := by
    intro zero
    have bit := congrArg (Nat.testBit · 0) zero
    simp only [Nat.testBit_and, testBit_closure_startCore, testBit_dotted_zero.2,
      Nat.zero_testBit] at bit
    cases bit
  have entry : (Rule.node .sourceFile, dotted (.rule (.node .sourceFile))) ∈ dottedRules :=
    List.mem_map_of_mem (by decide)
  exact ⟨_, List.mem_filterMap.2 ⟨_, entry, if_neg nonzero⟩⟩

theorem length_advance_le {α : Type} (items : ItemSet) (dots : List (α × ItemSet)) :
    (advance items dots).length ≤ dots.length := List.length_filterMap_le _ _

/-- From the start only a whole file leads to its state. -/
theorem start_leads {shifts : List (Terminal × ItemSet)} {gotos : List (Rule × ItemSet)}
    {st : State} {file : Nat} (isShifts : shifts = advance (closure startCore) dottedTerminals)
    (isGotos : gotos = advance (closure startCore) dottedRules)
    (isState : st = (startFound.expand startCore shifts gotos).2)
    (isFile : file = (st.gotos.lookup (.node .sourceFile)).getD 0) :
    file < 2 ^ NumberMap.keyBits ∧ (∀ t n, (t, n) ∈ st.shifts → n ≠ file) ∧
      ∀ r n, (r, n) ∈ st.gotos → n = file → r = .node .sourceFile := by
  obtain ⟨numbered, _, count, shifted⟩ := startFound.numberAll_numbered startFound_numbered shifts
  obtain ⟨numbered', extends', count', gone⟩ :=
    (startFound.numberAll shifts).1.numberAll_numbered numbered gotos
  have names := expand_gotos_names startFound startCore shifts gotos
  rw [← isState] at names
  obtain ⟨n, found⟩ : ∃ n, st.gotos.lookup (.node .sourceFile) = some n := by
    obtain ⟨core, hcore⟩ := mem_advance_sourceFile
    rw [← isGotos] at hcore
    have named : Rule.node .sourceFile ∈ st.gotos.map (·.1) := by
      rw [names]
      exact List.mem_map_of_mem hcore
    obtain ⟨⟨r, n⟩, hmem, rfl⟩ := List.mem_map.1 named
    exact Option.isSome_iff_exists.1 (List.lookup_isSome_iff.2 ⟨_, hmem, by simp⟩)
  obtain rfl : file = n := by simpa [found] using isFile
  have fileMem := mem_of_lookup found
  rw [isState] at fileMem ⊢
  obtain ⟨core, hcore, known⟩ := gone _ _ fileMem
  have rules : ∀ entry ∈ dottedRules, entry.2 = dotted (.rule entry.1) := by simp [dottedRules]
  have terminals : ∀ entry ∈ dottedTerminals, entry.2 = dotted (.terminal entry.1) := by
    simp [dottedTerminals]
  -- the core behind a whole file is the only one with the second item
  have bit := (mem_advance_start rules (isGotos ▸ hcore)).2 rfl
  refine ⟨?_, ?_, ?_⟩
  · have below := numbered'.below core file known
    have start : startFound.count ≤ 1 := by decide
    have ofTerminals := isShifts ▸ length_advance_le (closure startCore) dottedTerminals
    have ofRules := isGotos ▸ length_advance_le (closure startCore) dottedRules
    have few : dottedTerminals.length + dottedRules.length < 200 := by
      simp only [dottedTerminals, dottedRules, List.length_map]
      decide
    have room : 201 < 2 ^ NumberMap.keyBits := by decide
    omega
  · rintro t n' ht rfl
    obtain ⟨core', hcore', known'⟩ := shifted t _ ht
    obtain rfl := numbered'.injective _ _ _ known (extends' _ _ known')
    cases (mem_advance_start terminals (isShifts ▸ hcore')).1 bit
  · rintro r n' hr rfl
    obtain ⟨core', hcore', known'⟩ := gone r _ hr
    obtain rfl := numbered'.injective _ _ _ known known'
    cases (mem_advance_start rules (isGotos ▸ hcore')).1 bit
    rfl

/-- The state that a whole file leads to from the start. -/
def fileState : Nat :=
  ((startFound.opened startCore).2.gotos.lookup (.node .sourceFile)).getD 0

theorem states_eq_cons : ∃ rest, states = (startFound.opened startCore).2 :: rest :=
  ⟨_, states_eq.trans (explore_cons _ _ _ _)⟩

theorem get?_zero_foldl (entries : List (State × Nat)) (map : NumberMap State)
    (nonzero : ∀ entry ∈ entries, entry.2 ≠ 0) :
    (entries.foldl (fun map entry => map.modify entry.2 fun _ => entry.1) map).get? 0 =
      map.get? 0 := by
  induction entries generalizing map with
  | nil => rfl
  | cons entry entries ih =>
    rw [List.foldl_cons, ih _ fun e he => nonzero e (List.mem_cons_of_mem _ he)]
    exact NumberMap.get?_zero_alter _ _ (nonzero entry List.mem_cons_self)

theorem stateMap_zero : stateMap.get? 0 = some (startFound.opened startCore).2 := by
  obtain ⟨rest, states⟩ := states_eq_cons
  unfold stateMap
  rw [states, List.zipIdx_cons, List.foldl_cons]
  refine (get?_zero_foldl _ _ ?_).trans rfl
  intro entry he
  have := List.le_snd_of_mem_zipIdx he
  omega

/-! ## Reductions -/

theorem walk_single (state : Nat) (s : Symbol) :
    (walk state [s]).2 = (move? state s).getD 0 := by
  cases s <;> simp only [walk]

theorem mem_walksOf {state : Nat} {r : Rule} {w : Walk} (h : w ∈ walksOf state r) :
    ∃ body ∈ alternatives r, w.production = ⟨r, body⟩ ∧ w.last = (walk state body).2 := by
  obtain ⟨body, hbody, rfl⟩ := List.mem_map.1 h
  exact ⟨body, hbody, rfl, rfl⟩

theorem fileState_facts : fileState < 2 ^ NumberMap.keyBits ∧
    (∀ t n, (t, n) ∈ (startFound.opened startCore).2.shifts → n ≠ fileState) ∧
    ∀ r n, (r, n) ∈ (startFound.opened startCore).2.gotos → n = fileState →
      r = .node .sourceFile := start_leads rfl rfl rfl rfl

theorem fileState_lt : fileState < 2 ^ NumberMap.keyBits := fileState_facts.1

/-- The walk of the start rule ends behind a whole file, and it is the only one
of that rule. -/
theorem mem_walks {w : Walk} (h : w ∈ walks) :
    w.production.body ∈ alternatives w.production.rule ∧
      (w.production.rule = .start → w.last = fileState) := by
  rcases List.mem_append.1 h with h | h
  · obtain ⟨body, hbody, production, last⟩ := mem_walksOf h
    rw [production]
    refine ⟨hbody, fun _ => ?_⟩
    obtain rfl := List.mem_singleton.1 hbody
    rw [last]
    refine (walk_single _ _).trans ?_
    unfold move? fileState
    rw [stateMap_zero, Option.bind_some]
    rfl
  · obtain ⟨⟨st, n⟩, hst, h⟩ := List.mem_flatMap.1 h
    obtain ⟨⟨r, m⟩, hr, h⟩ := List.mem_flatMap.1 h
    obtain ⟨body, hbody, production, _⟩ := mem_walksOf h
    rw [production]
    refine ⟨hbody, ?_⟩
    rintro rfl
    exact absurd (List.mem_map_of_mem hr) (start_not_mem_gotos (List.fst_mem_of_mem_zipIdx hst))

/-- The reductions of a state with that of a walk added. -/
def withWalk (w : Walk) (old : Option (List (Production × TerminalSet))) :
    List (Production × TerminalSet) :=
  if (old.getD []).any (·.1 = w.production) then
    (old.getD []).map fun (p, s) =>
      if p = w.production then (p, s ||| follows.at w.hop) else (p, s)
  else old.getD [] ++ [(w.production, follows.at w.hop)]

theorem mem_withWalk {w : Walk} {old : Option (List (Production × TerminalSet))} {p : Production}
    (h : p ∈ (withWalk w old).map (·.1)) : p = w.production ∨ p ∈ (old.getD []).map (·.1) := by
  unfold withWalk at h
  split at h
  · right
    obtain ⟨entry, he, rfl⟩ := List.mem_map.1 h
    obtain ⟨⟨p, s⟩, hp, rfl⟩ := List.mem_map.1 he
    refine List.mem_map.2 ⟨_, hp, ?_⟩
    by_cases same : p = w.production <;> simp [same]
  · obtain ⟨entry, he, rfl⟩ := List.mem_map.1 h
    rcases List.mem_append.1 he with he | he
    · exact Or.inr (List.mem_map_of_mem he)
    · exact Or.inl (by rw [List.mem_singleton.1 he])

/-- A production of the grammar; that of the start only in the state behind a
whole file. -/
def MayReduce (state : Nat) (p : Production) : Prop :=
  p.body ∈ alternatives p.rule ∧ (p.rule = .start → state = fileState)

theorem mayReduce_foldl {ws : List Walk} {map : NumberMap (List (Production × TerminalSet))}
    (walked : ∀ w ∈ ws, w ∈ walks)
    (before : ∀ n, ∀ p ∈ ((map.get? n).getD []).map (·.1), MayReduce n p) :
    ∀ n, ∀ p ∈ (((ws.foldl (fun map w => map.modify w.last (withWalk w)) map).get? n).getD
      []).map (·.1), MayReduce n p := by
  induction ws generalizing map with
  | nil => exact before
  | cons w ws ih =>
    rw [List.foldl_cons]
    refine ih (fun w' hw' => walked w' (List.mem_cons_of_mem _ hw')) ?_
    obtain ⟨legal, last⟩ := mem_walks (walked w List.mem_cons_self)
    intro n p hp
    unfold NumberMap.modify at hp
    by_cases start : w.production.rule = .start
    · rw [NumberMap.get?_alter _ _ _ (last start ▸ fileState_lt)] at hp
      split at hp
      · rename_i here
        subst here
        rcases mem_withWalk hp with rfl | hp
        · exact ⟨legal, last⟩
        · exact before _ p hp
      · exact before n p hp
    · rcases NumberMap.get?_alter_cases (fun entry => some (withWalk w entry)) NumberMap.keyBits
        w.last n map with same | changed
      · exact before n p (same ▸ hp)
      · rw [changed] at hp
        rcases mem_withWalk hp with rfl | hp
        · exact ⟨legal, fun isStart => absurd isStart start⟩
        · exact before n p hp

theorem reductionMap_eq : reductionMap =
    walks.foldl (fun map w => map.modify w.last (withWalk w)) .empty := rfl

theorem mayReduce_reductionMap {n : Nat} {p : Production}
    (h : p ∈ ((reductionMap.get? n).getD []).map (·.1)) : MayReduce n p := by
  rw [reductionMap_eq] at h
  exact mayReduce_foldl (fun _ hw => hw) (by simp) n p h

/-! ## Rows -/

/-- The automaton of some states and their reductions. -/
def ofStates (sts : List State) (reductions : NumberMap (List (Production × TerminalSet))) :
    Automaton :=
  ⟨(sts.zipIdx.map fun (st, n) =>
    { shifts := st.shifts, gotos := st.gotos, reductions := (reductions.get? n).getD [] }).toArray⟩

theorem ofGrammar_eq : ofGrammar = ofStates states reductionMap := rfl

theorem row_ofStates (sts : List State) (reductions : NumberMap (List (Production × TerminalSet)))
    (n : Nat) :
    (sts[n]? = none ∧ ((ofStates sts reductions).row n).shifts = [] ∧
        ((ofStates sts reductions).row n).reductions = []) ∨
      ∃ st, sts[n]? = some st ∧ ((ofStates sts reductions).row n).shifts = st.shifts ∧
        ((ofStates sts reductions).row n).gotos = st.gotos ∧
        ((ofStates sts reductions).row n).reductions = (reductions.get? n).getD [] := by
  unfold ofStates Automaton.row
  rcases found : sts[n]? with _ | st
  · left
    simp [Array.getD_eq_getD_getElem?, found, default]
  · right
    exact ⟨st, by simp [Array.getD_eq_getD_getElem?, found]⟩

/-- Where a state leads over a symbol. -/
def leads? (a : Automaton) (state : Nat) : Symbol → Option Nat
  | .terminal t => (a.row state).shifts.lookup t
  | .rule r => (a.row state).goto? r

/-- An automaton that shifts what can be read, and reduces productions of the
grammar, the start rule only where a whole file leads to from the start. -/
structure Sound (a : Automaton) : Prop where
  lexical : ∀ state t n, (t, n) ∈ (a.row state).shifts → t ∈ Terminal.lexical
  production : ∀ state t p, (a.row state).action? t = some (.reduce p) →
    p.body ∈ alternatives p.rule
  start : ∀ s state t p, a.leads? 0 s = some state →
    (a.row state).action? t = some (.reduce p) → p.rule = .start →
      s = .rule (.node .sourceFile)

theorem reductions_of_action? {row : Row} {t : Terminal} {p : Production}
    (h : row.action? t = some (.reduce p)) : p ∈ row.reductions.map (·.1) := by
  unfold Row.action? at h
  split at h
  · cases h
  · obtain ⟨⟨p', before⟩, found, same⟩ := Option.map_eq_some_iff.1 h
    cases same
    exact List.mem_map_of_mem (List.mem_of_find?_eq_some found)

theorem mayReduce_of_action? {state : Nat} {t : Terminal} {p : Production}
    (h : (ofGrammar.row state).action? t = some (.reduce p)) : MayReduce state p := by
  have listed := reductions_of_action? h
  rw [ofGrammar_eq] at listed
  rcases row_ofStates states reductionMap state with ⟨_, _, none⟩ | ⟨_, _, _, _, reductions⟩
  · rw [none] at listed
    cases listed
  · rw [reductions] at listed
    exact mayReduce_reductionMap listed

theorem mem_of_leads? {a : Automaton} {state n : Nat} {s : Symbol} (h : a.leads? state s = some n) :
    (∃ t, s = .terminal t ∧ (t, n) ∈ (a.row state).shifts) ∨
      ∃ r, s = .rule r ∧ (r, n) ∈ (a.row state).gotos := by
  cases s with
  | terminal t => exact Or.inl ⟨t, rfl, mem_of_lookup h⟩
  | rule r => exact Or.inr ⟨r, rfl, mem_of_lookup h⟩

/-- The automaton of the grammar reduces what it should. -/
theorem ofGrammar_sound : ofGrammar.Sound := by
  obtain ⟨_, shifts, gotos⟩ := fileState_facts
  obtain ⟨rest, first⟩ := states_eq_cons
  refine ⟨?_, fun state t p reduce => (mayReduce_of_action? reduce).1, ?_⟩
  · intro state t n mem
    rw [ofGrammar_eq] at mem
    rcases row_ofStates states reductionMap state with ⟨_, none, _⟩ | ⟨st, found, shifts, _⟩
    · rw [none] at mem
      cases mem
    · rw [shifts] at mem
      exact lexical_of_mem_shifts (List.mem_of_getElem? found) mem
  intro s state t p leads reduce start
  have file := (mayReduce_of_action? reduce).2 start
  rw [ofGrammar_eq] at leads
  rcases row_ofStates states reductionMap 0 with
    ⟨none, _⟩ | ⟨st, found, rowShifts, rowGotos, _⟩
  · rw [first, List.getElem?_cons_zero] at none
    cases none
  · rw [first, List.getElem?_cons_zero, Option.some.injEq] at found
    rcases mem_of_leads? leads with ⟨t, rfl, mem⟩ | ⟨r, rfl, mem⟩
    · rw [rowShifts, ← found] at mem
      exact absurd file (shifts t _ mem)
    · rw [rowGotos, ← found] at mem
      rw [gotos r _ mem file]

end Automaton

end SyntaxAtlas
