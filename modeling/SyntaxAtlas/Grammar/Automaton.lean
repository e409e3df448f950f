-- The LALR(1) automaton of the grammar. Its states are sets of items, which are
-- productions with a dot. A state reduces a production before the terminals
-- that follow the production's rule where the rule was entered. Where a row
-- could both shift and reduce it shifts.

import SyntaxAtlas.Grammar

namespace SyntaxAtlas

open Grammar

/-! ## Maps from numbers -/

/-- A map from numbers: the entry of zero, and the maps of the halves of the
even and of the odd keys. It branches on the bits of the key, lowest first, so
a look-up takes as many steps as the key has bits. -/
inductive NumberMap (α : Type) where
  | empty
  | node (zero : Option α) (even odd : NumberMap α)
deriving Repr

namespace NumberMap

variable {α : Type}

def get? : NumberMap α → Nat → Option α
  | empty, _ => none
  | node zero even odd, key =>
    if key = 0 then zero
    else if key % 2 = 0 then even.get? (key / 2) else odd.get? (key / 2)

/-- Changes the entry of a key that has at most `bits` bits. -/
def alter (change : Option α → Option α) : Nat → Nat → NumberMap α → NumberMap α
  | 0, _, empty => node (change none) empty empty
  | 0, _, node zero even odd => node (change zero) even odd
  | bits + 1, key, map =>
    let (zero, even, odd) := match map with
      | empty => (none, empty, empty)
      | node zero even odd => (zero, even, odd)
    if key = 0 then node (change zero) even odd
    else if key % 2 = 0 then node zero (alter change bits (key / 2) even) odd
    else node zero even (alter change bits (key / 2) odd)

/-- Keys have at most this many bits. -/
def keyBits : Nat := 16

/-- Changes the entry of a key. -/
def modify (map : NumberMap α) (key : Nat) (change : Option α → α) : NumberMap α :=
  alter (fun entry => some (change entry)) keyBits key map

end NumberMap

/-! ## Sets as numbers -/

/-- A set of terminals, each a bit. -/
abbrev TerminalSet := Nat

def TerminalSet.of (t : Terminal) : TerminalSet := 1 <<< t.code

def TerminalSet.has (s : TerminalSet) (t : Terminal) : Bool := Nat.testBit s t.code

/-- A set of rules, each a bit. -/
abbrev RuleSet := Nat

def RuleSet.has (s : RuleSet) (r : Rule) : Bool := Nat.testBit s r.code

/-- A set of items. The item of production `p` with the dot before symbol `d`
is the bit `8 * p + d`, so moving the dots on is a shift by one. -/
abbrev ItemSet := Nat

/-! ## Rows -/

/-- The row of a state: where the terminals and the rules lead, and which
production is reduced before which terminals. -/
structure Row where
  shifts : List (Terminal × Nat)
  gotos : List (Rule × Nat)
  reductions : List (Production × TerminalSet)
deriving Repr

instance : Inhabited Row := ⟨⟨[], [], []⟩⟩

/-- What to do before a terminal. -/
inductive Action
  | shift (state : Nat)
  | reduce (p : Production)
deriving DecidableEq, Repr

namespace Row

def goto? (row : Row) (r : Rule) : Option Nat := row.gotos.lookup r

/-- A shift comes first. -/
def action? (row : Row) (t : Terminal) : Option Action :=
  match row.shifts.lookup t with
  | some state => some (.shift state)
  | none => (row.reductions.find? fun (_, before) => before.has t).map fun (p, _) => .reduce p

/-- The terminals that the row has an action for. -/
def terminals (row : Row) : List Terminal :=
  (Terminal.endOfInput :: Terminal.lexical).filter fun t => (row.action? t).isSome

end Row

/-- An automaton: the rows of its states. The first state is the start. -/
structure Automaton where
  rows : Array Row

def Automaton.row (a : Automaton) (state : Nat) : Row := a.rows.getD state default

namespace Automaton

/-! ## Empty rules and first terminals -/

/-- Applies a step until nothing changes, at most `fuel` times. -/
def settle {α : Type} (same : α → α → Bool) (step : α → α) : Nat → α → α
  | 0, x => x
  | fuel + 1, x =>
    let y := step x
    if same x y then x else settle same step fuel y

/-- A body each of whose symbols can be empty. -/
def isNullable (nullable : RuleSet) : List Symbol → Bool
  | [] => true
  | .terminal _ :: _ => false
  | .rule r :: rest => nullable.has r && isNullable nullable rest

/-- Adds the rules that have an alternative of empty symbols. -/
def addNullable (nullable : RuleSet) : RuleSet :=
  productions.foldl (fun set p =>
    if isNullable nullable p.body then set ||| 1 <<< p.rule.code else set) nullable

/-- The rules that can be empty. -/
def nullableRules : RuleSet := settle Nat.beq addNullable 100 0

/-- The terminals that a body can start with, by the first sets of the rules. -/
def firstOf (firsts : List TerminalSet) : List Symbol → TerminalSet
  | [] => 0
  | .terminal t :: _ => .of t
  | .rule r :: rest =>
    firsts.getD r.code 0 ||| if nullableRules.has r then firstOf firsts rest else 0

/-- One more round of first sets. -/
def moreFirsts (firsts : List TerminalSet) : List TerminalSet :=
  rules.map fun r => (alternatives r).foldl (fun set body => set ||| firstOf firsts body) 0

/-- The terminals that each rule can start with, by the number of the rule. -/
def firstSets : List TerminalSet :=
  settle (· == ·) moreFirsts 100 (rules.map fun _ => 0)

/-! ## Items -/

/-- The productions with their numbers. -/
def numbered : List (Nat × Production) := productions.zipIdx.map fun (p, i) => (i, p)

/-- The items with the dot before a symbol. -/
def dotted (s : Symbol) : ItemSet :=
  numbered.foldl (fun set (i, p) =>
    p.body.zipIdx.foldl (fun set (t, d) => if t = s then set ||| 1 <<< (8 * i + d) else set) set) 0

/-- The items with the dot at the start of a rule's alternatives. -/
def openings (r : Rule) : ItemSet :=
  numbered.foldl (fun set (i, p) => if p.rule = r then set ||| 1 <<< (8 * i) else set) 0

/-- The rules, each with the items that have the dot before it. -/
def dottedRules : List (Rule × ItemSet) := rules.map fun r => (r, dotted (.rule r))

/-- The terminals, each with the items that have the dot before it. -/
def dottedTerminals : List (Terminal × ItemSet) :=
  Terminal.lexical.map fun t => (t, dotted (.terminal t))

/-- Adds to each rule the openings of the rules that its openings lead to. -/
def moreOpenings (opened : List (ItemSet × ItemSet)) : List (ItemSet × ItemSet) :=
  opened.map fun (before, items) =>
    (before, opened.foldl (fun set (before', items') =>
      if items &&& before' = 0 then set else set ||| items') items)

/-- For each rule: the items with the dot before it, and the items that the
dot opens there, through all rules that can stand first. -/
def closedOpenings : List (ItemSet × ItemSet) :=
  settle (· == ·) moreOpenings 100 (dottedRules.map fun (r, before) => (before, openings r))

/-- All items of a state, from those that its predecessors hand on. -/
def closure (core : ItemSet) : ItemSet :=
  closedOpenings.foldl (fun set (before, opened) =>
    if core &&& before = 0 then set else set ||| opened) core

/-- Where the dot can move to: each symbol of a list with the items behind it. -/
def advance {α : Type} (items : ItemSet) (dotted : List (α × ItemSet)) : List (α × ItemSet) :=
  dotted.filterMap fun (s, before) =>
    let moved := items &&& before
    if moved = 0 then none else some (s, moved <<< 1)

/-! ## States -/

/-- The numbers of the known states, by their cores. States share a shelf when
their cores leave the same remainder. -/
abbrev Shelves := NumberMap (List (ItemSet × Nat))

def Shelves.slot (core : ItemSet) : Nat := core % 65521

def Shelves.find? (shelves : Shelves) (core : ItemSet) : Option Nat :=
  (NumberMap.get? shelves (Shelves.slot core)).bind (·.lookup core)

/-- The states found so far: their shelves, their number, and the cores that
were found last, latest first. -/
structure Found where
  shelves : Shelves
  count : Nat
  fresh : List ItemSet

/-- The number of a core, which may be new. -/
def Found.number (found : Found) (core : ItemSet) : Found × Nat :=
  match found.shelves.find? core with
  | some n => (found, n)
  | none =>
    ({ shelves := found.shelves.modify (Shelves.slot core) fun shelf =>
         (core, found.count) :: shelf.getD []
       count := found.count + 1
       fresh := core :: found.fresh }, found.count)

/-- Numbers the cores of a list. -/
def Found.numberAll {α : Type} (found : Found) : List (α × ItemSet) → Found × List (α × Nat)
  | [] => (found, [])
  | (s, core) :: rest =>
    let (found, n) := found.number core
    let (found, numbers) := found.numberAll rest
    (found, (s, n) :: numbers)

/-- A state: its items, and where it leads. -/
structure State where
  core : ItemSet
  shifts : List (Terminal × Nat)
  gotos : List (Rule × Nat)

/-- A state, from where its dots can move to. The cores there get their numbers. -/
def Found.expand (found : Found) (core : ItemSet) (shifts : List (Terminal × ItemSet))
    (gotos : List (Rule × ItemSet)) : Found × State :=
  let shifted := found.numberAll shifts
  let gone := shifted.1.numberAll gotos
  (gone.1, ⟨core, shifted.2, gone.2⟩)

/-- The state of a core. -/
def Found.opened (found : Found) (core : ItemSet) : Found × State :=
  let items := closure core
  found.expand core (advance items dottedTerminals) (advance items dottedRules)

/-- The states from a queue on. -/
def explore : Nat → List ItemSet → Found → List State
  | 0, _, _ => []
  | _ + 1, [], _ => []
  | fuel + 1, core :: queue, found =>
    let next := found.opened core
    next.2 :: explore fuel (queue ++ next.1.fresh.reverse) { next.1 with fresh := [] }

/-- The core of the first state: the start production with the dot in front. -/
def startCore : ItemSet := 1

/-- The states of the automaton. -/
def states : List State :=
  let (found, _) := Found.number ⟨.empty, 0, []⟩ startCore
  explore 1000 [startCore] { found with fresh := [] }

/-- The states by their numbers. -/
def stateMap : NumberMap State :=
  states.zipIdx.foldl (fun map (s, n) => map.modify n fun _ => s) .empty

/-! ## Lookaheads -/

/-- The state behind a symbol. -/
def move? (state : Nat) (s : Symbol) : Option Nat :=
  (stateMap.get? state).bind fun st =>
    match s with
    | .terminal t => st.shifts.lookup t
    | .rule r => st.gotos.lookup r

/-- The move over a rule from a state, as a number. -/
def hop (state : Nat) (r : Rule) : Nat := 128 * state + r.code

/-- What a walk along a body finds: for each rule on the way its hop and the
symbols behind it, and the state at the end. -/
def walk : Nat → List Symbol → List (Nat × List Symbol) × Nat
  | state, [] => ([], state)
  | state, s :: rest =>
    let (found, last) := walk ((move? state s).getD 0) rest
    match s with
    | .rule r => ((hop state r, rest) :: found, last)
    | .terminal _ => (found, last)

/-- A production entered from a hop: the hop, the production, the hops on its
way with what is behind them, and the state at its end. -/
structure Walk where
  hop : Nat
  production : Production
  found : List (Nat × List Symbol)
  last : Nat

/-- The walks along the productions of a rule that is entered from a state. -/
def walksOf (state : Nat) (r : Rule) : List Walk :=
  (alternatives r).map fun body =>
    let (found, last) := walk state body
    ⟨hop state r, ⟨r, body⟩, found, last⟩

/-- All walks: that of the start rule, and those of every hop. -/
def walks : List Walk :=
  walksOf 0 .start ++
    states.zipIdx.flatMap fun (st, n) => st.gotos.flatMap fun (r, _) => walksOf n r

/-- The terminals that follow each hop. -/
abbrev FollowMap := NumberMap TerminalSet

def FollowMap.at (follows : FollowMap) (hop : Nat) : TerminalSet :=
  (NumberMap.get? follows hop).getD 0

def FollowMap.add (follows : FollowMap) (hop : Nat) (set : TerminalSet) : FollowMap :=
  NumberMap.modify follows hop fun old => old.getD 0 ||| set

/-- What follows each hop by itself: the end of the input after the start rule,
and what the symbols behind a hop start with. -/
def directFollows : FollowMap :=
  walks.foldl (fun follows w =>
    w.found.foldl (fun follows (h, rest) => follows.add h (firstOf firstSets rest)) follows)
    (FollowMap.add .empty (hop 0 .start) (.of .endOfInput))

/-- Pairs of hops: what follows the first also follows the second, as all that
is behind it there can be empty. -/
def inclusions : List (Nat × Nat) :=
  walks.flatMap fun w => w.found.filterMap fun (h, rest) =>
    if h != w.hop && isNullable nullableRules rest then some (w.hop, h) else none

/-- Passes followers on once along every pair, and tells whether any was new. -/
def passOn (follows : FollowMap) : FollowMap × Bool :=
  inclusions.foldl (fun (follows, changed) (outer, inner) =>
    let set := follows.at outer
    let old := follows.at inner
    if old ||| set = old then (follows, changed) else (follows.add inner set, true))
    (follows, false)

/-- Passes followers on until none is new. -/
def passAll : Nat → FollowMap → FollowMap
  | 0, follows => follows
  | fuel + 1, follows =>
    match passOn follows with
    | (follows, false) => follows
    | (follows, true) => passAll fuel follows

def follows : FollowMap := passAll 1000 directFollows

/-! ## The automaton -/

/-- The reductions at the ends of the walks, by the number of the state. -/
def reductionMap : NumberMap (List (Production × TerminalSet)) :=
  walks.foldl (fun map w =>
    map.modify w.last fun old =>
      let old := old.getD []
      let set := follows.at w.hop
      if old.any (·.1 = w.production) then
        old.map fun (p, s) => if p = w.production then (p, s ||| set) else (p, s)
      else old ++ [(w.production, set)]) .empty

/-- The automaton of the grammar. -/
def ofGrammar : Automaton where
  rows := (states.zipIdx.map fun (st, n) =>
    { shifts := st.shifts
      gotos := st.gotos
      reductions := (reductionMap.get? n).getD [] }).toArray

end Automaton

end SyntaxAtlas
