-- Which slots the children of a node go into. A symbol of the grammar says what a
-- tree can be on the outside, and where that settles whether a slot takes the
-- tree, the slots of a whole form are known without looking at any tree.

import SyntaxAtlas.Proofs.Conformity
import SyntaxAtlas.Tree.Build
import SyntaxAtlas.Grammar
import Mathlib.Data.List.Forall2

namespace SyntaxAtlas

/-! ## Lists side by side -/

theorem exists_of_forall₂ {α β : Type} {R : α → β → Prop} {as : List α} {bs : List β}
    (h : List.Forall₂ R as bs) : ∀ b ∈ bs, ∃ a ∈ as, R a b := by
  induction h with
  | nil => simp
  | cons first _ ih =>
    intro b hb
    rcases List.mem_cons.1 hb with rfl | hb
    · exact ⟨_, List.mem_cons_self, first⟩
    · obtain ⟨a, ha, related⟩ := ih b hb
      exact ⟨a, List.mem_cons_of_mem _ ha, related⟩

/-! ## What a tree is on the outside -/

/-- The symbol that shows what a tree is on the outside: the terminal of a token,
or the rule of the kind of a node. -/
def Tree.head : Tree → Option Symbol
  | .token t => some (.terminal t.terminal)
  | .node kind _ _ _ => some (.rule (.node kind))
  | .foreign _ => none

/-- What a symbol without a node of its own leaves to choose from. -/
def Symbol.widen : Symbol → List Symbol
  | .rule (.group g) => Grammar.choices g
  | .rule .expression => [.rule (.node .sequenceExpr), .rule (.group .prefixExpr)]
  | s => [s]

/-- What a tree that stands for a symbol can be on the outside. Choices are
nested at most five deep. -/
def Symbol.heads (s : Symbol) : List Symbol :=
  (((s.widen.flatMap widen).flatMap widen).flatMap widen).flatMap widen

/-- Whether a slot takes what is this on the outside. -/
def Slot.takes (slot : Slot) : Symbol → Bool
  | .terminal t => slot.accepts.any (·.spelling == t.name)
  | .rule (.node k) =>
    slot.accepts.any (fun a => a == .anyNode || a.spelling == k.name) ||
      (Catalog.describe k).any fun entry => slot.accepts.contains (.category entry.1)
  | _ => false

theorem Slot.admits_of_head {slot : Slot} {t : Tree} {s : Symbol} (fits : t.Fits)
    (head : t.head = some s) : slot.admits t = .ok (slot.takes s) := by
  cases t with
  | token t =>
    simp only [Tree.head, Option.some.injEq] at head
    subst head
    rfl
  | foreign value => simp [Tree.head] at head
  | node kind slots items state =>
    simp only [Tree.head, Option.some.injEq] at head
    subst head
    rcases described : Catalog.describe kind with _ | ⟨category, shape⟩
    · simp [Tree.Fits, described] at fits
    · simp only [Slot.admits, Slot.takes, Tree.entry, Kind.catalogued, described, Option.map_some,
        Option.any_some]
      split <;> simp_all [Except.map]

/-! ## Which slots a form fills -/

/-- The slots that children fill, when each child can be any of the symbols
given for it. There is an answer only if it does not depend on which. -/
def assign : List Slot → List (List Symbol) → Option (List Slot)
  | _, [] => some []
  | [], _ :: _ => none
  | slot :: rest, heads :: more =>
    if heads.all slot.takes then (assign rest more).map (slot :: ·)
    else if heads.any slot.takes then none
    else assign rest (heads :: more)

/-- The slots that take the separators of lists. -/
def separators : List String := ["trailingComma", "trailingPeriod"]

namespace Tree

/-- A tree that conforms to the catalog in all its parts. -/
def Sound (t : Tree) : Prop := t.Everywhere fun u => u.Fits ∧ u.Alternates

/-- A sound tree that has room for a separator. -/
structure Good (t : Tree) : Prop where
  sound : t.Sound
  unseparated : ∀ kind slots items state, t = .node kind slots items state →
    ∀ s ∈ slots, s.1 ∉ separators

/-- A good tree that is one of some symbols on the outside. -/
def Shows (heads : List Symbol) (t : Tree) : Prop := t.Good ∧ ∃ s ∈ heads, t.head = some s

theorem Shows.mono {heads heads' : List Symbol} {t : Tree} (h : t.Shows heads)
    (sub : ∀ s ∈ heads, s ∈ heads') : t.Shows heads' := by
  obtain ⟨good, s, hs, head⟩ := h
  exact ⟨good, s, sub s hs, head⟩

theorem Shows.admits {heads : List Symbol} {t : Tree} (h : t.Shows heads) {slot : Slot}
    (all : heads.all slot.takes = true) : slot.admits t = .ok true := by
  obtain ⟨good, s, hs, head⟩ := h
  rw [Slot.admits_of_head good.sound.self.1 head, List.all_eq_true.1 all s hs]

theorem Shows.not_admits {heads : List Symbol} {t : Tree} (h : t.Shows heads) {slot : Slot}
    (none : ¬ heads.any slot.takes = true) : slot.admits t = .ok false := by
  obtain ⟨good, s, hs, head⟩ := h
  rw [Slot.admits_of_head good.sound.self.1 head]
  rw [List.any_eq_true] at none
  rw [Bool.eq_false_iff.2 fun taken => none ⟨s, hs, taken⟩]

/-- A slot that does not take the next child can be left out. -/
theorem fillSlots_skip {kind : Kind} {index : Nat} {slot : Slot} {rest : List Slot} {t : Tree}
    {ts : List Tree} {filled : List (String × Tree)} (no : slot.admits t = .ok false)
    (h : fillSlots kind (index + 1) rest (t :: ts) = .ok filled) :
    fillSlots kind index (slot :: rest) (t :: ts) = .ok filled := by
  unfold fillSlots at h ⊢
  rw [findSlot, no]
  simp only [bind, Except.bind, Bool.false_eq_true, if_false] at h ⊢
  rcases found : findSlot t (index + 1) rest with e | _ | ⟨taken, slot', left⟩
  · simp [found] at h
  · rcases shown : t.description with e | d <;> simp [found, shown] at h
  · rw [found] at h
    exact h

theorem fillSlots_of_assign {slots chosen : List Slot} {heads : List (List Symbol)}
    {ts : List Tree} (kind : Kind) (index : Nat) (assigned : assign slots heads = some chosen)
    (shows : List.Forall₂ Shows heads ts) :
    fillSlots kind index slots ts = .ok ((chosen.map (·.name)).zip ts) ∧
      chosen.Sublist slots ∧
      List.Forall₂ (fun slot t => slot.admits t = .ok true) chosen ts := by
  fun_induction assign slots heads generalizing chosen ts index with
  | case1 slots =>
    cases shows
    obtain rfl : [] = chosen := Option.some.inj assigned
    exact ⟨rfl, List.nil_sublist _, .nil⟩
  | case2 => cases assigned
  | case3 slot rest heads more all ih =>
    obtain ⟨chosen', assigned', rfl⟩ := Option.map_eq_some_iff.1 assigned
    cases shows with
    | cons show' shows =>
      obtain ⟨filled, sub, admits⟩ := ih (index + 1) assigned' shows
      have taken := show'.admits all
      refine ⟨?_, sub.cons_cons slot, .cons taken admits⟩
      simp [fillSlots, findSlot, taken, filled, bind, Except.bind, pure, Except.pure]
  | case4 => cases assigned
  | case5 slot rest heads more _ none ih =>
    cases shows with
    | cons show' shows =>
      obtain ⟨filled, sub, admits⟩ := ih (index + 1) assigned (.cons show' shows)
      exact ⟨fillSlots_skip (show'.not_admits none) filled, sub.cons slot, admits⟩

/-! ## Layouts -/

theorem describe_of_isLayout {kind : Kind} (h : kind.isLayout = true) :
    ∃ category, Catalog.describe kind = some (category, .layout kind.slots) := by
  unfold Kind.isLayout at h
  unfold Kind.slots
  revert h
  rcases Catalog.describe kind with _ | ⟨category, declared | element | alternatives⟩
  · simp
  · exact fun _ => ⟨category, rfl⟩
  · simp
  · simp

/-- No two slots of a kind have one name. -/
theorem slot_names_nodup : ∀ kind ∈ Kind.registered, (kind.slots.map (·.name)).Nodup := by
  decide

theorem children_layout {kind : Kind} {names : List String} {ts : List Tree}
    (layout : kind.isLayout = true) (length : names.length = ts.length) :
    (Tree.layout kind (names.zip ts)).children = ts := by
  simp only [Tree.layout, layoutAt, children, layout, if_true]
  exact List.map_snd_zip (by omega)

theorem admits_of_mem_zip {chosen : List Slot} {ts : List Tree}
    (admits : List.Forall₂ (fun slot t => slot.admits t = .ok true) chosen ts) :
    ∀ s ∈ (chosen.map (·.name)).zip ts,
      ∃ slot ∈ chosen, slot.name = s.1 ∧ slot.admits s.2 = .ok true := by
  induction admits with
  | nil => simp
  | @cons slot t chosen ts taken _ ih =>
    intro s hs
    rcases List.mem_cons.1 hs with rfl | hs
    · exact ⟨slot, by simp, rfl, taken⟩
    · obtain ⟨slot', hslot', same⟩ := ih s hs
      exact ⟨slot', List.mem_cons_of_mem _ hslot', same⟩

theorem alternates_of_ne {kind : Kind} (slots : List (String × Tree)) (items : List Tree)
    (state : NodeState) (h : kind ≠ .sequenceExpr) :
    (Tree.node kind slots items state).Alternates := by
  unfold Alternates
  split
  · rename_i same
    cases same
    exact absurd rfl h
  · trivial

/-- Children in slots that admit them make a good node. -/
theorem good_layout {kind : Kind} {category : Category} {declared chosen : List Slot}
    {ts : List Tree} (described : Catalog.describe kind = some (category, .layout declared))
    (sub : chosen.Sublist declared) (room : ∀ s ∈ chosen, s.name ∉ separators)
    (admits : List.Forall₂ (fun slot t => slot.admits t = .ok true) chosen ts)
    (sound : ∀ t ∈ ts, t.Sound)
    (alternates : (layout kind ((chosen.map (·.name)).zip ts)).Alternates) :
    (layout kind ((chosen.map (·.name)).zip ts)).Good := by
  have isLayout : kind.isLayout = true := by simp [Kind.isLayout, described]
  have length : (chosen.map (·.name)).length = ts.length := by simp [admits.length_eq]
  constructor
  · refine everywhere_node_iff.2 ⟨⟨?_, alternates⟩, ?_⟩
    · simp only [Fits, described, true_and]
      refine ⟨?_, ?_⟩
      · rw [List.map_fst_zip (by omega)]
        exact sub.map _
      · intro s hs
        obtain ⟨slot, hslot, found⟩ := admits_of_mem_zip admits s hs
        exact ⟨slot, sub.subset hslot, found⟩
    · have same := children_layout isLayout length
      simp only [layout, layoutAt] at same
      rw [same]
      exact sound
  · intro kind' slots items state same s hs
    cases same
    obtain ⟨slot, hslot, same⟩ := List.mem_map.1 (List.of_mem_zip hs).1
    exact same ▸ room slot hslot

end Tree

end SyntaxAtlas
