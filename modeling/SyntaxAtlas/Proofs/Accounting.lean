-- The accounts of a parse. Each repair takes one from the budget and leaves one
-- trace: a missing token in the tree, a lexeme that was dropped, or a character
-- that was skipped. So the repairs can be counted in what comes of the parse.

import SyntaxAtlas.Proofs.Lossless

namespace SyntaxAtlas

open Lexeme (Scans)

/-! ## The traces of repairs -/

namespace Repair

/-- A repair that puts in a missing token. -/
def isInserted : Repair → Bool
  | inserted .. => true
  | _ => false

/-- The lexeme that a repair drops. -/
def dropped? : Repair → Option Lexeme
  | dropped l => some l
  | _ => none

/-- The offset of the character that a repair skips. -/
def skipped? : Repair → Option Nat
  | skipped _ offset => some offset
  | _ => none

/-- The offset of the text that a repair leaves out of the tree. -/
def lost? : Repair → Option Nat
  | skipped _ offset => some offset
  | inserted .. => none
  | dropped l => some l.start

theorem length_eq_traces (repairs : List Repair) :
    repairs.length = repairs.countP isInserted + (repairs.filterMap dropped?).length +
      (repairs.filterMap skipped?).length := by
  induction repairs with
  | nil => rfl
  | cons r rest ih =>
    cases r <;>
      simp [isInserted, dropped?, skipped?, List.filterMap_cons, List.countP_cons, ih] <;> omega

theorem sublist_lost (repairs : List Repair) :
    ((repairs.filterMap dropped?).map (·.start)).Sublist (repairs.filterMap lost?) ∧
      (repairs.filterMap skipped?).Sublist (repairs.filterMap lost?) := by
  induction repairs with
  | nil => simp
  | cons r rest ih =>
    obtain ⟨dropped, skipped⟩ := ih
    cases r with
    | skipped c offset => exact ⟨dropped.cons offset, skipped.cons_cons offset⟩
    | inserted t before => exact ⟨dropped, skipped⟩
    | dropped l => exact ⟨dropped.cons_cons l.start, skipped.cons l.start⟩

end Repair

namespace Session

/-- The offsets of the characters that were skipped. -/
def skipped (s : Session) : List Nat := s.repairs.filterMap Repair.skipped?

/-! ## What is paid, and what is put in or dropped -/

/-- Each repair is paid from the budget, a leaf was put in for each repair that says
so, and what is known as dropped are the lexemes that the repairs drop. -/
structure Balanced (budget : Nat) (leaves : List Leaf) (s : Session) : Prop where
  paid : s.left + s.repairs.length = budget
  inserted : s.repairs.countP Repair.isInserted = leaves.countP Leaf.isInserted
  dropped : s.dropped =
    (s.repairs.filterMap Repair.dropped?).map fun l => ((l.start : Int), (l.stop : Int))

variable {budget left : Nat} {leaves : List Leaf} {s : Session}

theorem balanced_start (budget : Nat) : Balanced budget [] { left := budget } :=
  ⟨rfl, rfl, rfl⟩

/-- A leaf that was read is no repair. -/
theorem Balanced.read (h : Balanced budget leaves s) (l : Lexeme) :
    Balanced budget (leaves ++ [Recovery.leaf l]) s := by
  refine ⟨h.paid, ?_, h.dropped⟩
  simp [h.inserted, Recovery.leaf, Leaf.isInserted]

theorem Balanced.insert (h : Balanced budget leaves s) (paid : s.left = left + 1)
    (t before : Terminal) (offset : Nat) :
    Balanced budget (leaves ++ [.inserted t]) ({ s with left }.insert t before offset) := by
  have all := h.paid
  refine ⟨?_, ?_, ?_⟩
  · simp only [Session.insert, List.length_append, List.length_singleton]
    omega
  · simp [Session.insert, h.inserted, Repair.isInserted, Leaf.isInserted]
  · simp [Session.insert, h.dropped, Repair.dropped?]

theorem Balanced.drop (h : Balanced budget leaves s) (paid : s.left = left + 1) (l : Lexeme) :
    Balanced budget leaves ({ s with left }.drop l) := by
  have all := h.paid
  refine ⟨?_, ?_, ?_⟩
  · simp only [Session.drop, List.length_append, List.length_singleton]
    omega
  · simp [Session.drop, h.inserted, Repair.isInserted]
  · simp [Session.drop, h.dropped, Repair.dropped?]

theorem Balanced.skip (h : Balanced budget leaves s) (paid : s.left = left + 1) (c : Char)
    (offset : Nat) : Balanced budget leaves ({ s with left }.skip c offset) := by
  have all := h.paid
  refine ⟨?_, ?_, ?_⟩
  · simp only [Session.skip, List.length_append, List.length_singleton]
    omega
  · simp [Session.skip, h.inserted, Repair.isInserted]
  · simp [Session.skip, h.dropped, Repair.dropped?]

/-! ## What is lost, and where it stood -/

/-- A character of a source that starts no lexeme, whatever is wanted. -/
def StrayAt (source : List Char) (offset : Nat) : Prop :=
  offset < source.length ∧
    ∀ t n, Lexeme.scan Lexeme.anything (source.drop offset) ≠ some (some t, n + 1)

/-- The texts that the repairs leave out stand one behind the other before an offset
of the source. The skipped ones start no lexeme. -/
structure Located (source : List Char) (stop : Nat) (s : Session) : Prop where
  ordered : (s.repairs.filterMap Repair.lost?).Pairwise (· < ·)
  before : ∀ offset ∈ s.repairs.filterMap Repair.lost?, offset < stop
  stray : ∀ offset ∈ s.skipped, StrayAt source offset

variable {source : List Char} {stop : Nat}

theorem located_start (source : List Char) (budget : Nat) :
    Located source 0 { left := budget } := by
  refine ⟨.nil, ?_, ?_⟩ <;> simp [skipped]

theorem Located.mono (h : Located source stop s) {stop' : Nat} (le : stop ≤ stop') :
    Located source stop' s :=
  ⟨h.ordered, fun offset mem => Nat.lt_of_lt_of_le (h.before offset mem) le, h.stray⟩

theorem Located.insert (h : Located source stop s) (left : Nat) (t before : Terminal)
    (offset : Nat) : Located source stop ({ s with left }.insert t before offset) := by
  have same : ({ s with left }.insert t before offset).repairs.filterMap Repair.lost? =
      s.repairs.filterMap Repair.lost? := by
    simp [Session.insert, Repair.lost?]
  refine ⟨?_, ?_, ?_⟩
  · rw [same]
    exact h.ordered
  · rw [same]
    exact h.before
  · intro offset' mem
    apply h.stray
    simpa [skipped, Session.insert, Repair.skipped?] using mem

/-- One more text that is left out stands behind all others. -/
theorem Located.lose (h : Located source stop s) {s' : Session} {offset stop' : Nat}
    (more : s'.repairs.filterMap Repair.lost? = s.repairs.filterMap Repair.lost? ++ [offset])
    (le : stop ≤ offset) (lt : offset < stop') (stray : ∀ o ∈ s'.skipped, StrayAt source o) :
    Located source stop' s' := by
  refine ⟨?_, ?_, stray⟩
  · rw [more, List.pairwise_append]
    refine ⟨h.ordered, List.pairwise_singleton _ _, fun o mem o' mem' => ?_⟩
    rw [List.mem_singleton.1 mem']
    exact Nat.lt_of_lt_of_le (h.before o mem) le
  · rw [more]
    intro o mem
    rcases List.mem_append.1 mem with mem | mem
    · have := h.before o mem
      omega
    · rwa [List.mem_singleton.1 mem]

theorem Located.drop (h : Located source stop s) (left : Nat) {l : Lexeme} {stop' : Nat}
    (le : stop ≤ l.start) (lt : l.start < stop') :
    Located source stop' ({ s with left }.drop l) := by
  refine h.lose (by simp [Session.drop, Repair.lost?]) le lt fun o mem => h.stray o ?_
  simpa [skipped, Session.drop, Repair.skipped?] using mem

theorem Located.skip (h : Located source stop s) (left : Nat) (c : Char) {offset : Nat}
    (le : stop ≤ offset) (stray : StrayAt source offset) :
    Located source (offset + 1) ({ s with left }.skip c offset) := by
  refine h.lose (by simp [Session.skip, Repair.lost?]) le (Nat.lt_succ_self offset) fun o mem => ?_
  have : o ∈ s.skipped ∨ o = offset := by
    simpa [skipped, Session.skip, Repair.skipped?] using mem
  rcases this with mem | rfl
  · exact h.stray o mem
  · exact stray

end Session

/-! ## The accounts of a run -/

namespace Recovery

open Session (Balanced Located)

variable {a : Automaton} {budget : Nat} {source : List Char}

theorem start_lt_of_scans {w : Lexeme.Wanted} {l : Lexeme} {after : Lexeme.Cursor}
    (scans : Scans w source l after) : l.start < after.offset := by
  obtain ⟨n, _, _, rfl⟩ := scans.scanned
  simp only [Lexeme.Cursor.at]
  omega

/-- What does not fit ends behind its start. -/
theorem Unfit.start_lt {x : Situation} {l : Lexeme} {after : Lexeme.Cursor} {mid : Stack}
    (unfit : Unfit a x l after mid) (kept : Kept a budget source x) : l.start < after.offset := by
  have holds := kept.holds
  cases unfit with
  | stuck read fed =>
    rw [read] at holds
    exact start_lt_of_scans holds.2
  | misplaced read =>
    rw [read] at holds
    exact start_lt_of_scans holds.2.2

/-- One step keeps the accounts balanced. -/
theorem Balanced.step (sound : a.Sound) {x y : Situation} (kept : Kept a budget source x)
    (h : Balanced budget (Stack.yield x.stack) x.session) (step : Step a x y) :
    Balanced budget (Stack.yield y.stack) y.session := by
  cases step with
  | @shifted l after stack read fed =>
    rw [(kept.valid.shifted sound fed).2]
    exact h.read l
  | @inserted l after mid stack t left unfit paid found =>
    obtain ⟨valid, same, _⟩ := kept.unfit sound unfit
    obtain ⟨_, _, same'⟩ := valid_of_insertBefore sound valid found
    rw [same', same]
    exact (h.insert paid t l.terminal l.start).read l
  | @dropped l after mid left unfit paid none =>
    rw [(kept.unfit sound unfit).2.1]
    exact h.drop paid l
  | @skipped c offset after left read paid => exact h.skip paid c offset

/-- One step leaves out text behind what was left out before. -/
theorem Located.step (sound : a.Sound) {x y : Situation} (kept : Kept a budget source x)
    (h : Located source x.cursor.offset x.session) (step : Step a x y) :
    Located source y.cursor.offset y.session := by
  have holds := kept.holds
  cases step with
  | @shifted l after stack read fed =>
    rw [read] at holds
    exact h.mono (Nat.le_of_lt (Nat.lt_of_le_of_lt holds.1.le (start_lt_of_scans holds.2)))
  | @inserted l after mid stack t left unfit paid found =>
    obtain ⟨_, _, start, _⟩ := kept.unfit sound unfit
    have le : x.cursor.offset ≤ after.offset :=
      Nat.le_trans start (Nat.le_of_lt (unfit.start_lt kept))
    exact (h.mono le).insert left t l.terminal l.start
  | @dropped l after mid left unfit paid none =>
    obtain ⟨_, _, start, _⟩ := kept.unfit sound unfit
    exact h.drop left start (unfit.start_lt kept)
  | @skipped c offset after left read paid =>
    rw [read] at holds
    obtain ⟨gap, _, noLexeme, here, rfl⟩ := holds
    refine h.skip left c gap.le ⟨?_, noLexeme⟩
    have room := congrArg List.length here
    simp only [List.length_drop, List.length_cons] at room
    omega

theorem Reached.accounts (sound : a.Sound) {x : Situation} (reached : Reached a budget source x) :
    Balanced budget (Stack.yield x.stack) x.session ∧
      Located source x.cursor.offset x.session := by
  induction reached with
  | start => exact ⟨Session.balanced_start budget, Session.located_start source budget⟩
  | step before step ih =>
    have kept := before.kept sound
    exact ⟨Balanced.step sound kept ih.1 step, Located.step sound kept ih.2 step⟩

/-- At the end of the input only missing tokens are put in, each of them paid. -/
theorem Finishes.accounts (sound : a.Sound) {size stop : Nat} {stack : Stack} {s s' : Session}
    {tree : ParseTree} (valid : Stack.Valid a stack)
    (balanced : Balanced budget (Stack.yield stack) s) (located : Located source stop s)
    (finishes : Finishes a size stack s tree s') :
    Balanced budget tree.yield s' ∧ Located source stop s' := by
  induction finishes with
  | accepted fed =>
    rw [(valid.accepted sound fed).2.2]
    exact ⟨balanced, located⟩
  | reduced fed _ ih =>
    obtain ⟨valid', same⟩ := valid.stuck sound fed
    exact ih valid' (same ▸ balanced) located
  | @inserted stack next s s' tree t left _ paid found _ ih =>
    obtain ⟨_, valid', same⟩ := valid_of_insertOn sound valid found
    apply ih valid'
    · rw [same]
      exact balanced.insert paid t .endOfInput size
    · exact located.insert left t .endOfInput size

/-- The accounts of a parse that succeeds. -/
theorem parse_accounts (sound : a.Sound) {tree : ParseTree} {s : Session}
    (h : parse a budget source = .ok (tree, s)) :
    Balanced budget tree.yield s ∧ ∃ stop, Located source stop s := by
  obtain ⟨x, reached, _, finishes⟩ := parse_runs sound h
  obtain ⟨balanced, located⟩ := reached.accounts sound
  obtain ⟨balanced', located'⟩ := finishes.accounts sound (reached.kept sound).valid balanced located
  exact ⟨balanced', _, located'⟩

end Recovery

/-! ## Missing tokens -/

theorem countP_missing_plain (ts : List Token) :
    (ts.map Token.plain).countP Token.isMissing = ts.countP Token.isMissing := by
  rw [List.countP_map]
  rfl

/-- A leaf that was put in is one missing token, and one that was read is none. -/
theorem countP_missing_leaves {P : Lexeme → Prop} {i j : Nat} {leaves : List Leaf}
    (ordered : Ordered P i leaves j) :
    (leaves.flatMap Leaf.tokens).countP Token.isMissing = leaves.countP Leaf.isInserted := by
  induction leaves generalizing i with
  | nil => rfl
  | cons leaf rest ih =>
    rw [List.flatMap_cons, List.countP_append, List.countP_cons]
    cases leaf with
    | inserted t =>
      have one : (Leaf.inserted t).tokens.countP Token.isMissing = 1 := by
        rw [Leaf.tokens_inserted ordered.1]
        rfl
      rw [ih ordered.2, one]
      simp [Leaf.isInserted, Nat.add_comm]
    | read t text start =>
      have none : (Leaf.read t text start).tokens.countP Token.isMissing = 0 := by
        unfold Leaf.tokens
        split <;> rfl
      rw [ih ordered.2.2, none]
      simp [Leaf.isInserted]

theorem countP_missing_attached {source : List Char} {ts us : List Token}
    (attached : List.Forall₂ (Attached source) ts us) :
    us.countP Token.isMissing = ts.countP Token.isMissing := by
  induction attached with
  | nil => rfl
  | @cons t u ts us first _ ih =>
    simp [List.countP_cons, ih, first.isMissing]

/-- The missing tokens of a parsed source are the leaves that were put in. -/
theorem countP_missing_parsed {budget : Nat} {file source : String} {p : Parsed}
    (parsed : parse budget file source = .ok p) :
    ∃ tree s, Recovery.parse .ofGrammar budget source.toList = .ok (tree, s) ∧
      p.recoveries = budget - s.left ∧
      p.root.tokens.countP Token.isMissing = tree.yield.countP Leaf.isInserted := by
  obtain ⟨tree, s, root, accepted, built, rfl⟩ := parse_eq_ok_iff.1 parsed
  obtain ⟨_, _, _, ordered⟩ := Recovery.parse_ordered Automaton.ofGrammar_sound accepted
  have leaves := leaves_of_toTree Automaton.ofGrammar_sound accepted built
  refine ⟨tree, s, accepted, rfl, ?_⟩
  rw [Tree.tokens_attachTrivia_assignSpans, countP_missing_attached (attach_attached _ _ _),
    ← countP_missing_plain, leaves, List.countP_append, countP_missing_leaves ordered]
  rfl

/-! ## The whole account -/

/-- The recoveries of a parsed source are within the budget, and they are the missing
tokens of its tree, the dropped lexemes and the skipped characters together. No lexeme is
recorded twice, no character is skipped twice, and each skipped one starts no lexeme. -/
theorem recoveries_eq_traces {budget : Nat} {file source : String} {p : Parsed}
    (parsed : parse budget file source = .ok p) :
    ∃ tree s, Recovery.parse .ofGrammar budget source.toList = .ok (tree, s) ∧
      p.recoveries ≤ budget ∧
      p.recoveries =
        p.root.tokens.countP Token.isMissing + s.dropped.length + s.skipped.length ∧
      (s.dropped.map (·.1)).Nodup ∧ s.skipped.Nodup ∧
      (∀ offset ∈ s.skipped, Session.StrayAt source.toList offset) ∧
      (p.recoveries = 0 ↔
        (∀ t ∈ p.root.tokens, t.isMissing = false) ∧ s.dropped = [] ∧ s.skipped = []) := by
  obtain ⟨tree, s, accepted, recoveries, missing⟩ := countP_missing_parsed parsed
  obtain ⟨balanced, stop, located⟩ := Recovery.parse_accounts Automaton.ofGrammar_sound accepted
  have paid := balanced.paid
  have traces := Repair.length_eq_traces s.repairs
  have total : p.recoveries =
      p.root.tokens.countP Token.isMissing + s.dropped.length + s.skipped.length := by
    have dropped : s.dropped.length = (s.repairs.filterMap Repair.dropped?).length := by
      rw [balanced.dropped, List.length_map]
    rw [missing, ← balanced.inserted, dropped, Session.skipped, ← traces]
    omega
  have lost := located.ordered.imp Nat.ne_of_lt
  obtain ⟨droppedLost, skippedLost⟩ := Repair.sublist_lost s.repairs
  refine ⟨tree, s, accepted, by omega, total, ?_, lost.sublist skippedLost, located.stray, ?_⟩
  · have starts := lost.sublist droppedLost
    rw [balanced.dropped, List.map_map]
    rw [List.pairwise_map] at starts
    rw [List.Nodup, List.pairwise_map]
    exact starts.imp fun apart same => apart (Int.ofNat.inj same)
  · rw [total]
    constructor
    · intro zero
      refine ⟨?_, List.length_eq_zero_iff.1 (by omega), List.length_eq_zero_iff.1 (by omega)⟩
      have none : p.root.tokens.countP Token.isMissing = 0 := by omega
      intro t ht
      simpa using List.countP_eq_zero.1 none t ht
    · rintro ⟨present, dropped, skipped⟩
      have none : p.root.tokens.countP Token.isMissing = 0 :=
        List.countP_eq_zero.2 fun t ht => by simp [present t ht]
      simp [none, dropped, skipped]

/-- A stray character, a token too few and a token too many make three recoveries. -/
theorem recoveries_eq_traces_of_repaired :
    ∃ p tree s, parse 3 standardFile "f($\"a\" ]" = .ok p ∧
      Recovery.parse .ofGrammar 3 "f($\"a\" ]".toList = .ok (tree, s) ∧ p.recoveries = 3 ∧
      p.root.tokens.countP Token.isMissing + s.dropped.length + s.skipped.length = 3 := by
  obtain ⟨p, parsed, repairs⟩ := exists_ok_of_toOption parse_samples.1
  obtain ⟨tree, s, accepted, _, total, _⟩ := recoveries_eq_traces parsed
  exact ⟨p, tree, s, parsed, accepted, repairs, total.symm.trans repairs⟩

end SyntaxAtlas
