-- Blanks between the lexemes of a source make no difference. Where two sources write the same
-- texts with blanks around them, each text reads alike in both, as a lexeme ends at a blank and
-- a comment that is not closed in one is not closed in the other. So a parse without repairs
-- moves alike over both, and the trees differ in their places only.

import SyntaxAtlas.Proofs.Budget
import SyntaxAtlas.Proofs.Dump
import SyntaxAtlas.Proofs.Parted
import SyntaxAtlas.Proofs.Placeless

namespace SyntaxAtlas

/-! ## Sources with blanks -/

namespace Lexeme

/-- Nothing but blanks. -/
def Blank (gap : List Char) : Prop := ∀ c ∈ gap, isBlank c = true

/-- A source that writes some texts one after the other: there may be blanks in front of the
first and behind the last, and there are blanks between each two. -/
def Spaced (texts : List String) (source : List Char) : Prop :=
  ∃ (lead : List Char) (pieces : List (String × List Char)), pieces.map (·.1) = texts ∧
    Blank lead ∧ (∀ p ∈ pieces, Blank p.2) ∧ (∀ p ∈ pieces.dropLast, p.2 ≠ []) ∧
    source = lead ++ pieces.flatMap fun p => p.1.toList ++ p.2

theorem Spaced.of_nil {source : List Char} (spaced : Spaced [] source) : Blank source := by
  obtain ⟨lead, pieces, texts, blank, _, _, rfl⟩ := spaced
  rw [List.map_eq_nil_iff.1 texts]
  simpa using blank

/-- Behind the blanks in front stands the first text, which ends there. -/
theorem Spaced.of_cons {t : String} {ts : List String} {source : List Char}
    (spaced : Spaced (t :: ts) source) :
    ∃ lead rest, Blank lead ∧ Parted rest ∧ Spaced ts rest ∧
      source = lead ++ (t.toList ++ rest) := by
  obtain ⟨lead, pieces, texts, blank, gaps, apart, rfl⟩ := spaced
  obtain ⟨⟨t, gap⟩, more, rfl, rfl, rfl⟩ := List.map_eq_cons_iff.1 texts
  obtain ⟨gapBlank, gaps⟩ := List.forall_mem_cons.1 gaps
  refine ⟨lead, gap ++ more.flatMap fun p => p.1.toList ++ p.2, blank, ?_,
    ⟨gap, more, rfl, gapBlank, gaps, ?_, rfl⟩, by simp⟩
  · cases gap with
    | nil =>
      cases more with
      | nil => simp [Parted]
      | cons p more => exact absurd rfl (apart ⟨t, []⟩ List.mem_cons_self)
    | cons b bs =>
      rintro c ⟨⟩
      exact gapBlank b List.mem_cons_self
  · cases more with
    | nil => simp
    | cons p more => exact fun q mem => apart q (List.mem_cons_of_mem _ mem)

/-! ## Comments that are not closed -/

theorem closingLength_parted {text rest : List Char} (parted : Parted rest) :
    Comment.closingLength (text ++ rest) = none ↔
      Comment.closingLength text = none ∧ Comment.closingLength rest = none := by
  induction text with
  | nil => simp [Comment.closingLength]
  | cons c cs ih =>
    by_cases closes : c = '*' ∧ cs.head? = some '/'
    · obtain ⟨rfl, head⟩ := closes
      obtain ⟨ds, rfl⟩ := List.head?_eq_some_iff.1 head
      simp [Comment.closingLength]
    · have apart : c = '*' → cs.head? ≠ some '/' := fun star head => closes ⟨star, head⟩
      have apart' : c = '*' → (cs ++ rest).head? ≠ some '/' := by
        intro star head
        cases cs with
        | nil => exact absurd (parted '/' head) (by decide)
        | cons d ds => exact apart star head
      rw [List.cons_append, Comment.closingLength_cons apart, Comment.closingLength_cons apart',
        Option.map_eq_none_iff, Option.map_eq_none_iff, ih]

theorem closingLength_blank {gap : List Char} (blank : Blank gap) (rest : List Char) :
    Comment.closingLength (gap ++ rest) = none ↔ Comment.closingLength rest = none := by
  induction gap with
  | nil => rfl
  | cons b bs ih =>
    have noStar : b ≠ '*' := by
      rintro rfl
      exact absurd (blank '*' List.mem_cons_self) (by decide)
    rw [List.cons_append, Comment.closingLength_cons fun star => absurd star noStar,
      Option.map_eq_none_iff, ih fun c mem => blank c (List.mem_cons_of_mem b mem)]

theorem closingLength_spaced {ts : List String} {source : List Char} (spaced : Spaced ts source) :
    Comment.closingLength source = none ↔ ∀ t ∈ ts, Comment.closingLength t.toList = none := by
  induction ts generalizing source with
  | nil =>
    have none := closingLength_blank spaced.of_nil []
    simpa [Comment.closingLength] using none
  | cons t ts ih =>
    obtain ⟨lead, rest, blank, parted, more, rfl⟩ := spaced.of_cons
    rw [closingLength_blank blank, closingLength_parted parted, ih more, List.forall_mem_cons]

/-- A text starts no comment that one of the texts behind it closes. -/
def Uncommented (t : String) (ts : List String) : Prop :=
  ¬['/', '/'] <+: t.toList ∧ ∀ cs, t.toList = '/' :: '*' :: cs →
    Comment.closingLength cs = none ∧ ∀ u ∈ ts, Comment.closingLength u.toList = none

theorem uncommented_iff {t : String} {ts : List String} {rest : List Char} (parted : Parted rest)
    (more : Spaced ts rest) : Comment.length? (t.toList ++ rest) = none ↔ Uncommented t ts := by
  have line := prefix_parted parted (s := ['/', '/']) (by decide) t.toList
  have block := prefix_parted parted (s := ['/', '*']) (by decide) t.toList
  have behind : ∀ cs, Comment.closingLength (cs ++ rest) = none ↔
      Comment.closingLength cs = none ∧ ∀ u ∈ ts, Comment.closingLength u.toList = none := by
    intro cs
    rw [closingLength_parted parted, closingLength_spaced more]
  rw [Comment.length?_eq_none, and_comm, Uncommented]
  refine and_congr ?_ ?_
  · rw [← line, Option.eq_none_iff_forall_ne_some]
    constructor
    · rintro none ⟨cs, same⟩
      exact none _ (Comment.lineLength_eq_some.2 ⟨cs, same.symm, rfl⟩)
    · intro none n found
      obtain ⟨cs, same, _⟩ := Comment.lineLength_eq_some.1 found
      exact none ⟨cs, same.symm⟩
  · rw [Option.eq_none_iff_forall_ne_some]
    constructor
    · intro none cs same
      rw [← behind, Option.eq_none_iff_forall_ne_some]
      intro m closed
      exact none (m + 2) (Comment.blockLength_eq_some.2 ⟨_, m, by rw [same]; rfl, closed, rfl⟩)
    · intro none n found
      obtain ⟨cs, m, same, closed, _⟩ := Comment.blockLength_eq_some.1 found
      obtain ⟨ds, opens⟩ := block.1 ⟨cs, same.symm⟩
      rw [← opens] at same
      obtain rfl : ds ++ rest = cs := by simpa using same
      rw [(behind ds).2 (none ds opens.symm)] at closed
      cases closed

/-! ## Reading -/

theorem read_blank {w : Wanted} {gap : List Char} (blank : Blank gap) (offset : Nat) :
    Cursor.read w ⟨offset, gap⟩ = .finished := by
  cases gap with
  | nil => rw [Cursor.read]
  | cons b bs =>
    have quiet := mem_silent_of_isBlank (blank b List.mem_cons_self)
    have run : (b :: bs).takeWhile isBlank = b :: bs := List.takeWhile_eq_self_iff.2 blank
    have scanned : scan w (b :: bs) = some (none, bs.length + 1) := by
      rw [scan_silent quiet, blankLength, run]
      rfl
    rw [Cursor.read]
    simp only [scanned, List.drop_length]
    rw [Cursor.read]

/-- Behind blanks a lexeme is read. -/
theorem read_behind {w : Wanted} {lead text rest : List Char} {c : Char} {t : Terminal}
    (blank : Blank lead) (solid : isBlank c = false)
    (scanned : scan w (c :: text ++ rest) = some (some t, (c :: text).length)) (offset : Nat) :
    Cursor.read w ⟨offset, lead ++ (c :: text ++ rest)⟩ =
      .wanted ⟨t, String.ofList (c :: text), offset + lead.length⟩
        ⟨offset + lead.length + (c :: text).length, rest⟩ := by
  have here : ∀ offset, Cursor.read w ⟨offset, c :: text ++ rest⟩ =
      .wanted ⟨t, String.ofList (c :: text), offset⟩ ⟨offset + (c :: text).length, rest⟩ := by
    intro offset
    rw [List.cons_append] at scanned ⊢
    rw [Cursor.read]
    simp only [List.length_cons] at scanned
    simp [scanned, Cursor.lexeme, Cursor.advance]
  cases lead with
  | nil => exact here offset
  | cons b bs =>
    have quiet := mem_silent_of_isBlank (blank b List.mem_cons_self)
    have stops : (c :: text ++ rest).takeWhile isBlank = [] :=
      List.takeWhile_cons_of_neg (by simp [solid])
    have run : (b :: bs ++ (c :: text ++ rest)).takeWhile isBlank = b :: bs := by
      rw [List.takeWhile_append_of_pos blank, stops, List.append_nil]
    have gap : scan w (b :: bs ++ (c :: text ++ rest)) = some (none, bs.length + 1) := by
      rw [List.cons_append] at run ⊢
      rw [scan_silent quiet, blankLength, run]
      rfl
    rw [List.cons_append] at gap ⊢
    rw [Cursor.read]
    simp only [gap, List.drop_left, here, List.length_cons]

/-- What is read stands behind a gap, and does not start with a blank. -/
theorem read_eq_wanted {w : Wanted} {c after : Cursor} {l : Lexeme}
    (read : c.read w = .wanted l after) :
    ∃ gap d ds, c.rest = gap ++ (l.text.toList ++ after.rest) ∧ l.text = String.ofList (d :: ds) ∧
      isBlank d = false ∧
      scan w (l.text.toList ++ after.rest) = some (some l.terminal, l.text.toList.length) := by
  fun_induction Cursor.read w c with
  | case1 => cases read
  | case2 offset c cs n scanned ih =>
    obtain ⟨gap, d, ds, split, lexeme⟩ := ih read
    exact ⟨c :: cs.take n ++ gap, d, ds, by simp [List.append_assoc, ← split], lexeme⟩
  | case3 offset c cs here t n scanned =>
    cases read
    have within : n ≤ cs.length := Nat.le_of_succ_le_succ (scan_le scanned)
    have solid : isBlank c = false := by
      rw [Bool.eq_false_iff]
      intro blank
      rw [scan_silent (mem_silent_of_isBlank blank)] at scanned
      obtain ⟨_, _, same⟩ := Option.map_eq_some_iff.1 scanned
      cases same
    refine ⟨[], c, cs.take n, ?_, ?_, solid, ?_⟩
    · simp [Cursor.lexeme, Cursor.advance, here]
    · simp [Cursor.lexeme, here]
    · simpa [Cursor.lexeme, Cursor.advance, here, Nat.min_eq_left within] using scanned
  | case4 => cases read
  | case5 => cases read

/-- The number of characters that are no blanks. -/
def ink (text : List Char) : Nat := text.countP (!isBlank ·)

theorem ink_append (text behind : List Char) : ink (text ++ behind) = ink text + ink behind :=
  List.countP_append

theorem ink_eq_zero_iff {text : List Char} : ink text = 0 ↔ Blank text := by
  simp [ink, List.countP_eq_zero, Blank]

/-- The number of characters in some texts that are no blanks. -/
def totalInk (ts : List String) : Nat := (ts.map fun t => ink t.toList).sum

theorem ink_spaced {ts : List String} {source : List Char} (spaced : Spaced ts source) :
    ink source = totalInk ts := by
  induction ts generalizing source with
  | nil => exact ink_eq_zero_iff.2 spaced.of_nil
  | cons t ts ih =>
    obtain ⟨lead, rest, blank, _, more, rfl⟩ := spaced.of_cons
    rw [ink_append, ink_append, ink_eq_zero_iff.2 blank, ih more, Nat.zero_add, totalInk, totalInk,
      List.map_cons, List.sum_cons]

end Lexeme

/-! ## Parses without repairs -/

namespace Recovery

open Lexeme

/-- The texts of what leaves were read from. -/
def texts (leaves : List Leaf) : List String := (leaves.filterMap Leaf.lexeme?).map Lexeme.text

/-- A stack comes to a tree at the end of the input, without missing tokens. -/
def Ends (a : Automaton) (stack : Stack) (tree : ParseTree) : Prop :=
  a.feedEnd stack = .accepted tree ∨
    ∃ mid, a.feedEnd stack = .stuck mid ∧ a.feedEnd mid = .accepted tree

/-- A parse without repairs, from a place in the source on: the texts of what it reads, and the
tree it comes to. -/
inductive Takes (a : Automaton) : Cursor → Stack → List String → ParseTree → Prop
  | finished {c : Cursor} {stack : Stack} {tree : ParseTree}
      (read : c.read (wanted a stack) = .finished) (ends : Ends a stack tree) :
      Takes a c stack [] tree
  | shifted {c after : Cursor} {stack next : Stack} {l : Lexeme} {ts : List String}
      {tree : ParseTree} (read : c.read (wanted a stack) = .wanted l after)
      (fed : a.feed (leaf l) stack = .shifted next) (more : Takes a after next ts tree) :
      Takes a c stack (l.text :: ts) tree

section

variable {a : Automaton} (sound : a.Sound) {budget size : Nat} {c : Cursor} {stack : Stack}
  {s s' : Session} {tree : ParseTree}

include sound

theorem finish_eq_ok_iff (spent : s.left = 0) :
    finish a budget size stack s = .ok (tree, s') ↔ Ends a stack tree ∧ s' = s := by
  have unchanged : { s with left := 0 } = s := by rw [← spent]
  unfold finish Ends
  rcases fed : a.feedEnd stack with next | tree' | mid
  · exact absurd fed (feedEnd_ne_shifted sound stack next)
  · simp [eq_comm]
  · simp only [spent, reduceCtorEq, false_or, Fed.stuck.injEq, exists_eq_left']
    by_cases ends : ∃ tree', a.feedEnd mid = .accepted tree'
    · obtain ⟨tree', atEnd⟩ := ends
      rw [complete_accepted atEnd, atEnd, unchanged]
      simp [eq_comm]
    · rw [not_exists] at ends
      rw [complete_zero ends]
      simp [ends tree]

/-- Without a budget only what fits is read. -/
theorem takes_of_parseFrom (spent : s.left = 0)
    (parsed : parseFrom a budget size c stack s = .ok (tree, s')) :
    ∃ ts, Takes a c stack ts tree := by
  have unpaid : ∀ {s s' : Session} {fault : Fault}, s.left = 0 →
      payFor budget fault s ≠ .ok s' := by
    intro s s' fault spent paid
    obtain ⟨left, enough, _⟩ := payFor_ok paid
    omega
  fun_induction parseFrom a budget size c stack s with
  | case1 c stack s read => exact ⟨[], .finished read ((finish_eq_ok_iff sound spent).1 parsed).1⟩
  | case2 c stack s l after read next fed ih =>
    obtain ⟨ts, more⟩ := ih spent parsed
    exact ⟨l.text :: ts, .shifted read fed more⟩
  | case3 => cases parsed
  | case4 => cases parsed
  | case5 _ _ _ _ _ _ _ _ _ paid => exact absurd paid (unpaid spent)
  | case6 => cases parsed
  | case7 _ _ _ _ _ _ _ paid => exact absurd paid (unpaid spent)
  | case8 => cases parsed
  | case9 _ _ _ _ _ _ _ _ paid => exact absurd paid (unpaid spent)

theorem Takes.parseFrom_eq {ts : List String} (takes : Takes a c stack ts tree)
    (spent : s.left = 0) : parseFrom a budget size c stack s = .ok (tree, s) := by
  induction takes with
  | finished read ends =>
    rw [parseFrom_finished read]
    exact (finish_eq_ok_iff sound spent).2 ⟨ends, rfl⟩
  | shifted read fed _ ih =>
    rw [parseFrom_wanted read, fed]
    exact ih

theorem Takes.texts_yield {ts : List String} (takes : Takes a c stack ts tree)
    (valid : Stack.Valid a stack) : texts tree.yield = texts (Stack.yield stack) ++ ts := by
  induction takes with
  | finished read ends =>
    rw [List.append_nil]
    rcases ends with fed | ⟨mid, stuck, fed⟩
    · rw [(valid.accepted sound fed).2.2]
    · obtain ⟨valid', same⟩ := valid.stuck sound stuck
      rw [(valid'.accepted sound fed).2.2, same]
  | shifted read fed _ ih =>
    obtain ⟨valid', same⟩ := valid.shifted sound fed
    rw [ih valid', same]
    simp [texts, leaf, Leaf.lexeme?]

end

theorem Takes.ink_le {a : Automaton} {c : Cursor} {stack : Stack} {ts : List String}
    {tree : ParseTree} (takes : Takes a c stack ts tree) : totalInk ts ≤ ink c.rest := by
  induction takes with
  | finished => exact Nat.zero_le _
  | @shifted c after stack next l ts tree read _ _ ih =>
    obtain ⟨gap, _, _, split, _⟩ := read_eq_wanted read
    rw [split, ink_append, ink_append]
    simp only [totalInk, List.map_cons, List.sum_cons] at ih ⊢
    omega

theorem Ends.of_bare {a : Automaton} {stack stack' : Stack} {tree : ParseTree}
    (ends : Ends a stack tree) (same : Stack.bare stack = Stack.bare stack') :
    ∃ tree', Ends a stack' tree' ∧ tree'.bare = tree.bare := by
  have alike : ∀ {stack stack' : Stack}, Stack.bare stack = Stack.bare stack' →
      (a.feedEnd stack').bare = (a.feedEnd stack).bare :=
    fun same => a.feed_bare_congr rfl same.symm
  rcases ends with fed | ⟨mid, stuck, fed⟩
  · have atEnd := alike same
    rw [fed] at atEnd
    obtain ⟨tree', fed', bare⟩ := Fed.bare_eq_accepted.1 atEnd
    exact ⟨tree', .inl fed', bare⟩
  · have between := alike same
    rw [stuck] at between
    obtain ⟨mid', stuck', sameMid⟩ := Fed.bare_eq_stuck.1 between
    have atEnd := alike sameMid.symm
    rw [fed] at atEnd
    obtain ⟨tree', fed', bare⟩ := Fed.bare_eq_accepted.1 atEnd
    exact ⟨tree', .inr ⟨mid', stuck', fed'⟩, bare⟩

theorem wanted_bare {a : Automaton} {stack stack' : Stack}
    (same : Stack.bare stack = Stack.bare stack') : wanted a stack = wanted a stack' := by
  have state : Stack.state stack = Stack.state stack' := by
    rw [← Stack.state_bare, same, Stack.state_bare]
  funext t
  cases t <;> simp only [wanted, state]

/-- What is read behind blanks is the text that stands there, when what is left to read is all
that is left to write. -/
theorem rest_of_read {w : Wanted} {c after : Cursor} {l : Lexeme} {ts : List String}
    {lead rest : List Char} (read : c.read w = .wanted l after)
    (left : totalInk ts ≤ ink after.rest) (blank : Blank lead) (more : Spaced ts rest)
    (written : c.rest = lead ++ (l.text.toList ++ rest)) : after.rest = rest := by
  obtain ⟨skipped, d, ds, split, text, solid, _⟩ := read_eq_wanted read
  have together := split.symm.trans written
  have spaces : Blank skipped := by
    have total := congrArg ink together
    simp only [ink_append, ink_eq_zero_iff.2 blank, ink_spaced more] at total
    exact ink_eq_zero_iff.1 (by omega)
  have stops : ∀ behind, ∀ c ∈ (l.text.toList ++ behind).head?, isBlank c = false := by
    rw [text, String.toList_ofList]
    rintro behind c ⟨⟩
    exact solid
  exact List.append_cancel_left
    (JsonText.run_unique spaces blank (stops _) (stops _) together).2

/-- A lexeme that is read in one source is read in another that goes on with the same texts. -/
theorem read_respaced {w : Wanted} {c after c' : Cursor} {l : Lexeme} {ts : List String}
    {rest lead' rest' : List Char} (read : c.read w = .wanted l after) (here : after.rest = rest)
    (parted : Parted rest) (more : Spaced ts rest) (blank' : Blank lead') (parted' : Parted rest')
    (more' : Spaced ts rest') (written' : c'.rest = lead' ++ (l.text.toList ++ rest')) :
    ∃ start offset, c'.read w = .wanted ⟨l.terminal, l.text, start⟩ ⟨offset, rest'⟩ := by
  subst here
  obtain ⟨_, d, ds, _, text, solid, scanned⟩ := read_eq_wanted read
  have noComment : Comment.length? (l.text.toList ++ after.rest) = none := by
    rw [Option.eq_none_iff_forall_ne_some]
    intro n comment
    rw [scan_gap.2 (.inl comment)] at scanned
    cases scanned
  have noComment' : Comment.length? (l.text.toList ++ rest') = none :=
    (uncommented_iff parted' more').2 ((uncommented_iff parted more).1 noComment)
  obtain ⟨offset, _⟩ := c'
  cases written'
  rw [text, String.toList_ofList] at scanned noComment noComment' ⊢
  have alone := (scan_parted_iff parted solid noComment).1 scanned
  have scanned' := (scan_parted_iff parted' solid noComment').2 alone
  exact ⟨_, _, read_behind blank' solid scanned' offset⟩

/-- Blanks make no difference to a parse without repairs. -/
theorem Takes.respaced {a : Automaton} {c : Cursor} {stack : Stack} {ts : List String}
    {tree : ParseTree} (takes : Takes a c stack ts tree) {c' : Cursor} {stack' : Stack}
    (spaced : Spaced ts c.rest) (respaced : Spaced ts c'.rest)
    (same : Stack.bare stack = Stack.bare stack') :
    ∃ tree', Takes a c' stack' ts tree' ∧ tree'.bare = tree.bare := by
  induction takes generalizing c' stack' with
  | finished read ends =>
    obtain ⟨tree', ends', bare⟩ := ends.of_bare same
    exact ⟨tree', .finished (read_blank respaced.of_nil c'.offset) ends', bare⟩
  | @shifted c after stack next l ts tree read fed takes ih =>
    obtain ⟨lead, rest, blank, parted, more, written⟩ := spaced.of_cons
    obtain ⟨lead', rest', blank', parted', more', written'⟩ := respaced.of_cons
    have here := rest_of_read read takes.ink_le blank more written
    obtain ⟨start, offset, read'⟩ :=
      read_respaced read here parted more blank' parted' more' written'
    have alike : (a.feed (leaf ⟨l.terminal, l.text, start⟩) stack').bare =
        (a.feed (leaf l) stack).bare := a.feed_bare_congr rfl same.symm
    rw [fed] at alike
    obtain ⟨next', fed', same'⟩ := Fed.bare_eq_shifted.1 alike
    rw [wanted_bare same] at read'
    obtain ⟨tree', takes', bare⟩ := @ih ⟨offset, rest'⟩ next' (here ▸ more) more' same'.symm
    exact ⟨tree', @Takes.shifted a c' ⟨offset, rest'⟩ stack' next' ⟨l.terminal, l.text, start⟩ ts
      tree' read' fed' takes', bare⟩

end Recovery

/-! ## Sources with other blanks -/

open Lexeme (Spaced)

/-- A source is accepted without repairs, and these are the texts of the lexemes that are read. -/
def ReadAs (source : String) (texts : List String) : Prop :=
  ∃ tree s, Recovery.parse .ofGrammar 0 source.toList = .ok (tree, s) ∧
    Recovery.texts tree.yield = texts

theorem ReadAs.takes {source : String} {texts : List String} (read : ReadAs source texts) :
    ∃ tree, Recovery.Takes .ofGrammar ⟨0, source.toList⟩ [] texts tree := by
  obtain ⟨tree, s, accepted, rfl⟩ := read
  obtain ⟨ts, takes⟩ := Recovery.takes_of_parseFrom Automaton.ofGrammar_sound rfl accepted
  have same := takes.texts_yield Automaton.ofGrammar_sound trivial
  exact ⟨tree, by rwa [same]⟩

theorem parsed_of_takes {source : String} {texts : List String} {tree : ParseTree}
    (takes : Recovery.Takes .ofGrammar ⟨0, source.toList⟩ [] texts tree) (file : String) :
    ReadAs source texts ∧ ∃ p root, parse 0 file source = .ok p ∧ tree.toTree = .ok root ∧
      p.root.bare = root.bare := by
  have accepted : Recovery.parse .ofGrammar 0 source.toList = .ok (tree, { left := 0 }) :=
    takes.parseFrom_eq Automaton.ofGrammar_sound rfl
  have same := takes.texts_yield Automaton.ofGrammar_sound trivial
  obtain ⟨derived, start, _⟩ := Recovery.parse_ordered Automaton.ofGrammar_sound accepted
  obtain ⟨root, built, _⟩ := ParseTree.toTree_of_derived derived start
  exact ⟨⟨tree, _, accepted, same⟩, _, root,
    parse_eq_ok_iff.2 ⟨tree, _, root, accepted, built, rfl⟩, built,
    root.bare_attachTrivia_assignSpans _ _⟩

/-- Blanks between lexemes do not change the tree. A source that is accepted without repairs, and
that writes just the texts of its lexemes with blanks around them, may have any other blanks there:
it is accepted as well, its lexemes have the same texts, and its tree has the same S-expression
without trivia. -/
theorem sexpr_respaced {source source' : String} {texts : List String}
    (read : ReadAs source texts) (spaced : Spaced texts source.toList)
    (respaced : Spaced texts source'.toList) (file file' : String) :
    ReadAs source' texts ∧ ∃ p p', parse 0 file source = .ok p ∧ parse 0 file' source' = .ok p' ∧
      ∀ pretty, ∃ text, p.root.sexpr false pretty = .ok text ∧
        p'.root.sexpr false pretty = .ok text := by
  obtain ⟨tree, takes⟩ := read.takes
  obtain ⟨tree', takes', bare⟩ :=
    @Recovery.Takes.respaced _ _ _ _ _ takes ⟨0, source'.toList⟩ [] spaced respaced rfl
  obtain ⟨_, p, root, parsed, built, same⟩ := parsed_of_takes takes file
  obtain ⟨read', p', root', parsed', built', same'⟩ := parsed_of_takes takes' file'
  have roots : p'.root.bare = p.root.bare := by
    have alike := ParseTree.toTree_bare bare
    rw [built, built'] at alike
    rw [same, same']
    exact Except.ok.inj alike
  refine ⟨read', p, p', parsed, parsed', fun pretty => ?_⟩
  obtain ⟨_, text, shown, _⟩ := parse_sexpr parsed false pretty
  exact ⟨text, shown, by rw [Tree.sexpr_bare roots, shown]⟩

/-- A range of a string and a number, on one line and on five. -/
theorem sexpr_respaced_of_range :
    ReadAs "\nlet\ta \r\n=\n\"b c\"\n ... 2.5\n" ["let", "a", "=", "\"b c\"", "...", "2.5"] ∧
      ∃ p p', parse 0 standardFile "let a = \"b c\" ... 2.5" = .ok p ∧
        parse 0 standardFile "\nlet\ta \r\n=\n\"b c\"\n ... 2.5\n" = .ok p' ∧
        ∀ pretty, ∃ text, p.root.sexpr false pretty = .ok text ∧
          p'.root.sexpr false pretty = .ok text := by
  have read : ReadAs "let a = \"b c\" ... 2.5" ["let", "a", "=", "\"b c\"", "...", "2.5"] := by
    obtain ⟨⟨tree, s⟩, accepted, leaves⟩ := exists_ok_of_toOption sample_reads
    refine ⟨tree, s, accepted, ?_⟩
    rw [leaves]
    rfl
  have spaced : Spaced ["let", "a", "=", "\"b c\"", "...", "2.5"]
      "let a = \"b c\" ... 2.5".toList := by
    refine ⟨[], [("let", [' ']), ("a", [' ']), ("=", [' ']), ("\"b c\"", [' ']), ("...", [' ']),
      ("2.5", [])], rfl, ?_, ?_, ?_, by decide⟩ <;> simp [Lexeme.Blank, Lexeme.isBlank]
  have respaced : Spaced ["let", "a", "=", "\"b c\"", "...", "2.5"]
      "\nlet\ta \r\n=\n\"b c\"\n ... 2.5\n".toList := by
    refine ⟨['\n'], [("let", ['\t']), ("a", [' ', '\r', '\n']), ("=", ['\n']),
      ("\"b c\"", ['\n', ' ']), ("...", [' ']), ("2.5", ['\n'])], rfl, ?_, ?_, ?_, by decide⟩ <;>
        simp [Lexeme.Blank, Lexeme.isBlank]
  exact sexpr_respaced read spaced respaced standardFile standardFile

end SyntaxAtlas
