-- Reading and cutting agree. The trivia of a parsed source shows each gap, each dropped
-- lexeme and each skipped character as what it is, and nothing as what it is not.

import SyntaxAtlas.Proofs.Shown

namespace SyntaxAtlas

open Trivia (locate)

/-! ## The trivia of tokens -/

/-- The trivia of a token, where it stands in a text that the token is written to at a place. -/
def Token.locatedTrivia (i : Nat) (t : Token) : List (Nat × TriviaPiece) :=
  if t.isMissing then []
  else locate i t.leading ++ locate (i + (triviaText t.leading).length + t.text.length) t.trailing

/-- The trivia of tokens, where it stands in the text that they make up. -/
def triviaFrom : Nat → List Token → List (Nat × TriviaPiece)
  | _, [] => []
  | i, t :: ts => t.locatedTrivia i ++ triviaFrom (i + t.fullText.length) ts

theorem triviaFrom_append (i : Nat) (ts us : List Token) :
    triviaFrom i (ts ++ us) = triviaFrom i ts ++ triviaFrom (i + (written ts).length) us := by
  induction ts generalizing i with
  | nil => rfl
  | cons t ts ih =>
    have length : (written (t :: ts)).length = t.fullText.length + (written ts).length := by
      rw [written, List.flatMap_cons, List.length_append, String.length_toList]
      rfl
    rw [List.cons_append, triviaFrom, ih, triviaFrom, length, Nat.add_assoc, List.append_assoc]

theorem triviaFrom_missing {ts : List Token} (missing : ∀ t ∈ ts, t.isMissing = true) (i : Nat) :
    triviaFrom i ts = [] := by
  induction ts generalizing i with
  | nil => rfl
  | cons t ts ih =>
    rw [List.forall_mem_cons] at missing
    rw [triviaFrom, ih missing.2, Token.locatedTrivia, if_pos missing.1]
    rfl

theorem triviaFrom_moved {ts : List Token} (missing : ∀ t ∈ ts, t.isMissing = true)
    (position : Int) (i : Nat) : triviaFrom i (ts.map fun t => { t with position }) = [] := by
  apply triviaFrom_missing
  intro t ht
  obtain ⟨m, hm, rfl⟩ := List.mem_map.1 ht
  exact missing m hm

theorem triviaFrom_present {t : Token} (isPresent : t.isMissing = false) (i : Nat) :
    triviaFrom i [t] = locate i t.leading ++
      locate (i + (triviaText t.leading).length + t.text.length) t.trailing := by
  rw [triviaFrom, triviaFrom, List.append_nil, Token.locatedTrivia, if_neg (by simp [isPresent])]

theorem triviaFrom_trailing {previous : Option Token} {trailing : List TriviaPiece}
    (bare : ∀ p ∈ previous, p.isMissing = false ∧ p.trailing = [])
    (first : previous = none → trailing = []) (i : Nat) :
    triviaFrom i (previous.map fun p => { p with trailing }).toList =
      triviaFrom i previous.toList ++ locate (i + (written previous.toList).length) trailing := by
  rcases previous with _ | p
  · rw [first rfl]
    rfl
  · obtain ⟨isPresent, bare⟩ := bare p rfl
    simp only [Option.map_some, Option.toList_some]
    have length : (written [p]).length = (triviaText p.leading).length + p.text.length := by
      rw [written_present isPresent, bare]
      simp only [List.length_append, String.length_toList]
      rfl
    rw [triviaFrom_present isPresent, triviaFrom_present (by exact isPresent), bare, length,
      ← Nat.add_assoc, locate, List.append_nil]

/-! ## Gaps between tokens -/

/-- Where the gaps between tokens start and stop. -/
def gapsFrom (source : List Char) : Nat → List Token → List (Nat × Nat)
  | _, [] => []
  | i, t :: ts =>
    if t.isMissing then gapsFrom source i ts
    else
      let start := (t.sourceStart source).toNat
      (i, start) :: gapsFrom source (start + t.text.length) ts

/-- What attaching hands out are the pieces of the gaps, each where the gap stands. -/
theorem triviaFrom_attachFrom {source : List Char} {cut : Cutter}
    (faithful : ∀ offset text, (triviaText (cut offset text)).toList = text)
    {previous : Option Token} {pending ts : List Token} {i j : Nat} (spells : Spells source i ts j)
    (within : j ≤ source.length) (bare : ∀ p ∈ previous, p.isMissing = false ∧ p.trailing = [])
    (missing : ∀ m ∈ pending, m.isMissing = true) {k : Nat}
    (used : k + (written previous.toList).length = i) :
    triviaFrom k (Token.attachFrom source cut previous pending i ts) =
      triviaFrom k previous.toList ++
        (gapsFrom source i ts).flatMap fun g => locate g.1 (cut g.1 (between source g.1 g.2)) := by
  induction spells generalizing previous pending k with
  | none i =>
    rw [Token.attachFrom, triviaFrom_append, triviaFrom_moved missing]
    rfl
  | missing isMissing _ ih =>
    rw [attachFrom_missing isMissing, gapsFrom, if_pos isMissing]
    exact ih within bare
      (List.forall_mem_append.2 ⟨missing, List.forall_mem_singleton.2 isMissing⟩) used
  | @present t ts i j start isPresent starts after text tokenBare rest ih =>
    rcases parts : Token.gapPieces previous.isNone (cut i (between source i start)) with
      ⟨trailing, leading⟩
    have whole := gapPieces_append parts
    have first := gapPieces_first parts
    have length := congrArg List.length (toList_gapPieces parts)
    have fits : start + t.text.length ≤ source.length := Nat.le_trans rest.le within
    rw [faithful, length_between (by omega), List.length_append, String.length_toList,
      String.length_toList] at length
    let next : Token := { t with leading, position := byteOffset source start }
    have isNext : next.isMissing = false := isPresent
    have wrote := congrArg List.length (written_trailing bare first)
    have here : written [next] = (triviaText leading).toList ++ t.text.toList := by
      rw [written_present isNext]
      simp [next, tokenBare, triviaText]
    have leads : triviaFrom (i + (triviaText trailing).length) [next] =
        locate (i + (triviaText trailing).length) leading := by
      rw [triviaFrom_present isNext]
      simp [next, tokenBare, locate]
    have behind := @ih (some next) [] within (by rintro p ⟨⟩; exact ⟨isPresent, tokenBare⟩)
      (by simp) (i + (triviaText trailing).length) (by
        rw [Option.toList_some, here, List.length_append, String.length_toList,
          String.length_toList]
        omega)
    rw [List.length_append, String.length_toList] at wrote
    rw [attachFrom_present isPresent starts parts, triviaFrom_append, triviaFrom_append,
      triviaFrom_moved missing, List.append_nil, triviaFrom_trailing bare first, written_append,
      written_moved missing, List.append_nil, wrote, ← Nat.add_assoc, used, behind,
      Option.toList_some, leads, gapsFrom, if_neg (by simp [isPresent])]
    simp only [starts, Int.toNat_natCast, List.flatMap_cons, ← whole, Trivia.locate_append,
      List.append_assoc]

/-- The trivia that is attached are the pieces of all gaps. -/
theorem triviaFrom_attach {source : List Char} (entries : Trivia.Dropped) {ts : List Token}
    (spells : Spells source 0 ts source.length) :
    triviaFrom 0 (Token.attach source (Trivia.split entries) ts) =
      (gapsFrom source 0 ts).flatMap fun g => piecesBetween entries source g.1 g.2 :=
  triviaFrom_attachFrom (toList_split entries) spells (Nat.le_refl _) (by rintro _ ⟨⟩) (by simp) rfl

theorem gapsFrom_plain (source : List Char) (i : Nat) (ts : List Token) :
    gapsFrom source i (ts.map Token.plain) = gapsFrom source i ts := by
  induction ts generalizing i with
  | nil => rfl
  | cons t ts ih =>
    simp only [List.map_cons, gapsFrom, ih]
    rfl

/-- The gaps between lexemes. -/
def lexemeGaps (stop : Nat) : Nat → List Lexeme → List (Nat × Nat)
  | i, [] => [(i, stop)]
  | i, l :: ls => (i, l.start) :: lexemeGaps stop l.stop ls

theorem gapsFrom_ofText {source : List Char} {t : Terminal} (notEnd : t ≠ .endOfFile)
    (text : String) (i start : Nat) (ts : List Token) :
    gapsFrom source i (.ofText t text start :: ts) =
      (i, start) :: gapsFrom source (start + text.length) ts := by
  have place : (Token.ofText t text start).sourceStart source = start := by
    simp [Token.sourceStart, Token.ofText, notEnd]
  rw [gapsFrom, if_neg (by simp [Token.ofText, Token.isMissing]), place]
  rfl

/-- In front of a lexeme there is one gap, and the gaps inside of it are empty. -/
theorem gapsFrom_leaf {w : Lexeme.Wanted} {source : List Char} {l : Lexeme}
    {after : Lexeme.Cursor} (scans : Lexeme.Scans w source l after) (i : Nat) (ts : List Token) :
    (i, l.start) :: gapsFrom source l.stop ts ⊆
      gapsFrom source i ((Recovery.leaf l).tokens ++ ts) := by
  by_cases isString : l.terminal = .string
  · obtain ⟨tokens, stop⟩ := scans.string_tokens isString
    rw [tokens, stop]
    simp only [List.cons_append, List.nil_append, gapsFrom_ofText, ne_eq, reduceCtorEq,
      not_false_eq_true]
    refine List.cons_subset_cons _ fun g mem => ?_
    exact List.mem_cons_of_mem _ (List.mem_cons_of_mem _ mem)
  · rw [Leaf.tokens, if_neg (show ¬ (Recovery.leaf l).terminal = .string from isString)]
    exact (gapsFrom_ofText scans.not_endOfFile l.text i l.start ts).symm ▸ List.Subset.refl _

/-- The gaps between leaves are gaps between their tokens. -/
theorem lexemeGaps_subset {source : List Char} {leaves : List Leaf} {i j : Nat}
    (ordered : Ordered (fun l => ∃ w after, Lexeme.Scans w source l after) i leaves j) :
    lexemeGaps source.length i (leaves.filterMap Leaf.lexeme?) ⊆
      gapsFrom source i (leaves.flatMap Leaf.tokens ++ [.endOfFile]) := by
  induction leaves generalizing i with
  | nil => exact fun g mem => mem
  | cons leaf leaves ih =>
    cases leaf with
    | inserted t =>
      have single : ∀ u ∈ Recovery.insertable, (Leaf.inserted u).tokens = [.missing u] := by
        decide
      rw [List.flatMap_cons, single t ordered.1, List.filterMap_cons]
      exact ih ordered.2
    | read t text start =>
      obtain ⟨_, ⟨w, after, scans⟩, ordered⟩ := ordered
      rw [List.flatMap_cons, List.append_assoc]
      exact List.Subset.trans (List.cons_subset_cons _ (ih ordered))
        (gapsFrom_leaf scans i _)

/-- What no leaf was read from lies in a gap between lexemes, which other such passages fill. -/
theorem exists_gap {before ps : List Passage} {g i j : Nat} (tiled : Passage.Tile g before i)
    (notKept : ∀ p ∈ before, p.kept? = none) (tile : Passage.Tile i ps j) :
    ∀ p ∈ before ++ ps, p.kept? = none → ∃ g' h qs,
      (g', h) ∈ lexemeGaps j g (ps.filterMap Passage.kept?) ∧ Passage.Tile g' qs h ∧ p ∈ qs ∧
        ∀ q ∈ qs, q ∈ before ++ ps ∧ q.kept? = none := by
  induction ps generalizing before g i with
  | nil =>
    obtain rfl : i = j := tile
    intro p hp _
    rw [List.append_nil] at hp
    exact ⟨g, i, before, List.mem_singleton_self _, tiled, hp, fun q hq =>
      ⟨List.mem_append_left _ hq, notKept q hq⟩⟩
  | cons r ps ih =>
    obtain ⟨rfl, tile⟩ := tile
    rcases kept : r.kept? with _ | l
    · have wider : Passage.Tile g (before ++ [r]) r.stop :=
        Passage.tile_append.2 ⟨_, tiled, rfl, rfl⟩
      have all : ∀ q ∈ before ++ [r], q.kept? = none := by
        rw [List.forall_mem_append]
        exact ⟨notKept, by simpa using kept⟩
      rw [List.filterMap_cons_none kept]
      simpa using ih wider all tile
    · have same : r = .kept l := by
        cases r <;> cases kept
        rfl
      subst same
      rw [List.filterMap_cons_some kept, lexemeGaps]
      intro p hp none
      rcases List.mem_append.1 hp with hp | hp
      · exact ⟨g, l.start, before, List.mem_cons_self, tiled, hp, fun q hq =>
          ⟨List.mem_append_left _ hq, notKept q hq⟩⟩
      · rcases List.mem_cons.1 hp with rfl | hp
        · cases none
        · obtain ⟨g', h, qs, mem, tiles, inside, all⟩ :=
            @ih [] l.stop l.stop rfl (by simp) tile p hp none
          exact ⟨g', h, qs, List.mem_cons_of_mem _ mem, tiles, inside, fun q hq =>
            ⟨List.mem_append_right _ (List.mem_cons_of_mem _ (all q hq).1), (all q hq).2⟩⟩

/-! ## Pieces side by side -/

/-- Pieces that stand one behind the other, from one place up to another. -/
def Spread : Nat → List (Nat × TriviaPiece) → Nat → Prop
  | i, [], j => i ≤ j
  | i, (o, q) :: rest, j => i ≤ o ∧ Spread (o + q.text.length) rest j

theorem Spread.mono {i i' j : Nat} {shown : List (Nat × TriviaPiece)} (spread : Spread i shown j)
    (le : i' ≤ i) : Spread i' shown j := by
  cases shown with
  | nil => exact Nat.le_trans le spread
  | cons x rest => exact ⟨Nat.le_trans le spread.1, spread.2⟩

theorem Spread.append {i j k : Nat} {shown more : List (Nat × TriviaPiece)}
    (spread : Spread i shown j) (behind : Spread j more k) : Spread i (shown ++ more) k := by
  induction shown generalizing i with
  | nil => exact behind.mono spread
  | cons x rest ih => exact ⟨spread.1, ih spread.2⟩

theorem spread_locate (i : Nat) (qs : List TriviaPiece) :
    Spread i (locate i qs) (i + (triviaText qs).length) := by
  induction qs generalizing i with
  | nil => exact Nat.le_add_right _ _
  | cons q qs ih =>
    refine ⟨Nat.le_refl i, ?_⟩
    rw [Trivia.length_triviaText_cons, ← Nat.add_assoc]
    exact ih _

theorem spread_triviaFrom (i : Nat) (ts : List Token) : ∃ j, Spread i (triviaFrom i ts) j := by
  induction ts generalizing i with
  | nil => exact ⟨i, Nat.le_refl i⟩
  | cons t ts ih =>
    obtain ⟨j, behind⟩ := ih (i + t.fullText.length)
    refine ⟨j, Spread.append ?_ behind⟩
    unfold Token.locatedTrivia
    split
    · exact Nat.le_add_right _ _
    · rename_i isPresent
      have length : t.fullText.length =
          (triviaText t.leading).length + t.text.length + (triviaText t.trailing).length := by
        simp [Token.fullText, isPresent, String.length_append]
      rw [length, ← Nat.add_assoc, ← Nat.add_assoc]
      exact (spread_locate i t.leading).append
        ((spread_locate _ t.trailing).mono (Nat.le_add_right _ _))

theorem Spread.le_place {i j : Nat} {shown : List (Nat × TriviaPiece)} (spread : Spread i shown j) :
    ∀ x ∈ shown, i ≤ x.1 := by
  induction shown generalizing i with
  | nil => simp
  | cons x rest ih =>
    rw [List.forall_mem_cons]
    refine ⟨spread.1, fun y hy => ?_⟩
    have := spread.1
    have := ih spread.2 y hy
    omega

/-- A piece stands at a character. -/
def Covers (x : Nat × TriviaPiece) (o : Nat) : Prop := x.1 ≤ o ∧ o < x.1 + x.2.text.length

/-- There is one piece at most at each character. -/
theorem Spread.unique {i j o : Nat} {shown : List (Nat × TriviaPiece)} (spread : Spread i shown j)
    {x y : Nat × TriviaPiece} (hx : x ∈ shown) (hy : y ∈ shown) (covers : Covers x o)
    (covers' : Covers y o) : x = y := by
  unfold Covers at covers covers'
  induction shown generalizing i with
  | nil => cases hx
  | cons z rest ih =>
    have behind := spread.2.le_place
    rcases List.mem_cons.1 hx with rfl | hx'
    · rcases List.mem_cons.1 hy with rfl | hy'
      · rfl
      · have := behind y hy'
        omega
    · rcases List.mem_cons.1 hy with rfl | hy'
      · have := behind x hx'
        omega
      · exact ih spread.2 hx' hy'

theorem exists_covers {i o : Nat} {qs : List TriviaPiece} (lo : i ≤ o)
    (hi : o < i + (triviaText qs).length) : ∃ x ∈ locate i qs, x.2 ∈ qs ∧ Covers x o := by
  induction qs generalizing i with
  | nil => exact absurd hi (Nat.not_lt.2 lo)
  | cons q qs ih =>
    rw [Trivia.length_triviaText_cons] at hi
    rcases Nat.lt_or_ge o (i + q.text.length) with here | behind
    · exact ⟨(i, q), List.mem_cons_self, List.mem_cons_self, lo, here⟩
    · obtain ⟨x, mem, inside, covers⟩ := ih behind (by omega)
      exact ⟨x, List.mem_cons_of_mem _ mem, List.mem_cons_of_mem _ inside, covers⟩

/-! ## What pieces spell -/

theorem spelled_locate {i : Nat} {qs : List TriviaPiece} {x : Nat × TriviaPiece}
    (mem : x ∈ locate i qs) : ∃ front back, (triviaText qs).toList =
      front ++ (x.2.text.toList ++ back) ∧ x.1 = i + front.length := by
  induction qs generalizing i with
  | nil => cases mem
  | cons q qs ih =>
    have text : (triviaText (q :: qs)).toList = q.text.toList ++ (triviaText qs).toList := by
      simp only [toList_triviaText, List.flatMap_cons]
    rw [text]
    rcases List.mem_cons.1 mem with rfl | mem
    · exact ⟨[], _, rfl, rfl⟩
    · obtain ⟨front, back, spelled, place⟩ := ih mem
      refine ⟨q.text.toList ++ front, back, by rw [spelled, List.append_assoc], ?_⟩
      rw [place, List.length_append, String.length_toList, Nat.add_assoc]

/-- A piece stands where its text is written. -/
theorem spelled_triviaFrom {i : Nat} {ts : List Token} {x : Nat × TriviaPiece}
    (mem : x ∈ triviaFrom i ts) : ∃ front back, written ts =
      front ++ (x.2.text.toList ++ back) ∧ x.1 = i + front.length := by
  induction ts generalizing i with
  | nil => cases mem
  | cons t ts ih =>
    rw [← List.singleton_append, written_append]
    rcases List.mem_append.1 mem with mem | mem
    · unfold Token.locatedTrivia at mem
      split at mem
      · cases mem
      · rename_i isPresent
        rw [written_present (by simpa using isPresent)]
        rcases List.mem_append.1 mem with leads | trails
        · obtain ⟨front, back, spelled, place⟩ := spelled_locate leads
          exact ⟨front, _, by rw [spelled]; simp only [List.append_assoc]; rfl, place⟩
        · obtain ⟨front, back, spelled, place⟩ := spelled_locate trails
          refine ⟨(triviaText t.leading).toList ++ t.text.toList ++ front, back ++ written ts, ?_, ?_⟩
          · rw [spelled]
            simp only [List.append_assoc]
          · rw [place]
            simp only [List.length_append, String.length_toList, Nat.add_assoc]
    · obtain ⟨front, back, spelled, place⟩ := ih mem
      refine ⟨written [t] ++ front, back, by rw [spelled, List.append_assoc], ?_⟩
      have length : (written [t]).length = t.fullText.length := by
        rw [written, List.flatMap_singleton, String.length_toList]
      rw [place, List.length_append, length, Nat.add_assoc]

/-! ## Reading and cutting -/

/-- The tokens of a parsed source are written as the source. -/
theorem parse_written {budget : Nat} {file source : String} {p : Parsed}
    (parsed : parse budget file source = .ok p) : written p.root.tokens = source.toList := by
  obtain ⟨ts, dropped, spells, tokens⟩ := parse_spells parsed
  rw [tokens]
  exact written_attach (toList_split dropped) spells

/-- The pieces of a parsed source show all that its leaves were not read from. -/
theorem parse_shows {budget : Nat} {file source : String} {p : Parsed}
    (parsed : parse budget file source = .ok p) :
    ∃ tree s, Recovery.parse .ofGrammar budget source.toList = .ok (tree, s) ∧
      p.repairs = s.repairs ∧
      ∀ ps, Accounts source.toList ps source.toList.length tree.yield s.repairs →
        ∀ q ∈ ps, q.kept? = none → q.ShownBy source.toList (triviaFrom 0 p.root.tokens) := by
  obtain ⟨tree, s, root, accepted, built, rfl⟩ := parse_eq_ok_iff.1 parsed
  obtain ⟨root', built', spells⟩ := toTree_spells Automaton.ofGrammar_sound accepted
  rw [built] at built'
  cases built'
  obtain ⟨_, _, stop, ordered⟩ := Recovery.parse_ordered Automaton.ofGrammar_sound accepted
  have leaves := leaves_of_toTree Automaton.ofGrammar_sound accepted built
  refine ⟨tree, s, accepted, rfl, fun ps accounts q hq notKept => ?_⟩
  have marked := accounts.marked (Recovery.parse_accounts Automaton.ofGrammar_sound accepted).1
  obtain ⟨g, h, qs, gap, tile, inside, all⟩ :=
    @exists_gap [] ps 0 0 _ rfl (by simp) accounts.tile q hq notKept
  rw [List.nil_append] at all
  have isGap : (g, h) ∈ gapsFrom source.toList 0 root.tokens := by
    rw [accounts.kept] at gap
    rw [← gapsFrom_plain, leaves]
    exact lexemeGaps_subset
      (ordered.imp fun _ read => read.scans Automaton.ofGrammar_sound) gap
  have holds : ∀ r ∈ qs, r.HoldsIn source.toList := fun r hr => accounts.holds r (all r hr).1
  have within : h ≤ source.toList.length := by
    refine tile.le_length holds (Nat.le_trans (tile.le_start holds q inside) ?_)
    have := (holds q inside).bounds
    omega
  have shown := split_shows tile within holds (fun r hr => marked r (all r hr).1)
    (fun r hr => (all r hr).2) q inside
  rw [Tree.tokens_attachTrivia_assignSpans, triviaFrom_attach s.dropped spells, List.flatMap]
  refine shown.mono (List.infix_of_mem_flatten (List.mem_map.2 ⟨(g, h), isGap, rfl⟩))

/-- The trivia of a source agrees with what was read. Each stretch that was passed over is shown
as a gap, each dropped lexeme and each skipped character as stray text, and at none of their
characters anything else is shown. -/
structure TriviaAgrees (passedOver : Nat → Nat → Prop) (source : List Char)
    (repairs : List Repair) (shown : List (Nat × TriviaPiece)) : Prop where
  spelled : ∀ x ∈ shown, between source x.1 (x.1 + x.2.text.length) = x.2.text.toList
  ignored : ∀ i j, passedOver i j → (Passage.gap i j).ShownBy source shown
  dropped : ∀ l, .dropped l ∈ repairs → (Passage.dropped l).ShownBy source shown
  skipped : ∀ c o, .skipped c o ∈ repairs → (Passage.skipped c o).ShownBy source shown
  notStray : ∀ i j, passedOver i j → ∀ o, i ≤ o → o < j →
    ∀ x ∈ shown, Covers x o → x.2.kind.isStray = false
  unexpected : ∀ l, .dropped l ∈ repairs → ∀ o, l.start ≤ o → o < l.stop →
    ∀ x ∈ shown, Covers x o → x.2.kind = .unexpectedText

/-- Whatever the budget is, the trivia of a parsed source agrees with what the parse ignored,
dropped and skipped. -/
theorem parse_trivia_agrees {budget : Nat} {file source : String} {p : Parsed}
    (parsed : parse budget file source = .ok p) :
    TriviaAgrees (Recovery.Ignored .ofGrammar budget source.toList) source.toList p.repairs
      (triviaFrom 0 p.root.tokens) := by
  obtain ⟨tree, s, accepted, repairs, shows⟩ := parse_shows parsed
  obtain ⟨⟨ps, accounts⟩, passed⟩ := Recovery.parse_passages Automaton.ofGrammar_sound accepted
  obtain ⟨j, spread⟩ := spread_triviaFrom 0 p.root.tokens
  rw [repairs]
  have ignored : ∀ i j, Recovery.Ignored .ofGrammar budget source.toList i j →
      (Passage.gap i j).ShownBy source.toList (triviaFrom 0 p.root.tokens) := by
    intro i j ignores
    obtain ⟨ps, accounts, mem⟩ := passed i j ignores
    exact shows ps accounts _ mem rfl
  have dropped : ∀ l, .dropped l ∈ s.repairs →
      (Passage.dropped l).ShownBy source.toList (triviaFrom 0 p.root.tokens) :=
    fun l mem => shows ps accounts _ (accounts.mem_dropped.1 mem) rfl
  refine ⟨?_, ignored, dropped, ?_, ?_, ?_⟩
  · intro x hx
    obtain ⟨front, back, spelled, place⟩ := spelled_triviaFrom hx
    rw [parse_written parsed] at spelled
    rw [place, Nat.zero_add, spelled, between, List.drop_left, Nat.add_sub_cancel_left,
      ← String.length_toList, List.take_left]
  · exact fun c o mem => shows ps accounts _ (accounts.mem_skipped.1 mem) rfl
  · intro i j ignores o lo hi x hx covers
    obtain ⟨qs, located, length, gap⟩ := ignored i j ignores
    obtain ⟨y, hy, inside, covers'⟩ := exists_covers lo (length.symm ▸ hi)
    obtain rfl := spread.unique hx (located.subset hy) covers covers'
    exact Passage.not_stray_of_showGap gap _ inside
  · intro l mem o lo hi x hx covers
    obtain ⟨i, q, hq, kind, start, stop⟩ := dropped l mem
    have same := spread.unique hx hq covers
      ⟨Nat.le_trans start lo, Nat.lt_of_lt_of_le hi stop⟩
    rw [same, kind]

/-- The trivia agrees with a parse that skipped a character and dropped a token. -/
theorem parse_trivia_agrees_of_repaired : ∃ p,
    parse 3 standardFile "x = \"é\" $+ (b ] * c" = .ok p ∧ p.recoveries = 3 ∧
      TriviaAgrees (Recovery.Ignored .ofGrammar 3 "x = \"é\" $+ (b ] * c".toList)
        "x = \"é\" $+ (b ] * c".toList p.repairs (triviaFrom 0 p.root.tokens) := by
  obtain ⟨p, parsed, repaired⟩ := exists_ok_of_toOption sample_parses.2.2.2.1
  exact ⟨p, parsed, congrArg Prod.fst repaired, parse_trivia_agrees parsed⟩

end SyntaxAtlas
