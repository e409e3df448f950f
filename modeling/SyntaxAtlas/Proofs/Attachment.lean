-- The text of tokens with their trivia. However a gap is cut into pieces and
-- handed to the tokens around it, none of it is lost: tokens that spell a
-- source in order make up all of it once its trivia is attached.

import SyntaxAtlas.Proofs.Conformity
import SyntaxAtlas.Tree.Attach
import SyntaxAtlas.Tree.Spans
import Mathlib.Data.List.Forall2
import Mathlib.Data.List.TakeDrop

namespace SyntaxAtlas

/-! ## The tokens of changed trees -/

namespace Tree

/-- As many tokens as two runs have are cut in two runs of their lengths. -/
theorem exists_append_of_length {new : List Token} {m n : Nat} (h : new.length = m + n) :
    ∃ first others, new = first ++ others ∧ first.length = m ∧ others.length = n := by
  refine ⟨new.take m, new.drop m, (List.take_append_drop m new).symm, ?_, ?_⟩
  · rw [List.length_take]
    omega
  · rw [List.length_drop]
    omega

mutual

/-- New tokens come in the places of as many old ones. -/
theorem withTokens_tokens (t : Tree) (new rest : List Token) (h : new.length = t.tokens.length) :
    (t.withTokens (new ++ rest)).1.tokens = new ∧ (t.withTokens (new ++ rest)).2 = rest := by
  match t with
  | .token u =>
    obtain ⟨v, rfl⟩ := List.length_eq_one_iff.1 (h.trans (by simp [tokens]))
    exact ⟨rfl, rfl⟩
  | .foreign value =>
    obtain rfl : new = [] := List.length_eq_zero_iff.1 (h.trans (by simp [tokens]))
    exact ⟨rfl, rfl⟩
  | .node kind slots items state =>
    by_cases layout : kind.isLayout = true
    · simp only [tokens, withTokens, layout, if_true] at h ⊢
      exact slotsWithTokens_tokens slots new rest h
    · simp only [tokens, withTokens, layout, Bool.false_eq_true, if_false] at h ⊢
      exact itemsWithTokens_tokens items new rest h

theorem slotsWithTokens_tokens (slots : List (String × Tree)) (new rest : List Token)
    (h : new.length = (slotTokens slots).length) :
    slotTokens (slotsWithTokens slots (new ++ rest)).1 = new ∧
      (slotsWithTokens slots (new ++ rest)).2 = rest := by
  match slots with
  | [] =>
    obtain rfl : new = [] := List.length_eq_zero_iff.1 (h.trans (by simp [slotTokens]))
    exact ⟨rfl, rfl⟩
  | (name, t) :: more =>
    simp only [slotTokens, List.length_append] at h
    obtain ⟨first, others, rfl, length, length'⟩ := exists_append_of_length h
    obtain ⟨tokens, left⟩ := withTokens_tokens t first (others ++ rest) length
    obtain ⟨tokens', left'⟩ := slotsWithTokens_tokens more others rest length'
    simp only [slotsWithTokens, List.append_assoc, slotTokens, tokens, left, tokens', left',
      and_self]

theorem itemsWithTokens_tokens (items : List Tree) (new rest : List Token)
    (h : new.length = (itemTokens items).length) :
    itemTokens (itemsWithTokens items (new ++ rest)).1 = new ∧
      (itemsWithTokens items (new ++ rest)).2 = rest := by
  match items with
  | [] =>
    obtain rfl : new = [] := List.length_eq_zero_iff.1 (h.trans (by simp [itemTokens]))
    exact ⟨rfl, rfl⟩
  | t :: more =>
    simp only [itemTokens, List.length_append] at h
    obtain ⟨first, others, rfl, length, length'⟩ := exists_append_of_length h
    obtain ⟨tokens, left⟩ := withTokens_tokens t first (others ++ rest) length
    obtain ⟨tokens', left'⟩ := itemsWithTokens_tokens more others rest length'
    simp only [itemsWithTokens, List.append_assoc, itemTokens, tokens, left, tokens', left',
      and_self]

end

mutual

/-- Setting spans changes no token. -/
theorem place_tokens (next : Option Int) (t : Tree) : (t.place next).tokens = t.tokens := by
  match t with
  | .token u => rfl
  | .foreign value => rfl
  | .node kind slots items state =>
    by_cases layout : kind.isLayout = true
    · simp only [place, layout, if_true, tokens]
      exact placeSlots_tokens next slots
    · simp only [place, layout, Bool.false_eq_true, if_false, tokens]
      exact placeItems_tokens next items

theorem placeSlots_tokens (next : Option Int) (slots : List (String × Tree)) :
    slotTokens (placeSlots next slots) = slotTokens slots := by
  match slots with
  | [] => rfl
  | (name, t) :: rest =>
    simp only [placeSlots, slotTokens, place_tokens _ t, placeSlots_tokens next rest]

theorem placeItems_tokens (next : Option Int) (items : List Tree) :
    itemTokens (placeItems next items) = itemTokens items := by
  match items with
  | [] => rfl
  | t :: rest =>
    simp only [placeItems, itemTokens, place_tokens _ t, placeItems_tokens next rest]

end

end Tree

/-! ## The pieces of a gap -/

theorem toList_triviaText (pieces : List TriviaPiece) :
    (triviaText pieces).toList = pieces.flatMap (·.text.toList) := by
  rw [triviaText, String.toList_join, List.flatMap_map]

theorem toList_consUnexpected (text : List Char) (pieces : List TriviaPiece) :
    (triviaText (Trivia.consUnexpected text pieces)).toList =
      text ++ (triviaText pieces).toList := by
  simp only [toList_triviaText]
  unfold Trivia.consUnexpected
  split <;> simp

/-- The pieces of a gap are all of its text. -/
theorem toList_split (dropped : Trivia.Dropped) (offset : Int) (text : List Char) :
    (triviaText (Trivia.split dropped offset text)).toList = text := by
  fun_induction Trivia.split dropped offset text with
  | case1 => rfl
  | case2 offset c cs n _ ih => rw [toList_consUnexpected, ih]; simp
  | case3 offset c cs _ kind n _ ih =>
    rw [toList_triviaText] at ih ⊢
    rw [List.flatMap_cons, ih]
    simp
  | case4 offset c cs _ _ ih => rw [toList_consUnexpected, ih]; rfl

section Gap

variable {first : Bool} {previous : Option Token} {pieces trailing leading : List TriviaPiece}

/-- What trails and what leads are all pieces of the gap. -/
theorem gapPieces_append (parts : Token.gapPieces first pieces = (trailing, leading)) :
    trailing ++ leading = pieces := by
  unfold Token.gapPieces at parts
  split at parts
  · cases parts
    rfl
  · rw [Trivia.splitAtNewline, List.span_eq_takeWhile_dropWhile] at parts
    cases parts
    exact List.takeWhile_append_dropWhile

/-- Nothing trails in front of the first token. -/
theorem gapPieces_first (parts : Token.gapPieces previous.isNone pieces = (trailing, leading))
    (none : previous = none) : trailing = [] := by
  subst none
  cases parts
  rfl

theorem toList_gapPieces (parts : Token.gapPieces first pieces = (trailing, leading)) :
    (triviaText trailing).toList ++ (triviaText leading).toList = (triviaText pieces).toList := by
  simp only [toList_triviaText, ← List.flatMap_append, gapPieces_append parts]

end Gap

/-! ## Attaching -/

/-- The characters of a source from one offset to another. -/
def between (source : List Char) (i j : Nat) : List Char := (source.drop i).take (j - i)

theorem between_append {source : List Char} {i j k : Nat} (ij : i ≤ j) (jk : j ≤ k) :
    between source i j ++ between source j k = between source i k := by
  have split : k - i = (j - i) + (k - j) := by omega
  have shift : source.drop j = (source.drop i).drop (j - i) := by
    rw [List.drop_drop]
    congr 1
    omega
  rw [between, between, between, split, List.take_add, shift]

theorem between_self (source : List Char) (i : Nat) : between source i i = [] := by
  simp [between]

theorem between_zero_length (source : List Char) : between source 0 source.length = source := by
  simp [between]

theorem slice_eq_between (source : List Char) (i j : Nat) :
    Text.slice source i j = between source i j := by
  simp [Text.slice, Text.offsetWithin, between]

section Loop

variable {source : List Char} {cut : Cutter} {previous : Option Token} {pending ts : List Token}
  {t : Token}

/-- A missing token waits behind the others for its place. -/
theorem attachFrom_missing {i : Int} (isMissing : t.isMissing = true) :
    Token.attachFrom source cut previous pending i (t :: ts) =
      Token.attachFrom source cut previous (pending ++ [t]) i ts := by
  rw [Token.attachFrom, if_pos isMissing]

/-- A written token parts the gap in front of it: the token before gets what trails it, the
missing tokens between stand behind that, and the token waits for its own trailing pieces. -/
theorem attachFrom_present {i start : Nat} {trailing leading : List TriviaPiece}
    (isPresent : t.isMissing = false) (starts : t.sourceStart source = start)
    (parts : Token.gapPieces previous.isNone (cut i (between source i start)) =
      (trailing, leading)) :
    Token.attachFrom source cut previous pending i (t :: ts) =
      (previous.map fun p => { p with trailing }).toList ++
        pending.map (fun m =>
          { m with position := byteOffset source (i + (triviaText trailing).length : Nat) }) ++
        Token.attachFrom source cut
          (some { t with leading, position := byteOffset source start }) []
          (start + t.text.length : Nat) ts := by
  rw [Token.attachFrom, if_neg (by simp [isPresent])]
  simp only [starts, slice_eq_between, parts]
  push_cast
  rfl

end Loop

/-- Tokens that spell a source in order, from one offset exactly to another, and
have no trivia yet. Missing tokens stand anywhere between. -/
inductive Spells (source : List Char) : Nat → List Token → Nat → Prop
  | none (i : Nat) : Spells source i [] i
  | missing {t : Token} {ts : List Token} {i j : Nat} (isMissing : t.isMissing = true)
      (rest : Spells source i ts j) : Spells source i (t :: ts) j
  | present {t : Token} {ts : List Token} {i j start : Nat} (isPresent : t.isMissing = false)
      (starts : t.sourceStart source = start) (after : i ≤ start)
      (text : between source start (start + t.text.length) = t.text.toList)
      (bare : t.trailing = []) (rest : Spells source (start + t.text.length) ts j) :
      Spells source i (t :: ts) j

theorem Spells.le {source : List Char} {i j : Nat} {ts : List Token} (h : Spells source i ts j) :
    i ≤ j := by
  induction h with
  | none => exact Nat.le_refl _
  | missing _ _ ih => exact ih
  | present _ _ after _ _ _ ih => omega

/-- The text of tokens with their trivia. -/
def written (ts : List Token) : List Char := ts.flatMap (·.fullText.toList)

theorem written_append (ts us : List Token) : written (ts ++ us) = written ts ++ written us :=
  List.flatMap_append

theorem written_missing {ts : List Token} (h : ∀ t ∈ ts, t.isMissing = true) : written ts = [] := by
  rw [written, List.flatMap_eq_nil_iff]
  intro t ht
  simp [Token.fullText, h t ht]

theorem written_moved {ts : List Token} (h : ∀ t ∈ ts, t.isMissing = true) (position : Int) :
    written (ts.map fun t => { t with position }) = [] := by
  apply written_missing
  intro t ht
  obtain ⟨m, hm, rfl⟩ := List.mem_map.1 ht
  exact h m hm

theorem written_present {t : Token} (isPresent : t.isMissing = false) :
    written [t] =
      (triviaText t.leading).toList ++ t.text.toList ++ (triviaText t.trailing).toList := by
  simp [written, Token.fullText, isPresent]

theorem written_trailing {previous : Option Token} {trailing : List TriviaPiece}
    (bare : ∀ p ∈ previous, p.isMissing = false ∧ p.trailing = [])
    (first : previous = none → trailing = []) :
    written (previous.map fun p => { p with trailing }).toList =
      written previous.toList ++ (triviaText trailing).toList := by
  rcases previous with _ | p
  · rw [first rfl]
    rfl
  · obtain ⟨isPresent, bare⟩ := bare p rfl
    simp only [Option.map_some, Option.toList_some]
    rw [written_present isPresent, written_present (by exact isPresent), bare]
    simp [triviaText]

/-- What attaching has used up so far is written by the last token and by what
comes behind it. -/
theorem written_attachFrom {source : List Char} {cut : Cutter}
    (faithful : ∀ offset text, (triviaText (cut offset text)).toList = text)
    {previous : Option Token} {pending ts : List Token} {i j : Nat} (spells : Spells source i ts j)
    (bare : ∀ p ∈ previous, p.isMissing = false ∧ p.trailing = [])
    (missing : ∀ m ∈ pending, m.isMissing = true) :
    written (Token.attachFrom source cut previous pending i ts) =
      written previous.toList ++ between source i j := by
  induction spells generalizing previous pending with
  | none i =>
    rw [Token.attachFrom, written_append, written_moved missing, between_self]
  | missing isMissing _ ih =>
    rw [attachFrom_missing isMissing]
    exact ih bare (List.forall_mem_append.2 ⟨missing, List.forall_mem_singleton.2 isMissing⟩)
  | @present t ts i j start isPresent starts after text tokenBare rest ih =>
    rcases parts : Token.gapPieces previous.isNone (cut i (between source i start)) with
      ⟨trailing, leading⟩
    have whole := toList_gapPieces parts
    have first := gapPieces_first parts
    rw [faithful] at whole
    let next : Token := { t with leading, position := byteOffset source start }
    have behind := @ih (some next) [] (by rintro p ⟨⟩; exact ⟨isPresent, tokenBare⟩) (by simp)
    have here : written [next] = (triviaText leading).toList ++ t.text.toList := by
      rw [written_present (show next.isMissing = false from isPresent)]
      simp [next, tokenBare, triviaText]
    rw [attachFrom_present isPresent starts parts, written_append, written_append,
      written_moved missing, List.append_nil, behind, written_trailing bare first,
      Option.toList_some, here]
    calc written previous.toList ++ (triviaText trailing).toList ++
          ((triviaText leading).toList ++ t.text.toList ++
            between source (start + t.text.length) j)
      _ = written previous.toList ++ (between source i start ++
            (between source start (start + t.text.length) ++
              between source (start + t.text.length) j)) := by
          rw [← whole, text]
          simp only [List.append_assoc]
      _ = written previous.toList ++ between source i j := by
          rw [between_append (Nat.le_add_right _ _) rest.le,
            between_append after (Nat.le_trans (Nat.le_add_right _ _) rest.le)]

/-- The same token with trivia, and with its place in bytes if it is present. -/
structure Attached (source : List Char) (t u : Token) : Prop where
  terminal : u.terminal = t.terminal
  kind : u.kind = t.kind
  text : u.text = t.text
  presence : u.presence = t.presence
  position : t.isMissing = false → u.position = byteOffset source (t.sourceStart source)

theorem Attached.isMissing {source : List Char} {t u : Token} (attached : Attached source t u) :
    u.isMissing = t.isMissing := by
  rw [Token.isMissing, attached.presence, Token.isMissing]

theorem attached_moved {source : List Char} {ts : List Token} (h : ∀ t ∈ ts, t.isMissing = true)
    (position : Int) : List.Forall₂ (Attached source) ts (ts.map fun t => { t with position }) := by
  rw [List.forall₂_map_right_iff, List.forall₂_same]
  intro t ht
  exact ⟨rfl, rfl, rfl, rfl, fun isPresent => by simp [h t ht] at isPresent⟩

/-- Attaching keeps the tokens and their order. -/
theorem attachFrom_attached {source : List Char} {cut : Cutter} {previous : Option Token}
    {pending ts before : List Token} {i : Int}
    (last : List.Forall₂ (Attached source) before previous.toList)
    (missing : ∀ m ∈ pending, m.isMissing = true) :
    List.Forall₂ (Attached source) (before ++ pending ++ ts)
      (Token.attachFrom source cut previous pending i ts) := by
  induction ts generalizing previous pending before i with
  | nil =>
    rw [Token.attachFrom, List.append_nil]
    exact List.rel_append last (attached_moved missing _)
  | cons t ts ih =>
    by_cases isMissing : t.isMissing = true
    · rw [attachFrom_missing isMissing]
      have missing' : ∀ m ∈ pending ++ [t], m.isMissing = true :=
        List.forall_mem_append.2 ⟨missing, List.forall_mem_singleton.2 isMissing⟩
      simpa using @ih previous _ _ i last missing'
    · rw [Token.attachFrom, if_neg isMissing]
      have trailed : ∀ trailing : List TriviaPiece, List.Forall₂ (Attached source) before
          (previous.map fun p => { p with trailing }).toList := by
        intro trailing
        rcases previous with _ | p
        · exact last
        · rcases last with _ | ⟨attached, _ | _⟩
          exact .cons ⟨attached.terminal, attached.kind, attached.text, attached.presence,
            attached.position⟩ .nil
      have here : ∀ leading : List TriviaPiece, List.Forall₂ (Attached source) [t]
          [{ t with leading, position := byteOffset source (t.sourceStart source) }] :=
        fun leading => .cons ⟨rfl, rfl, rfl, rfl, fun _ => rfl⟩ .nil
      rw [← List.singleton_append, ← List.append_assoc, List.append_assoc]
      refine List.rel_append (List.rel_append (trailed _) (attached_moved missing _)) ?_
      simpa using @ih (some _) [] _ _ (here _) (by simp)

/-- Attaching the trivia of a source to tokens that spell it makes up the source. -/
theorem written_attach {source : List Char} {cut : Cutter} {ts : List Token}
    (faithful : ∀ offset text, (triviaText (cut offset text)).toList = text)
    (spells : Spells source 0 ts source.length) :
    written (Token.attach source cut ts) = source := by
  have all := @written_attachFrom source cut faithful none [] ts 0 _ spells (by simp) (by simp)
  rw [between_zero_length] at all
  exact all

theorem attach_attached (source : List Char) (cut : Cutter) (ts : List Token) :
    List.Forall₂ (Attached source) ts (Token.attach source cut ts) := by
  have all := @attachFrom_attached source cut none [] ts [] 0 .nil (by simp)
  exact all

/-- The tokens of a tree with trivia and spans are its tokens with trivia. -/
theorem Tree.tokens_attachTrivia_assignSpans (t : Tree) (source : List Char) (cut : Cutter) :
    (t.attachTrivia source cut).assignSpans.tokens = Token.attach source cut t.tokens := by
  have length := (attach_attached source cut t.tokens).length_eq.symm
  obtain ⟨tokens, _⟩ := t.withTokens_tokens (Token.attach source cut t.tokens) [] length
  rw [List.append_nil] at tokens
  rw [assignSpans, place_tokens, attachTrivia, tokens]

end SyntaxAtlas
