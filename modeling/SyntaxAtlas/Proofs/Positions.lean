-- The places of tokens. A token that the source writes stands on its own bytes,
-- tokens come one behind the other, and a missing token stands where the trivia
-- behind the last written token ends.

import SyntaxAtlas.Proofs.Lossless

namespace SyntaxAtlas

/-! ## Bytes before an offset -/

theorem size_utf8Encode (cs : List Char) : cs.utf8Encode.size = Text.byteLength cs := by
  induction cs with
  | nil => rfl
  | cons c cs ih =>
    have one : [c].utf8Encode.size = c.utf8Size := by
      simp [List.utf8Encode, String.length_utf8EncodeChar, ByteArray.size]
    rw [List.utf8Encode_cons, ByteArray.size_append, ih, one, Text.byteLength_cons]

/-- The start of a part of a text. -/
theorem between_of_eq_append {source a b : List Char} {i j : Nat}
    (h : between source i j = a ++ b) :
    a.length ≤ j - i ∧ between source i (i + a.length) = a := by
  have length := congrArg List.length h
  simp only [between, List.length_take, List.length_append] at length
  have fits : a.length ≤ j - i := by omega
  refine ⟨fits, ?_⟩
  have front := congrArg (List.take a.length) h
  rw [between, List.take_take, Nat.min_eq_left fits, List.take_left] at front
  rw [between, Nat.add_sub_cancel_left, front]

theorem byteOffset_natCast (source : List Char) (n : Nat) :
    byteOffset source n = Text.byteLength (source.take n) := by
  have within : Text.offsetWithin (source.length + 1) n = n := by
    simp [Text.offsetWithin]
  rw [byteOffset, within]

/-- Each character takes its bytes. -/
theorem byteOffset_add {source : List Char} {i j : Nat} (le : i ≤ j) :
    byteOffset source j = byteOffset source i + Text.byteLength (between source i j) := by
  have start : ∀ n : Nat, source.take n = between source 0 n := fun n => by simp [between]
  rw [byteOffset_natCast, byteOffset_natCast, start, start,
    ← between_append (Nat.zero_le i) le, Text.byteLength_append]

theorem byteOffset_mono {source : List Char} {i j : Nat} (le : i ≤ j) :
    byteOffset source i ≤ byteOffset source j := by
  rw [byteOffset_add le]
  exact Nat.le_add_right _ _

theorem byteOffset_length (source : List Char) :
    byteOffset source source.length = Text.byteLength source := by
  rw [byteOffset_natCast, List.take_length]

/-- The bytes of a text from one place to another are those of the characters there. -/
theorem extract_byteOffset (source : String) {i j : Nat} (le : i ≤ j) :
    source.toUTF8.extract (byteOffset source.toList i) (byteOffset source.toList j) =
      (between source.toList i j).utf8Encode := by
  have parts : source.toList =
      source.toList.take i ++ (between source.toList i j ++ source.toList.drop j) := by
    have drop : source.toList.drop j = (source.toList.drop i).drop (j - i) := by
      rw [List.drop_drop]
      congr 1
      omega
    rw [between, drop, List.take_append_drop, List.take_append_drop]
  have bytes : source.toUTF8 = (source.toList.take i).utf8Encode ++
      ((between source.toList i j).utf8Encode ++ (source.toList.drop j).utf8Encode) := by
    rw [← List.utf8Encode_append, ← List.utf8Encode_append, ← parts, String.utf8Encode_toList]
    rfl
  have before : byteOffset source.toList i = (source.toList.take i).utf8Encode.size + 0 := by
    rw [byteOffset_natCast, size_utf8Encode, Nat.add_zero]
  have behind : byteOffset source.toList j = (source.toList.take i).utf8Encode.size +
      (between source.toList i j).utf8Encode.size := by
    rw [byteOffset_add le, byteOffset_natCast, size_utf8Encode, size_utf8Encode]
  rw [bytes, before, behind, ByteArray.extract_append_size_add]
  exact ByteArray.extract_append_eq_left rfl

/-! ## Tokens in their places -/

/-- Where the trivia behind a token ends. -/
def Token.triviaEnd (t : Token) : Int :=
  t.endPosition + Text.byteLength (triviaText t.trailing).toList

/-- Tokens in their places in bytes. Behind `home` characters the trivia of the token
before ends, and there missing tokens stand. -/
inductive Placed (source : List Char) : Nat → List Token → Prop
  | none (home : Nat) : Placed source home []
  | missing {t : Token} {ts : List Token} {home : Nat} (isMissing : t.isMissing = true)
      (place : t.position = byteOffset source home) (rest : Placed source home ts) :
      Placed source home (t :: ts)
  | present {t : Token} {ts : List Token} {home start next : Nat}
      (isPresent : t.isMissing = false) (after : home ≤ start)
      (place : t.position = byteOffset source start)
      (text : between source start (start + t.text.length) = t.text.toList)
      (fits : start + t.text.length ≤ next)
      (trailing : between source (start + t.text.length) next = (triviaText t.trailing).toList)
      (rest : Placed source next ts) : Placed source home (t :: ts)

/-- The last token that the source writes ends behind `i` characters. As long as there
is none, that is where missing tokens stand. -/
def EndsAt (source : List Char) (home i : Nat) : Option Token → Prop
  | none => home = i
  | some p => ∃ start, home ≤ start ∧ start + p.text.length = i ∧ p.isMissing = false ∧
      p.position = byteOffset source start ∧ between source start i = p.text.toList

theorem placed_moved {source : List Char} {home : Nat} {ts rest : List Token}
    (missing : ∀ m ∈ ts, m.isMissing = true) (placed : Placed source home rest) :
    Placed source home
      (ts.map (fun m => { m with position := byteOffset source home }) ++ rest) := by
  induction ts with
  | nil => exact placed
  | cons t ts ih =>
    exact .missing (missing t List.mem_cons_self) rfl
      (ih fun m hm => missing m (List.mem_cons_of_mem _ hm))

/-- The last token gets its trivia, and the missing tokens behind it stand there. -/
theorem EndsAt.placed {source : List Char} {home i next : Nat} {previous : Option Token}
    {trailing : List TriviaPiece} {pending rest : List Token} (ends : EndsAt source home i previous)
    (le : i ≤ next) (text : between source i next = (triviaText trailing).toList)
    (first : previous = none → next = i) (missing : ∀ m ∈ pending, m.isMissing = true)
    (placed : Placed source next rest) :
    Placed source home ((previous.map fun p => { p with trailing }).toList ++
      pending.map (fun m => { m with position := byteOffset source next }) ++ rest) := by
  rcases previous with _ | p
  · obtain rfl : home = i := ends
    obtain rfl := first rfl
    simpa using placed_moved missing placed
  · obtain ⟨start, after, rfl, isPresent, place, spelled⟩ := ends
    have behind := placed_moved missing placed
    simp only [Option.map_some, Option.toList_some, List.singleton_append]
    exact .present isPresent after place spelled le text behind

/-- Attaching puts tokens that spell a source in their places. -/
theorem placed_attachFrom {source : List Char} {cut : Cutter}
    (faithful : ∀ offset text, (triviaText (cut offset text)).toList = text)
    {previous : Option Token} {pending ts : List Token} {home i j : Nat}
    (spells : Spells source i ts j) (ends : EndsAt source home i previous)
    (bare : ∀ p ∈ previous, p.trailing = [])
    (missing : ∀ m ∈ pending, m.isMissing = true) :
    Placed source home (Token.attachFrom source cut previous pending i ts) := by
  induction spells generalizing previous pending home with
  | none i =>
    have same : previous.map (fun p => { p with trailing := [] }) = previous := by
      rcases previous with _ | p
      · rfl
      · have none := bare p rfl
        simp [← none]
    have nothing : between source i i = (triviaText []).toList := between_self source i
    have placed := ends.placed (Nat.le_refl i) nothing (fun _ => rfl) missing (.none i)
    rw [same, List.append_nil] at placed
    exact placed
  | missing isMissing _ ih =>
    rw [attachFrom_missing isMissing]
    exact ih ends bare
      (List.forall_mem_append.2 ⟨missing, List.forall_mem_singleton.2 isMissing⟩)
  | @present t ts i j start isPresent starts after text tokenBare rest ih =>
    rcases parts : Token.gapPieces previous.isNone (cut i (between source i start)) with
      ⟨trailing, leading⟩
    have whole := toList_gapPieces parts
    have first := gapPieces_first parts
    rw [faithful] at whole
    obtain ⟨fits, behind⟩ := between_of_eq_append whole.symm
    rw [String.length_toList] at fits behind
    have within : i + (triviaText trailing).length ≤ start := by omega
    let next : Token := { t with leading, position := byteOffset source start }
    have here : EndsAt source (i + (triviaText trailing).length) (start + t.text.length)
        (some next) :=
      ⟨start, within, rfl, isPresent, rfl, text⟩
    have later := @ih (some next) [] _ here (by rintro p ⟨⟩; exact tokenBare) (by simp)
    rw [attachFrom_present isPresent starts parts]
    exact ends.placed (Nat.le_add_right _ _) behind (fun none => by simp [first none, triviaText])
      missing later

theorem placed_attach {source : List Char} {cut : Cutter} {ts : List Token} {j : Nat}
    (faithful : ∀ offset text, (triviaText (cut offset text)).toList = text)
    (spells : Spells source 0 ts j) : Placed source 0 (Token.attach source cut ts) := by
  have all := @placed_attachFrom source cut faithful none [] ts 0 0 j spells rfl (by simp) (by simp)
  exact all

/-! ## What the places say -/

theorem Token.endPosition_missing {t : Token} (isMissing : t.isMissing = true) :
    t.endPosition = t.position := if_pos isMissing

/-- A written token ends behind its characters. -/
theorem endPosition_present {source : List Char} {t : Token} {start : Nat}
    (isPresent : t.isMissing = false) (place : t.position = byteOffset source start)
    (text : between source start (start + t.text.length) = t.text.toList) :
    t.endPosition = byteOffset source (start + t.text.length : Nat) := by
  rw [Token.endPosition, if_neg (by simp [isPresent]), place, byteOffset_add (Nat.le_add_right _ _),
    text]
  push_cast
  rfl

theorem triviaEnd_present {source : List Char} {t : Token} {start next : Nat}
    (isPresent : t.isMissing = false) (place : t.position = byteOffset source start)
    (text : between source start (start + t.text.length) = t.text.toList)
    (fits : start + t.text.length ≤ next)
    (trailing : between source (start + t.text.length) next = (triviaText t.trailing).toList) :
    t.triviaEnd = byteOffset source next := by
  rw [Token.triviaEnd, endPosition_present isPresent place text, byteOffset_add fits, trailing]
  push_cast
  rfl

/-- No token stands before the place of missing tokens. -/
theorem Placed.home_le {source : List Char} {home : Nat} {ts : List Token}
    (placed : Placed source home ts) : ∀ t ∈ ts, (byteOffset source home : Int) ≤ t.position := by
  induction placed with
  | none => simp
  | missing _ place _ ih =>
    intro u hu
    rcases List.mem_cons.1 hu with rfl | hu
    · exact Int.le_of_eq place.symm
    · exact ih u hu
  | present _ after place _ fits _ _ ih =>
    intro u hu
    rcases List.mem_cons.1 hu with rfl | hu
    · rw [place]
      exact Int.ofNat_le.2 (byteOffset_mono after)
    · exact Int.le_trans (Int.ofNat_le.2 (byteOffset_mono (by omega))) (ih u hu)

theorem Placed.ordered {source : List Char} {home : Nat} {ts : List Token}
    (placed : Placed source home ts) : ts.Pairwise fun t u => t.endPosition ≤ u.position := by
  induction placed with
  | none => exact .nil
  | missing isMissing place rest ih =>
    refine .cons (fun u hu => ?_) ih
    rw [Token.endPosition_missing isMissing, place]
    exact rest.home_le u hu
  | present isPresent _ place text fits _ rest ih =>
    refine .cons (fun u hu => ?_) ih
    rw [endPosition_present isPresent place text]
    exact Int.le_trans (Int.ofNat_le.2 (byteOffset_mono fits)) (rest.home_le u hu)

theorem Placed.extract {source : String} {home : Nat} {ts : List Token}
    (placed : Placed source.toList home ts) : ∀ t ∈ ts, t.isMissing = false →
      source.toUTF8.extract t.position.toNat t.endPosition.toNat = t.text.toUTF8 := by
  induction placed with
  | none => simp
  | missing isMissing _ _ ih =>
    intro u hu isPresent
    rcases List.mem_cons.1 hu with rfl | hu
    · rw [isMissing] at isPresent
      cases isPresent
    · exact ih u hu isPresent
  | present isPresent _ place text _ _ _ ih =>
    intro u hu isPresent'
    rcases List.mem_cons.1 hu with rfl | hu
    · rw [endPosition_present isPresent place text, place, Int.toNat_natCast, Int.toNat_natCast,
        extract_byteOffset source (Nat.le_add_right _ _), text, String.utf8Encode_toList]
      rfl
    · exact ih u hu isPresent'

/-- The last token of some that the source writes. -/
def lastWritten? (ts : List Token) : Option Token := (ts.filter fun t => !t.isMissing).getLast?

/-- A missing token stands where the trivia behind the last written token ends. -/
theorem Placed.missing_at {source : List Char} {home : Nat} {before after : List Token} {m : Token}
    (placed : Placed source home (before ++ m :: after)) (isMissing : m.isMissing = true) :
    m.position = ((lastWritten? before).map Token.triviaEnd).getD (byteOffset source home) := by
  induction before generalizing home with
  | nil =>
    rcases placed with _ | ⟨_, place, _⟩ | ⟨isPresent, _, _, _, _, _, _⟩
    · exact place
    · rw [isMissing] at isPresent
      cases isPresent
  | cons t before ih =>
    rcases placed with _ | ⟨skipped, _, rest⟩ | ⟨isPresent, _, place, text, fits, trailing, rest⟩
    · rw [ih rest]
      simp [lastWritten?, skipped]
    · have ends := triviaEnd_present isPresent place text fits trailing
      rw [ih rest, ← ends]
      simp only [lastWritten?, List.filter_cons, isPresent, Bool.not_false, if_true,
        List.getLast?_cons]
      rcases List.getLast? _ with _ | q <;> rfl

/-! ## The tokens of a source -/

theorem exists_concat_of_forall₂ {α β : Type} {R : α → β → Prop} {as : List α} {a : α}
    {bs : List β} (h : List.Forall₂ R (as ++ [a]) bs) : ∃ front b, bs = front ++ [b] ∧ R a b := by
  have reversed := List.rel_reverse h
  rw [List.reverse_append, List.reverse_singleton, List.singleton_append] at reversed
  rcases same : bs.reverse with _ | ⟨b, rest⟩
  · rw [same] at reversed
    cases reversed
  · rw [same] at reversed
    cases reversed with
    | cons related _ =>
      exact ⟨rest.reverse, b, by simpa using congrArg List.reverse same, related⟩

/-- The last token of a parsed source is the end of the file, at the end of the source. -/
theorem parse_endOfFile {budget : Nat} {file source : String} {p : Parsed}
    (parsed : parse budget file source = .ok p) :
    ∃ (front : List Token) (e : Token), p.root.tokens = front ++ [e] ∧ e.terminal = .endOfFile ∧
      e.isMissing = false ∧ e.position = source.toUTF8.size ∧
      e.endPosition = source.toUTF8.size := by
  obtain ⟨tree, s, root, accepted, built, tokens⟩ := parse_tokens parsed
  have leaves := leaves_of_toTree Automaton.ofGrammar_sound accepted built
  obtain ⟨front, rest, split, _, last⟩ := List.map_eq_append_iff.1 leaves
  obtain ⟨e, rfl, plain⟩ := List.map_eq_singleton_iff.1 last
  have attached := attach_attached source.toList (Trivia.split s.dropped) root.tokens
  rw [← tokens, split] at attached
  obtain ⟨front', u, same, last⟩ := exists_concat_of_forall₂ attached
  have terminal : e.terminal = .endOfFile := congrArg Token.terminal plain
  have text : e.text = "" := congrArg Token.text plain
  have written : e.isMissing = false := congrArg Token.isMissing plain
  have isPresent : u.isMissing = false := last.isMissing.trans written
  have place : u.position = source.toUTF8.size := by
    rw [last.position written, Token.sourceStart, if_pos terminal,
      byteOffset_length, ← size_utf8Encode, String.utf8Encode_toList]
    rfl
  refine ⟨front', u, same, last.terminal.trans terminal, isPresent, place, ?_⟩
  rw [Token.endPosition, if_neg (by simp [isPresent]), place, last.text, text]
  simp

/-- The tokens of a parsed source are in their places. -/
theorem parse_placed {budget : Nat} {file source : String} {p : Parsed}
    (parsed : parse budget file source = .ok p) : Placed source.toList 0 p.root.tokens := by
  obtain ⟨ts, dropped, spells, tokens⟩ := parse_spells parsed
  rw [tokens]
  exact placed_attach (toList_split dropped) spells

/-- Positions are exact. From its position to its end, each token that the source writes
is there in bytes, and the end of the file is the end of the source. No token begins
before the end of one in front of it. A missing token has no width, and stands where the
trivia behind the last written token ends, or at the start of the source. -/
theorem parse_positions {budget : Nat} {file source : String} {p : Parsed}
    (parsed : parse budget file source = .ok p) :
    (∀ t ∈ p.root.tokens, 0 ≤ t.position ∧ (t.isMissing = false →
      source.toUTF8.extract t.position.toNat t.endPosition.toNat = t.text.toUTF8)) ∧
    (∃ (front : List Token) (e : Token), p.root.tokens = front ++ [e] ∧ e.terminal = .endOfFile ∧
      e.isMissing = false ∧ e.position = source.toUTF8.size ∧ e.endPosition = source.toUTF8.size) ∧
    (p.root.tokens.Pairwise fun t u => t.endPosition ≤ u.position) ∧
    ∀ before m after, p.root.tokens = before ++ m :: after → m.isMissing = true →
      m.endPosition = m.position ∧
        m.position = ((lastWritten? before).map Token.triviaEnd).getD 0 := by
  have placed := parse_placed parsed
  refine ⟨fun t ht => ⟨?_, placed.extract t ht⟩, parse_endOfFile parsed, placed.ordered, ?_⟩
  · exact placed.home_le t ht
  · intro before m after same isMissing
    rw [same] at placed
    exact ⟨Token.endPosition_missing isMissing, placed.missing_at isMissing⟩

/-- Positions are exact with a wide character, a skipped one, a dropped token and a missing
one. -/
theorem parse_positions_of_repaired : ∃ p,
    parse 3 standardFile "x = \"é\" $+ (b ] * c" = .ok p ∧ p.recoveries = 3 ∧
      (∀ t ∈ p.root.tokens, t.isMissing = false →
        "x = \"é\" $+ (b ] * c".toUTF8.extract t.position.toNat t.endPosition.toNat =
          t.text.toUTF8) ∧
      (p.root.tokens.Pairwise fun t u => t.endPosition ≤ u.position) := by
  obtain ⟨p, parsed, repairs⟩ := exists_ok_of_toOption sample_parses.2.2.2.1
  obtain ⟨spelled, _, ordered, _⟩ := parse_positions parsed
  exact ⟨p, parsed, congrArg Prod.fst repairs, fun t ht => (spelled t ht).2, ordered⟩

end SyntaxAtlas
