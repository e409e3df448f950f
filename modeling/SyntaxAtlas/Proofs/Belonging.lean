-- Which token a piece of trivia belongs to. What stands between two tokens that the source
-- writes is cut into pieces. Those in front of the first line end belong to the token before,
-- the others to the token behind, whatever missing tokens stand between the two.

import Mathlib.Data.List.TakeWhile
import SyntaxAtlas.Proofs.Insertions
import SyntaxAtlas.Proofs.Partition

namespace SyntaxAtlas

/-! ## The two sides of a gap -/

/-- The pieces of a gap, parted at the first line end. -/
structure PartedAtNewline (trailing leading pieces : List TriviaPiece) : Prop where
  whole : trailing ++ leading = pieces
  before : ∀ q ∈ trailing, q.isNewline = false
  behind : ∀ q ∈ leading.head?, q.isNewline = true

theorem splitAtNewline_parted (pieces : List TriviaPiece) :
    PartedAtNewline (Trivia.splitAtNewline pieces).1 (Trivia.splitAtNewline pieces).2 pieces := by
  rw [Trivia.splitAtNewline, List.span_eq_takeWhile_dropWhile]
  refine ⟨List.takeWhile_append_dropWhile, fun q mem => ?_, fun q head => ?_⟩
  · simpa using List.mem_takeWhile_imp mem
  · have first := List.head?_dropWhile_not (!TriviaPiece.isNewline ·) pieces
    rw [Option.mem_def.1 head] at first
    simpa using first

/-! ## Tokens with the trivia that belongs to them -/

/-- The end of the last written token, in characters, and what trails it. -/
abbrev LastWritten := Option (Nat × List TriviaPiece)

section Attaching

variable (source : List Char) (cut : Cutter)

/-- What leads a token behind a last written one. In front of the first token all pieces do. -/
def LedBy (start : Nat) (leading : List TriviaPiece) : LastWritten → Prop
  | none => leading = cut 0 (between source 0 start)
  | some (stop, trailing) =>
    stop ≤ start ∧ PartedAtNewline trailing leading (cut stop (between source stop start))

/-- Tokens with the trivia that belongs to them, behind a last written token. Missing tokens
are passed over, and nothing trails the last token of all. -/
inductive Belonging : LastWritten → List Token → Prop
  | none {last : LastWritten} (bare : ∀ p ∈ last, p.2 = []) : Belonging last []
  | missing {last : LastWritten} {t : Token} {ts : List Token}
      (isMissing : t.isMissing = true) (rest : Belonging last ts) : Belonging last (t :: ts)
  | present {last : LastWritten} {t : Token} {ts : List Token} {start : Nat}
      (isPresent : t.isMissing = false) (place : t.position = byteOffset source start)
      (text : between source start (start + t.text.length) = t.text.toList)
      (within : start + t.text.length ≤ source.length)
      (led : LedBy source cut start t.leading last)
      (rest : Belonging (some (start + t.text.length, t.trailing)) ts) : Belonging last (t :: ts)

/-- The last token that attaching has met stands in its place up to `stop` characters, and has
what leads it. What trails it is still to come. -/
def Awaits (last : LastWritten) (stop : Nat) : Option Token → Prop
  | none => last = none ∧ stop = 0
  | some p => p.isMissing = false ∧ p.trailing = [] ∧ stop ≤ source.length ∧
      ∃ start, start + p.text.length = stop ∧ p.position = byteOffset source start ∧
        between source start stop = p.text.toList ∧ LedBy source cut start p.leading last

variable {source cut}

theorem Awaits.belonging {last : LastWritten} {stop : Nat} {p : Token}
    (awaits : Awaits source cut last stop (some p)) {trailing : List TriviaPiece} {ts : List Token}
    (rest : Belonging source cut (some (stop, trailing)) ts) :
    Belonging source cut last ({ p with trailing } :: ts) := by
  obtain ⟨isPresent, _, within, start, rfl, place, text, led⟩ := awaits
  exact .present isPresent place text within led rest

theorem belonging_moved {last : LastWritten} {ts rest : List Token}
    (missing : ∀ m ∈ ts, m.isMissing = true) (position : Int)
    (behind : Belonging source cut last rest) :
    Belonging source cut last (ts.map (fun m => { m with position }) ++ rest) := by
  induction ts with
  | nil => exact behind
  | cons t ts ih =>
    rw [List.forall_mem_cons] at missing
    exact .missing missing.1 (ih missing.2)

/-- Attaching gives each token the trivia that belongs to it. -/
theorem belonging_attachFrom {previous : Option Token} {pending ts : List Token} {i j : Nat}
    {last : LastWritten} (spells : Spells source i ts j) (within : j ≤ source.length)
    (awaits : Awaits source cut last i previous)
    (missing : ∀ m ∈ pending, m.isMissing = true) :
    Belonging source cut last (Token.attachFrom source cut previous pending i ts) := by
  induction spells generalizing previous pending last with
  | none i =>
    rw [Token.attachFrom]
    have behind : ∀ {last : LastWritten}, (∀ p ∈ last, p.2 = []) → Belonging source cut last
        (pending.map fun m => { m with position := byteOffset source i }) := by
      intro last bare
      simpa using belonging_moved missing (byteOffset source i) (Belonging.none bare)
    rcases previous with _ | p
    · obtain ⟨rfl, rfl⟩ := awaits
      exact behind (by simp)
    · have own := awaits.belonging (@behind (some (i, [])) (by simp))
      rw [← awaits.2.1] at own
      exact own
  | missing isMissing _ ih =>
    rw [attachFrom_missing isMissing]
    exact ih within awaits
      (List.forall_mem_append.2 ⟨missing, List.forall_mem_singleton.2 isMissing⟩)
  | @present t ts i j start isPresent starts after text bare rest ih =>
    rw [Token.attachFrom, if_neg (by simp [isPresent])]
    simp only [starts, slice_eq_between]
    have fits : start + t.text.length ≤ source.length := Nat.le_trans rest.le within
    -- The token waits for its own trailing trivia, as the one before did.
    have later : ∀ {leading last}, LedBy source cut start leading last → Belonging source cut last
        (Token.attachFrom source cut
          (some { t with leading, position := byteOffset source start }) []
          (start + t.text.length : Nat) ts) := by
      intro leading last led
      exact ih within ⟨isPresent, bare, fits, start, rfl, rfl, text, led⟩ (by simp)
    rcases previous with _ | p
    · obtain ⟨rfl, rfl⟩ := awaits
      exact belonging_moved missing _ (later rfl)
    · have parted := splitAtNewline_parted (cut i (between source i start))
      exact awaits.belonging (belonging_moved missing _ (later ⟨after, parted⟩))

/-- All tokens of a source have the trivia that belongs to them. -/
theorem belonging_attach {ts : List Token} (spells : Spells source 0 ts source.length) :
    Belonging source cut none (Token.attach source cut ts) := by
  have awaits : Awaits source cut none 0 none := ⟨rfl, rfl⟩
  exact belonging_attachFrom spells (Nat.le_refl _) awaits (by simp)

/-! ## What belonging says -/

theorem Belonging.led {last : LastWritten} {before behind : List Token} {t : Token}
    (h : Belonging source cut last (before ++ t :: behind))
    (missing : ∀ m ∈ before, m.isMissing = true) (isPresent : t.isMissing = false) :
    ∃ start ≤ source.length, t.position = byteOffset source start ∧
      LedBy source cut start t.leading last := by
  induction before with
  | nil =>
    rcases h with _ | ⟨isMissing, _⟩ | ⟨_, place, _, within, led, _⟩
    · rw [isMissing] at isPresent
      cases isPresent
    · exact ⟨_, Nat.le_trans (Nat.le_add_right _ _) within, place, led⟩
  | cons m before ih =>
    rw [List.forall_mem_cons] at missing
    rcases h with _ | ⟨_, rest⟩ | ⟨isPresent', _, _, _, _, _⟩
    · exact ih rest missing.2
    · rw [missing.1] at isPresent'
      cases isPresent'

/-- Behind each token that the source writes stands what belongs to others, from its end on. -/
theorem Belonging.after {last : LastWritten} {before behind : List Token} {t : Token}
    (h : Belonging source cut last (before ++ t :: behind))
    (isPresent : t.isMissing = false) :
    ∃ stop : Nat, t.endPosition = byteOffset source stop ∧
      Belonging source cut (some (stop, t.trailing)) behind := by
  induction before generalizing last with
  | nil =>
    rcases h with _ | ⟨isMissing, _⟩ | ⟨_, place, text, _, _, rest⟩
    · rw [isMissing] at isPresent
      cases isPresent
    · exact ⟨_, endPosition_present isPresent place text, rest⟩
  | cons m before ih =>
    rcases h with _ | ⟨_, rest⟩ | ⟨_, _, _, _, _, rest⟩
    · exact ih rest
    · exact ih rest

/-- What leads a token, and what trails the one before, are pieces that were cut. -/
theorem LedBy.pieces {P : TriviaPiece → Prop} (cuts : ∀ offset text, ∀ q ∈ cut offset text, P q)
    {start : Nat} {leading : List TriviaPiece} {last : LastWritten}
    (led : LedBy source cut start leading last) :
    (∀ p ∈ last, ∀ q ∈ p.2, P q) ∧ ∀ q ∈ leading, P q := by
  rcases last with _ | ⟨stop, trailing⟩
  · obtain rfl : leading = _ := led
    exact ⟨by simp, cuts _ _⟩
  · have all := cuts stop (between source stop start)
    rw [← led.2.whole, List.forall_mem_append] at all
    refine ⟨?_, all.2⟩
    rintro _ ⟨⟩
    exact all.1

/-- The trivia of all written tokens are pieces that were cut. -/
theorem Belonging.pieces {P : TriviaPiece → Prop}
    (cuts : ∀ offset text, ∀ q ∈ cut offset text, P q) {last : LastWritten} {ts : List Token}
    (h : Belonging source cut last ts) :
    (∀ p ∈ last, ∀ q ∈ p.2, P q) ∧
      ∀ u ∈ ts, u.isMissing = false → ∀ q ∈ u.leading ++ u.trailing, P q := by
  induction h with
  | none bare =>
    refine ⟨fun p isLast => ?_, by simp⟩
    rw [bare p isLast]
    simp
  | missing isMissing _ ih =>
    refine ⟨ih.1, List.forall_mem_cons.2 ⟨fun isPresent => ?_, ih.2⟩⟩
    rw [isMissing] at isPresent
    cases isPresent
  | present _ _ _ _ led _ ih =>
    obtain ⟨before, leads⟩ := led.pieces cuts
    exact ⟨before, List.forall_mem_cons.2
      ⟨fun _ => List.forall_mem_append.2 ⟨leads, ih.1 _ rfl⟩, ih.2⟩⟩

end Attaching

/-! ## The trivia of a source -/

/-- Every dropped lexeme ends behind its start, so the pieces of a gap are found on one way
through it. -/
theorem dropped_forward {budget : Nat} {source : List Char} {tree : ParseTree} {s : Session}
    (accepted : Recovery.parse .ofGrammar budget source = .ok (tree, s)) :
    ∀ d ∈ s.dropped, d.1 < d.2 := by
  obtain ⟨balanced, _⟩ := Recovery.parse_accounts Automaton.ofGrammar_sound accepted
  obtain ⟨⟨ps, accounts⟩, _⟩ := Recovery.parse_passages Automaton.ofGrammar_sound accepted
  rw [balanced.dropped]
  intro d hd
  obtain ⟨l, hl, rfl⟩ := List.mem_map.1 hd
  obtain ⟨r, hr, same⟩ := List.mem_filterMap.1 hl
  obtain rfl : r = .dropped l := by cases r <;> cases same; rfl
  exact Int.ofNat_lt.2 (accounts.holds _ (accounts.mem_dropped.1 hr)).bounds.1

/-- The trivia of a parsed source. All pieces in front of the first written token lead it.
Between two written tokens, with or without missing ones there, the pieces of the gap trail the
first of the two up to a line end, and lead the second from there on. Missing tokens have no
trivia, and nothing trails the end of the file. -/
theorem parse_trivia_belongs {budget : Nat} {file source : String} {p : Parsed}
    (parsed : parse budget file source = .ok p) :
    ∃ tree s, Recovery.parse .ofGrammar budget source.toList = .ok (tree, s) ∧
      (∀ (before : List Token) (t : Token) (behind : List Token),
        p.root.tokens = before ++ t :: behind →
        (∀ m ∈ before, m.isMissing = true) → t.isMissing = false →
        ∃ start : Nat, start ≤ source.toList.length ∧
          t.position = byteOffset source.toList start ∧
          t.leading = Trivia.cut s.dropped 0 (between source.toList 0 start)) ∧
      (∀ (before : List Token) (t : Token) (missing : List Token) (u : Token) (behind : List Token),
        p.root.tokens = before ++ t :: (missing ++ u :: behind) → t.isMissing = false →
        (∀ m ∈ missing, m.isMissing = true) → u.isMissing = false →
        ∃ stop start : Nat, stop ≤ start ∧ start ≤ source.toList.length ∧
          t.endPosition = byteOffset source.toList stop ∧
          u.position = byteOffset source.toList start ∧
          PartedAtNewline t.trailing u.leading
            (Trivia.cut s.dropped stop (between source.toList stop start))) ∧
      (∀ t ∈ p.root.tokens, t.isMissing = true → t.leading = [] ∧ t.trailing = []) ∧
      ∃ front e, p.root.tokens = front ++ [e] ∧ e.terminal = .endOfFile ∧
        e.isMissing = false ∧ e.trailing = [] := by
  obtain ⟨tree, s, root, accepted, built, tokens⟩ := parse_tokens parsed
  obtain ⟨root', built', spells⟩ := toTree_spells Automaton.ofGrammar_sound accepted
  obtain rfl : root = root' := Except.ok.inj (built.symm.trans built')
  have belonging := @belonging_attach _ (Trivia.split s.dropped) _ spells
  rw [← tokens] at belonging
  have cut : Trivia.split s.dropped = Trivia.cut s.dropped := by
    funext base gap
    exact (Trivia.cut_eq_split (dropped_forward accepted) base gap).symm
  rw [cut] at belonging
  refine ⟨tree, s, accepted, ?_, ?_, fun t ht isMissing => (parse_missing parsed t ht isMissing).2.2,
    ?_⟩
  · intro before t behind split missing isPresent
    rw [split] at belonging
    exact belonging.led missing isPresent
  · intro before t missing u behind split isPresent areMissing isPresent'
    rw [split] at belonging
    obtain ⟨stop, ends, rest⟩ := belonging.after isPresent
    obtain ⟨start, within, place, le, parted⟩ := rest.led areMissing isPresent'
    exact ⟨stop, start, le, within, ends, place, parted⟩
  · obtain ⟨front, e, last, terminal, isPresent, _⟩ := parse_endOfFile parsed
    rw [last] at belonging
    obtain ⟨_, _, rest⟩ := belonging.after isPresent
    cases rest with
    | none bare => exact ⟨front, e, last, terminal, isPresent, bare _ rfl⟩

/-- Trivia around a stray character, a dropped token and a missing one. -/
theorem parse_trivia_belongs_of_repaired : ∃ p tree s,
    parse 3 standardFile "x = \"é\" $+ (b ] * c" = .ok p ∧ p.recoveries = 3 ∧
      Recovery.parse .ofGrammar 3 "x = \"é\" $+ (b ] * c".toList = .ok (tree, s) ∧
      (∀ (before : List Token) (t : Token) (missing : List Token) (u : Token)
          (behind : List Token),
        p.root.tokens = before ++ t :: (missing ++ u :: behind) → t.isMissing = false →
        (∀ m ∈ missing, m.isMissing = true) → u.isMissing = false →
        ∃ stop start : Nat, PartedAtNewline t.trailing u.leading
          (Trivia.cut s.dropped stop (between "x = \"é\" $+ (b ] * c".toList stop start))) ∧
      ∃ front e, p.root.tokens = front ++ [e] ∧ e.terminal = .endOfFile ∧ e.trailing = [] := by
  obtain ⟨p, parsed, repairs⟩ := exists_ok_of_toOption sample_parses.2.2.2.1
  obtain ⟨tree, s, accepted, _, gaps, _, front, e, last, terminal, _, bare⟩ :=
    parse_trivia_belongs parsed
  refine ⟨p, tree, s, parsed, congrArg Prod.fst repairs, accepted, ?_, front, e, last, terminal,
    bare⟩
  intro before t missing u behind split isPresent areMissing isPresent'
  obtain ⟨stop, start, _, _, _, _, parted⟩ :=
    gaps before t missing u behind split isPresent areMissing isPresent'
  exact ⟨stop, start, parted⟩

end SyntaxAtlas
