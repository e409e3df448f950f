-- Words are read whole where an identifier may come. Where none may come, a word
-- that is no keyword is cut behind the longest keyword that it starts with.

import SyntaxAtlas.Proofs.Lossless

namespace SyntaxAtlas

namespace Lexeme

/-! ## The first character of a word -/

theorem isWordPart_of_start {c : Char} (h : isWordStart c = true) : isWordPart c = true := by
  unfold isWordStart at h
  unfold isWordPart Char.isAlphanum
  rw [Bool.or_eq_true] at h
  rcases h with letter | underscore
  · simp [letter]
  · simp [underscore]

theorem toNat_of_isWordStart {c : Char} (h : isWordStart c = true) :
    65 ≤ c.toNat ∧ c.toNat ≤ 122 := by
  unfold isWordStart Char.isAlpha Char.isUpper Char.isLower at h
  simp only [Bool.or_eq_true, Bool.and_eq_true, decide_eq_true_eq, beq_iff_eq, ge_iff_le,
    UInt32.le_iff_toNat_le] at h
  change ((65 ≤ c.toNat ∧ c.toNat ≤ 90) ∨ (97 ≤ c.toNat ∧ c.toNat ≤ 122)) ∨ c = '_' at h
  rcases h with (upper | lower) | rfl
  · omega
  · omega
  · decide

theorem not_decimalDigit_of_start {c : Char} (h : isWordStart c = true) :
    Text.isDecimalDigit c = false := by
  obtain ⟨low, high⟩ := toNat_of_isWordStart h
  have apart : ∀ z ∈ Text.zeroDigits, z + 9 < 65 ∨ 122 < z := by decide
  rw [Text.isDecimalDigit, List.any_eq_false]
  intro z hz
  have := apart z hz
  simp only [Bool.and_eq_true, decide_eq_true_eq]
  omega

theorem not_operatorPart_of_start {c : Char} (h : isWordStart c = true) :
    isOperatorPart c = false := by
  have apart : ['-', '+', '*', '/', '%', '<', '>', '!', '&', '|', '^', '~', '=', '?'].all
      (fun d => !isWordStart d) = true := by decide
  rw [Bool.eq_false_iff]
  intro part
  have := List.all_eq_true.1 apart c (List.contains_iff_mem.1 part)
  rw [h] at this
  cases this

theorem not_blank_of_start {c : Char} (h : isWordStart c = true) : isBlank c = false := by
  obtain ⟨low, -⟩ := toNat_of_isWordStart h
  have apart : ∀ d ∈ [' ', '\t', '\r', '\n'], c ≠ d := by
    have small : [' ', '\t', '\r', '\n'].all (fun d => d.toNat < 65) = true := by decide
    rintro d hd rfl
    have := of_decide_eq_true (List.all_eq_true.1 small c hd)
    omega
  simp only [List.mem_cons, List.not_mem_nil, or_false, forall_eq_or_imp, forall_eq] at apart
  obtain ⟨space, tab, cr, lf⟩ := apart
  simp only [isBlank, Bool.or_eq_false_iff, beq_eq_false_iff_ne]
  exact ⟨⟨⟨⟨⟨space, tab⟩, cr⟩, lf⟩, by omega⟩, by omega⟩

/-! ## Reading at the start of a word -/

theorem take_length_takeWhile (p : Char → Bool) (text : List Char) :
    text.take (text.takeWhile p).length = text.takeWhile p := by
  have parts := List.takeWhile_append_dropWhile (p := p) (l := text)
  generalize text.takeWhile p = word at parts ⊢
  rw [← parts, List.take_left]

theorem identifierLength_word {c : Char} {cs : List Char} (start : isWordStart c = true) :
    identifierLength (c :: cs) = some ((c :: cs).takeWhile isWordPart).length := by
  simp [identifierLength, start, isWordPart_of_start start]

/-- A character that starts no comment, number, operator or string starts a word, a run of
blanks or a fixed spelling. -/
theorem scan_plain {w : Wanted} {c : Char} {cs : List Char}
    (digit : Text.isDecimalDigit c = false) (operator : isOperatorPart c = false)
    (point : c ≠ '.') (quote : c ≠ '"') :
    scan w (c :: cs) = (scanClass w .identifier identifierLength (c :: cs) <|>
      (blankLength (c :: cs)).map (none, ·) <|>
      (longestFixed w (c :: cs)).map fun (t, n) => (some t, n)) := by
  have slash : c ≠ '/' := by
    rintro rfl
    exact absurd operator (by decide)
  have zero : c ≠ '0' := by
    rintro rfl
    exact absurd digit (by decide)
  have digits : digitsLength (c :: cs) = none := by simp [digitsLength, digit]
  have block : Comment.blockLength (c :: cs) = none := by simp [Comment.blockLength, slash]
  have line : Comment.lineLength (c :: cs) = none := by simp [Comment.lineLength, slash]
  have float : floatLength (c :: cs) = none := by simp [floatLength, digits]
  have integer : integerLength (c :: cs) = none := by simp [integerLength, zero, digits]
  have operator : operatorLength (c :: cs) = none := by simp [operatorLength, point, operator]
  have string : stringLength (c :: cs) = none := by simp [stringLength, quote]
  have passed : ∀ (cls : Terminal) (length : List Char → Option Nat), length (c :: cs) = none →
      scanClass w cls length (c :: cs) = none := by
    intro cls length none
    simp [scanClass, none]
  rw [scan, block, line, passed _ _ float, passed _ _ integer, passed _ _ operator,
    passed _ _ string]
  rfl

/-- At the start of a word no comment, number, operator, string or blank is read. What
is left is the whole word, or a fixed spelling where no identifier is wanted. -/
theorem scan_word {w : Wanted} {c : Char} {cs : List Char} (start : isWordStart c = true) :
    scan w (c :: cs) =
      if w .identifier then
        some (some (retyped w .identifier ((c :: cs).takeWhile isWordPart)),
          ((c :: cs).takeWhile isWordPart).length)
      else (longestFixed w (c :: cs)).map fun (t, n) => (some t, n) := by
  have apart : ∀ d, isWordStart d = false → c ≠ d := by
    rintro d other rfl
    rw [start] at other
    cases other
  have blank : blankLength (c :: cs) = none := by simp [blankLength, not_blank_of_start start]
  rw [scan_plain (not_decimalDigit_of_start start) (not_operatorPart_of_start start)
    (apart '.' (by decide)) (apart '"' (by decide))]
  simp only [scanClass, blank, identifierLength_word start, take_length_takeWhile,
    Option.map_none, Option.map_some]
  split <;> rfl

theorem fixedLength_eq_some {text : List Char} {t : Terminal} {s : String} {n : Nat}
    (spelling : t.fixedText? = some s) :
    fixedLength text t = some n ↔ s.toList <+: text ∧ s.toList.length = n := by
  rw [fixedLength, spelling, Option.bind_some]
  simp

/-- A lexeme with a fixed spelling is spelled so. -/
theorem scan_fixedText {w : Wanted} {text : List Char} {t : Terminal} {s : String} {n : Nat}
    (scanned : scan w text = some (some t, n)) (spelling : t.fixedText? = some s) :
    text.take n = s.toList := by
  rcases scan_eq_some scanned with ⟨cls, hcls, _, _, rfl⟩ | found
  · have bare : ∀ cls ∈ classes, cls.1.fixedText? = none := by decide
    rcases retyped_cases w cls.1 (text.take n) with own | ⟨_, _, s', spelled, same⟩
    · rw [own, bare cls hcls] at spelling
      cases spelling
    · rw [spelled] at spelling
      cases spelling
      exact same.symm
  · have fits := (longestFixed_eq_some found).2.1
    obtain ⟨⟨rest, rfl⟩, rfl⟩ := (fixedLength_eq_some spelling).1 fits
    exact List.take_left

/-! ## Keywords -/

theorem keyword_isWord (k : Keyword) :
    k.text.toList.head?.any isWordStart = true ∧ ∀ c ∈ k.text.toList, isWordPart c = true := by
  have all : ∀ k ∈ Keyword.all, k.text.toList.head?.any isWordStart = true ∧
      k.text.toList.all isWordPart = true := by decide
  obtain ⟨start, part⟩ := all k k.mem_all
  exact ⟨start, List.all_eq_true.1 part⟩

theorem takeWhile_ne_nil {p : Char → Bool} {text : List Char} :
    text.takeWhile p ≠ [] ↔ ∃ c ∈ text.head?, p c = true := by
  cases text with
  | nil => simp
  | cons c cs => simp [List.takeWhile_cons]

/-- A keyword is read where a word starts. -/
theorem scan_keyword_start {w : Wanted} {text : List Char} {k : Keyword} {n : Nat}
    (scanned : scan w text = some (some (.keyword k), n)) :
    ∃ c cs, text = c :: cs ∧ isWordStart c = true := by
  have spelled := scan_fixedText scanned rfl
  obtain ⟨start, _⟩ := keyword_isWord k
  rw [← spelled] at start
  rcases text with _ | ⟨c, cs⟩
  · rw [List.take_nil] at start
    cases start
  · rcases n with _ | n
    · cases start
    · exact ⟨c, cs, rfl, start⟩

/-- Where an identifier is wanted, a keyword is a whole word. -/
theorem scan_keyword_whole {w : Wanted} (identifier : w .identifier = true) {text : List Char}
    {k : Keyword} {n : Nat} (scanned : scan w text = some (some (.keyword k), n)) :
    text.takeWhile isWordPart = k.text.toList := by
  have spelled := scan_fixedText scanned rfl
  obtain ⟨c, cs, rfl, start⟩ := scan_keyword_start scanned
  rw [scan_word start, if_pos identifier] at scanned
  obtain ⟨_, rfl⟩ := Prod.mk.inj (Option.some.inj scanned)
  rw [← spelled, take_length_takeWhile]

/-- Where none is wanted, a keyword is the longest that the text starts with. -/
theorem scan_keyword_longest {w : Wanted} (always : ∀ k, w (.keyword k) = true)
    (noIdentifier : w .identifier = false) {text : List Char} {k k' : Keyword} {n : Nat}
    (scanned : scan w text = some (some (.keyword k), n)) (starts : k'.text.toList <+: text) :
    k'.text.toList.length ≤ k.text.toList.length := by
  obtain ⟨c, cs, rfl, start⟩ := scan_keyword_start scanned
  rw [scan_word start, if_neg (by simp [noIdentifier])] at scanned
  obtain ⟨⟨t, m⟩, found, same⟩ := Option.map_eq_some_iff.1 scanned
  obtain ⟨rfl, rfl⟩ : t = .keyword k ∧ m = n := by simpa using same
  obtain ⟨_, fits, longest⟩ := longestFixed_eq_some found
  obtain ⟨_, length⟩ := (fixedLength_eq_some rfl).1 fits
  have tried : Terminal.keyword k' ∈ fixed w := by
    refine List.mem_filter.2 ⟨?_, ?_⟩
    · exact List.mem_append_left _ (List.mem_append_left _ (List.mem_map_of_mem k'.mem_all))
    · simp [Terminal.fixedText?, always, isCovered, noIdentifier]
  rw [length]
  exact longest _ tried _ ((fixedLength_eq_some rfl).2 ⟨starts, rfl⟩)

/-- Where all keywords are wanted, a keyword that is read goes on as a word exactly
if no identifier is wanted and the whole word is no keyword. -/
theorem scan_keyword {w : Wanted} (always : ∀ k, w (.keyword k) = true) {text : List Char}
    {k : Keyword} {n : Nat} (scanned : scan w text = some (some (.keyword k), n)) :
    ∃ rest, text = k.text.toList ++ rest ∧ ((∃ c ∈ rest.head?, isWordPart c = true) ↔
      w .identifier = false ∧ ∀ k' : Keyword, k'.text.toList ≠ text.takeWhile isWordPart) := by
  have spelled := scan_fixedText scanned rfl
  have whole : text = k.text.toList ++ text.drop n := by
    rw [← spelled, List.take_append_drop]
  have word : text.takeWhile isWordPart =
      k.text.toList ++ (text.drop n).takeWhile isWordPart := by
    conv_lhs => rw [whole]
    exact List.takeWhile_append_of_pos (keyword_isWord k).2
  refine ⟨text.drop n, whole, ?_⟩
  rw [← takeWhile_ne_nil]
  generalize (text.drop n).takeWhile isWordPart = more at word ⊢
  constructor
  · intro longer
    have noIdentifier : w .identifier = false := by
      rw [Bool.eq_false_iff]
      intro identifier
      rw [scan_keyword_whole identifier scanned] at word
      exact longer (List.self_eq_append_right.1 word)
    refine ⟨noIdentifier, fun k' same => longer ?_⟩
    have starts : k'.text.toList <+: text := by
      rw [same]
      exact ⟨_, List.takeWhile_append_dropWhile⟩
    have le := scan_keyword_longest always noIdentifier scanned starts
    rw [same, word, List.length_append] at le
    exact List.length_eq_zero_iff.1 (by omega)
  · rintro ⟨_, noKeyword⟩ rfl
    exact noKeyword k (by rw [word, List.append_nil])

/-! ## Identifiers -/

/-- Where all keywords are wanted, an identifier that is read is a whole word, and no
keyword. -/
theorem scan_identifier {w : Wanted} (always : ∀ k, w (.keyword k) = true) {text : List Char}
    {n : Nat} (scanned : scan w text = some (some .identifier, n)) :
    text.take n = text.takeWhile isWordPart ∧ (∃ c ∈ text.head?, isWordStart c = true) ∧
      ∀ k : Keyword, text.take n ≠ k.text.toList := by
  rcases scan_eq_some scanned with ⟨cls, hcls, _, length, same⟩ | found
  · have own : identifierLength text = some n := by
      rcases retyped_cases w cls.1 (text.take n) with own | ⟨_, _, s, spelled, _⟩
      · rw [own] at same
        simp only [classes, List.mem_cons, List.not_mem_nil, or_false] at hcls
        rcases hcls with rfl | rfl | rfl | rfl | rfl
        all_goals first | exact length | cases same
      · rw [← same] at spelled
        cases spelled
    obtain ⟨c, cs, rfl, start⟩ : ∃ c cs, text = c :: cs ∧ isWordStart c = true := by
      unfold identifierLength at own
      split at own
      · split at own
        · exact ⟨_, _, rfl, ‹_›⟩
        · cases own
      · cases own
    refine ⟨?_, ⟨c, rfl, start⟩, ?_⟩
    · rw [identifierLength_word start, Option.some.injEq] at own
      rw [← own, take_length_takeWhile]
    · intro k isKeyword
      have spelled : ∃ t ∈ Terminal.lexical,
          (t.fixedText?.any (·.toList == (c :: cs).take n) && w t) = true := by
        refine ⟨.keyword k, ?_, ?_⟩
        · exact List.mem_append_left _ (List.mem_append_left _ (List.mem_map_of_mem k.mem_all))
        · simp [Terminal.fixedText?, isKeyword, always]
      -- A word with a fixed spelling that is wanted gets the terminal of that spelling.
      obtain ⟨t, ht⟩ := Option.isSome_iff_exists.1 (List.find?_isSome.2 spelled)
      rw [retyped, ht, Option.getD_some] at same
      have fixed := List.find?_some ht
      rw [← same] at fixed
      cases fixed
  · have fixed := (List.mem_filter.1 (longestFixed_eq_some found).1).2
    cases fixed

end Lexeme

/-! ## The words of a tree -/

/-- A token that the source writes, other than the parts of a string, is a leaf that was
read. -/
theorem leaf_of_written {leaves : List Leaf} {t : Token}
    (mem : t ∈ leaves.flatMap Leaf.tokens ++ [.endOfFile]) (isPresent : t.presence = .present)
    (isLexical : t.terminal ∈ Terminal.lexical) :
    ∃ (text : String) (start : Nat), .read t.terminal text start ∈ leaves ∧
      t = .ofText t.terminal text start := by
  rcases List.mem_append.1 mem with mem | mem
  · obtain ⟨leaf, hleaf, ht⟩ := List.mem_flatMap.1 mem
    rcases Leaf.mem_tokens ht with rfl | ⟨_, quote | segment⟩
    · cases leaf with
      | inserted u => cases isPresent
      | read u text start => exact ⟨text, start, hleaf, rfl⟩
    · rw [quote] at isLexical
      exact absurd isLexical (by decide)
    · rw [segment] at isLexical
      exact absurd isLexical (by decide)
  · obtain rfl := List.mem_singleton.1 mem
    exact absurd isLexical (by decide)

/-- A token that the source writes in a tree, other than the parts of a string, was read in
some situation. -/
theorem token_read {budget : Nat} {file source : String} {p : Parsed} {u : Token}
    (parsed : parse budget file source = .ok p) (mem : u ∈ p.root.tokens)
    (isPresent : u.presence = .present) (isLexical : u.terminal ∈ Terminal.lexical) :
    ∃ l, Recovery.ReadIn .ofGrammar budget source.toList l ∧ l.terminal = u.terminal ∧
      u.text = l.text ∧ u.position = byteOffset source.toList l.start := by
  obtain ⟨tree, s, root, accepted, built, tokens⟩ := parse_tokens parsed
  obtain ⟨_, _, _, ordered⟩ := Recovery.parse_ordered Automaton.ofGrammar_sound accepted
  have leaves := leaves_of_toTree Automaton.ofGrammar_sound accepted built
  rw [tokens] at mem
  obtain ⟨t, ht, attached⟩ := exists_of_forall₂ (attach_attached _ _ _) u mem
  have plain : t.plain ∈ tree.yield.flatMap Leaf.tokens ++ [.endOfFile] := by
    rw [← leaves]
    exact List.mem_map_of_mem ht
  have isPresent' : t.presence = .present := attached.presence.symm.trans isPresent
  have isLexical' : t.terminal ∈ Terminal.lexical := attached.terminal ▸ isLexical
  obtain ⟨text, start, hleaf, same⟩ := leaf_of_written plain isPresent' isLexical'
  refine ⟨⟨t.terminal, text, start⟩, ordered.mem _ _ _ hleaf, attached.terminal.symm, ?_, ?_⟩
  · exact attached.text.trans (congrArg Token.text same)
  · have notEnd : t.terminal ≠ .endOfFile := by
      intro isEnd
      rw [isEnd] at isLexical'
      exact absurd isLexical' (by decide)
    have starts : t.sourceStart source.toList = start := by
      rw [Token.sourceStart, if_neg notEnd]
      exact congrArg Token.position same
    rw [← starts]
    refine attached.position ?_
    rw [Token.isMissing, isPresent']
    decide

/-- A situation reads with all keywords wanted, misplaced or not. -/
theorem keywords_wanted {a : Automaton} {stack : Stack} {w : Lexeme.Wanted}
    (wanted : w = Recovery.wanted a stack ∨ w = Lexeme.anything) (k : Keyword) :
    w (.keyword k) = true := by
  rcases wanted with rfl | rfl
  · rfl
  · rfl

/-- A keyword that the source writes in a tree was read in some situation. -/
theorem keyword_read {budget : Nat} {file source : String} {p : Parsed} {u : Token} {k : Keyword}
    (parsed : parse budget file source = .ok p) (mem : u ∈ p.root.tokens)
    (isPresent : u.presence = .present) (isKeyword : u.terminal = .keyword k) :
    ∃ l, Recovery.ReadIn .ofGrammar budget source.toList l ∧ l.terminal = .keyword k ∧
      u.text = l.text ∧ u.position = byteOffset source.toList l.start := by
  have isLexical : u.terminal ∈ Terminal.lexical := by
    rw [isKeyword]
    exact List.mem_append_left _ (List.mem_append_left _ (List.mem_map_of_mem k.mem_all))
  rw [← isKeyword]
  exact token_read parsed mem isPresent isLexical

/-- Where a keyword is cut out of a word. Each keyword that the source writes in a tree
was read in a situation of the parse, where the source spells it. It goes on as a word
exactly if that situation wants no identifier and the whole word is no keyword. -/
theorem keyword_goes_on_iff {budget : Nat} {file source : String} {p : Parsed} {u : Token}
    {k : Keyword} (parsed : parse budget file source = .ok p) (mem : u ∈ p.root.tokens)
    (isPresent : u.presence = .present) (isKeyword : u.terminal = .keyword k) :
    ∃ x l, Recovery.Reached .ofGrammar budget source.toList x ∧ x.Reads .ofGrammar l ∧
      l.terminal = .keyword k ∧ u.text = l.text ∧ l.text = k.text ∧
      u.position = byteOffset source.toList l.start ∧
      ((∃ c ∈ source.toList[l.stop]?, Lexeme.isWordPart c = true) ↔
        Recovery.wanted .ofGrammar x.stack .identifier = false ∧
          ∀ k' : Keyword, k'.text.toList ≠
            (source.toList.drop l.start).takeWhile Lexeme.isWordPart) := by
  obtain ⟨l, ⟨x, reached, reads⟩, terminal, text, position⟩ :=
    keyword_read parsed mem isPresent isKeyword
  obtain ⟨w, after, wanted, scans⟩ := reached.scans Automaton.ofGrammar_sound reads
  obtain ⟨n, scanned, spelled, _⟩ := scans.scanned
  rw [terminal] at scanned
  have spelling : l.text = k.text := by
    rw [spelled, Lexeme.scan_fixedText scanned rfl, String.ofList_toList]
  obtain ⟨rest, whole, goesOn⟩ := Lexeme.scan_keyword (keywords_wanted wanted) scanned
  have next : source.toList[l.stop]? = rest.head? := by
    rw [Lexeme.stop, ← List.getElem?_drop, whole, spelling, ← String.length_toList,
      List.getElem?_append_right (Nat.le_refl _), Nat.sub_self, List.head?_eq_getElem?]
  refine ⟨x, l, reached, reads, terminal, text, spelling, position, ?_⟩
  rw [next, goesOn]
  rcases wanted with rfl | rfl
  · exact Iff.rfl
  · -- What is misplaced is read as if anything may come, and so as a whole word.
    have word := Lexeme.scan_keyword_whole rfl scanned
    constructor
    · rintro ⟨identifier, _⟩
      cases identifier
    · rintro ⟨_, noKeyword⟩
      exact absurd word.symm (noKeyword k)

/-- Behind a modifier no identifier may come, and `variable` is cut behind `var`. -/
theorem keyword_goes_on_behind_modifier :
    ∃ p u x l, parse 0 standardFile "static variable" = .ok p ∧ u ∈ p.root.tokens ∧
      u.presence = .present ∧ u.terminal = .keyword .varWord ∧ u.position = 7 ∧
      Recovery.Reached .ofGrammar 0 "static variable".toList x ∧ x.Reads .ofGrammar l ∧
      l.stop = 10 ∧ "static variable".toList[l.stop]? = some 'i' ∧
      Recovery.wanted .ofGrammar x.stack .identifier = false := by
  obtain ⟨p, parsed, tokens⟩ := exists_ok_of_toOption parse_samples.2
  have mem : (Terminal.keyword .varWord, "var", Presence.present, (7 : Int)) ∈
      p.root.tokens.map fun t => (t.terminal, t.text, t.presence, t.position) := by
    rw [tokens]
    decide
  obtain ⟨u, hu, same⟩ := List.mem_map.1 mem
  obtain ⟨isKeyword, text, isPresent, position⟩ : u.terminal = .keyword .varWord ∧
      u.text = "var" ∧ u.presence = .present ∧ u.position = 7 := by simpa using same
  obtain ⟨x, l, reached, reads, _, spelled, _, start, goesOn⟩ :=
    keyword_goes_on_iff parsed hu isPresent isKeyword
  have bytes : byteOffset "static variable".toList l.start = 7 := by omega
  have inside : ∀ i : Nat, i < 15 → byteOffset "static variable".toList i = 7 → i = 7 := by decide
  have place : l.start = 7 := by
    rcases Nat.lt_or_ge l.start 15 with lt | ge
    · exact inside l.start lt bytes
    · have length : "static variable".toList.length ≤ l.start := ge
      rw [byteOffset, Text.offsetWithin, if_pos (Int.natCast_nonneg _), Int.toNat_natCast,
        List.take_of_length_le length] at bytes
      cases bytes
  have stop : l.stop = 10 := by
    rw [Lexeme.stop, ← spelled, text, place]
    decide
  have next : "static variable".toList[l.stop]? = some 'i' := by
    rw [stop]
    decide
  have cut := (goesOn.1 ⟨'i', next, by decide⟩).1
  exact ⟨p, u, x, l, parsed, hu, isPresent, isKeyword, position, reached, reads, stop, next, cut⟩

/-! ## The identifiers of a tree -/

/-- A keyword is never an identifier. Each identifier that the source writes in a tree is
read from the start of a word to its end, and is spelled like no keyword. -/
theorem identifier_is_no_keyword {budget : Nat} {file source : String} {p : Parsed} {u : Token}
    (parsed : parse budget file source = .ok p) (mem : u ∈ p.root.tokens)
    (isPresent : u.presence = .present) (isIdentifier : u.terminal = .identifier) :
    (∀ k : Keyword, u.text ≠ k.text) ∧
      ∃ start : Nat, u.position = byteOffset source.toList start ∧
        u.text.toList = (source.toList.drop start).takeWhile Lexeme.isWordPart ∧
        ∃ c ∈ (source.toList.drop start).head?, Lexeme.isWordStart c = true := by
  have isLexical : u.terminal ∈ Terminal.lexical := by
    rw [isIdentifier]
    decide
  obtain ⟨l, ⟨x, reached, reads⟩, terminal, text, position⟩ :=
    token_read parsed mem isPresent isLexical
  obtain ⟨w, after, wanted, scans⟩ := reached.scans Automaton.ofGrammar_sound reads
  obtain ⟨n, scanned, spelled, _⟩ := scans.scanned
  rw [terminal, isIdentifier] at scanned
  obtain ⟨word, starts, noKeyword⟩ := Lexeme.scan_identifier (keywords_wanted wanted) scanned
  have letters : u.text.toList = (source.toList.drop l.start).take (n + 1) := by
    rw [text, spelled, String.toList_ofList]
  constructor
  · intro k isKeyword
    apply noKeyword k
    rw [← letters, isKeyword]
  · exact ⟨l.start, position, letters.trans word, starts⟩

/-- Behind a keyword that is cut out of a word, the rest of the word is an identifier. -/
theorem identifier_behind_keyword :
    ∃ p u, parse 0 standardFile "static variable" = .ok p ∧ u ∈ p.root.tokens ∧
      u.presence = .present ∧ u.terminal = .identifier ∧ u.text = "iable" ∧ u.position = 10 ∧
      ∀ k : Keyword, u.text ≠ k.text := by
  obtain ⟨p, parsed, tokens⟩ := exists_ok_of_toOption parse_samples.2
  have mem : (Terminal.identifier, "iable", Presence.present, (10 : Int)) ∈
      p.root.tokens.map fun t => (t.terminal, t.text, t.presence, t.position) := by
    rw [tokens]
    decide
  obtain ⟨u, hu, same⟩ := List.mem_map.1 mem
  obtain ⟨isIdentifier, text, isPresent, position⟩ : u.terminal = .identifier ∧
      u.text = "iable" ∧ u.presence = .present ∧ u.position = 10 := by simpa using same
  obtain ⟨noKeyword, _⟩ := identifier_is_no_keyword parsed hu isPresent isIdentifier
  exact ⟨p, u, parsed, hu, isPresent, isIdentifier, text, position, noKeyword⟩

end SyntaxAtlas
