-- Parsing loses nothing. The tokens of a tree spell the source in order, so with
-- the trivia between them they are the source again, whatever was put in, dropped
-- or skipped on the way.

import SyntaxAtlas.Proofs.Actions
import SyntaxAtlas.Proofs.Attachment
import SyntaxAtlas.Proofs.Derivations
import SyntaxAtlas.Proofs.LeafOrder

namespace SyntaxAtlas

open Lexeme (Scans)

/-! ## A lexeme in its source -/

namespace Lexeme

theorem Scans.text_eq {w : Wanted} {source : List Char} {l : Lexeme} {after : Cursor}
    (scans : Scans w source l after) : between source l.start l.stop = l.text.toList := by
  obtain ⟨n, _, text, _⟩ := scans.scanned
  have length : l.text.length = min (n + 1) (source.drop l.start).length := by
    rw [text, String.length_ofList, List.length_take]
  rw [between, stop, Nat.add_sub_cancel_left, length, text, String.toList_ofList,
    ← List.take_take, List.take_length]

theorem Scans.stop_le_length {w : Wanted} {source : List Char} {l : Lexeme} {after : Cursor}
    (scans : Scans w source l after) : l.stop ≤ source.length := by
  have room : 0 < (source.drop l.start).length := List.length_pos_iff.2 scans.nonempty
  have fits := congrArg List.length scans.text_eq
  simp only [between, List.length_take, String.length_toList, List.length_drop, stop] at fits room ⊢
  omega

/-- A string lexeme is its content between quotes. -/
theorem Scans.quoted {w : Wanted} {source : List Char} {l : Lexeme} {after : Cursor}
    (scans : Scans w source l after) (isString : l.terminal = .string) :
    l.text.toList = '"' :: (Token.stringContent l.text).toList ++ ['"'] := by
  obtain ⟨n, scanned, text, _⟩ := scans.scanned
  rw [isString] at scanned
  obtain ⟨content, quoted⟩ := stringLength_quoted (scan_string scanned)
  have spelled : l.text.toList = '"' :: content ++ ['"'] := by
    rw [text, String.toList_ofList, quoted]
  have same : (Token.stringContent l.text).toList = content := by
    simp [Token.stringContent, spelled]
  rw [same, spelled]

theorem Scans.not_endOfFile {w : Wanted} {source : List Char} {l : Lexeme} {after : Cursor}
    (scans : Scans w source l after) : l.terminal ≠ .endOfFile := by
  obtain ⟨n, scanned, _⟩ := scans.scanned
  have lexical := scan_lexical scanned
  rintro same
  rw [same] at lexical
  exact absurd lexical (by decide)

end Lexeme

/-- What a run reads in a situation scans there, or where anything is wanted. -/
theorem Recovery.Reached.scans {a : Automaton} (sound : a.Sound) {budget : Nat}
    {source : List Char} {x : Situation} {l : Lexeme} (reached : Reached a budget source x)
    (reads : x.Reads a l) :
    ∃ w after, (w = wanted a x.stack ∨ w = Lexeme.anything) ∧ Scans w source l after := by
  obtain ⟨after, read⟩ := reads
  have holds := (reached.kept sound).holds
  rcases read with read | read
  · rw [read] at holds
    exact ⟨_, after, Or.inl rfl, holds.2⟩
  · rw [read] at holds
    exact ⟨_, after, Or.inr rfl, holds.2.2⟩

/-- What is read in a source scans there. -/
theorem Recovery.ReadIn.scans {a : Automaton} (sound : a.Sound) {budget : Nat}
    {source : List Char} {l : Lexeme} (read : ReadIn a budget source l) :
    ∃ w after, Scans w source l after := by
  obtain ⟨x, reached, reads⟩ := read
  obtain ⟨w, after, _, scans⟩ := reached.scans sound reads
  exact ⟨w, after, scans⟩

/-! ## The tokens of leaves -/

theorem between_append_left {source a b : List Char} {i : Nat}
    (h : between source i (i + (a ++ b).length) = a ++ b) :
    between source i (i + a.length) = a ∧
      between source (i + a.length) (i + a.length + b.length) = b := by
  have parts : between source i (i + a.length) ++
      between source (i + a.length) (i + a.length + b.length) = a ++ b := by
    rw [between_append (Nat.le_add_right _ _) (Nat.le_add_right _ _), Nat.add_assoc,
      ← List.length_append, h]
  have fits : (between source i (i + a.length)).length = a.length := by
    have := congrArg List.length h
    simp only [between, List.length_take, List.length_append] at this ⊢
    omega
  exact List.append_inj parts fits

theorem Spells.ofText {source : List Char} {t : Terminal} {text : String} {i j start : Nat}
    {ts : List Token} (notEnd : t ≠ .endOfFile) (after : i ≤ start)
    (spelled : between source start (start + text.length) = text.toList)
    (rest : Spells source (start + text.length) ts j) :
    Spells source i (.ofText t text start :: ts) j := by
  refine .present rfl ?_ after spelled rfl rest
  simp [Token.sourceStart, Token.ofText, notEnd]

/-- A string lexeme gives three tokens, one behind the other. -/
theorem Lexeme.Scans.string_tokens {w : Lexeme.Wanted} {source : List Char} {l : Lexeme}
    {after : Lexeme.Cursor} (scans : Scans w source l after) (isString : l.terminal = .string) :
    (Recovery.leaf l).tokens = [.ofText .stringQuote "\"" l.start,
        .ofText .stringSegment (Token.stringContent l.text) (l.start + 1 : Nat),
        .ofText .stringQuote "\"" (l.start + 1 + (Token.stringContent l.text).length : Nat)] ∧
      l.stop = l.start + 1 + (Token.stringContent l.text).length + 1 := by
  constructor
  · rw [Leaf.tokens, if_pos (show (Recovery.leaf l).terminal = .string from isString)]
    rfl
  · have := congrArg List.length (scans.quoted isString)
    simp only [String.length_toList, List.length_append, List.length_cons, List.length_nil] at this
    simp only [Lexeme.stop]
    omega

/-- The tokens of a lexeme spell it: one token, or the three of a string. -/
theorem spells_lexeme {w : Lexeme.Wanted} {source : List Char} {l : Lexeme}
    {after : Lexeme.Cursor} (scans : Scans w source l after) {i j : Nat} (le : i ≤ l.start)
    {ts : List Token} (rest : Spells source l.stop ts j) :
    Spells source i ((Recovery.leaf l).tokens ++ ts) j := by
  have whole := scans.text_eq
  by_cases isString : l.terminal = .string
  · have quoted := scans.quoted isString
    obtain ⟨cut, stop⟩ := scans.string_tokens isString
    generalize Token.stringContent l.text = content at quoted cut stop
    rw [quoted, stop] at whole
    have all : between source l.start (l.start + (['"'] ++ (content.toList ++ ['"'])).length) =
        ['"'] ++ (content.toList ++ ['"']) := by
      have length : (['"'] ++ (content.toList ++ ['"'])).length = 1 + content.length + 1 := by
        simp [String.length_toList, Nat.add_comm]
      rw [length, ← Nat.add_assoc, ← Nat.add_assoc]
      exact whole
    obtain ⟨opening, others⟩ := between_append_left all
    obtain ⟨inside, closing⟩ := between_append_left others
    rw [String.length_toList] at inside closing
    rw [cut]
    refine .ofText (by decide) le opening (.ofText (by decide) (Nat.le_refl _) inside
      (.ofText (by decide) (Nat.le_refl _) closing ?_))
    rw [stop] at rest
    exact rest
  · rw [Leaf.tokens, if_neg (show ¬ (Recovery.leaf l).terminal = .string from isString)]
    exact .ofText scans.not_endOfFile le whole rest

theorem Leaf.tokens_inserted {t : Terminal} (insertable : t ∈ Recovery.insertable) :
    (Leaf.inserted t).tokens = [.missing t] := by
  have all : ∀ u ∈ Recovery.insertable, (Leaf.inserted u).tokens = [.missing u] := by decide
  exact all t insertable

/-- The tokens of leaves in order spell the source up to some offset. -/
theorem spells_leaves {source : List Char} {leaves : List Leaf} {i j : Nat}
    (ordered : Ordered (fun l => ∃ w after, Scans w source l after) i leaves j)
    (start : i ≤ source.length) :
    ∃ k ≤ source.length, ∀ ts last, Spells source k ts last →
      Spells source i (leaves.flatMap Leaf.tokens ++ ts) last := by
  induction leaves generalizing i with
  | nil => exact ⟨i, start, fun ts last rest => rest⟩
  | cons leaf leaves ih =>
    cases leaf with
    | inserted t =>
      obtain ⟨k, le, spells⟩ := ih ordered.2 start
      refine ⟨k, le, fun ts last rest => ?_⟩
      rw [List.flatMap_cons, Leaf.tokens_inserted ordered.1]
      exact .missing rfl (spells ts last rest)
    | read t text start' =>
      obtain ⟨le, ⟨w, after, scans⟩, ordered⟩ := ordered
      obtain ⟨k, le', spells⟩ := ih ordered scans.stop_le_length
      refine ⟨k, le', fun ts last rest => ?_⟩
      rw [List.flatMap_cons, List.append_assoc]
      exact spells_lexeme scans le (spells ts last rest)

theorem Spells.of_plain {source : List Char} {ts : List Token} {i j : Nat}
    (h : Spells source i (ts.map Token.plain) j) : Spells source i ts j := by
  induction ts generalizing i with
  | nil => exact h
  | cons t ts ih =>
    rcases h with _ | ⟨isMissing, rest⟩ | ⟨isPresent, starts, after, text, bare, rest⟩
    · exact .missing isMissing (ih rest)
    · exact .present isPresent starts after text bare (ih rest)

/-! ## The whole tree -/

/-- The tree of a parse, before trivia is attached, spells the source. -/
theorem toTree_spells {a : Automaton} (sound : a.Sound) {budget : Nat} {source : List Char}
    {tree : ParseTree} {s : Session} (parsed : Recovery.parse a budget source = .ok (tree, s)) :
    ∃ root, tree.toTree = .ok root ∧ Spells source 0 root.tokens source.length := by
  obtain ⟨derived, file, stop, ordered⟩ := Recovery.parse_ordered sound parsed
  obtain ⟨root, built, _, _, tokens⟩ := ParseTree.toTree_of_derived derived file
  obtain ⟨k, le, spells⟩ := spells_leaves (ordered.imp fun _ read => read.scans sound) (Nat.zero_le _)
  refine ⟨root, built, .of_plain ?_⟩
  rw [tokens]
  apply spells
  refine .present rfl rfl le ?_ rfl (.none _)
  exact between_self _ _

/-- The tokens of the tree of a parse, as their terminals and texts make them, are those of
its leaves and the end of the file. -/
theorem leaves_of_toTree {a : Automaton} (sound : a.Sound) {budget : Nat} {source : List Char}
    {tree : ParseTree} {s : Session} {root : Tree}
    (accepted : Recovery.parse a budget source = .ok (tree, s)) (built : tree.toTree = .ok root) :
    root.tokens.map Token.plain = tree.yield.flatMap Leaf.tokens ++ [.endOfFile] := by
  obtain ⟨derived, file, _⟩ := Recovery.parse_ordered sound accepted
  obtain ⟨root', built', _, _, leaves⟩ := ParseTree.toTree_of_derived derived file
  rw [built] at built'
  cases built'
  exact leaves

/-- A source is parsed exactly if it has a parse tree, and then this is what comes of
it. -/
theorem parse_eq_ok_iff {budget : Nat} {file source : String} {p : Parsed} :
    parse budget file source = .ok p ↔
      ∃ tree s root, Recovery.parse .ofGrammar budget source.toList = .ok (tree, s) ∧
        tree.toTree = .ok root ∧
        p = { root := (root.attachTrivia source.toList (Trivia.split s.dropped)).assignSpans
              source, file, repairs := s.repairs, recoveries := budget - s.left } := by
  unfold parse parseWith
  rcases accepted : Recovery.parse .ofGrammar budget source.toList with r | ⟨tree, s⟩
  · simp
  · rcases built : tree.toTree with v | root
    · simp [ParseTree.finished, built, Except.map]
    · simp [ParseTree.finished, built, Except.map, eq_comm]

/-- The tokens of a parsed source are those of its parse tree with trivia. -/
theorem parse_tokens {budget : Nat} {file source : String} {p : Parsed}
    (parsed : parse budget file source = .ok p) :
    ∃ tree s root, Recovery.parse .ofGrammar budget source.toList = .ok (tree, s) ∧
      tree.toTree = .ok root ∧
      p.root.tokens = Token.attach source.toList (Trivia.split s.dropped) root.tokens := by
  obtain ⟨tree, s, root, accepted, built, rfl⟩ := parse_eq_ok_iff.1 parsed
  exact ⟨tree, s, root, accepted, built, root.tokens_attachTrivia_assignSpans _ _⟩

/-- The tokens of a parsed source are tokens that spell it, with trivia. -/
theorem parse_spells {budget : Nat} {file source : String} {p : Parsed}
    (parsed : parse budget file source = .ok p) :
    ∃ ts dropped, Spells source.toList 0 ts source.toList.length ∧
      p.root.tokens = Token.attach source.toList (Trivia.split dropped) ts := by
  obtain ⟨tree, s, root, accepted, built, tokens⟩ := parse_tokens parsed
  obtain ⟨root', built', spells⟩ := toTree_spells Automaton.ofGrammar_sound accepted
  rw [built] at built'
  cases built'
  exact ⟨root.tokens, s.dropped, spells, tokens⟩

theorem exists_ok_of_toOption {ε α β : Type} {f : α → β} {r : Except ε α} {b : β}
    (h : r.toOption.map f = some b) : ∃ a, r = .ok a ∧ f a = b := by
  rcases r with e | a
  · cases h
  · exact ⟨a, rfl, Option.some.inj h⟩

theorem parse_samples :
    (parse 3 standardFile "f($\"a\" ]").toOption.map (·.recoveries) = some 3 ∧
      (parse 0 standardFile "static variable").toOption.map
          (·.root.tokens.map fun t => (t.terminal, t.text, t.presence, t.position)) =
        some [(.keyword .staticWord, "static", .present, 0),
          (.keyword .varWord, "var", .present, 7), (.identifier, "iable", .present, 10),
          (.endOfFile, "", .present, 15)] :=
  ⟨sample_parses.1.1, sample_parses.2.1⟩

/-- Parsing loses nothing: with every budget, the text of a tree is its source. -/
theorem parse_fullText {budget : Nat} {file source : String} {p : Parsed}
    (parsed : parse budget file source = .ok p) : p.root.fullText = source := by
  obtain ⟨tree, s, root, accepted, built, tokens⟩ := parse_tokens parsed
  obtain ⟨root', built', spells⟩ := toTree_spells Automaton.ofGrammar_sound accepted
  rw [built] at built'
  cases built'
  rw [← String.toList_inj, Tree.fullText, String.toList_join, List.flatMap_map, tokens]
  exact written_attach (toList_split s.dropped) spells

theorem parse_fullText_of_repaired : ∃ p, parse 3 standardFile "f($\"a\" ]" = .ok p ∧
    p.recoveries = 3 ∧ p.root.fullText = "f($\"a\" ]" := by
  obtain ⟨p, parsed, repairs⟩ := exists_ok_of_toOption parse_samples.1
  exact ⟨p, parsed, repairs, parse_fullText parsed⟩

end SyntaxAtlas
