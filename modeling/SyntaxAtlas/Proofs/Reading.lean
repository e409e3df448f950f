-- What reading finds in a source: a gap, and behind it a lexeme that spells a
-- piece of the source. A lexeme is one of a class, or a fixed spelling.

import SyntaxAtlas.Lexeme

namespace SyntaxAtlas.Lexeme

/-! ## One lexeme -/

/-- The classes in the order in which they are tried. -/
def classes : List (Terminal × (List Char → Option Nat)) :=
  [(.float, floatLength), (.integer, integerLength), (.operator, operatorLength),
    (.identifier, identifierLength), (.string, stringLength)]

theorem scanClass_eq_some {w : Wanted} {cls : Terminal} {length : List Char → Option Nat}
    {text : List Char} {found : Option Terminal} {n : Nat}
    (h : scanClass w cls length text = some (found, n)) :
    w cls = true ∧ length text = some n ∧ found = some (retyped w cls (text.take n)) := by
  unfold scanClass at h
  split at h
  · rename_i wanted
    obtain ⟨m, hm, same⟩ := Option.map_eq_some_iff.1 h
    obtain ⟨rfl, rfl⟩ := Prod.mk.inj same
    exact ⟨wanted, hm, rfl⟩
  · cases h

/-- A lexeme is read by a class, or it is the longest fixed spelling. -/
theorem scan_eq_some {w : Wanted} {text : List Char} {t : Terminal} {n : Nat}
    (h : scan w text = some (some t, n)) :
    (∃ cls ∈ classes, w cls.1 = true ∧ cls.2 text = some n ∧
      t = retyped w cls.1 (text.take n)) ∨ longestFixed w text = some (t, n) := by
  have ofClass : ∀ cls ∈ classes, scanClass w cls.1 cls.2 text = some (some t, n) →
      ∃ cls ∈ classes, w cls.1 = true ∧ cls.2 text = some n ∧
        t = retyped w cls.1 (text.take n) := by
    intro cls hcls found
    obtain ⟨wanted, length, same⟩ := scanClass_eq_some found
    exact ⟨cls, hcls, wanted, length, by simpa using same⟩
  simp only [scan, Option.orElse_eq_orElse, Option.orElse_eq_or, Option.or_eq_some_iff,
    Option.map_eq_some_iff, Prod.mk.injEq] at h
  rcases h with ⟨_, _, gap, _⟩ | ⟨_, ⟨_, _, gap, _⟩ | ⟨_, found | ⟨_, found | ⟨_, found |
    ⟨_, found | ⟨_, found | ⟨_, ⟨_, _, gap, _⟩ | ⟨_, ⟨t', n'⟩, found, same, rfl⟩⟩⟩⟩⟩⟩⟩⟩
  · cases gap
  · cases gap
  · exact Or.inl (ofClass (.float, floatLength) (by simp [classes]) found)
  · exact Or.inl (ofClass (.integer, integerLength) (by simp [classes]) found)
  · exact Or.inl (ofClass (.operator, operatorLength) (by simp [classes]) found)
  · exact Or.inl (ofClass (.identifier, identifierLength) (by simp [classes]) found)
  · exact Or.inl (ofClass (.string, stringLength) (by simp [classes]) found)
  · cases gap
  · cases same
    exact Or.inr found

/-- A class gives its own terminal, or that of a fixed spelling. -/
theorem retyped_cases (w : Wanted) (cls : Terminal) (text : List Char) :
    retyped w cls text = cls ∨
      retyped w cls text ∈ Terminal.lexical ∧ w (retyped w cls text) = true ∧
        ∃ s, (retyped w cls text).fixedText? = some s ∧ s.toList = text := by
  simp only [retyped]
  rcases found : Terminal.lexical.find? fun t =>
      t.fixedText?.any (·.toList == text) && w t with _ | t
  · exact Or.inl (by rw [found]; rfl)
  · right
    have spelled := List.find?_some found
    simp only [Bool.and_eq_true, Option.any_eq_true, beq_iff_eq] at spelled
    rw [found]
    exact ⟨List.mem_of_find?_eq_some found, spelled.2, spelled.1⟩

/-- The longer of the best spelling so far and another. -/
def longer (text : List Char) (best : Option (Terminal × Nat)) (t : Terminal) :
    Option (Terminal × Nat) :=
  match fixedLength text t, best with
  | none, best => best
  | some n, none => some (t, n)
  | some n, some (u, m) => if m < n then some (t, n) else some (u, m)

theorem longer_cases (text : List Char) (best : Option (Terminal × Nat)) (t : Terminal) :
    longer text best t = best ∧
        (∀ n, fixedLength text t = some n → ∃ b, best = some b ∧ n ≤ b.2) ∨
      ∃ n, fixedLength text t = some n ∧ longer text best t = some (t, n) ∧
        ∀ b, best = some b → b.2 ≤ n := by
  unfold longer
  rcases fits : fixedLength text t with _ | n
  · exact Or.inl ⟨rfl, fun _ h => (by cases h)⟩
  · rcases best with _ | ⟨u, m⟩
    · exact Or.inr ⟨n, rfl, rfl, fun _ h => (by cases h)⟩
    · by_cases less : m < n
      · refine Or.inr ⟨n, rfl, if_pos less, ?_⟩
        rintro _ ⟨⟩
        exact Nat.le_of_lt less
      · refine Or.inl ⟨if_neg less, ?_⟩
        rintro _ ⟨⟩
        exact ⟨_, rfl, Nat.le_of_not_lt less⟩

theorem foldl_longer {text : List Char} {ts : List Terminal} {best : Option (Terminal × Nat)}
    {t : Terminal} {n : Nat} (h : ts.foldl (longer text) best = some (t, n)) :
    (best = some (t, n) ∨ t ∈ ts ∧ fixedLength text t = some n) ∧
      (∀ b, best = some b → b.2 ≤ n) ∧
      ∀ u ∈ ts, ∀ m, fixedLength text u = some m → m ≤ n := by
  induction ts generalizing best with
  | nil =>
    refine ⟨Or.inl h, ?_, by simp⟩
    rintro b rfl
    obtain rfl : b = (t, n) := by simpa using h
    exact Nat.le_refl _
  | cons u ts ih =>
    rw [List.foldl_cons] at h
    obtain ⟨origin, longest, all⟩ := ih h
    rcases longer_cases text best u with ⟨same, covered⟩ | ⟨m, fits, same, shorter⟩
    · rw [same] at origin longest
      refine ⟨origin.imp_right fun o => ⟨List.mem_cons_of_mem _ o.1, o.2⟩, longest, ?_⟩
      intro v hv m fits
      rcases List.mem_cons.1 hv with rfl | hv
      · obtain ⟨b, hb, le⟩ := covered m fits
        exact Nat.le_trans le (longest b hb)
      · exact all v hv m fits
    · rw [same] at origin longest
      have within : m ≤ n := longest _ rfl
      refine ⟨Or.inr ?_, fun b hb => Nat.le_trans (shorter b hb) within, ?_⟩
      · rcases origin with origin | ⟨ht, fits'⟩
        · obtain ⟨rfl, rfl⟩ : u = t ∧ m = n := by simpa using origin
          exact ⟨List.mem_cons_self, fits⟩
        · exact ⟨List.mem_cons_of_mem _ ht, fits'⟩
      · intro v hv m' fits'
        rcases List.mem_cons.1 hv with rfl | hv
        · rw [fits] at fits'
          obtain rfl : m = m' := by simpa using fits'
          exact within
        · exact all v hv m' fits'

/-- The longest fixed spelling is one of those tried, and none of them that the
text starts with is longer. -/
theorem longestFixed_eq_some {w : Wanted} {text : List Char} {t : Terminal} {n : Nat}
    (h : longestFixed w text = some (t, n)) :
    t ∈ fixed w ∧ fixedLength text t = some n ∧
      ∀ u ∈ fixed w, ∀ m, fixedLength text u = some m → m ≤ n := by
  have folded : (fixed w).foldl (longer text) none = some (t, n) := h
  obtain ⟨origin, _, all⟩ := foldl_longer folded
  rcases origin with none | ⟨ht, fits⟩
  · cases none
  · exact ⟨ht, fits, all⟩

/-- Only what a source can hold is read. -/
theorem scan_lexical {w : Wanted} {text : List Char} {t : Terminal} {n : Nat}
    (h : scan w text = some (some t, n)) : t ∈ Terminal.lexical := by
  have known : ∀ cls ∈ classes, cls.1 ∈ Terminal.lexical := by decide
  rcases scan_eq_some h with ⟨cls, hcls, _, _, rfl⟩ | found
  · rcases retyped_cases w cls.1 (text.take n) with same | ⟨lexical, _⟩
    · rw [same]
      exact known cls hcls
    · exact lexical
  · exact (List.mem_filter.1 (longestFixed_eq_some found).1).1

/-- A string is what the class of strings reads. -/
theorem scan_string {w : Wanted} {text : List Char} {n : Nat}
    (h : scan w text = some (some .string, n)) : stringLength text = some n := by
  rcases scan_eq_some h with ⟨cls, hcls, _, length, same⟩ | found
  · rcases retyped_cases w cls.1 (text.take n) with own | ⟨_, _, s, spelled, _⟩
    · rw [own] at same
      simp only [classes, List.mem_cons, List.not_mem_nil, or_false] at hcls
      rcases hcls with rfl | rfl | rfl | rfl | rfl
      all_goals first | exact length | cases same
    · rw [← same] at spelled
      cases spelled
  · have spelled := (longestFixed_eq_some found).2.1
    cases spelled

/-! ## Strings -/

theorem stringRest_closed {cs : List Char} {n : Nat} (h : stringRest cs = some n) :
    ∃ content, cs.take n = content ++ ['"'] := by
  fun_induction stringRest cs generalizing n with
  | case1 => cases h
  | case2 cs =>
    obtain rfl : 1 = n := by simpa using h
    exact ⟨[], rfl⟩
  | case3 => cases h
  | case4 c cs _ ih =>
    obtain ⟨m, rest, rfl⟩ := Option.map_eq_some_iff.1 h
    obtain ⟨content, closed⟩ := ih rest
    exact ⟨'\\' :: c :: content, by simp [closed]⟩
  | case5 => cases h
  | case6 c cs _ _ _ ih =>
    obtain ⟨m, rest, rfl⟩ := Option.map_eq_some_iff.1 h
    obtain ⟨content, closed⟩ := ih rest
    exact ⟨c :: content, by simp [closed]⟩

/-- A string stands between two quotes. -/
theorem stringLength_quoted {text : List Char} {n : Nat} (h : stringLength text = some n) :
    ∃ content, text.take n = '"' :: content ++ ['"'] := by
  unfold stringLength at h
  split at h
  · obtain ⟨m, rest, rfl⟩ := Option.map_eq_some_iff.1 h
    obtain ⟨content, closed⟩ := stringRest_closed rest
    exact ⟨content, by simp [closed]⟩
  · cases h

/-! ## The next lexeme of a source -/

/-- The source from one offset to another reads as gaps. -/
inductive Gap (w : Wanted) (source : List Char) : Nat → Nat → Prop
  | none (i : Nat) : Gap w source i i
  | one {i j n : Nat} (scanned : scan w (source.drop i) = some (none, n + 1))
      (more : Gap w source (i + (n + 1)) j) : Gap w source i j

theorem Gap.le {w : Wanted} {source : List Char} {i j : Nat} (h : Gap w source i j) : i ≤ j := by
  induction h with
  | none => exact Nat.le_refl _
  | one _ _ ih => omega

/-- The place of a source at an offset. -/
def Cursor.at (source : List Char) (offset : Nat) : Cursor := ⟨offset, source.drop offset⟩

/-- A lexeme spells a piece of a source that scans as its terminal, and ends where
the cursor is. -/
structure Scans (w : Wanted) (source : List Char) (l : Lexeme) (after : Cursor) : Prop where
  nonempty : source.drop l.start ≠ []
  scanned : ∃ n, scan w (source.drop l.start) = some (some l.terminal, n + 1) ∧
    l.text = String.ofList ((source.drop l.start).take (n + 1)) ∧
    after = .at source (l.start + (n + 1))

/-- Nothing wanted is at an offset of a source. -/
def NothingAt (w : Wanted) (source : List Char) (offset : Nat) : Prop :=
  ∀ found n, scan w (source.drop offset) ≠ some (found, n + 1)

/-- What a reading says about a source from an offset on. -/
def Reading.Holds (w : Wanted) (source : List Char) (offset : Nat) : Reading → Prop
  | .finished => ∃ stop, Gap w source offset stop ∧ source.drop stop = []
  | .wanted l after => Gap w source offset l.start ∧ Scans w source l after
  | .misplaced l after => Gap w source offset l.start ∧ NothingAt w source l.start ∧
      Scans anything source l after
  | .stray c place after => Gap w source offset place ∧ NothingAt w source place ∧
      (∀ t n, scan anything (source.drop place) ≠ some (some t, n + 1)) ∧
      source.drop place = c :: source.drop (place + 1) ∧ after = .at source (place + 1)

theorem Reading.Holds.behind {w : Wanted} {source : List Char} {i n : Nat} {r : Reading}
    (scanned : scan w (source.drop i) = some (none, n + 1)) (h : r.Holds w source (i + (n + 1))) :
    r.Holds w source i := by
  cases r with
  | finished =>
    obtain ⟨stop, gap, done⟩ := h
    exact ⟨stop, .one scanned gap, done⟩
  | wanted l after => exact ⟨.one scanned h.1, h.2⟩
  | misplaced l after => exact ⟨.one scanned h.1, h.2⟩
  | stray c place after => exact ⟨.one scanned h.1, h.2⟩

theorem drop_of_drop_eq_cons {source cs : List Char} {c : Char} {i : Nat}
    (h : source.drop i = c :: cs) (n : Nat) : source.drop (i + (n + 1)) = cs.drop n := by
  rw [← List.drop_drop, h, List.drop_succ_cons]

theorem scans_lexeme {w : Wanted} {source cs : List Char} {c : Char} {i n : Nat} {t : Terminal}
    (within : source.drop i = c :: cs) (scanned : scan w (c :: cs) = some (some t, n + 1)) :
    Scans w source (Cursor.lexeme ⟨i, c :: cs⟩ t (n + 1)) (Cursor.advance ⟨i, c :: cs⟩ (n + 1)) := by
  refine ⟨?_, n, ?_, ?_, ?_⟩
  · simp [Cursor.lexeme, within]
  · simpa [Cursor.lexeme, within] using scanned
  · simp [Cursor.lexeme, within]
  · simp [Cursor.lexeme, Cursor.advance, Cursor.at, drop_of_drop_eq_cons within]

/-- Reading says how the source goes on. -/
theorem read_holds (w : Wanted) (source : List Char) (c : Cursor)
    (within : source.drop c.offset = c.rest) : (c.read w).Holds w source c.offset := by
  fun_induction Cursor.read w c with
  | case1 offset => exact ⟨offset, .none offset, within⟩
  | case2 offset c cs n scanned ih =>
    have behind := ih (drop_of_drop_eq_cons within n)
    exact behind.behind (within ▸ scanned)
  | case3 offset c cs here t n scanned => exact ⟨.none offset, scans_lexeme within scanned⟩
  | case4 offset c cs here t n scanned noGap noLexeme =>
    refine ⟨.none offset, ?_, scans_lexeme within scanned⟩
    rintro (_ | t) n
    · exact within ▸ noGap n
    · exact within ▸ noLexeme t n
  | case5 offset c cs here noGap noLexeme none =>
    refine ⟨.none offset, ?_, within ▸ none, ?_, ?_⟩
    · rintro (_ | t) n
      · exact within ▸ noGap n
      · exact within ▸ noLexeme t n
    · rw [drop_of_drop_eq_cons within 0]
      exact within
    · simp [Cursor.advance, Cursor.at, here, drop_of_drop_eq_cons within 0]

end SyntaxAtlas.Lexeme
