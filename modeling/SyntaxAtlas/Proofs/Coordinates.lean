-- The ranges of records are true coordinates of the source. Every node starts and ends
-- between two characters, so its rows and columns can be read off the source.

import SyntaxAtlas.Proofs.Preorder
import SyntaxAtlas.Proofs.Rows
import SyntaxAtlas.Proofs.Settled

namespace SyntaxAtlas

/-! ## Places between characters -/

/-- A byte offset between two characters of a source, or at one of its ends. -/
def OnBoundary (source : List Char) (offset : Int) : Prop :=
  ∃ n ≤ source.length, offset = byteOffset source n

theorem onBoundary_byteOffset (source : List Char) (n : Nat) :
    OnBoundary source (byteOffset source n) := by
  refine ⟨min n source.length, Nat.min_le_right _ _, ?_⟩
  rw [byteOffset_natCast, byteOffset_natCast, ← List.take_take, List.take_length]

theorem byteOffset_lt {source : List Char} {i j : Nat} (lt : i < j) (le : j ≤ source.length) :
    byteOffset source i < byteOffset source j := by
  rw [byteOffset_add (Nat.le_of_lt lt)]
  have nonempty : between source i j ≠ [] := by
    rw [ne_eq, ← List.length_eq_zero_iff, between, List.length_take, List.length_drop]
    omega
  have := byteLength_pos nonempty
  omega

theorem Placed.boundaries {source : List Char} {home : Nat} {ts : List Token}
    (placed : Placed source home ts) :
    ∀ t ∈ ts, OnBoundary source t.position ∧ OnBoundary source t.endPosition := by
  induction placed with
  | none => simp
  | missing isMissing place _ ih =>
    intro u hu
    rcases List.mem_cons.1 hu with rfl | hu
    · rw [Token.endPosition_missing isMissing, place]
      exact ⟨onBoundary_byteOffset _ _, onBoundary_byteOffset _ _⟩
    · exact ih u hu
  | present isPresent _ place text _ _ _ ih =>
    intro u hu
    rcases List.mem_cons.1 hu with rfl | hu
    · rw [endPosition_present isPresent place text, place]
      exact ⟨onBoundary_byteOffset _ _, onBoundary_byteOffset _ _⟩
    · exact ih u hu

namespace Tree

/-- A tree that starts and ends between characters, and does not end before it starts. -/
structure OnBoundaries (source : List Char) (t : Tree) : Prop where
  start : OnBoundary source t.start
  stop : OnBoundary source t.stop
  forward : t.start ≤ t.stop

/-- Tokens that come in order, each of them between characters. -/
structure TokensOnBoundaries (source : List Char) (ts : List Token) : Prop where
  ordered : InOrder ts
  each : ∀ u ∈ ts, OnBoundary source u.position ∧ OnBoundary source u.endPosition

theorem TokensOnBoundaries.startOf {source : List Char} {ts : List Token} {next : Int}
    (h : TokensOnBoundaries source ts) (behind : OnBoundary source next) :
    OnBoundary source (startOf ts next) := by
  cases ts with
  | nil => exact behind
  | cons u us => exact (h.each u (by simp)).1

theorem TokensOnBoundaries.stopOf {source : List Char} {ts : List Token} {next : Int}
    (h : TokensOnBoundaries source ts) (behind : OnBoundary source next) :
    OnBoundary source (stopOf ts next) := by
  unfold SyntaxAtlas.stopOf
  rcases last : ts.getLast? with _ | u
  · exact behind
  · exact (h.each u (List.mem_of_getLast? last)).2

theorem TokensOnBoundaries.append {source : List Char} {ts us : List Token}
    (h : TokensOnBoundaries source (ts ++ us)) :
    TokensOnBoundaries source ts ∧ TokensOnBoundaries source us :=
  ⟨⟨h.ordered.append.1, fun u hu => h.each u (by simp [hu])⟩,
    ⟨h.ordered.append.2.1, fun u hu => h.each u (by simp [hu])⟩⟩

/-- Trees in a row that have their spans already, each before the tokens of those behind it. -/
theorem settled_of_mem {source : List Char} {ts : List Tree} {next : Int}
    (settled : placeItems (some next) ts = ts)
    (tokens : TokensOnBoundaries source (itemTokens ts)) (behind : OnBoundary source next) :
    ∀ t ∈ ts, ∃ following, t.place (some following) = t ∧ OnBoundary source following ∧
      TokensOnBoundaries source t.tokens := by
  induction ts with
  | nil => simp
  | cons t ts ih =>
    rw [placeItems_cons, List.cons.injEq] at settled
    obtain ⟨own, others⟩ := tokens.append
    intro u hu
    rcases List.mem_cons.1 hu with rfl | hu
    · exact ⟨_, settled.1, others.startOf behind, own⟩
    · exact ih settled.2 others u hu

/-- Where the tokens are on boundaries, so are all nodes that take their spans from them. -/
theorem onBoundaries_of_settled {source : List Char} {t : Tree} (fits : t.Everywhere Fits)
    {next : Int} (settled : t.place (some next) = t)
    (tokens : TokensOnBoundaries source t.tokens) (behind : OnBoundary source next) :
    t.Everywhere (OnBoundaries source) := by
  induction fits using everywhere_induction generalizing next with
  | step t here below each =>
    obtain ⟨⟨start, stop⟩, inside⟩ := (place_eq_iff (isSyntax_of_fits here)).1 settled
    refine everywhere_iff.2 ⟨⟨?_, ?_, ?_⟩, fun c hc => ?_⟩
    · rw [start]
      exact tokens.startOf behind
    · rw [stop]
      exact tokens.stopOf behind
    · rw [start, stop]
      exact tokens.ordered.startOf_le_stopOf next
    · cases t with
      | token u => cases hc
      | foreign value => cases hc
      | node kind slots items state =>
        rw [tokens_node] at tokens
        obtain ⟨following, settled', behind', own⟩ := settled_of_mem inside tokens behind c hc
        exact each c hc settled' own behind'

end Tree

/-! ## The trees of a source -/

theorem parse_tokensOnBoundaries {budget : Nat} {file source : String} {p : Parsed}
    (parsed : parse budget file source = .ok p) :
    Tree.TokensOnBoundaries source.toList p.root.tokens :=
  ⟨(parse_placed parsed).ordered, (parse_placed parsed).boundaries⟩

theorem parse_lineMap {budget : Nat} {file source : String} {q : Parsed}
    (parsed : parse budget file source = .ok q) : q.lineMap = .ofSource source file := by
  obtain ⟨_, _, _, _, _, rfl⟩ := parse_eq_ok_iff.1 parsed
  rfl

/-- A tree that is shown, folded or as it was parsed, is made of the tokens of the parsed one,
conforms to the catalog, and has the spans that the tokens give. -/
theorem shown_settled {budget : Nat} {file source : String} {q : Parsed}
    (parsed : parse budget file source = .ok q) (fold : Bool) :
    (q.shown fold).lineMap = .ofSource source file ∧ (q.shown fold).root.tokens = q.root.tokens ∧
      (q.shown fold).root.Everywhere Tree.Fits ∧
        (q.shown fold).root.place (some (stopOf q.root.tokens 0)) = (q.shown fold).root := by
  have conforms := (parse_conforms parsed).1
  have settled := (Tree.assignSpans_eq_self_iff (parse_tokens_ne_nil parsed)).1
    (parse_assignSpans parsed)
  have lineMap := parse_lineMap parsed
  dsimp only [Parsed.shown]
  split
  · rename_i folded
    simp only [Bool.and_eq_true, Option.isNone_iff_eq_none] at folded
    have folds := Tree.foldAll_ok conforms folded.2
    exact ⟨lineMap, folds.tokens, (folds.fits conforms).1, folds.settled conforms settled⟩
  · exact ⟨lineMap, rfl, conforms.imp fun _ h => h.fits, settled⟩

section Shown

variable {budget : Nat} {file source : String} {q : Parsed} (host : Host)
  (parsed : parse budget file source = .ok q) (options : RenderOptions) (place : DumpPlace)

include parsed

/-- A source that parses shows a tree, if there is room for the work: only its operators can stop
folding. -/
theorem treeTraced_of_parse : (treeTraced host budget options place file source).value =
    host.outcome (.parse budget source :: q.treeWork options place)
      (.ok (q.shown options.fold)) := by
  have fits : q.root.Everywhere Tree.Fits := (parse_conforms parsed).1.imp fun _ h => h.fits
  exact treeTraced_value host options place parsed fun f failed =>
    (Tree.foldAll_ofSource fits f failed).error (some q.lineMap)

theorem recordsTraced_of_parse {rs : List Record}
    (made : (q.shown options.fold).root.records (.ofSource source file) options.showMissing =
      .ok rs) :
    (recordsTraced host budget options place file source).value =
      host.outcome (.parse budget source :: q.treeWork options place ++
        [.list (q.shown options.fold).root]) (.ok rs) := by
  rw [recordsTraced, Traced.andThen_value, treeTraced_of_parse host parsed, Host.outcome_ok_bind,
    Host.outcome_append, Traced.andThen_value, Host.take_value, Host.outcome_ok_bind,
    (shown_settled parsed options.fold).1, made]

end Shown

/-- The range of a record says where its tree starts and ends in the source. Its rows and
columns are those of two places between characters, and none of its columns had to stay in
bytes. -/
structure TrueRange (source : List Char) (m : LineMap) (u : Tree) (r : Record) : Prop where
  places : ∃ i j, i ≤ j ∧ j ≤ source.length ∧ u.start = byteOffset source i ∧
    u.stop = byteOffset source j ∧ r.range = {
      startRow := rowNumber source i
      startColumn := columnNumber source i
      endRow := rowNumber source j
      endColumn := columnNumber source j }
  measured : m.Measures (m.location u.start).line (m.location u.start).column ∧
    m.Measures (m.location u.stop).line (m.location u.stop).column
  ordered : r.range.startRow < r.range.endRow ∨
    r.range.startRow = r.range.endRow ∧ r.range.startColumn ≤ r.range.endColumn

theorem trueRange {source file : String} {showMissing : Bool} {u : Tree} {r : Record}
    (boundaries : u.OnBoundaries source.toList)
    (describes : u.Describes (.ofSource source file) showMissing r) :
    TrueRange source.toList (.ofSource source file) u r := by
  obtain ⟨⟨i, leI, start⟩, ⟨j, leJ, stop⟩, forward⟩ := boundaries
  have le : i ≤ j := by
    rw [start, stop] at forward
    rcases Nat.lt_or_ge j i with lt | ge
    · have := byteOffset_lt lt leI
      omega
    · exact ge
  obtain ⟨row, measured, column⟩ := location_byteOffset source file leI
  obtain ⟨row', measured', column'⟩ := location_byteOffset source file leJ
  have range : r.range = {
      startRow := rowNumber source.toList i
      startColumn := columnNumber source.toList i
      endRow := rowNumber source.toList j
      endColumn := columnNumber source.toList j } := by
    rw [describes.range, start, stop]
    simp only [LineMap.range, column, column']
    rw [row, row']
  refine ⟨⟨i, j, le, leJ, start, stop, range⟩, ⟨by rwa [start], by rwa [stop]⟩, ?_⟩
  rw [range]
  rcases @place_le source.toList i j le with lt | ⟨same, le⟩
  · exact .inl (Int.ofNat_lt.2 lt)
  · exact .inr ⟨congrArg _ same, Int.ofNat_le.2 le⟩

theorem Tree.isRegistered_of_fits {t : Tree} (fits : t.Fits) : t.IsRegistered := by
  cases t with
  | token u => trivial
  | foreign value => exact fits
  | node kind slots items state =>
    obtain ⟨e, entry⟩ := catalogued_of_fits fits
    exact Option.isSome_iff_exists.2 ⟨e, entry⟩

/-- The records of a tree that fits the catalog, one for each tree in it. -/
theorem Tree.records_describe {t : Tree} (fits : t.Everywhere Fits) (m : LineMap)
    (showMissing : Bool) : ∃ rs, t.records m showMissing = .ok rs ∧
      List.Forall₂ (Describes m showMissing) t.preorder rs := by
  have known := fits.imp fun _ h => isRegistered_of_fits h
  obtain ⟨rs, made, records⟩ := recordsFrom_ok known none 0
  exact ⟨rs, made, records.described⟩

/-- Ranges are true coordinates. Whatever the options are, a source that parses has records,
one for each tree in pre-order, and the range of each is where the tree stands in the source. A
host that gives records gives these. -/
theorem recordsTraced_ranges {budget : Nat} {file source : String} {q : Parsed}
    (parsed : parse budget file source = .ok q) (options : RenderOptions) (place : DumpPlace) :
    ∃ p rs, (treeTraced .roomy budget options place file source).value = .ok p ∧
      (recordsTraced .roomy budget options place file source).value = .ok rs ∧
      (∀ (host : Host) ss, (recordsTraced host budget options place file source).value = .ok ss →
        ss = rs) ∧
      List.Forall₂ (fun u r => u.Describes p.lineMap options.showMissing r ∧
        TrueRange source.toList p.lineMap u r) p.root.preorder rs := by
  obtain ⟨lineMap, tokens, fits, settled⟩ := shown_settled parsed options.fold
  obtain ⟨rs, made, described⟩ := Tree.records_describe fits (.ofSource source file)
    options.showMissing
  have listed := fun host => recordsTraced_of_parse host parsed options place made
  refine ⟨q.shown options.fold, rs, ?_, ?_, fun host ss given => ?_, ?_⟩
  · rw [treeTraced_of_parse .roomy parsed, Host.outcome_roomy]
  · rw [listed, Host.outcome_roomy]
  · rw [listed, Host.outcome_eq_ok_iff] at given
    exact (Except.ok.inj given.2).symm
  · have inSource := parse_tokensOnBoundaries parsed
    have boundaries : (q.shown options.fold).root.Everywhere (Tree.OnBoundaries source.toList) :=
      Tree.onBoundaries_of_settled fits settled (tokens ▸ inSource)
        (inSource.stopOf (onBoundary_byteOffset _ 0))
    rw [lineMap]
    exact forall₂_imp_of_mem described fun u mem r describes =>
      ⟨describes, trueRange (boundaries.of_mem_preorder mem) describes⟩

/-- Ranges are true coordinates with a wide character, a skipped one, a dropped token, a missing
one and an infix node. -/
theorem recordsTraced_ranges_of_folded :
    let source := "x = \"é\" $+ (b ] * c"
    ∃ q p rs, parse 3 standardFile source = .ok q ∧
      (treeTraced .roomy 3 { fold := true } .nowhere standardFile source).value = .ok p ∧
      (recordsTraced .roomy 3 { fold := true } .nowhere standardFile source).value = .ok rs ∧
      List.Forall₂ (fun u r => u.Describes p.lineMap false r ∧
        TrueRange source.toList p.lineMap u r) p.root.preorder rs := by
  obtain ⟨q, parsed, _⟩ := exists_ok_of_toOption sample_parses.2.2.2.1
  obtain ⟨p, rs, shown, listed, _, ranges⟩ := recordsTraced_ranges parsed { fold := true } .nowhere
  exact ⟨q, p, rs, parsed, shown, listed, ranges⟩

end SyntaxAtlas
