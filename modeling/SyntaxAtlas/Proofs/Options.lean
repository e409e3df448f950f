-- Options do not change the tokens. Two renders of one source, whatever their options are, have the
-- same token records but for the labels of missing tokens, and where they fold alike all records
-- are the same but for these labels. That is so exactly if the host has room for the work of both:
-- a shortage ends a render, also one in folding, which the other need not do.

import SyntaxAtlas.Proofs.Insertions
import SyntaxAtlas.Proofs.Rendered

namespace SyntaxAtlas

/-! ## Rendering any source -/

/-- A source that does not parse is rejected, since every derivation of a file can be built. -/
theorem parse_error {budget : Nat} {file source : String} {f : ParseFailure}
    (failed : parse budget file source = .error f) : ∃ r, f = .rejected r := by
  rcases accepted : Recovery.parse .ofGrammar budget source.toList with r | ⟨tree, s⟩
  · simp only [parse, parseWith, accepted] at failed
    exact ⟨r, (Except.error.inj failed).symm⟩
  · obtain ⟨derived, file, _⟩ := Recovery.parse_ordered Automaton.ofGrammar_sound accepted
    obtain ⟨root, built, _⟩ := ParseTree.toTree_of_derived derived file
    simp [parse, parseWith, accepted, ParseTree.finished, built, Except.map] at failed

/-- A host makes no difference to a render but that a shortage ends it. -/
theorem render_value (host : Host) (budget : Nat) (options : RenderOptions) (place : DumpPlace)
    (file source : String) : (render host budget options place file source).value =
      host.outcome (renderWork budget options place file source)
        (render .roomy budget options place file source).value := by
  rcases parsed : parse budget file source with f | q
  · obtain ⟨r, rfl⟩ := parse_error parsed
    rw [render_of_rejection options place host parsed, render_of_rejection options place _ parsed,
      Host.outcome_roomy]
  · obtain ⟨rs, _, given⟩ := render_of_parse options place parsed
    rw [given host, given .roomy, Host.outcome_roomy]

/-! ## Token records -/

/-- The records of tokens, in order. -/
def tokenRecords (rs : List Record) : List Record := rs.filter (·.token.isSome)

/-- The label of the record of a token. A missing token has none unless asked for, and then that
of its terminal's canonical text. -/
def Token.shownLabel (showMissing : Bool) (t : Token) : String :=
  if t.isMissing then if showMissing then Markup.label t.terminal.canonicalText else ""
  else Markup.label t.text

/-- Two records say the same of a token, but for its label and their places among the records. -/
structure SameToken (r r' : Record) : Prop where
  range : r.range = r'.range
  category : r.category = r'.category
  properties : r.properties = r'.properties
  token : r.token = r'.token

namespace Tree

/-- Each token of a tree has its record, in order. -/
theorem tokenRecords_of_described {m : LineMap} {showMissing : Bool} {t : Tree} {rs : List Record}
    (described : List.Forall₂ (Describes m showMissing) t.preorder rs) :
    List.Forall₂ (fun u r => r = Token.record m showMissing r.parent r.id u) t.tokens
      (tokenRecords rs) := by
  have filtered := List.rel_filter (R := Describes m showMissing) (p := isToken)
    (q := fun r => r.token.isSome) (fun u r h => by simp [h.token_isSome]) described
  rw [filter_isToken_preorder, List.forall₂_map_left_iff] at filtered
  exact filtered.imp fun u r describes => describes.token u rfl

end Tree

/-- Lists that go with one list go with each other. -/
theorem forall₂_join {α β γ : Type} {R : α → β → Prop} {S : α → γ → Prop} {as : List α}
    {bs : List β} {cs : List γ} (h : List.Forall₂ R as bs) (h' : List.Forall₂ S as cs) :
    List.Forall₂ (fun b c => ∃ a, R a b ∧ S a c) bs cs := by
  induction h generalizing cs with
  | nil =>
    cases h'
    exact .nil
  | cons here _ ih =>
    obtain _ | ⟨here', others⟩ := h'
    exact .cons ⟨_, here, here'⟩ (ih others)

theorem sameToken_record (m : LineMap) (showMissing showMissing' : Bool)
    (parent parent' : Option Nat) (id id' : Nat) (t : Token) :
    SameToken (t.record m showMissing parent id) (t.record m showMissing' parent' id') :=
  ⟨rfl, rfl, rfl, rfl⟩

theorem Markup.label_empty : Markup.label "" = "" := by
  decide +kernel

theorem label_record {t : Token} (canonical : t.isMissing = true → t.text = t.terminal.canonicalText)
    (m : LineMap) (showMissing : Bool) (parent : Option Nat) (id : Nat) :
    (t.record m showMissing parent id).label = t.shownLabel showMissing := by
  unfold Token.record Token.shownLabel
  by_cases isMissing : t.isMissing = true
  · rw [canonical isMissing]
    cases showMissing <;> simp [isMissing, Markup.label_empty]
  · simp [isMissing]

/-! ## All records -/

/-- The record of a tree with the label that it has when missing tokens are shown or not. No
other record than that of a missing token is changed, and of it nothing but the label. -/
def Record.relabelled (showMissing : Bool) (u : Tree) (r : Record) : Record :=
  match u with
  | .token t => if t.isMissing then { r with label := t.shownLabel showMissing } else r
  | _ => r

theorem relabelled_of_describes {m : LineMap} {showMissing showMissing' : Bool} {u : Tree}
    {r r' : Record} (canonical : ∀ t, u = .token t → t.isMissing = true →
      t.text = t.terminal.canonicalText)
    (describes : u.Describes m showMissing r) (describes' : u.Describes m showMissing' r')
    (id : r.id = r'.id) (parent : r.parent = r'.parent) :
    r' = r.relabelled showMissing' u := by
  cases u with
  | token t =>
    have own := describes.token t rfl
    have own' := describes'.token t rfl
    rw [← id, ← parent] at own'
    by_cases isMissing : t.isMissing = true
    · have label := label_record (canonical t rfl) m showMissing' r.parent r.id
      rw [Record.relabelled, if_pos isMissing, own', ← label, own]
      rfl
    · rw [Record.relabelled, if_neg isMissing, own', own]
      simp [Token.record, isMissing]
  | foreign value => exact absurd rfl (describes.syntactic value)
  | node kind slots items state =>
    have made := (describes.node _ _ _ _ rfl).1
    have made' := (describes'.node _ _ _ _ rfl).1
    rw [← id, ← parent, made, Except.ok.injEq] at made'
    exact made'.symm

theorem Tree.mem_tokens_of_mem_preorder {t : Tree} {v : Token} (mem : .token v ∈ t.preorder) :
    v ∈ t.tokens := by
  have filtered : Tree.token v ∈ t.preorder.filter isToken := List.mem_filter.2 ⟨mem, rfl⟩
  rw [filter_isToken_preorder, List.mem_map] at filtered
  obtain ⟨u, hu, same⟩ := filtered
  cases same
  exact hu

/-- The records of one tree, with missing tokens shown and not. -/
theorem Tree.records_relabelled {t : Tree} (fits : t.Everywhere Fits) {m : LineMap}
    {showMissing showMissing' : Bool} {rs rs' : List Record}
    (canonical : ∀ v ∈ t.tokens, v.isMissing = true → v.text = v.terminal.canonicalText)
    (made : t.records m showMissing = .ok rs) (made' : t.records m showMissing' = .ok rs') :
    rs.length = t.preorder.length ∧
      rs' = List.zipWith (fun u r => r.relabelled showMissing' u) t.preorder rs := by
  have known := fits.imp fun _ h => isRegistered_of_fits h
  obtain ⟨ss, found, records⟩ := @recordsFrom_ok m showMissing t known none 0
  obtain ⟨ss', found', records'⟩ := @recordsFrom_ok m showMissing' t known none 0
  obtain rfl : rs = ss := Except.ok.inj (made.symm.trans found)
  obtain rfl : rs' = ss' := Except.ok.inj (made'.symm.trans found')
  obtain ⟨length, own⟩ := List.forall₂_iff_get.1 records.described
  obtain ⟨length', own'⟩ := List.forall₂_iff_get.1 records'.described
  obtain ⟨_, linked⟩ := List.forall₂_iff_get.1 (forall₂_join records.numbers records'.numbers)
  refine ⟨length.symm, List.ext_getElem (by simp [← length, ← length']) fun i inside inside' => ?_⟩
  rw [List.getElem_zipWith]
  have below : i < t.preorder.length := length' ▸ inside
  obtain ⟨place, ⟨id, parent⟩, ⟨id', parent'⟩⟩ := linked i (length ▸ below) inside
  refine relabelled_of_describes (fun v same => canonical v (mem_tokens_of_mem_preorder ?_))
    (own i below (length ▸ below)) (own' i below inside) (id.trans id'.symm)
    (parent.trans parent'.symm)
  rw [← same]
  exact List.getElem_mem below

/-! ## Two renders -/

/-- What two renders of a source have in common. Their options may differ. -/
structure OptionsAgree (host : Host) (budget : Nat) (file source : String)
    (options options' : RenderOptions) (place : DumpPlace) (q : Parsed) (rs rs' : List Record) :
    Prop where
  /-- The token records say the same. -/
  tokens : List.Forall₂ SameToken (tokenRecords rs) (tokenRecords rs')
  /-- They are labelled by the tokens of the source, missing ones as each of the options say. -/
  labels : List.Forall₂ (fun t r => r.label = t.shownLabel options.showMissing) q.root.tokens
    (tokenRecords rs)
  labels' : List.Forall₂ (fun t r => r.label = t.shownLabel options'.showMissing) q.root.tokens
    (tokenRecords rs')
  /-- Where both fold or neither does, all records are the same but for these labels. -/
  alike : options.fold = options'.fold → ∃ p,
    (treeTraced host budget options place file source).value = .ok p ∧
      rs.length = p.root.preorder.length ∧
      rs' = List.zipWith (fun u r => r.relabelled options'.showMissing u) p.root.preorder rs
  /-- Folding that fails at a sequence changes nothing. -/
  unfolded : host.shortage? (.fold q.root) = none → (q.root.foldAll .standard).failure ≠ none →
    (render host budget { options with fold := true } place file source).value =
      (render host budget { options with fold := false } place file source).value

/-- Two renders of a source agree: both are rejected for the same reason, or both give records, and
these agree. -/
def RendersAgree (host : Host) (budget : Nat) (file source : String)
    (options options' : RenderOptions) (place place' : DumpPlace) : Prop :=
  (∃ r, (render host budget options place file source).value = .error (.rejected r) ∧
    (render host budget options' place' file source).value = .error (.rejected r)) ∨
  ∃ q rs rs', parse budget file source = .ok q ∧
    (render host budget options place file source).value = .ok rs ∧
    (render host budget options' place' file source).value = .ok rs' ∧
    OptionsAgree host budget file source options options' place q rs rs'

theorem labels_of_tokenRecords {m : LineMap} {showMissing : Bool} {ts : List Token}
    {rs : List Record} (canonical : ∀ t ∈ ts, t.isMissing = true → t.text = t.terminal.canonicalText)
    (recorded : List.Forall₂ (fun t r => r = Token.record m showMissing r.parent r.id t) ts rs) :
    List.Forall₂ (fun t r => r.label = t.shownLabel showMissing) ts rs :=
  forall₂_imp_of_mem recorded fun t ht r own => by
    rw [own]
    exact label_record (canonical t ht) ..

/-- Folding that fails at a sequence shows the tree as it was parsed. -/
theorem Parsed.shown_of_failure {q : Parsed} (failed : (q.root.foldAll .standard).failure ≠ none)
    (fold : Bool) : q.shown fold = q := by
  rw [← Option.isSome_iff_ne_none, ← Option.not_isNone, Bool.not_eq_true'] at failed
  simp [shown, failed]

/-- With folding that fails at a sequence a render gives what it gives without folding. -/
theorem render_of_failure {host : Host} {budget : Nat} {file source : String} {q : Parsed}
    (parsed : parse budget file source = .ok q) (room : host.shortage? (.fold q.root) = none)
    (failed : (q.root.foldAll .standard).failure ≠ none) (options : RenderOptions)
    (place : DumpPlace) :
    (render host budget { options with fold := true } place file source).value =
      (render host budget { options with fold := false } place file source).value := by
  have foldRoom : host.HasRoom [.fold q.root] := by simpa [Host.HasRoom] using room
  have folding : (treeTraced host budget { options with fold := true } place file source).value =
      (treeTraced host budget { options with fold := false } place file source).value := by
    rw [treeTraced_of_parse host parsed, treeTraced_of_parse host parsed]
    simp only [Parsed.shown_of_failure failed, Parsed.treeWork, if_true, Bool.false_eq_true,
      if_false, List.append_nil]
    rw [Host.outcome_cons, Host.outcome_append, Host.outcome_cons (.fold q.root),
      Host.outcome_of_hasRoom foldRoom, Host.outcome_twice, ← Host.outcome_cons]
  rw [render_listed, render_listed, recordsTraced, recordsTraced, Traced.andThen_value,
    Traced.andThen_value, folding]

/-- The token records of a render are those of the tokens of the parsed source. -/
theorem tokenRecords_of_render {host : Host} {budget : Nat} {file source : String}
    {options : RenderOptions} {place : DumpPlace} {q : Parsed} {rs : List Record}
    (parsed : parse budget file source = .ok q)
    (rendered : (render host budget options place file source).value = .ok rs) :
    List.Forall₂ (fun t r => r =
      Token.record (.ofSource source file) options.showMissing r.parent r.id t) q.root.tokens
      (tokenRecords rs) := by
  obtain ⟨_, same, _, made⟩ := parse_of_render options place rendered
  obtain rfl := Except.ok.inj (parsed.symm.trans same)
  obtain ⟨_, tokens, fits, _⟩ := shown_settled parsed options.fold
  obtain ⟨ss, found, described⟩ :=
    Tree.records_describe fits (.ofSource source file) options.showMissing
  obtain rfl : rs = ss := Except.ok.inj (made.symm.trans found)
  rw [← tokens]
  exact Tree.tokenRecords_of_described described

/-- Records that two renders of a source give agree. -/
theorem optionsAgree_of_render {host : Host} {budget : Nat} {file source : String}
    {options options' : RenderOptions} {place place' : DumpPlace} {q : Parsed}
    {rs rs' : List Record} (parsed : parse budget file source = .ok q)
    (rendered : (render host budget options place file source).value = .ok rs)
    (rendered' : (render host budget options' place' file source).value = .ok rs') :
    OptionsAgree host budget file source options options' place q rs rs' := by
  have canonical : ∀ t ∈ q.root.tokens, t.isMissing = true → t.text = t.terminal.canonicalText :=
    fun t ht isMissing => (parse_missing parsed t ht isMissing).2.1
  have recorded := tokenRecords_of_render parsed rendered
  have recorded' := tokenRecords_of_render parsed rendered'
  refine ⟨?_, labels_of_tokenRecords canonical recorded, labels_of_tokenRecords canonical recorded',
    ?_, fun room failed => render_of_failure parsed room failed options place⟩
  · refine (forall₂_join recorded recorded').imp ?_
    rintro r r' ⟨t, own, own'⟩
    rw [own, own']
    exact sameToken_record ..
  · intro fold
    obtain ⟨_, same, produced, made⟩ := parse_of_render options place rendered
    obtain rfl := Except.ok.inj (parsed.symm.trans same)
    obtain ⟨_, same', _, made'⟩ := parse_of_render options' place' rendered'
    obtain rfl := Except.ok.inj (parsed.symm.trans same')
    obtain ⟨_, tokens, fits, _⟩ := shown_settled parsed options.fold
    rw [← fold] at made'
    exact ⟨_, produced, Tree.records_relabelled fits (tokens ▸ canonical) made made'⟩

/-- Options do not change the tokens, with room for the work of both renders and only then: two
renders of a source are both rejected for the same reason, or both give records that agree. A
render without the room ends with the first shortage, also one in folding. -/
theorem render_options_agree (host : Host) (budget : Nat) (file source : String)
    (options options' : RenderOptions) (place place' : DumpPlace) :
    (RendersAgree host budget file source options options' place place' ↔
      host.HasRoom (renderWork budget options place file source) ∧
        host.HasRoom (renderWork budget options' place' file source)) ∧
    ∀ s, (renderWork budget options place file source).findSome? host.shortage? = some s →
      (render host budget options place file source).value = .error (.escaped (.short s)) := by
  refine ⟨⟨?_, ?_⟩, fun s short => by rw [render_value, Host.outcome_of_short short]⟩
  · rintro (⟨r, rejected, rejected'⟩ | ⟨q, rs, rs', parsed, rendered, rendered', _⟩)
    · rw [render_value, Host.outcome_eq_rejected_iff] at rejected rejected'
      exact ⟨rejected.1, rejected'.1⟩
    · rw [render_value, Host.outcome_eq_ok_iff] at rendered rendered'
      exact ⟨rendered.1, rendered'.1⟩
  · rintro ⟨room, room'⟩
    rcases parsed : parse budget file source with f | q
    · obtain ⟨r, rfl⟩ := parse_error parsed
      refine .inl ⟨r, ?_, ?_⟩
      · rw [render_of_rejection options place host parsed, Host.outcome_of_hasRoom room]
      · rw [render_of_rejection options' place' host parsed, Host.outcome_of_hasRoom room']
    · obtain ⟨rs, _, given⟩ := render_of_parse options place parsed
      obtain ⟨rs', _, given'⟩ := render_of_parse options' place' parsed
      have rendered := given host
      have rendered' := given' host
      rw [Host.outcome_of_hasRoom room] at rendered
      rw [Host.outcome_of_hasRoom room'] at rendered'
      exact .inr ⟨q, rs, rs', parsed, rendered, rendered',
        optionsAgree_of_render parsed rendered rendered'⟩

/-- Renders agree with a missing token that is shown in one of them, which folds. -/
theorem render_options_agree_of_repaired :
    let source := "x = \"é\" $+ (b ] * c"
    let folded : RenderOptions := { fold := true, showMissing := true }
    ∃ q rs rs', parse 3 standardFile source = .ok q ∧
      (render .roomy 3 {} .nowhere standardFile source).value = .ok rs ∧
      (render .roomy 3 folded .nowhere standardFile source).value = .ok rs' ∧
      OptionsAgree .roomy 3 standardFile source {} folded .nowhere q rs rs' := by
  intro source folded
  obtain ⟨q, parsed, _⟩ := exists_ok_of_toOption sample_parses.2.2.2.1
  obtain ⟨rs, _, given⟩ := render_of_parse {} .nowhere parsed
  rcases (render_options_agree .roomy 3 standardFile source {} folded .nowhere .nowhere).1.2
    ⟨Host.roomy_hasRoom _, Host.roomy_hasRoom _⟩ with ⟨r, rejected, _⟩ | agree
  · rw [given, Host.outcome_roomy] at rejected
    cases rejected
  · exact agree

/-- On a host with room for a thousand open calls a name in 36 parentheses renders as it is, and
folding it ends the run. -/
theorem renders_disagree_of_nested :
    let host := Host.ofRoom 1000
    (∃ rs, (render host standardBudget {} .nowhere standardFile nested).value = .ok rs) ∧
      (render host standardBudget { fold := true } .nowhere standardFile nested).value =
        .error (.escaped (.short .calls)) ∧
      ¬ RendersAgree host standardBudget standardFile nested {} { fold := true } .nowhere
        .nowhere := by
  intro host
  obtain ⟨q, parsed, deep⟩ := exists_ok_of_toOption sample_parses.2.2.2.2.2
  obtain ⟨rs, _, given⟩ := render_of_parse {} .nowhere parsed
  obtain ⟨_, _, given'⟩ := render_of_parse { fold := true } .nowhere parsed
  have room : host.HasRoom (renderWork standardBudget {} .nowhere standardFile nested) :=
    hasRoom_renderWork_iff.2 fun _ _ folding => nomatch folding
  have short : (renderWork standardBudget { fold := true } .nowhere standardFile
      nested).findSome? host.shortage? = some .calls := by
    rw [renderWork, parsed]
    simp [Parsed.treeWork, DumpPlace.work, host, Host.ofRoom, of_decide_eq_true deep]
  have rendered := given host
  have ended := given' host
  rw [Host.outcome_of_hasRoom room] at rendered
  rw [Host.outcome_of_short short] at ended
  refine ⟨⟨rs, rendered⟩, ended, ?_⟩
  rintro (⟨r, rejected, _⟩ | ⟨_, _, _, _, _, rendered', _⟩)
  · rw [rendered] at rejected
    cases rejected
  · rw [ended] at rendered'
    cases rendered'

end SyntaxAtlas
