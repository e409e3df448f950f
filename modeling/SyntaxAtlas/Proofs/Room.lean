-- Runs on a host. A run takes the room for one piece of work after the other, and the first
-- shortage ends it. Apart from that a host makes no difference to what comes of the run.

import SyntaxAtlas.Render

namespace SyntaxAtlas

/-! ## Room for work -/

namespace Host

variable {α β : Type} {host : Host} {works works' : List Work}

/-- The host is short of nothing for any of the work. -/
def HasRoom (host : Host) (works : List Work) : Prop := ∀ w ∈ works, host.shortage? w = none

/-- What comes of a run that takes the room for some work and has a value then. -/
def outcome (host : Host) (works : List Work) (value : Except RenderFailure α) :
    Except RenderFailure α :=
  match works.findSome? host.shortage? with
  | some s => .error (.escaped (.short s))
  | none => value

theorem roomy_hasRoom (works : List Work) : roomy.HasRoom works := fun _ _ => rfl

/-- Where open calls are counted in copies only, a tree that is folded has to be within the room. -/
theorem ofRoom_hasRoom_iff {room : Nat} :
    (ofRoom room).HasRoom works ↔ ∀ t, .fold t ∈ works → t.copyCalls ≤ room := by
  constructor
  · intro hasRoom t mem
    simpa [ofRoom] using hasRoom _ mem
  · intro within work mem
    cases work with
    | fold t => simp [ofRoom, within t mem]
    | _ => rfl

theorem findSome?_eq_none_iff_hasRoom :
    works.findSome? host.shortage? = none ↔ host.HasRoom works :=
  List.findSome?_eq_none_iff

/-- Either there is room for all of the work, or there is a first shortage. -/
theorem hasRoom_or_short (host : Host) (works : List Work) :
    host.HasRoom works ∨ ∃ s, works.findSome? host.shortage? = some s := by
  rw [← findSome?_eq_none_iff_hasRoom]
  cases works.findSome? host.shortage? with
  | none => exact .inl rfl
  | some s => exact .inr ⟨s, rfl⟩

theorem outcome_of_hasRoom (room : host.HasRoom works) (value : Except RenderFailure α) :
    host.outcome works value = value := by
  rw [outcome, findSome?_eq_none_iff_hasRoom.2 room]

theorem outcome_of_short {s : Shortage} (short : works.findSome? host.shortage? = some s)
    (value : Except RenderFailure α) :
    host.outcome works value = .error (.escaped (.short s)) := by
  rw [outcome, short]

@[simp] theorem outcome_roomy (value : Except RenderFailure α) :
    roomy.outcome works value = value :=
  outcome_of_hasRoom (roomy_hasRoom works) value

theorem outcome_append (value : Except RenderFailure α) :
    host.outcome (works ++ works') value = host.outcome works (host.outcome works' value) := by
  unfold outcome
  rw [List.findSome?_append]
  cases works.findSome? host.shortage? <;> rfl

theorem outcome_cons (work : Work) (value : Except RenderFailure α) :
    host.outcome (work :: works) value = host.outcome [work] (host.outcome works value) :=
  @outcome_append _ _ [work] _ value

/-- Room that is taken twice is there both times or not at all. -/
theorem outcome_twice (value : Except RenderFailure α) :
    host.outcome works (host.outcome works value) = host.outcome works value := by
  unfold outcome
  cases works.findSome? host.shortage? <;> rfl

theorem outcome_bind (value : Except RenderFailure α) (next : α → Except RenderFailure β) :
    (host.outcome works value).bind next = host.outcome works (value.bind next) := by
  unfold outcome
  cases works.findSome? host.shortage? <;> rfl

@[simp] theorem outcome_ok_bind (a : α) (next : α → Except RenderFailure β) :
    (host.outcome works (.ok a)).bind next = host.outcome works (next a) :=
  outcome_bind (.ok a) next

/-- There is a result only with room for all of the work. -/
theorem outcome_eq_ok_iff {value : Except RenderFailure α} {a : α} :
    host.outcome works value = .ok a ↔ host.HasRoom works ∧ value = .ok a := by
  rcases host.hasRoom_or_short works with room | ⟨s, short⟩
  · simp [outcome_of_hasRoom room, room]
  · have none : ¬ host.HasRoom works := by
      rw [← findSome?_eq_none_iff_hasRoom, short]
      exact Option.some_ne_none s
    simp [outcome_of_short short, none]

/-- A source is rejected only with room for all of the work. -/
theorem outcome_eq_rejected_iff {value : Except RenderFailure α} {r : Rejection} :
    host.outcome works value = .error (.rejected r) ↔
      host.HasRoom works ∧ value = .error (.rejected r) := by
  rcases host.hasRoom_or_short works with room | ⟨s, short⟩
  · simp [outcome_of_hasRoom room, room]
  · have none : ¬ host.HasRoom works := by
      rw [← findSome?_eq_none_iff_hasRoom, short]
      exact Option.some_ne_none s
    simp [outcome_of_short short, none]

@[simp] theorem take_value (host : Host) (work : Work) :
    (host.take work).value = host.outcome [work] (.ok ()) := by
  simp only [take, outcome, List.findSome?_cons, List.findSome?_nil]
  cases host.shortage? work <;> rfl

end Host

@[simp] theorem Traced.andThen_value {α β : Type} (first : Traced (Except RenderFailure α))
    (next : α → Traced (Except RenderFailure β)) :
    (first.andThen next).value = first.value.bind fun a => (next a).value := by
  unfold andThen Except.bind
  cases first.value <;> rfl

/-! ## The work of the stages -/

/-- The work that the dump of a tree takes. -/
def DumpPlace.work (place : DumpPlace) (t : Tree) : List Work :=
  match place with
  | directory _ => [.write t true]
  | _ => []

/-- What is shown of a parsed source: its tree, folded if that is asked for and possible. -/
def Parsed.shown (p : Parsed) (fold : Bool) : Parsed :=
  let run := p.root.foldAll .standard
  if fold && run.failure.isNone then { p with root := run.result } else p

/-- The work that the tree of a parsed source takes behind the parse. -/
def Parsed.treeWork (p : Parsed) (options : RenderOptions) (place : DumpPlace) : List Work :=
  place.work p.root ++
    if options.fold then .fold p.root :: place.work (p.shown true).root else []

/-- A tree is folded only if that is asked for, and it is the parsed one. -/
theorem Parsed.fold_mem_treeWork {p : Parsed} {options : RenderOptions} {place : DumpPlace}
    {t : Tree} : .fold t ∈ p.treeWork options place ↔ options.fold = true ∧ t = p.root := by
  have unwritten : ∀ u, .fold t ∉ place.work u := by
    intro u
    cases place <;> simp [DumpPlace.work]
  unfold treeWork
  cases options.fold <;> simp [unwritten]

section Stages

variable (host : Host) {budget : Nat} {file source : String}

@[simp] theorem putStage_value (place : DumpPlace) (stage : Stage) (t : Tree) :
    (putStage place stage t).value = .ok () := by
  unfold putStage
  split <;> rfl

@[simp] theorem dumpStage_value (place : DumpPlace) (stage : Stage) (t : Tree) :
    (dumpStage host place stage t).value = host.outcome (place.work t) (.ok ()) := by
  cases place with
  | nowhere => rfl
  | occupied => exact putStage_value ..
  | directory taken =>
    simp only [dumpStage, Traced.andThen_value, Host.take_value, Host.outcome_bind, putStage_value,
      DumpPlace.work]
    rfl

theorem parseTraced_value :
    (parseTraced host budget file source).value = host.outcome [.parse budget source]
      (match parse budget file source with
        | .error (.rejected r) => .error (.rejected r)
        | .error (.violated v) => .error (.escaped (.violated v))
        | .ok p => .ok p) := by
  rw [parseTraced, Traced.andThen_value, Host.take_value, Host.outcome_bind]
  rcases parse budget file source with (r | v) | p <;> rfl

theorem parseTraced_of_rejection {r : Rejection}
    (failed : parse budget file source = .error (.rejected r)) :
    (parseTraced host budget file source).value =
      host.outcome [.parse budget source] (.error (.rejected r)) := by
  rw [parseTraced_value, failed]

theorem parseTraced_of_parse {q : Parsed} (parsed : parse budget file source = .ok q) :
    (parseTraced host budget file source).value = host.outcome [.parse budget source] (.ok q) := by
  rw [parseTraced_value, parsed]

/-- A sequence that cannot be folded leaves the tree as it is, if that is a fault of the source. -/
theorem foldTraced_value (p : Parsed)
    (ofSource : ∀ f, (p.root.foldAll .standard).failure = some f →
      ∃ e, f.error (some p.lineMap) = .ok e) :
    (foldTraced host p).value = host.outcome [.fold p.root] (.ok (p.shown true)) := by
  rw [foldTraced, Traced.andThen_value, Host.take_value, Host.outcome_bind]
  refine congrArg _ ?_
  rcases failure : (p.root.foldAll .standard).failure with _ | f
  · simp [Except.bind, failure, Parsed.shown]
  · obtain ⟨e, told⟩ := ofSource f failure
    simp [Except.bind, failure, told, Parsed.shown]

/-- A tree that folding gives is the one that is shown. -/
theorem shown_of_foldTraced {p q : Parsed} (folded : (foldTraced host q).value = .ok p) :
    p = q.shown true := by
  rw [foldTraced, Traced.andThen_value, Host.take_value, Host.outcome_bind,
    Host.outcome_eq_ok_iff] at folded
  obtain ⟨_, folded⟩ := folded
  rcases failure : (q.root.foldAll .standard).failure with _ | f
  · simp only [Except.bind, failure, Except.ok.injEq] at folded
    rw [← folded, Parsed.shown]
    simp [failure]
  · simp only [Except.bind, failure] at folded
    split at folded
    · rw [← Except.ok.inj folded, Parsed.shown]
      simp [failure]
    · cases folded

/-! ## The tree of a source -/

variable (options : RenderOptions) (place : DumpPlace)

theorem treeTraced_of_rejection {r : Rejection}
    (failed : parse budget file source = .error (.rejected r)) :
    (treeTraced host budget options place file source).value =
      host.outcome [.parse budget source] (.error (.rejected r)) := by
  rw [treeTraced, Traced.andThen_value, parseTraced_of_rejection host failed, Host.outcome_bind]
  rfl

/-- The tree of a source is what is shown of it, if there is room for the work. -/
theorem treeTraced_value {q : Parsed} (parsed : parse budget file source = .ok q)
    (ofSource : ∀ f, (q.root.foldAll .standard).failure = some f →
      ∃ e, f.error (some q.lineMap) = .ok e) :
    (treeTraced host budget options place file source).value =
      host.outcome (.parse budget source :: q.treeWork options place)
        (.ok (q.shown options.fold)) := by
  have folds := foldTraced_value host q ofSource
  rw [treeTraced, Host.outcome_cons, Parsed.treeWork, Host.outcome_append]
  simp only [Traced.andThen_value, parseTraced_of_parse host parsed, Host.outcome_ok_bind,
    dumpStage_value]
  cases options.fold with
  | false => rfl
  | true =>
    simp only [if_true, Traced.andThen_value, folds, Host.outcome_ok_bind, dumpStage_value]
    exact congrArg _ (congrArg _ (Host.outcome_cons ..).symm)

/-- A tree that the stages give is what is shown of the parsed source. -/
theorem shown_of_treeTraced {p : Parsed}
    (produced : (treeTraced host budget options place file source).value = .ok p) :
    ∃ q, parse budget file source = .ok q ∧ p = q.shown options.fold := by
  rw [treeTraced, Traced.andThen_value, parseTraced_value, Host.outcome_bind,
    Host.outcome_eq_ok_iff] at produced
  obtain ⟨_, produced⟩ := produced
  rcases parsed : parse budget file source with (r | v) | q
  · simp [parsed, Except.bind] at produced
  · simp [parsed, Except.bind] at produced
  refine ⟨q, rfl, ?_⟩
  rw [parsed] at produced
  change ((dumpStage host place .parsed q.root).andThen _).value = .ok p at produced
  rw [Traced.andThen_value, dumpStage_value, Host.outcome_ok_bind, Host.outcome_eq_ok_iff]
    at produced
  obtain ⟨_, produced⟩ := produced
  cases fold : options.fold with
  | false =>
    rw [fold] at produced
    exact (Except.ok.inj produced).symm
  | true =>
    rw [if_pos fold, Traced.andThen_value] at produced
    rcases folds : (foldTraced host q).value with e | folded
    · rw [folds] at produced
      cases produced
    · rw [folds] at produced
      change ((dumpStage host place .folded folded.root).andThen _).value = .ok p at produced
      rw [Traced.andThen_value, dumpStage_value, Host.outcome_ok_bind, Host.outcome_eq_ok_iff]
        at produced
      rw [← Except.ok.inj produced.2]
      exact shown_of_foldTraced host folds

end Stages

end SyntaxAtlas
