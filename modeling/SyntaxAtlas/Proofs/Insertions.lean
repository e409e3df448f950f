-- The missing tokens of a tree. Each stands in front of the token that it was put in
-- for, and only in front of the end of the file several stand side by side, with one
-- identifier among them at most.

import SyntaxAtlas.Proofs.Positions

namespace SyntaxAtlas

open Recovery (Reached Situation Step Finishes)

/-! ## The shape of repaired tokens -/

/-- A missing token that stands for an identifier. -/
def Token.isMissingName (t : Token) : Bool := t.isMissing && t.terminal == .identifier

/-- Missing tokens and the end of the file behind them. Up to `n` of them stand for
identifiers. -/
inductive Closing : Nat → List Token → Prop
  | endOfFile {n : Nat} {e : Token} (isPresent : e.isMissing = false)
      (last : e.terminal = .endOfFile) : Closing n [e]
  | other {n : Nat} {m : Token} {ts : List Token} (isMissing : m.isMissing = true)
      (noName : m.terminal ≠ .identifier) (rest : Closing n ts) : Closing n (m :: ts)
  | name {n : Nat} {m : Token} {ts : List Token} (isMissing : m.isMissing = true)
      (rest : Closing n ts) : Closing (n + 1) (m :: ts)

/-- Tokens up to the end of a file. A missing one stands in front of a written one that
has a width, or among the last ones. -/
inductive Repaired : List Token → Prop
  | closing {ts : List Token} (closing : Closing 1 ts) : Repaired ts
  | written {t : Token} {ts : List Token} (isPresent : t.isMissing = false)
      (rest : Repaired ts) : Repaired (t :: ts)
  | inserted {m t : Token} {ts : List Token} (isMissing : m.isMissing = true)
      (isPresent : t.isMissing = false) (wide : t.text ≠ "") (rest : Repaired ts) :
      Repaired (m :: t :: ts)

theorem Repaired.append_written {us ts : List Token} (isPresent : ∀ u ∈ us, u.isMissing = false)
    (rest : Repaired ts) : Repaired (us ++ ts) := by
  induction us with
  | nil => exact rest
  | cons u us ih =>
    apply Repaired.written (isPresent u List.mem_cons_self)
    exact ih fun v hv => isPresent v (List.mem_cons_of_mem u hv)

/-- Two tokens that agree on what the shape depends on. -/
structure Token.Alike (t u : Token) : Prop where
  terminal : u.terminal = t.terminal
  text : u.text = t.text
  presence : u.presence = t.presence

theorem Token.Alike.isMissing {t u : Token} (alike : t.Alike u) : u.isMissing = t.isMissing := by
  rw [Token.isMissing, alike.presence, Token.isMissing]

theorem Closing.congr {n : Nat} {ts us : List Token} (h : Closing n ts)
    (alike : List.Forall₂ Token.Alike ts us) : Closing n us := by
  induction h generalizing us with
  | endOfFile isPresent last =>
    obtain _ | ⟨here, _ | _⟩ := alike
    exact .endOfFile (here.isMissing.trans isPresent) (here.terminal.trans last)
  | other isMissing noName _ ih =>
    obtain _ | ⟨here, others⟩ := alike
    exact .other (here.isMissing.trans isMissing) (here.terminal ▸ noName) (ih others)
  | name isMissing _ ih =>
    obtain _ | ⟨here, others⟩ := alike
    exact .name (here.isMissing.trans isMissing) (ih others)

theorem Repaired.congr {ts us : List Token} (h : Repaired ts)
    (alike : List.Forall₂ Token.Alike ts us) : Repaired us := by
  induction h generalizing us with
  | closing closing => exact .closing (closing.congr alike)
  | written isPresent _ ih =>
    obtain _ | ⟨here, others⟩ := alike
    exact .written (here.isMissing.trans isPresent) (ih others)
  | inserted isMissing isPresent wide _ ih =>
    obtain _ | ⟨here, _ | ⟨next, others⟩⟩ := alike
    exact .inserted (here.isMissing.trans isMissing) (next.isMissing.trans isPresent)
      (next.text ▸ wide) (ih others)

/-! ## What the shape says -/

theorem Closing.mono {n m : Nat} {ts : List Token} (h : Closing n ts) (le : n ≤ m) :
    Closing m ts := by
  induction h generalizing m with
  | endOfFile isPresent last => exact .endOfFile isPresent last
  | other isMissing noName _ ih => exact .other isMissing noName (ih le)
  | name isMissing _ ih =>
    obtain ⟨k, rfl⟩ := Nat.exists_eq_add_of_le' le
    exact .name isMissing (ih (Nat.le_add_left _ _))

/-- What closes a file is a run of missing tokens and the end of the file. -/
theorem Closing.run {n : Nat} {ts : List Token} (h : Closing n ts) :
    ∃ run e, ts = run ++ [e] ∧ (∀ m ∈ run, m.isMissing = true) ∧
      run.countP Token.isMissingName ≤ n ∧ e.isMissing = false ∧ e.terminal = .endOfFile := by
  induction h with
  | @endOfFile n e isPresent last => exact ⟨[], e, rfl, by simp, Nat.zero_le n, isPresent, last⟩
  | @other n m ts isMissing noName _ ih =>
    obtain ⟨run, e, rfl, missing, names, isPresent, last⟩ := ih
    refine ⟨m :: run, e, rfl, by simpa using ⟨isMissing, missing⟩, ?_, isPresent, last⟩
    rw [List.countP_cons_of_neg (by simp [Token.isMissingName, noName])]
    exact names
  | @name n m ts isMissing _ ih =>
    obtain ⟨run, e, rfl, missing, names, isPresent, last⟩ := ih
    refine ⟨m :: run, e, rfl, by simpa using ⟨isMissing, missing⟩, ?_, isPresent, last⟩
    rw [List.countP_cons]
    split
    · exact Nat.succ_le_succ names
    · exact Nat.le_succ_of_le names

theorem concat_eq_append {α : Type} {as before after : List α} {a b : α}
    (h : as ++ [a] = before ++ b :: after) : b = a ∧ after = [] ∨
      ∃ after', after = after' ++ [a] ∧ as = before ++ b :: after' := by
  rcases List.eq_nil_or_concat after with rfl | ⟨after', c, concat⟩
  · obtain ⟨_, same⟩ := List.append_inj' h rfl
    exact .inl ⟨(List.singleton_inj.1 same).symm, rfl⟩
  · have h' : as ++ [a] = (before ++ b :: after') ++ [c] := by simpa [concat] using h
    obtain ⟨front, same⟩ := List.append_inj' h' rfl
    rw [List.singleton_inj.1 same]
    exact .inr ⟨after', by simpa using concat, front⟩

/-- Behind two missing tokens side by side there are only missing ones up to the end of
the file. -/
theorem Repaired.adjacent {tokens : List Token} (h : Repaired tokens) {before after : List Token}
    {t u : Token} (split : tokens = before ++ t :: u :: after) (left : t.isMissing = true)
    (right : u.isMissing = true) :
    ∃ run e, after = run ++ [e] ∧ (∀ m ∈ run, m.isMissing = true) ∧ e.isMissing = false ∧
      e.terminal = .endOfFile := by
  induction h generalizing before with
  | closing closing =>
    obtain ⟨run, e, rfl, missing, _, isPresent, last⟩ := closing.run
    have split' : run ++ [e] = (before ++ [t]) ++ u :: after := by simpa using split
    rcases concat_eq_append split' with ⟨rfl, _⟩ | ⟨behind, rfl, rfl⟩
    · rw [isPresent] at right
      cases right
    · exact ⟨behind, e, rfl, fun m hm => missing m (by simp [hm]), isPresent, last⟩
  | written isPresent _ ih =>
    rcases before with _ | ⟨b, before⟩
    · obtain ⟨rfl, _⟩ := List.cons.inj split
      rw [isPresent] at left
      cases left
    · exact ih (List.cons.inj split).2
  | inserted isMissing isPresent _ _ ih =>
    rcases before with _ | ⟨b, _ | ⟨c, before⟩⟩
    · obtain ⟨_, others⟩ := List.cons.inj split
      obtain ⟨rfl, _⟩ := List.cons.inj others
      rw [isPresent] at right
      cases right
    · obtain ⟨_, others⟩ := List.cons.inj split
      obtain ⟨rfl, _⟩ := List.cons.inj others
      rw [isPresent] at left
      cases left
    · exact ih (List.cons.inj (List.cons.inj split).2).2

/-- No run of missing tokens starts at a written one. -/
theorem run_eq_nil {t : Token} {ts run after : List Token} (isPresent : t.isMissing = false)
    (split : t :: ts = run ++ after) (missing : ∀ m ∈ run, m.isMissing = true) : run = [] := by
  rcases run with _ | ⟨m, run⟩
  · rfl
  · obtain ⟨rfl, _⟩ := List.cons.inj split
    rw [missing t List.mem_cons_self] at isPresent
    cases isPresent

/-- A run of missing tokens has at most one identifier. -/
theorem Repaired.oneName {tokens : List Token} (h : Repaired tokens) {before run after : List Token}
    (split : tokens = before ++ run ++ after) (missing : ∀ m ∈ run, m.isMissing = true) :
    run.countP Token.isMissingName ≤ 1 := by
  induction h generalizing before run with
  | closing closing =>
    obtain ⟨all, e, rfl, _, names, isPresent, _⟩ := closing.run
    have inside : run.Sublist (all ++ [e]) := by
      rw [split, List.append_assoc]
      exact (List.sublist_append_left run after).trans (List.sublist_append_right before _)
    have count := inside.countP_le (p := Token.isMissingName)
    have none : [e].countP Token.isMissingName = 0 := by simp [Token.isMissingName, isPresent]
    rw [List.countP_append, none] at count
    exact Nat.le_trans count names
  | written isPresent _ ih =>
    rcases before with _ | ⟨b, before⟩
    · rw [List.nil_append] at split
      rw [run_eq_nil isPresent split missing]
      exact Nat.zero_le 1
    · exact ih (List.cons.inj split).2 missing
  | inserted isMissing isPresent _ _ ih =>
    rcases before with _ | ⟨b, _ | ⟨c, before⟩⟩
    · rcases run with _ | ⟨m, run⟩
      · exact Nat.zero_le 1
      · have others : ∀ v ∈ run, v.isMissing = true :=
          fun v hv => missing v (List.mem_cons_of_mem m hv)
        rw [run_eq_nil isPresent (List.cons.inj split).2 others]
        exact List.countP_le_length
    · rw [List.singleton_append, List.cons_append] at split
      rw [run_eq_nil isPresent (List.cons.inj split).2 missing]
      exact Nat.zero_le 1
    · exact ih (List.cons.inj (List.cons.inj split).2).2 missing

/-- A token that the source writes with a width ends behind its start. -/
theorem Token.position_lt_endPosition {t : Token} (isPresent : t.isMissing = false)
    (wide : t.text ≠ "") : t.position < t.endPosition := by
  have bytes : 0 < Text.byteLength t.text.toList := by
    rcases same : t.text.toList with _ | ⟨c, cs⟩
    · exact absurd (String.toList_inj.1 same) wide
    · rw [Text.byteLength_cons]
      exact Nat.add_pos_left c.utf8Size_pos _
  rw [endPosition, if_neg (by simp [isPresent])]
  omega

/-- Missing identifiers stand one behind the other. -/
theorem Repaired.names_apart {tokens : List Token} (h : Repaired tokens)
    (ordered : tokens.Pairwise fun t u => t.endPosition ≤ u.position) :
    (tokens.filter Token.isMissingName).Pairwise fun t u => t.position < u.position := by
  induction h with
  | closing closing =>
    obtain ⟨run, e, rfl, _, names, isPresent, _⟩ := closing.run
    have none : [e].filter Token.isMissingName = [] := by simp [Token.isMissingName, isPresent]
    rw [List.countP_eq_length_filter] at names
    rw [List.filter_append, none, List.append_nil]
    generalize run.filter Token.isMissingName = found at names
    rcases found with _ | ⟨t, _ | ⟨u, rest⟩⟩
    · exact .nil
    · exact List.pairwise_singleton _ t
    · exact absurd names (by simp)
  | @written t ts isPresent _ ih =>
    rw [List.filter_cons_of_neg (by simp [Token.isMissingName, isPresent])]
    exact ih (List.pairwise_cons.1 ordered).2
  | @inserted m t ts isMissing isPresent wide _ ih =>
    obtain ⟨behind, ordered⟩ := List.pairwise_cons.1 ordered
    obtain ⟨after, ordered⟩ := List.pairwise_cons.1 ordered
    have rest := ih ordered
    have here : (t :: ts).filter Token.isMissingName = ts.filter Token.isMissingName :=
      List.filter_cons_of_neg (by simp [Token.isMissingName, isPresent])
    rw [List.filter_cons, here]
    split
    · refine List.pairwise_cons.2 ⟨fun u hu => ?_, rest⟩
      calc m.position = m.endPosition := (Token.endPosition_missing isMissing).symm
        _ ≤ t.position := behind t List.mem_cons_self
        _ < t.endPosition := Token.position_lt_endPosition isPresent wide
        _ ≤ u.position := after u (List.mem_filter.1 hu).1
    · exact rest

/-! ## The tokens of a run -/

/-- A token of a leaf that is missing stands for a leaf that was put in. -/
theorem Leaf.eq_missing {l : Leaf} {t : Token} (ht : t ∈ l.tokens) (isMissing : t.isMissing = true) :
    ∃ u, l = .inserted u ∧ t = .missing u := by
  rcases Leaf.mem_tokens ht with rfl | ⟨isPresent, _⟩
  · cases l with
    | read terminal text start => cases isMissing
    | inserted terminal => exact ⟨terminal, rfl, rfl⟩
  · rw [isPresent] at isMissing
    cases isMissing

/-- What is scanned gives written tokens, the first one with a width. -/
theorem Lexeme.Scans.tokens_written {w : Lexeme.Wanted} {source : List Char} {l : Lexeme}
    {after : Lexeme.Cursor} (scans : Lexeme.Scans w source l after) :
    ∃ t ts, (Recovery.leaf l).tokens = t :: ts ∧ t.text ≠ "" ∧
      ∀ u ∈ t :: ts, u.isMissing = false := by
  by_cases isString : l.terminal = .string
  · have quote : ("\"" : String) ≠ "" := by decide
    refine ⟨_, _, (scans.string_tokens isString).1, quote, ?_⟩
    simp [Token.ofText, Token.isMissing]
  · refine ⟨_, [], if_neg isString, ?_, by simp [Recovery.leaf, Leaf.token, Token.ofText,
      Token.isMissing]⟩
    obtain ⟨n, _, spelled, _⟩ := scans.scanned
    intro empty
    have none : l.text.toList = [] := congrArg String.toList empty
    rw [spelled, String.toList_ofList, List.take_eq_nil_iff] at none
    exact scans.nonempty (none.resolve_left (Nat.succ_ne_zero n))

theorem Repaired.lexeme {w : Lexeme.Wanted} {source : List Char} {l : Lexeme}
    {after : Lexeme.Cursor} (scans : Lexeme.Scans w source l after) {ts : List Token}
    (rest : Repaired ts) : Repaired ((Recovery.leaf l).tokens ++ ts) := by
  obtain ⟨u, us, tokens, _, isPresent⟩ := scans.tokens_written
  rw [tokens]
  exact rest.append_written isPresent

theorem Repaired.missing_lexeme {w : Lexeme.Wanted} {source : List Char} {l : Lexeme}
    {after : Lexeme.Cursor} (scans : Lexeme.Scans w source l after) (t : Terminal)
    {ts : List Token} (rest : Repaired ts) :
    Repaired (.missing t :: ((Recovery.leaf l).tokens ++ ts)) := by
  obtain ⟨u, us, tokens, wide, isPresent⟩ := scans.tokens_written
  rw [tokens, List.cons_append]
  apply Repaired.inserted rfl (isPresent u List.mem_cons_self) wide
  exact rest.append_written fun v hv => isPresent v (List.mem_cons_of_mem u hv)

/-- The tokens on the stack of a run go with any repaired ones behind them. -/
def RepairedStack (stack : Stack) : Prop :=
  ∀ ts, Repaired ts → Repaired ((Stack.yield stack).flatMap Leaf.tokens ++ ts)

/-- One step keeps the shape: what it puts in stands in front of what it reads. -/
theorem RepairedStack.step {a : Automaton} (sound : a.Sound) {budget : Nat} {source : List Char}
    {x y : Situation} (reached : Reached a budget source x) (shape : RepairedStack x.stack)
    (step : Step a x y) : RepairedStack y.stack := by
  have kept := reached.kept sound
  cases step with
  | @shifted l after stack read fed =>
    obtain ⟨_, same⟩ := kept.valid.shifted sound fed
    obtain ⟨w, _, _, scans⟩ := reached.scans sound ⟨after, .inl read⟩
    intro ts rest
    have behind := shape _ (rest.lexeme scans)
    simpa [same] using behind
  | @inserted l after mid stack t left unfit paid found =>
    obtain ⟨valid, same, _⟩ := kept.unfit sound unfit
    obtain ⟨candidate, _, same'⟩ := Recovery.valid_of_insertBefore sound valid found
    obtain ⟨w, _, scans⟩ := (unfit.readIn reached).scans sound
    have missing := Leaf.tokens_inserted (Recovery.insertable_of_mem_candidates candidate)
    intro ts rest
    have behind := shape _ (rest.missing_lexeme scans t)
    simpa [same, same', missing] using behind
  | @dropped l after mid left unfit paid none =>
    obtain ⟨_, same, _⟩ := kept.unfit sound unfit
    intro ts rest
    rw [same]
    exact shape ts rest
  | skipped _ _ => exact shape

theorem RepairedStack.of_reached {a : Automaton} (sound : a.Sound) {budget : Nat}
    {source : List Char} {x : Situation} (reached : Reached a budget source x) :
    RepairedStack x.stack := by
  induction reached with
  | start => exact fun ts rest => rest
  | step before step ih => exact ih.step sound before step

/-- At the end of the input an identifier is put in once, if none was put in there before. -/
theorem Recovery.Finishes.closing {a : Automaton} (sound : a.Sound) {size : Nat} {stack : Stack}
    {s s' : Session} {tree : ParseTree} (valid : Stack.Valid a stack)
    (finishes : Finishes a size stack s tree s') :
    ∃ ts, Closing (if size ∈ s.named then 0 else 1) ts ∧
      tree.yield.flatMap Leaf.tokens ++ [.endOfFile] =
        (Stack.yield stack).flatMap Leaf.tokens ++ ts := by
  induction finishes with
  | accepted fed =>
    obtain ⟨_, _, same⟩ := valid.accepted sound fed
    exact ⟨_, .endOfFile rfl rfl, by rw [same]⟩
  | reduced fed _ ih =>
    obtain ⟨valid', same⟩ := valid.stuck sound fed
    rw [← same]
    exact ih valid'
  | @inserted stack next s s' tree t left _ _ found _ ih =>
    obtain ⟨candidate, valid', same⟩ := Recovery.valid_of_insertOn sound valid found
    obtain ⟨ts, closing, tokens⟩ := ih valid'
    have missing := Leaf.tokens_inserted (Recovery.insertable_of_mem_candidates candidate)
    refine ⟨.missing t :: ts, ?_, by simpa [same, missing] using tokens⟩
    by_cases isName : t = .identifier
    · have unnamed : size ∉ s.named := by
        have allowed := (List.mem_filter.1 candidate).2
        simpa [isName] using allowed
      rw [if_neg unnamed]
      rw [if_pos (by simp [Session.insert, isName])] at closing
      exact .name rfl closing
    · have named : ({ s with left }.insert t .endOfInput size).named = s.named := if_neg isName
      rw [named] at closing
      exact .other rfl isName closing

/-! ## Attached trivia -/

/-- A token without trivia. -/
def Token.IsBare (t : Token) : Prop := t.leading = [] ∧ t.trailing = []

theorem bare_moved {ts : List Token} (bare : ∀ m ∈ ts, m.IsBare) (position : Int) :
    ∀ u ∈ ts.map (fun m => { m with position }), u.IsBare := by
  intro u hu
  obtain ⟨m, hm, rfl⟩ := List.mem_map.1 hu
  exact bare m hm

theorem not_missing_trailed {previous : Option Token}
    (isPresent : ∀ p ∈ previous, p.isMissing = false) (trailing : List TriviaPiece) :
    ∀ u ∈ (previous.map fun p => { p with trailing }).toList, u.isMissing = false := by
  intro u hu
  obtain ⟨p, hp, rfl⟩ := Option.map_eq_some_iff.1 (Option.mem_toList.1 hu)
  exact isPresent p hp

/-- Attaching gives trivia to written tokens only. -/
theorem bare_attachFrom {source : List Char} {cut : Cutter} {previous : Option Token}
    {pending ts : List Token} {consumed : Int} (isPresent : ∀ p ∈ previous, p.isMissing = false)
    (waiting : ∀ m ∈ pending, m.IsBare) (bare : ∀ t ∈ ts, t.isMissing = true → t.IsBare) :
    ∀ u ∈ Token.attachFrom source cut previous pending consumed ts,
      u.isMissing = true → u.IsBare := by
  induction ts generalizing previous pending consumed with
  | nil =>
    intro u hu isMissing
    rw [Token.attachFrom] at hu
    rcases List.mem_append.1 hu with hu | hu
    · rw [isPresent u (Option.mem_toList.1 hu)] at isMissing
      cases isMissing
    · exact bare_moved waiting _ u hu
  | cons t ts ih =>
    have others : ∀ v ∈ ts, v.isMissing = true → v.IsBare :=
      fun v hv => bare v (List.mem_cons_of_mem t hv)
    by_cases here : t.isMissing = true
    · rw [attachFrom_missing here]
      exact ih isPresent (List.forall_mem_append.2
        ⟨waiting, List.forall_mem_singleton.2 (bare t List.mem_cons_self here)⟩) others
    · intro u hu isMissing
      rw [Token.attachFrom, if_neg here] at hu
      rcases List.mem_append.1 hu with hu | hu
      · rcases List.mem_append.1 hu with hu | hu
        · rw [not_missing_trailed isPresent _ u hu] at isMissing
          cases isMissing
        · exact bare_moved waiting _ u hu
      · refine ih ?_ (by simp) others u hu isMissing
        rintro p ⟨⟩
        exact Bool.eq_false_iff.2 here

/-! ## The tokens of a source -/

/-- What the missing tokens of a parsed source are like, one by one. -/
theorem parse_missing {budget : Nat} {file source : String} {p : Parsed}
    (parsed : parse budget file source = .ok p) :
    ∀ t ∈ p.root.tokens, t.isMissing = true →
      t.terminal ∈ Recovery.insertable ∧ t.text = t.terminal.canonicalText ∧ t.IsBare := by
  obtain ⟨tree, s, root, accepted, built, tokens⟩ := parse_tokens parsed
  obtain ⟨_, _, _, ordered⟩ := Recovery.parse_ordered Automaton.ofGrammar_sound accepted
  have leaves := leaves_of_toTree Automaton.ofGrammar_sound accepted built
  have put : ∀ t ∈ root.tokens, t.isMissing = true →
      ∃ u ∈ Recovery.insertable, t.plain = .missing u := by
    intro t ht isMissing
    have plain : t.plain ∈ root.tokens.map Token.plain := List.mem_map_of_mem ht
    rw [leaves, List.mem_append, List.mem_flatMap] at plain
    rcases plain with ⟨l, hl, ht'⟩ | last
    · obtain ⟨u, rfl, same⟩ := Leaf.eq_missing ht' isMissing
      exact ⟨u, ordered.mem_inserted u hl, same⟩
    · have last := List.mem_singleton.1 last
      have missing : t.plain.isMissing = true := isMissing
      rw [last] at missing
      cases missing
  rw [tokens]
  intro u hu isMissing
  obtain ⟨t, ht, attached⟩ := exists_of_forall₂ (attach_attached _ _ root.tokens) u hu
  obtain ⟨v, insertable, plain⟩ := put t ht (attached.isMissing.symm.trans isMissing)
  have terminal : t.terminal = v := congrArg Token.terminal plain
  have text : t.text = v.canonicalText := congrArg Token.text plain
  refine ⟨?_, ?_, ?_⟩
  · rw [attached.terminal, terminal]
    exact insertable
  · rw [attached.text, attached.terminal, terminal, text]
  · refine bare_attachFrom (by simp) (by simp) ?_ u hu isMissing
    intro w hw isMissing'
    obtain ⟨v', _, plain'⟩ := put w hw isMissing'
    exact ⟨congrArg Token.leading plain', congrArg Token.trailing plain'⟩

/-- The tokens of a parsed source have the shape of repaired tokens. -/
theorem parse_repaired {budget : Nat} {file source : String} {p : Parsed}
    (parsed : parse budget file source = .ok p) : Repaired p.root.tokens := by
  obtain ⟨tree, s, root, accepted, built, tokens⟩ := parse_tokens parsed
  have leaves := leaves_of_toTree Automaton.ofGrammar_sound accepted built
  obtain ⟨x, reached, _, finishes⟩ := Recovery.parse_runs Automaton.ofGrammar_sound accepted
  have kept := reached.kept Automaton.ofGrammar_sound
  obtain ⟨ts, closing, same⟩ := finishes.closing Automaton.ofGrammar_sound kept.valid
  have last : Repaired ts := by
    apply Repaired.closing
    split at closing
    · exact closing.mono (Nat.zero_le 1)
    · exact closing
  have whole := RepairedStack.of_reached Automaton.ofGrammar_sound reached ts last
  rw [← same, ← leaves] at whole
  apply whole.congr
  rw [tokens, List.forall₂_map_left_iff]
  exact (attach_attached _ _ _).imp fun t u attached =>
    ⟨attached.terminal, attached.text, attached.presence⟩

/-- What recovery puts into tokens. -/
structure InsertionShape (tokens : List Token) : Prop where
  /-- A missing token stands for a terminal that may be put in, with its canonical text and
  without trivia. -/
  made : ∀ t ∈ tokens, t.isMissing = true →
    t.terminal ∈ Recovery.insertable ∧ t.text = t.terminal.canonicalText ∧ t.IsBare
  /-- Two missing tokens side by side are in the run in front of the end of the file. -/
  adjacent : ∀ before t u after, tokens = before ++ t :: u :: after →
    t.isMissing = true → u.isMissing = true →
    ∃ run e, after = run ++ [e] ∧ (∀ m ∈ run, m.isMissing = true) ∧ e.isMissing = false ∧
      e.terminal = .endOfFile
  /-- A run of missing tokens has one identifier at most. -/
  oneName : ∀ before run after, tokens = before ++ run ++ after →
    (∀ m ∈ run, m.isMissing = true) → run.countP Token.isMissingName ≤ 1
  /-- Missing identifiers stand in different places. -/
  apart : (tokens.filter Token.isMissingName).Pairwise fun t u => t.position < u.position

/-- Missing tokens stand alone, in front of what they were put in for, and side by side only
at the end of the file. No two identifiers are put in at one place. -/
theorem parse_insertions {budget : Nat} {file source : String} {p : Parsed}
    (parsed : parse budget file source = .ok p) : InsertionShape p.root.tokens := by
  have shape := parse_repaired parsed
  constructor
  · exact parse_missing parsed
  · intro before t u after split left right
    exact shape.adjacent split left right
  · intro before run after split missing
    exact shape.oneName split missing
  · exact shape.names_apart (parse_placed parsed).ordered

/-- Repairs in the middle of a source and at its end. -/
theorem parse_insertions_of_repaired : ∃ p,
    parse 3 standardFile "x = \"é\" $+ (b ] * c" = .ok p ∧ p.recoveries = 3 ∧
      InsertionShape p.root.tokens := by
  obtain ⟨p, parsed, repairs⟩ := exists_ok_of_toOption sample_parses.2.2.2.1
  exact ⟨p, parsed, congrArg Prod.fst repairs, parse_insertions parsed⟩

end SyntaxAtlas
