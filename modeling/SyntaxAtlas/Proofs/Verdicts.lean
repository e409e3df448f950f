-- What the command line answers to a source on the standard input. There are three verdicts: the
-- bytes are no text, the text is rejected, or it is rendered. Exactly one of them is given, unless
-- the host is short of something for the work, or the indentation is too large for a text. Nothing
-- else comes up on the way: no tree is outside of the catalog, and a sequence that cannot be folded
-- stays as it is.

import SyntaxAtlas.CommandLine
import SyntaxAtlas.Proofs.Decoding
import SyntaxAtlas.Proofs.Dump
import SyntaxAtlas.Proofs.Interchange
import SyntaxAtlas.Proofs.Options

namespace SyntaxAtlas

/-! ## Lines that tell of an error -/

namespace CommandLine

/-- A text is one line, without control characters, and says an object whose only member is an
error with a message. -/
def TellsError (output message : String) : Prop :=
  ∃ line, output = line ++ "\n" ∧ (∀ c ∈ line.toList, 0x20 ≤ c.toNat) ∧
    ∀ w, JsonText.Says line.toList w ↔ w = .object [("error", .text message)]

theorem layout_loose_spaced : JsonValue.Layout.Loose .spaced :=
  ⟨⟨[' '], by decide, by decide⟩, ⟨[' '], by decide, by decide⟩⟩

theorem tellsError_errorLine (message : String) : TellsError (errorLine message) message := by
  have said : JsonText.Says ((JsonValue.object [("error", .text message)]).write .spaced 0).toList
      (.object [("error", .text message)]) := by
    have read := JsonValue.write_denotes layout_loose_spaced
      (.object [("error", .text message)]) 0 []
    rw [List.append_nil] at read
    exact ⟨_, _, .refl _, read, .refl []⟩
  have written : (JsonValue.object [("error", .text message)]).write .spaced 0 =
      "\x7b" ++ (Text.jsonQuoted "error" ++ ": " ++ Text.jsonQuoted message) ++ "\x7d" := by
    simp [JsonValue.write, JsonValue.writeFields, JsonValue.Layout.enclose,
      JsonValue.Layout.newline, JsonValue.Layout.spaced]
  refine ⟨_, rfl, ?_, fun w => ⟨fun other => other.unique said, ?_⟩⟩
  · have quoted := JsonValue.visible_jsonQuoted
    have visible : JsonValue.Visible
        ("\x7b" ++ (Text.jsonQuoted "error" ++ ": " ++ Text.jsonQuoted message) ++ "\x7d") := by
      apply JsonValue.Visible.append _ (by decide)
      apply JsonValue.Visible.append (by decide)
      exact ((quoted _).append (by decide)).append (quoted _)
    intro c mem
    rw [written] at mem
    simpa [JsonValue.isVisible] using List.all_eq_true.1 visible c mem
  · rintro rfl
    exact said

/-! ## What is printed -/

/-- What is printed of a parsed source: its records as JSON, or its tree as an S-expression. -/
def Prints (args : Arguments) (p : Parsed) (text : String) : Prop :=
  match args.format with
  | .json => ∃ rs, (p.shown !args.noFold).root.records p.lineMap args.showMissing = .ok rs ∧
      text = encodeRecords rs args.indent
  | .sexpr => (p.shown !args.noFold).root.sexpr false true = .ok text

/-- The work that printing a source takes. A source that is rejected takes no more than its
parse. -/
def printWork (args : Arguments) (place : DumpPlace) (file source : String) : List Work :=
  .parse standardBudget source ::
    match parse standardBudget file source with
    | .error _ => []
    | .ok p => p.treeWork args.options place ++
      match args.format with
      | .sexpr => [.write (p.shown args.options.fold).root false]
      | .json => .list (p.shown args.options.fold).root ::
        match (p.shown args.options.fold).root.records (.ofSource source file) args.showMissing with
        | .error _ => []
        | .ok rs => [.encode rs args.indent]

/-- The indentation fits a text, where there is one. -/
def Arguments.isWritable (args : Arguments) : Bool :=
  match args.format with
  | .json => args.indent.all isSize
  | .sexpr => true

theorem encodeTraced_value (host : Host) (records : List Record) (indent : Option Int) :
    (encodeTraced host records indent).value = host.outcome [.encode records indent]
      (if indent.all isSize then .ok (encodeRecords records indent)
        else .error (.escaped .oversized)) := by
  rw [encodeTraced, Traced.andThen_value, Host.take_value, Host.outcome_ok_bind]
  split <;> rfl

/-- A source that parses is printed, if there is room for the work and the indentation fits. -/
theorem produce_of_parse {file source : String} {p : Parsed}
    (parsed : parse standardBudget file source = .ok p) (args : Arguments) (place : DumpPlace) :
    ∃ text, Prints args p text ∧ ∀ host : Host, (produce host args place file source).value =
      host.outcome (printWork args place file source)
        (if args.isWritable then .ok text else .error (.escaped .oversized)) := by
  obtain ⟨_, _, fits, _⟩ := shown_settled parsed args.options.fold
  unfold produce Prints printWork Arguments.isWritable
  simp only [parsed]
  cases args.format with
  | json =>
    obtain ⟨rs, made, _⟩ := Tree.records_describe fits (.ofSource source file) args.showMissing
    refine ⟨_, ⟨rs, parse_lineMap parsed ▸ made, rfl⟩, fun host => ?_⟩
    rw [Traced.andThen_value, recordsTraced_of_parse host parsed args.options place made,
      Host.outcome_ok_bind, encodeTraced_value, ← Host.outcome_append]
    simp only [made, List.cons_append, List.append_assoc, List.nil_append]
  | sexpr =>
    refine ⟨_, Tree.sexpr_of_isKnown (Tree.isKnown_of_fits fits) false true, fun host => ?_⟩
    rw [Traced.andThen_value, treeTraced_of_parse host parsed, Host.outcome_ok_bind,
      Traced.andThen_value, Host.take_value, Host.outcome_ok_bind, ← Host.outcome_append]
    rfl

/-- A source that is rejected is not printed. -/
theorem produce_of_rejection (host : Host) {file source : String} {r : Rejection}
    (failed : parse standardBudget file source = .error (.rejected r)) (args : Arguments)
    (place : DumpPlace) : (produce host args place file source).value =
      host.outcome (printWork args place file source) (.error (.rejected r)) := by
  unfold produce printWork
  simp only [failed]
  cases args.format with
  | json =>
    rw [recordsTraced, Traced.andThen_value, Traced.andThen_value,
      treeTraced_of_rejection host _ _ failed, Host.outcome_bind, Host.outcome_bind]
    rfl
  | sexpr =>
    rw [Traced.andThen_value, treeTraced_of_rejection host _ _ failed, Host.outcome_bind]
    rfl

/-! ## Answers -/

section Answers

variable {host : Host} {input : Input} {file source : String} (args : Arguments)
  (env : Environment) (place : DumpPlace)

theorem respond_of_unread {fault : InputFault} (unread : input.read = .error fault) :
    respond host args input env place = .ok (refuseInput fault) := by
  unfold respond
  rw [unread]

/-- The answer to a source that parses is what is printed of it. -/
theorem respond_of_parse {p : Parsed} (read : input.read = .ok (file, source))
    (parsed : parse standardBudget file source = .ok p)
    (room : host.HasRoom (printWork args place file source)) (writable : args.isWritable = true) :
    ∃ answer text, respond host args input env place = .ok answer ∧ Prints args p text ∧
      answer.exit = 0 ∧ answer.output = text ++ "\n" := by
  obtain ⟨text, prints, produced⟩ := produce_of_parse parsed args place
  have given := produced host
  rw [Host.outcome_of_hasRoom room, if_pos writable] at given
  unfold respond
  rw [read]
  simp only [given]
  exact ⟨_, text, rfl, prints, rfl, rfl⟩

/-- There is no answer to a source that parses if the indentation does not fit. -/
theorem respond_of_oversized {p : Parsed} (read : input.read = .ok (file, source))
    (parsed : parse standardBudget file source = .ok p)
    (room : host.HasRoom (printWork args place file source))
    (oversized : args.isWritable = false) :
    respond host args input env place = .error .oversized := by
  obtain ⟨text, _, produced⟩ := produce_of_parse parsed args place
  have given := produced host
  rw [Host.outcome_of_hasRoom room, oversized] at given
  unfold respond
  rw [read]
  simp only [given]
  rfl

/-- The answer to a source that is rejected is the line that tells of the error. -/
theorem respond_of_rejection {r : Rejection} (read : input.read = .ok (file, source))
    (failed : parse standardBudget file source = .error (.rejected r))
    (room : host.HasRoom (printWork args place file source)) :
    ∃ answer, respond host args input env place = .ok answer ∧ answer.exit = 1 ∧
      answer.output = errorLine (r.error file source).text := by
  unfold respond
  rw [read]
  simp only [produce_of_rejection host failed, Host.outcome_of_hasRoom room]
  exact ⟨_, rfl, rfl, rfl⟩

/-- There is no answer to a source where the host is short of something for the work. -/
theorem respond_of_short {s : Shortage} (read : input.read = .ok (file, source))
    (short : (printWork args place file source).findSome? host.shortage? = some s) :
    respond host args input env place = .error (.short s) := by
  have ended : (produce host args place file source).value = .error (.escaped (.short s)) := by
    rcases outcome : parse standardBudget file source with f | p
    · obtain ⟨r, rfl⟩ := parse_error outcome
      rw [produce_of_rejection host outcome, Host.outcome_of_short short]
    · obtain ⟨_, _, produced⟩ := produce_of_parse outcome args place
      rw [produced, Host.outcome_of_short short]
  unfold respond
  rw [read]
  simp only [ended]

end Answers

/-- The bytes of the standard input are read as the text that they spell, if they spell one. -/
theorem read_standard (bytes : List UInt8) :
    (Input.standard bytes).read = match Text.decode bytes with
      | .ok source => .ok (standardFile, source)
      | .error fault => .error (.notText fault) := rfl

/-! ## Verdicts -/

/-- The verdicts on what comes from the standard input. -/
inductive Verdict
  | notText
  | rejected
  | rendered
deriving DecidableEq, Repr

/-- The bytes are the UTF-8 of the text. -/
def IsUtf8Of (bytes : List UInt8) (source : String) : Prop := source.toUTF8.data.toList = bytes

/-- What a verdict says of the bytes and of the answer to them. -/
def Verdict.Holds (args : Arguments) (bytes : List UInt8) (answer : Response) : Verdict → Prop
  | notText => (¬ ∃ source, IsUtf8Of bytes source) ∧ answer.exit = 1 ∧
      ∃ fault, Text.decode bytes = .error fault ∧
        TellsError answer.output (InputFault.notText fault).message
  | rejected => ∃ source r, IsUtf8Of bytes source ∧
      parse standardBudget standardFile source = .error (.rejected r) ∧ answer.exit = 1 ∧
        TellsError answer.output (r.error standardFile source).text
  | rendered => ∃ source p text, IsUtf8Of bytes source ∧
      parse standardBudget standardFile source = .ok p ∧ answer.exit = 0 ∧
        (∀ f, (p.root.foldAll .standard).failure = some f → Tree.OfSource f) ∧
        Prints args p text ∧ answer.output = text ++ "\n"

theorem IsUtf8Of.unique {bytes : List UInt8} {source source' : String}
    (spells : IsUtf8Of bytes source) (spells' : IsUtf8Of bytes source') : source = source' := by
  have decoded := Text.decode_eq_ok_iff.2 spells
  rw [Text.decode_eq_ok_iff.2 spells', Except.ok.injEq] at decoded
  exact decoded.symm

/-- No two verdicts hold of one answer. -/
theorem Verdict.unique {args : Arguments} {bytes : List UInt8} {answer : Response} {v w : Verdict}
    (holds : v.Holds args bytes answer) (holds' : w.Holds args bytes answer) : v = w := by
  cases v <;> cases w
  case notText.notText | rejected.rejected | rendered.rendered => rfl
  case notText.rejected =>
    obtain ⟨source, _, spells, _⟩ := holds'
    exact absurd ⟨source, spells⟩ holds.1
  case notText.rendered =>
    obtain ⟨source, _, _, spells, _⟩ := holds'
    exact absurd ⟨source, spells⟩ holds.1
  case rejected.notText =>
    obtain ⟨source, _, spells, _⟩ := holds
    exact absurd ⟨source, spells⟩ holds'.1
  case rendered.notText =>
    obtain ⟨source, _, _, spells, _⟩ := holds
    exact absurd ⟨source, spells⟩ holds'.1
  case rejected.rendered =>
    obtain ⟨source, r, spells, failed, _⟩ := holds
    obtain ⟨source', p, _, spells', parsed, _⟩ := holds'
    rw [spells.unique spells', parsed] at failed
    cases failed
  case rendered.rejected =>
    obtain ⟨source, p, _, spells, parsed, _⟩ := holds
    obtain ⟨source', r, spells', failed, _⟩ := holds'
    rw [spells.unique spells', failed] at parsed
    cases parsed

/-- A verdict is given on the bytes: there is an answer, and the verdict holds of it. -/
def Verdict.Given (args : Arguments) (bytes : List UInt8) (outcome : Except Escape Response)
    (v : Verdict) : Prop :=
  ∃ answer, outcome = .ok answer ∧ v.Holds args bytes answer

theorem Verdict.Given.unique {args : Arguments} {bytes : List UInt8}
    {outcome : Except Escape Response} {v w : Verdict} (given : v.Given args bytes outcome)
    (given' : w.Given args bytes outcome) : v = w := by
  obtain ⟨answer, answered, holds⟩ := given
  obtain ⟨answer', answered', holds'⟩ := given'
  obtain rfl := Except.ok.inj (answered.symm.trans answered')
  exact Verdict.unique holds holds'

theorem not_given_of_error {args : Arguments} {bytes : List UInt8}
    {outcome : Except Escape Response} {e : Escape} (ended : outcome = .error e) :
    ¬ ∃! v : Verdict, v.Given args bytes outcome := by
  rintro ⟨_, ⟨_, answered, _⟩, _⟩
  rw [ended] at answered
  cases answered

/-- What a verdict on a source needs: room for the work, and an indentation that fits if the source
is printed. -/
def CanAnswer (host : Host) (args : Arguments) (place : DumpPlace) (source : String) : Prop :=
  host.HasRoom (printWork args place standardFile source) ∧
    ∀ p, parse standardBudget standardFile source = .ok p → args.isWritable = true

/-- Why there is no verdict on a source: the host is short of something for the work, or the
indentation does not fit. -/
def Hinders (host : Host) (args : Arguments) (place : DumpPlace) (source : String) (e : Escape) :
    Prop :=
  (∃ s, e = .short s ∧
    (printWork args place standardFile source).findSome? host.shortage? = some s) ∨
  e = .oversized ∧ args.isWritable = false

section Verdicts

variable (host : Host) (args : Arguments) {bytes : List UInt8} (env : Environment)
  (place : DumpPlace)

/-- A verdict is given on bytes that are no text. -/
theorem given_of_notText (notText : ¬ ∃ source, IsUtf8Of bytes source) :
    Verdict.notText.Given args bytes (respond host args (.standard bytes) env place) := by
  have read := read_standard bytes
  rcases decoded : Text.decode bytes with fault | source
  · rw [decoded] at read
    exact ⟨_, respond_of_unread args env place read, notText, rfl, fault, decoded,
      tellsError_errorLine _⟩
  · exact absurd ⟨source, Text.decode_eq_ok_iff.1 decoded⟩ notText

variable {host args place}

/-- A verdict is given on a source if that can be. -/
theorem given_of_canAnswer {source : String} (spells : IsUtf8Of bytes source)
    (can : CanAnswer host args place source) :
    ∃ v : Verdict, v.Given args bytes (respond host args (.standard bytes) env place) := by
  have read := read_standard bytes
  rw [Text.decode_eq_ok_iff.2 spells] at read
  rcases outcome : parse standardBudget standardFile source with f | p
  · obtain ⟨r, rfl⟩ := parse_error outcome
    obtain ⟨answer, given, exit, output⟩ :=
      respond_of_rejection args env place read outcome can.1
    exact ⟨.rejected, answer, given, source, r, spells, outcome, exit,
      output ▸ tellsError_errorLine _⟩
  · obtain ⟨answer, text, given, prints, exit, output⟩ :=
      respond_of_parse args env place read outcome can.1 (can.2 p outcome)
    have fits := (parse_conforms outcome).1.imp fun _ h => h.fits
    exact ⟨.rendered, answer, given, source, p, text, spells, outcome, exit,
      Tree.foldAll_ofSource fits, prints, output⟩

/-- Otherwise something hinders the answer. -/
theorem hinders_of_not_canAnswer {source : String} (spells : IsUtf8Of bytes source)
    (cannot : ¬ CanAnswer host args place source) :
    ∃ e, respond host args (.standard bytes) env place = .error e ∧
      Hinders host args place source e := by
  have read := read_standard bytes
  rw [Text.decode_eq_ok_iff.2 spells] at read
  rcases host.hasRoom_or_short (printWork args place standardFile source) with room | ⟨s, short⟩
  · obtain ⟨p, parsed, oversized⟩ : ∃ p, parse standardBudget standardFile source = .ok p ∧
        args.isWritable = false := by
      simpa [CanAnswer, room] using cannot
    exact ⟨_, respond_of_oversized args env place read parsed room oversized, .inr ⟨rfl, oversized⟩⟩
  · exact ⟨_, respond_of_short args env place read short, .inl ⟨s, rfl, short⟩⟩

variable (host args place)

/-- Either a verdict is given on the bytes, or they spell a source and something hinders the
answer. -/
theorem given_or_hinders (bytes : List UInt8) :
    ((∀ source, IsUtf8Of bytes source → CanAnswer host args place source) ∧
      ∃ v : Verdict, v.Given args bytes (respond host args (.standard bytes) env place)) ∨
    ∃ source, IsUtf8Of bytes source ∧ ¬ CanAnswer host args place source ∧
      ∃ e, respond host args (.standard bytes) env place = .error e ∧
        Hinders host args place source e := by
  by_cases text : ∃ source, IsUtf8Of bytes source
  · obtain ⟨source, spells⟩ := text
    by_cases can : CanAnswer host args place source
    · exact .inl ⟨fun _ spells' => spells.unique spells' ▸ can, given_of_canAnswer env spells can⟩
    · exact .inr ⟨source, spells, can, hinders_of_not_canAnswer env spells can⟩
  · exact .inl ⟨fun source spells => absurd ⟨source, spells⟩ text, _,
      given_of_notText host args env place text⟩

end Verdicts

/-- A run on the standard input comes to exactly one of the three verdicts, whatever is asked for, if
there is room for the work on the text that the bytes spell and the indentation fits, and only
then. Without a verdict it ends with what hinders it, and never because a tree is outside of the
catalog or cannot be folded. -/
theorem run_has_one_verdict (host : Host) (w : Workspace) (env : Environment) (bytes : List UInt8)
    (texts : List String) (args : Arguments) (taken : Arguments.ofTexts texts = .ok args)
    (standard : args.file = none) :
    ((∃! v : Verdict, v.Given args bytes (run host w env bytes texts)) ↔
      ∀ source, IsUtf8Of bytes source → CanAnswer host args (w.dumpPlace env) source) ∧
    ∀ e, run host w env bytes texts = .error e →
      ∃ source, IsUtf8Of bytes source ∧ Hinders host args (w.dumpPlace env) source e := by
  have answer : run host w env bytes texts =
      respond host args (.standard bytes) env (w.dumpPlace env) := by
    unfold run
    rw [taken]
    simp only [standard]
  rw [answer]
  rcases given_or_hinders host args env (w.dumpPlace env) bytes with
    ⟨can, v, given⟩ | ⟨source, spells, cannot, e, ended, hinders⟩
  · refine ⟨iff_of_true ⟨v, given, fun _ other => other.unique given⟩ can, fun e ended => ?_⟩
    obtain ⟨_, answered, _⟩ := given
    rw [ended] at answered
    cases answered
  · refine ⟨iff_of_false (not_given_of_error ended) fun can => cannot (can source spells),
      fun e' ended' => ?_⟩
    obtain rfl := Except.error.inj (ended.symm.trans ended')
    exact ⟨source, spells, hinders⟩

/-- A file that is cut short in the middle of a character, asked for as an S-expression. -/
theorem truncated_input_has_one_verdict :
    Arguments.ofTexts ["--no-fold", "--format", "sexpr"] =
        .ok { noFold := true, format := .sexpr } ∧
      ∃! v : Verdict, v.Given { noFold := true, format := .sexpr } [0x78, 0xc3]
        (run .roomy { location := ["work"] } {} [0x78, 0xc3]
          ["--no-fold", "--format", "sexpr"]) := by
  have taken : Arguments.ofTexts ["--no-fold", "--format", "sexpr"] =
      .ok { noFold := true, format := .sexpr } := by decide +kernel
  exact ⟨taken, (run_has_one_verdict _ _ _ _ _ _ taken rfl).1.2 fun _ _ =>
    ⟨Host.roomy_hasRoom _, fun _ _ => rfl⟩⟩

/-- There is no verdict on a name in 36 parentheses on a host with room for a thousand open calls,
nor with an indentation below the sizes. -/
theorem nested_input_has_no_verdict :
    let bytes := nested.toUTF8.data.toList
    let w : Workspace := { location := ["work"] }
    let deep := run (.ofRoom 1000) w {} bytes []
    let wide := run .roomy w {} bytes ["--indent=-9223372036854775809"]
    (deep = .error (.short .calls) ∧ ¬ ∃! v : Verdict, v.Given {} bytes deep) ∧
      wide = .error .oversized ∧
        ¬ ∃! v : Verdict, v.Given { indent := some (-9223372036854775809) } bytes wide := by
  intro bytes w deep wide
  obtain ⟨p, parsed, below⟩ := exists_ok_of_toOption sample_parses.2.2.2.2.2
  have read : (Input.standard bytes).read = .ok (standardFile, nested) := by
    rw [read_standard, Text.decode_eq_ok_iff.2 rfl]
  have short : (printWork {} .nowhere standardFile nested).findSome?
      (Host.ofRoom 1000).shortage? = some .calls := by
    rw [printWork, parsed]
    simp [Parsed.treeWork, DumpPlace.work, Arguments.options, Host.ofRoom,
      of_decide_eq_true below]
  have ended : deep = .error (.short .calls) := respond_of_short {} {} .nowhere read short
  have taken : Arguments.ofTexts ["--indent=-9223372036854775809"] =
      .ok { indent := some (-9223372036854775809) } := by decide +kernel
  have ended' : wide = .error .oversized := by
    dsimp only [wide, run]
    rw [taken]
    exact respond_of_oversized _ {} .nowhere read parsed (Host.roomy_hasRoom _) (by decide)
  exact ⟨⟨ended, not_given_of_error ended⟩, ended', not_given_of_error ended'⟩

end CommandLine

end SyntaxAtlas
