-- Where a source comes from. A file is read with all its line ends made line feeds, and the
-- standard input as it is. Nothing else makes a difference to what is printed of a source: the
-- name of a file is in no record and in no form.

import SyntaxAtlas.Proofs.Budget
import SyntaxAtlas.Proofs.Verdicts

namespace SyntaxAtlas

/-! ## The name of a source -/

/-- Ranges do not tell the file. -/
theorem LineMap.range_of_rows {m m' : LineMap} (same : m.rows = m'.rows) : m.range = m'.range := by
  obtain ⟨file, rows⟩ := m
  obtain ⟨file', rows'⟩ := m'
  cases same
  rfl

namespace Tree

variable {m m' : LineMap} {showMissing : Bool}

theorem itemRecords_of_range {ts : List Tree}
    (each : ∀ t ∈ ts, ∀ parent id,
      t.recordsFrom m showMissing parent id = t.recordsFrom m' showMissing parent id)
    (parent id : Nat) :
    itemRecords m showMissing parent id ts = itemRecords m' showMissing parent id ts := by
  induction ts generalizing id with
  | nil => rfl
  | cons t ts ih =>
    simp only [itemRecords, each t List.mem_cons_self,
      ih fun u hu => each u (List.mem_cons_of_mem t hu)]

/-- Records take nothing but ranges from the rows of the source. -/
theorem recordsFrom_of_range (same : m.range = m'.range) (t : Tree) (parent : Option Nat)
    (id : Nat) :
    t.recordsFrom m showMissing parent id = t.recordsFrom m' showMissing parent id := by
  induction t using children_induction generalizing parent id with
  | step t ih =>
    cases t with
    | token u => simp only [recordsFrom, Token.record, same]
    | foreign value => rfl
    | node kind slots items state =>
      rw [recordsFrom_node, recordsFrom_node, itemRecords_of_range ih]
      simp only [nodeRecord, same]

end Tree

theorem parse_file {budget : Nat} {file source : String} {p : Parsed}
    (parsed : parse budget file source = .ok p) (file' : String) :
    parse budget file' source = .ok { p with file := file' } := by
  obtain ⟨tree, s, root, accepted, built, rfl⟩ := parse_eq_ok_iff.1 parsed
  exact parse_eq_ok_iff.2 ⟨tree, s, root, accepted, built, rfl⟩

namespace CommandLine

/-! ## What is printed -/

/-- Arguments that ask for the same rendering, wherever the source comes from. -/
structure Arguments.SameRendering (args args' : Arguments) : Prop where
  noFold : args.noFold = args'.noFold
  showMissing : args.showMissing = args'.showMissing
  format : args.format = args'.format
  indent : args.indent = args'.indent

theorem shown_root_file (p : Parsed) (file : String) (fold : Bool) :
    ({ p with file }.shown fold).root = (p.shown fold).root := by
  dsimp only [Parsed.shown]
  split <;> rfl

/-- What is printed of a source does not tell its name. -/
theorem Prints.eq_unnamed {args args' : Arguments} {p : Parsed} {file text text' : String}
    (prints : Prints args { p with file } text) (same : args.SameRendering args')
    (prints' : Prints args' p text') : text = text' := by
  unfold Prints at prints prints'
  rw [shown_root_file] at prints
  rw [← same.format, ← same.noFold] at prints'
  have shown : ({ p with file } : Parsed).lineMap.range = p.lineMap.range :=
    LineMap.range_of_rows rfl
  rcases format : args.format with _ | _
  · rw [format] at prints prints'
    obtain ⟨rs, made, rfl⟩ := prints
    obtain ⟨rs', made', rfl⟩ := prints'
    unfold Tree.records at made made'
    rw [Tree.recordsFrom_of_range shown] at made
    rw [← same.showMissing] at made'
    rw [same.indent, Except.ok.inj (made.symm.trans made')]
  · rw [format] at prints prints'
    exact Except.ok.inj (prints.symm.trans prints')

/-! ## Line ends -/

/-- A text with all its line ends made line feeds. -/
def unified (source : String) : String := String.ofList (unifyLineEnds source.toList)

theorem unifyLineEnds_of_not_mem {cs : List Char} (none : '\r' ∉ cs) : unifyLineEnds cs = cs := by
  fun_induction unifyLineEnds cs with
  | case1 => rfl
  | case2 cs => exact absurd List.mem_cons_self none
  | case3 c cs _ ih =>
    rw [List.mem_cons, not_or] at none
    rw [if_neg (Ne.symm none.1), ih none.2]

/-! ## Files and the standard input -/

/-- What comes of two runs on one source agrees, given the work that each of them takes. -/
inductive Agree (host : Host) (args : Arguments) (source : String) (works works' : List Work) :
    Except Escape Response → Except Escape Response → Prop
  /-- They leave with the same code, and they print the same if the source can be parsed. -/
  | answered {a b : Response} (exit : a.exit = b.exit)
      (output : ∀ p, parse standardBudget standardFile source = .ok p → a.output = b.output) :
      Agree host args source works works' (.ok a) (.ok b)
  /-- Neither gives an answer, since the indentation does not fit. -/
  | oversized (unwritable : args.isWritable = false) :
      Agree host args source works works' (.error .oversized) (.error .oversized)
  /-- One gives no answer, since the host is short of something for its work. -/
  | shortOfFirst {s : Shortage} {b : Except Escape Response}
      (short : works.findSome? host.shortage? = some s) :
      Agree host args source works works' (.error (.short s)) b
  | shortOfSecond {s : Shortage} {a : Except Escape Response}
      (short : works'.findSome? host.shortage? = some s) :
      Agree host args source works works' a (.error (.short s))

theorem read_found (path : String) (bytes : List UInt8) :
    (Input.file path (.file bytes)).read = match Text.decode bytes with
      | .ok source => .ok (path, unified source)
      | .error fault => .error (.notText fault) := rfl

theorem Arguments.SameRendering.isWritable {args args' : Arguments}
    (same : args.SameRendering args') : args.isWritable = args'.isWritable := by
  unfold Arguments.isWritable
  rw [same.format, same.indent]

section Agreement

variable {host : Host} {args args' : Arguments} {input input' : Input} {file source : String}
  (same : args.SameRendering args') (env env' : Environment) {place place' : DumpPlace}
  (read : input.read = .ok (file, source)) (read' : input'.read = .ok (standardFile, source))

include same read read'

/-- With room for the work of both, inputs that are read as the same source are answered alike. -/
theorem respond_agree_of_hasRoom (room : host.HasRoom (printWork args place file source))
    (room' : host.HasRoom (printWork args' place' standardFile source)) :
    Agree host args source (printWork args place file source)
      (printWork args' place' standardFile source) (respond host args input env place)
      (respond host args' input' env' place') := by
  rcases outcome : parse standardBudget standardFile source with f | p
  · obtain ⟨r, rfl, rejected⟩ := parse_eq_error_iff.1 outcome
    obtain ⟨a, named, exit, _⟩ := respond_of_rejection args env place read
      (parse_eq_error_iff.2 ⟨r, rfl, rejected⟩) room
    obtain ⟨b, unnamed, exit', _⟩ := respond_of_rejection args' env' place' read' outcome room'
    rw [named, unnamed]
    refine .answered (exit.trans exit'.symm) fun p parsed => ?_
    rw [outcome] at parsed
    cases parsed
  have parsed := parse_file outcome file
  rcases writable : args.isWritable with _ | _
  · rw [respond_of_oversized args env place read parsed room writable,
      respond_of_oversized args' env' place' read' outcome room' (same.isWritable ▸ writable)]
    exact .oversized writable
  · obtain ⟨a, text, named, prints, exit, output⟩ :=
      respond_of_parse args env place read parsed room writable
    obtain ⟨b, text', unnamed, prints', exit', output'⟩ :=
      respond_of_parse args' env' place' read' outcome room' (same.isWritable ▸ writable)
    rw [named, unnamed]
    refine .answered (exit.trans exit'.symm) fun _ _ => ?_
    rw [output, output', prints.eq_unnamed same prints']

/-- Inputs that are read as the same source are answered alike. -/
theorem respond_agree (place place' : DumpPlace) :
    Agree host args source (printWork args place file source)
      (printWork args' place' standardFile source) (respond host args input env place)
      (respond host args' input' env' place') := by
  rcases host.hasRoom_or_short (printWork args place file source) with room | ⟨s, short⟩
  · rcases host.hasRoom_or_short (printWork args' place' standardFile source) with
      room' | ⟨s, short⟩
    · exact respond_agree_of_hasRoom same env env' read read' room room'
    · rw [respond_of_short args' env' place' read' short]
      exact .shortOfSecond short
  · rw [respond_of_short args env place read short]
    exact .shortOfFirst short

end Agreement

/-- A file is answered as the standard input is that holds its text with all line ends made line
feeds. So it is answered as the standard input with the same bytes if no carriage return is
among them. -/
theorem run_file_agrees {host : Host} {w w' : Workspace} {env env' : Environment}
    {input bytes : List UInt8} {texts texts' : List String} {args args' : Arguments}
    {path source : String} (taken : Arguments.ofTexts texts = .ok args)
    (named : args.file = some path) (found : w.find path = .file bytes)
    (taken' : Arguments.ofTexts texts' = .ok args') (standard : args'.file = none)
    (same : args.SameRendering args') (utf8 : IsUtf8Of bytes source) :
    let works := printWork args (w.dumpPlace env) (w.shown path) (unified source)
    let works' := printWork args' (w'.dumpPlace env') standardFile (unified source)
    Agree host args (unified source) works works' (run host w env input texts)
        (run host w' env' (unified source).toUTF8.data.toList texts') ∧
      ('\r' ∉ source.toList → Agree host args source works works' (run host w env input texts)
        (run host w' env' bytes texts')) := by
  intro works works'
  have answer : run host w env input texts =
      respond host args (.file (w.shown path) (.file bytes)) env (w.dumpPlace env) := by
    unfold run
    rw [taken]
    simp only [named, found]
  have answer' : ∀ bytes', run host w' env' bytes' texts' =
      respond host args' (.standard bytes') env' (w'.dumpPlace env') := by
    intro bytes'
    unfold run
    rw [taken']
    simp only [standard]
  have read : (Input.file (w.shown path) (.file bytes)).read =
      .ok (w.shown path, unified source) := by
    rw [read_found, Text.decode_eq_ok_iff.2 utf8]
  have agree : Agree host args (unified source) works works' (run host w env input texts)
      (run host w' env' (unified source).toUTF8.data.toList texts') := by
    rw [answer, answer']
    refine respond_agree same env env' read ?_ _ _
    rw [read_standard, Text.decode_eq_ok_iff.2 rfl]
  refine ⟨agree, fun none => ?_⟩
  have asItIs : unified source = source := by
    rw [unified, unifyLineEnds_of_not_mem none, String.ofList_toList]
  rw [asItIs, utf8] at agree
  exact agree

/-- A file that needs repairs, and the same text from the standard input. -/
theorem run_repaired_file_agrees :
    let source := "f($\"a\" ]"
    let bytes := source.toUTF8.data.toList
    let w : Workspace := { location := ["work"], files := [("a.swift", bytes)] }
    ∃ a b, run .roomy w {} [] ["--form", "sexpr", "a.swift"] = .ok a ∧
      run .roomy { location := [] } {} bytes ["--format=sexpr"] = .ok b ∧ a.output = b.output := by
  intro source bytes w
  have taken : Arguments.ofTexts ["--form", "sexpr", "a.swift"] =
      .ok { file := some "a.swift", format := .sexpr } := by decide +kernel
  have taken' : Arguments.ofTexts ["--format=sexpr"] = .ok { format := .sexpr } := by
    decide +kernel
  have found : w.find "a.swift" = .file bytes := by
    simp [w, Workspace.find, Workspace.fileParts]
  obtain ⟨p, parsed, repairs⟩ := exists_ok_of_toOption sample_parses.1.1
  have renders : parse standardBudget standardFile source = .ok p :=
    parse_of_fits parsed (by rw [repairs]; decide)
  have agrees := (@run_file_agrees .roomy w { location := [] } {} {} [] bytes _ _ _ _ _ source
    taken rfl found taken' rfl ⟨rfl, rfl, rfl, rfl⟩ rfl).2 (by decide)
  have never : ∀ works : List Work, works.findSome? Host.roomy.shortage? = none := fun _ =>
    Host.findSome?_eq_none_iff_hasRoom.2 (Host.roomy_hasRoom _)
  generalize run .roomy w {} [] ["--form", "sexpr", "a.swift"] = fromFile at agrees ⊢
  generalize run .roomy { location := [] } {} bytes ["--format=sexpr"] = fromInput at agrees ⊢
  cases agrees with
  | answered _ output => exact ⟨_, _, rfl, rfl, output p renders⟩
  | oversized unwritable => cases unwritable
  | shortOfFirst short =>
    rw [never] at short
    cases short
  | shortOfSecond short =>
    rw [never] at short
    cases short

end CommandLine

end SyntaxAtlas
