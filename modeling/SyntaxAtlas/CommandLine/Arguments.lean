-- The arguments of the command line. Options may be cut short while they stay
-- clear, their values may follow after `=`, letters may share one dash, and `--`
-- ends the options.

import SyntaxAtlas.Text.Number
import SyntaxAtlas.Text.Quoted

namespace SyntaxAtlas.CommandLine

/-! ## Options -/

/-- An option. -/
inductive Flag
  | help | noFold | showMissing | format | indent | verbose
deriving DecidableEq, Repr

namespace Flag

/-- The spellings of an option. -/
def spellings : Flag → List String
  | help => ["-h", "--help"]
  | noFold => ["--no-fold"]
  | showMissing => ["--show-missing"]
  | format => ["--format"]
  | indent => ["--indent"]
  | verbose => ["-v", "--verbose"]

def all : List Flag := [help, noFold, showMissing, format, indent, verbose]

/-- An option that a value belongs to. -/
def takesValue : Flag → Bool
  | format | indent => true
  | _ => false

/-- All spellings with their options. -/
def spelled : List (String × Flag) :=
  all.flatMap fun f => f.spellings.map (·, f)

/-- The option as an error names it. -/
def title (f : Flag) : String := String.intercalate "/" f.spellings

end Flag

/-- The form of the output. -/
inductive Format
  | json | sexpr
deriving DecidableEq, Repr

def Format.name : Format → String
  | json => "json"
  | sexpr => "sexpr"

/-- What the command line asks for. -/
structure Arguments where
  file : Option String := none
  noFold : Bool := false
  showMissing : Bool := false
  format : Format := .json
  indent : Option Int := none
  verbose : Bool := false
deriving DecidableEq, Repr

/-! ## Faults -/

/-- Why arguments cannot be taken. -/
inductive UsageFault
  | missingValue (f : Flag)
  | ignoredValue (f : Flag) (value : String)
  | unknownFormat (value : String)
  | notWhole (value : String)
  | ambiguous (text : String) (matching : List String)
  | unrecognized (texts : List String)
deriving DecidableEq, Repr

namespace UsageFault

/-- A fault of one option. -/
def about (f : Flag) (message : String) : String := "argument " ++ f.title ++ ": " ++ message

def message : UsageFault → String
  | missingValue f => about f "expected one argument"
  | ignoredValue f value => about f ("ignored explicit argument " ++ Text.debugQuoted value)
  | unknownFormat value =>
    about .format ("invalid choice: " ++ Text.debugQuoted value
      ++ " (choose from 'json', 'sexpr')")
  | notWhole value => about .indent ("invalid int value: " ++ Text.debugQuoted value)
  | ambiguous text matching =>
    "ambiguous option: " ++ text ++ " could match " ++ String.intercalate ", " matching
  | unrecognized texts => "unrecognized arguments: " ++ String.intercalate " " texts

end UsageFault

/-- Why there is nothing to do. -/
inductive Stop
  | help
  | fault (f : UsageFault)
deriving DecidableEq, Repr

/-! ## Words -/

/-- An argument by its look. -/
inductive Word
  | plain (text : String)
  /-- The mark that ends the options. -/
  | separator
  | option (f : Flag)
  /-- An option with its value behind `=`. -/
  | equated (f : Flag) (value : String)
  /-- An option of one letter with more letters behind it, or behind `=`. -/
  | joined (f : Flag) (letters : List Char)
  | unknown (text : String)
deriving DecidableEq, Repr

/-- The mark that ends the options. -/
def separatorText : String := "--"

/-- Cuts a text at its first `=`. -/
def cutAtEqual (cs : List Char) : List Char × Option (List Char) :=
  match cs.span (· != '=') with
  | (name, _ :: value) => (name, some value)
  | (name, []) => (name, none)

/-- The characters in front of one last line feed. -/
def withoutLineFeed (cs : List Char) : List Char :=
  if cs.getLast? == some '\n' then cs.dropLast else cs

/-- A text that reads as a number below zero: digits, or a point with digits
behind it. -/
def isNegativeNumber (cs : List Char) : Bool :=
  match withoutLineFeed cs with
  | '-' :: cs =>
    (!cs.isEmpty && cs.all Text.isDecimalDigit) ||
      match cs.span Text.isDecimalDigit with
      | (_, '.' :: ds) => !ds.isEmpty && ds.all Text.isDecimalDigit
      | _ => false
  | _ => false

/-- A spelling of one letter. -/
def isLetterSpelling (name : List Char) : Bool := name[1]? != some '-'

/-- An option by its spelling, with what stands behind `=`. -/
def Word.ofOption (f : Flag) (name : List Char) : Option (List Char) → Word
  | none => option f
  | some value => if isLetterSpelling name then joined f value else equated f (String.ofList value)

/-- The words that a text can stand for, with the spelling of each. After two
dashes it may be the start of a spelling. After one dash its first letter may
be an option, and the rest belongs to it. -/
def Word.candidates (cs : List Char) : List (String × Word) :=
  match cs with
  | '-' :: '-' :: _ =>
    let (name, value) := cutAtEqual cs
    (Flag.spelled.filter fun (s, _) => name.isPrefixOf s.toList).map fun (s, f) =>
      (s, ofOption f s.toList value)
  | _ =>
    (Flag.spelled.filter fun (s, _) => s.toList = cs.take 2).map fun (s, f) =>
      (s, joined f (cs.drop 2))

/-- Tells what an argument is. -/
def Word.ofText (text : String) : Except UsageFault Word :=
  let cs := text.toList
  if cs.head? != some '-' then .ok (plain text) else
  match Flag.spelled.lookup text with
  | some f => .ok (option f)
  | none =>
    if cs.length = 1 then .ok (plain text) else
    let (name, value) := cutAtEqual cs
    match value, Flag.spelled.lookup (String.ofList name) with
    | some value, some f => .ok (ofOption f name (some value))
    | _, _ =>
      match candidates cs with
      | [(_, word)] => .ok word
      | [] =>
        if isNegativeNumber cs || cs.contains ' ' then .ok (plain text) else .ok (unknown text)
      | several => .error (.ambiguous text (several.map (·.1)))

/-- The words of the arguments. Behind the mark that ends the options all is
plain. -/
def words : List String → Except UsageFault (List Word)
  | [] => .ok []
  | text :: rest =>
    if text == separatorText then .ok (.separator :: rest.map .plain)
    else do
      let word ← Word.ofText text
      let others ← words rest
      pure (word :: others)

/-- The options of letters that share one dash, `f` being the first. No letter
takes a value, so each has to be an option again. -/
def joinedFlags (f : Flag) : List Char → Except UsageFault (List Flag)
  | [] => .ok [f]
  | c :: cs =>
    match Flag.spelled.lookup (String.ofList ['-', c]) with
    | none => .error (.ignoredValue f (String.ofList (c :: cs)))
    | some next => (joinedFlags next cs).map (f :: ·)

/-! ## Reading -/

/-- The arguments read so far: whether the place of the file is taken, and
what has no place. -/
structure Reading where
  arguments : Arguments := {}
  fileTaken : Bool := false
  extras : List String := []
deriving DecidableEq, Repr

namespace Reading

/-- Sets an option that has no value. -/
def set (r : Reading) : Flag → Except Stop Reading
  | .help => .error .help
  | .noFold => .ok { r with arguments := { r.arguments with noFold := true } }
  | .showMissing => .ok { r with arguments := { r.arguments with showMissing := true } }
  | .verbose => .ok { r with arguments := { r.arguments with verbose := true } }
  | .format | .indent => .ok r

/-- Sets an option to a value. -/
def setValue (r : Reading) (f : Flag) (value : String) : Except Stop Reading :=
  match f with
  | .format =>
    match [Format.json, Format.sexpr].find? (·.name == value) with
    | some format => .ok { r with arguments := { r.arguments with format } }
    | none => .error (.fault (.unknownFormat value))
  | .indent =>
    match Text.readWhole value with
    | some n => .ok { r with arguments := { r.arguments with indent := some n } }
    | none => .error (.fault (.notWhole value))
  | f => .error (.fault (.ignoredValue f value))

/-- Gives the place of the file away. -/
def takeFile (r : Reading) (file : Option String) : Reading :=
  { r with arguments := { r.arguments with file }, fileTaken := true }

/-- Keeps a text that has no place. -/
def refuse (r : Reading) (text : String) : Reading :=
  { r with extras := r.extras ++ [text] }

/-- Takes letters that share one dash. -/
def takeJoined (r : Reading) (f : Flag) (letters : List Char) : Except Stop Reading :=
  if letters.isEmpty then .error (.fault (.ignoredValue f "")) else
  match joinedFlags f letters with
  | .error fault => .error (.fault fault)
  | .ok flags => flags.foldlM set r

/-- Sets an option that takes a value back. -/
def setBack (r : Reading) : Flag → Reading
  | .format => { r with arguments := { r.arguments with format := .json } }
  | .indent => { r with arguments := { r.arguments with indent := none } }
  | _ => r

/-- Takes an option with its value. The mark that ends the options is no value
and sets the option back. -/
def takeEquated (r : Reading) (f : Flag) (value : String) : Except Stop Reading :=
  if f.takesValue && value == separatorText then .ok (r.setBack f) else r.setValue f value

/-- Reads the words from left to right. The first plain word is the file, and
a mark that ends the options goes with it. -/
def takeAll (r : Reading) : List Word → Except Stop Reading
  | [] => .ok r
  | .unknown text :: rest => (r.refuse text).takeAll rest
  | .equated f value :: rest => do (← r.takeEquated f value).takeAll rest
  | .joined f letters :: rest => do (← r.takeJoined f letters).takeAll rest
  | .option f :: rest =>
    if f.takesValue then
      match rest with
      | .plain value :: rest => do (← r.setValue f value).takeAll rest
      | _ => .error (.fault (.missingValue f))
    else do (← r.set f).takeAll rest
  | .separator :: rest =>
    if r.fileTaken then (r.refuse separatorText).takeAll rest else
    match rest with
    | .plain text :: rest => (r.takeFile (some text)).takeAll rest
    | rest => (r.takeFile none).takeAll rest
  | .plain text :: rest =>
    if r.fileTaken then (r.refuse text).takeAll rest else
    match rest with
    | .separator :: rest => (r.takeFile (some text)).takeAll rest
    | rest => (r.takeFile (some text)).takeAll rest

end Reading

/-- Reads the arguments of the command line. -/
def Arguments.ofTexts (texts : List String) : Except Stop Arguments :=
  match words texts with
  | .error f => .error (.fault f)
  | .ok ws => do
    let r ← Reading.takeAll {} ws
    if r.extras.isEmpty then pure r.arguments else .error (.fault (.unrecognized r.extras))

end SyntaxAtlas.CommandLine
