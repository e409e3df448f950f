-- Plain data: what may stand where a tree or a form is expected, and outcomes
-- that are held as values.

import SyntaxAtlas.Text.Quoted

namespace SyntaxAtlas

/-- Plain data. -/
inductive Datum
  | text (s : String)
  | number (n : Int)
  | truth (b : Bool)
  | absent
  | list (items : List Datum)
  | record (fields : List (String × Datum))
deriving Repr

namespace Datum

instance : Inhabited Datum := ⟨.absent⟩

mutual

/-- Data as it is written inside of other data, where a text is quoted. -/
def written : Datum → String
  | .text s => Text.debugQuoted s
  | .number n => toString n
  | .truth true => "True"
  | .truth false => "False"
  | .absent => "None"
  | .list items => "[" ++ String.intercalate ", " (writtenItems items) ++ "]"
  | .record fields => "\x7b" ++ String.intercalate ", " (writtenFields fields) ++ "\x7d"

def writtenItems : List Datum → List String
  | [] => []
  | d :: rest => d.written :: writtenItems rest

def writtenFields : List (String × Datum) → List String
  | [] => []
  | (name, d) :: rest => (Text.debugQuoted name ++ ": " ++ d.written) :: writtenFields rest

end

/-- The text that data is. -/
def text? : Datum → Option String
  | .text s => some s
  | _ => none

/-- Data as it is shown by itself. -/
def display : Datum → String
  | .text s => s
  | d => d.written

end Datum

/-! ## Outcomes -/

/-- An outcome held as a value. -/
inductive Outcome
  | ok (value : Datum)
  | err (value : Datum)
deriving Repr

namespace Outcome

def isOk : Outcome → Bool
  | ok _ => true
  | err _ => false

/-- Asking an outcome for the side that it does not have. -/
inductive WrongSide
  | noValue (error : Datum)
  | noError (value : Datum)
deriving Repr

def WrongSide.message : WrongSide → String
  | noValue error => "Called unwrap() on Err: " ++ error.display
  | noError value => "Called unwrap_err() on Ok: " ++ value.display

/-- The value of an outcome that went well. -/
def value : Outcome → Except WrongSide Datum
  | ok v => .ok v
  | err e => .error (.noValue e)

/-- What went wrong. -/
def failure : Outcome → Except WrongSide Datum
  | ok v => .error (.noError v)
  | err e => .ok e

end Outcome

end SyntaxAtlas
