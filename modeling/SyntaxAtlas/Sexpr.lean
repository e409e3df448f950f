-- S-expressions of trees: a form, and two ways to write it. The indented text
-- keeps a list on one line while it fits; the compact text is one line.

import SyntaxAtlas.Datum
import SyntaxAtlas.Tree

namespace SyntaxAtlas

/-- A form: a symbol, a text, a list, or plain data. -/
inductive Form
  | symbol (name : String)
  | text (s : String)
  | list (items : List Form)
  | datum (value : Datum)
deriving Repr

namespace Form

instance : Inhabited Form := ⟨.list []⟩

/-- A symbol that names a slot. -/
def isSlot : Form → Bool
  | symbol name => name.startsWith ":"
  | _ => false

/-! ## Compact text -/

mutual

/-- A form on one line. -/
def compact : Form → String
  | .symbol name => name
  | .text s => Text.compactQuoted s
  | .datum value => value.display
  | .list items => "(" ++ String.intercalate " " (compactAll items) ++ ")"

def compactAll : List Form → List String
  | [] => []
  | f :: rest => f.compact :: compactAll rest

end

/-! ## Indented text -/

/-- How a form is laid out: the width of a line and what one level is indented
by. -/
structure Style where
  width : Int := 100
  step : String := "  "
deriving DecidableEq, Repr

/-- The indentation of a depth. There is none below zero. -/
def Style.indent (style : Style) (depth : Int) : String :=
  String.join (List.replicate depth.toNat style.step)

/-- Whether a text on one line fits at a depth. -/
def Style.fits (style : Style) (depth : Int) (flat : String) : Bool :=
  !flat.contains (· == '\n') && (style.step.length * depth + flat.length ≤ style.width)

/-- The lines of the items behind the head of a list. A slot shares its line
with the value behind it. -/
def itemLines (pad : String) : List (Form × String) → List String
  | [] => []
  | [(_, shown)] => [pad ++ shown]
  | (f, shown) :: (g, shown') :: rest =>
    if f.isSlot && !g.isSlot then (pad ++ shown ++ " " ++ shown') :: itemLines pad rest
    else (pad ++ shown) :: itemLines pad ((g, shown') :: rest)

/-- A list from its items as they are shown. -/
def layOut (style : Style) (depth : Int) : List (Form × String) → String
  | [] => "()"
  | (head, shown) :: rest =>
    let flat := "(" ++ String.intercalate " " (((head, shown) :: rest).map (·.2)) ++ ")"
    if style.fits depth flat then flat
    else
      "(" ++ String.intercalate "\n" (shown :: itemLines (style.indent (depth + 1)) rest) ++ ")"

mutual

/-- A form in indented text. -/
def indented (style : Style) (depth : Int) : Form → String
  | .symbol name => name
  | .text s => Text.formQuoted s
  | .datum value => value.display
  | .list items => layOut style depth (indentedAll style (depth + 1) items)

def indentedAll (style : Style) (depth : Int) : List Form → List (Form × String)
  | [] => []
  | f :: rest => (f, f.indented style depth) :: indentedAll style depth rest

end

/-- A form in indented text of the usual style. -/
def pretty (f : Form) : String := f.indented {} 0

end Form

/-! ## Forms of trees -/

/-- A token's form: its kind and its text, a flag when it is missing, and its
trivia if asked for. -/
def Token.form (withTrivia : Bool) (t : Token) : Form :=
  let pieces := fun (ps : List TriviaPiece) => Form.list (ps.map fun p => .text p.description)
  .list <|
    [.symbol "token", .text t.kind.description, .text t.text]
      ++ (if t.isMissing then [.symbol ":missing"] else [])
      ++ (if withTrivia then
            [.symbol ":leading", pieces t.leading, .symbol ":trailing", pieces t.trailing]
          else [])

namespace Tree

/-- The slots of a kind as pairs of a name and a form, `nil` for an empty one. -/
def slotPairs (kind : Kind) (filled : List (String × Form)) : List Form :=
  kind.slots.flatMap fun s =>
    [.symbol (":" ++ s.name), (filled.lookup s.name).getD (.symbol "nil")]

mutual

/-- A tree's form: the kind, then the slots of a layout with their names, or
the items. -/
def form (withTrivia : Bool) : Tree → Form
  | .token t => t.form withTrivia
  | .node kind slots items _ =>
    .list <| .symbol kind.name ::
      if kind.isLayout then slotPairs kind (slotForms withTrivia slots)
      else itemForms withTrivia items
  | .foreign value => .datum value

def slotForms (withTrivia : Bool) : List (String × Tree) → List (String × Form)
  | [] => []
  | (name, t) :: rest => (name, t.form withTrivia) :: slotForms withTrivia rest

def itemForms (withTrivia : Bool) : List Tree → List Form
  | [] => []
  | t :: rest => t.form withTrivia :: itemForms withTrivia rest

end

/-- The S-expression of a tree, indented or compact. -/
def sexpr (t : Tree) (withTrivia : Bool) (indent : Bool) : Except Violation String :=
  t.checkKinds.map fun _ =>
    if indent then (t.form withTrivia).pretty else (t.form withTrivia).compact

end Tree

end SyntaxAtlas
