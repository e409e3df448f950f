-- Records: a tree as a flat list. Each tree has a record, in pre-order, and
-- names its parent by number.

import SyntaxAtlas.Location
import SyntaxAtlas.Markup
import SyntaxAtlas.Tree

namespace SyntaxAtlas

/-- A value in the listing of a structure. -/
structure StructureValue where
  text : String
  kind : Option String := none
deriving DecidableEq, Repr

/-- A line in the listing of a structure: a value, and for a node what it
refers to. -/
structure StructureProperty where
  name : String
  value : Option StructureValue := none
  ref : Option String := none
deriving DecidableEq, Repr

/-- What a record says of a token. -/
structure TokenInfo where
  kind : String
  leading : String := ""
  trailing : String := ""
deriving DecidableEq, Repr

/-- The record of a tree. -/
structure Record where
  id : Nat
  label : String
  range : SourceRange
  category : Category
  parent : Option Nat := none
  properties : List StructureProperty := []
  token : Option TokenInfo := none
deriving DecidableEq, Repr

/-- A record on one line. -/
def Record.line (r : Record) : String :=
  toString r.id ++ " " ++ r.label ++ " "
    ++ toString r.range.startRow ++ ":" ++ toString r.range.startColumn ++ "-"
    ++ toString r.range.endRow ++ ":" ++ toString r.range.endColumn
    ++ " parent=" ++ ((r.parent.map toString).getD "None")

/-! ## Structures -/

/-- The listing of a structure. -/
structure NodeStructure where
  properties : List StructureProperty
  isCollection : Bool := false
deriving DecidableEq, Repr

namespace Tree

/-- The line of a slot. -/
def slotProperty (name : String) : Option Tree → Except Violation StructureProperty
  | none => .ok { name, value := some ⟨"nil", none⟩ }
  | some (.token t) =>
    .ok { name, value := some ⟨Markup.escape t.text, some t.kind.description⟩ }
  | some (.foreign value) =>
    .ok { name, value := some ⟨Markup.escape value.display, none⟩ }
  | some (.node kind slots items state) => do
    let e ← Tree.entry (.node kind slots items state)
    pure { name, value := some ⟨e.displayName, none⟩, ref := some e.displayName }

/-- The structure of a tree by an entry: the slots of a layout, the element
and count of a collection, and nothing for a choice. -/
def structureBy (e : Entry) (t : Tree) : Except Violation NodeStructure :=
  match e.shape with
  | .layout slots => do
    if t.isToken then pure ⟨[], false⟩
    else
      let properties ← slots.mapM fun s => slotProperty s.name (t.child? s.name)
      pure ⟨properties, false⟩
  | .collection element => do
    let count := (← t.knownChildren).length
    pure ⟨[
      { name := "Element", value := some ⟨Markup.escape (element ++ nodeSuffix), none⟩ },
      { name := "Count", value := some ⟨toString count, none⟩ }], true⟩
  | .choice _ => .ok ⟨[], false⟩

/-- The violation of a kind whose shape is none of the known ones. -/
def unsupportedShape (shape kind : String) : Violation :=
  .unsupportedShape (Text.debugQuoted shape) kind

/-! ## The records of a tree -/

/-- The record of a node without what is below it. -/
def nodeRecord (map : LineMap) (parent : Option Nat) (id : Nat) (t : Tree) :
    Except Violation Record := do
  let e ← t.entry
  let s ← t.structureBy e
  pure {
    id, parent
    label := Markup.escape (Markup.className e.name)
    range := map.range t.start t.stop
    category := if s.isCollection then .collection else e.category
    properties := s.properties }

end Tree

/-- Trivia on a page, with its blanks shown. -/
def Markup.trivia (pieces : List TriviaPiece) : String :=
  String.join (pieces.map fun p => Markup.showMarks (Markup.piece p))

/-- The record of a token. A missing token is labelled only if asked for. -/
def Token.record (map : LineMap) (showMissing : Bool) (parent : Option Nat) (id : Nat)
    (t : Token) : Record where
  id := id
  parent := parent
  label := Markup.label (if t.isMissing && !showMissing then "" else t.text)
  range := map.range t.position t.endPosition
  category := .other
  token := some {
    kind := t.kind.description
    leading := Markup.trivia t.leading
    trailing := Markup.trivia t.trailing }

namespace Tree

mutual

/-- The records of a tree, numbered from `id` on. -/
def recordsFrom (map : LineMap) (showMissing : Bool) (parent : Option Nat) (id : Nat) :
    Tree → Except Violation (List Record)
  | .token t => .ok [t.record map showMissing parent id]
  | .node kind slots items state => do
    let first ← nodeRecord map parent id (.node kind slots items state)
    let rest ←
      if kind.isLayout then slotRecords map showMissing id (id + 1) slots
      else itemRecords map showMissing id (id + 1) items
    pure (first :: rest)
  | .foreign _ => .ok []

def slotRecords (map : LineMap) (showMissing : Bool) (parent id : Nat) :
    List (String × Tree) → Except Violation (List Record)
  | [] => .ok []
  | (_, t) :: rest => do
    let first ← t.recordsFrom map showMissing (some parent) id
    let others ← slotRecords map showMissing parent (id + first.length) rest
    pure (first ++ others)

def itemRecords (map : LineMap) (showMissing : Bool) (parent id : Nat) :
    List Tree → Except Violation (List Record)
  | [] => .ok []
  | t :: rest => do
    let first ← t.recordsFrom map showMissing (some parent) id
    let others ← itemRecords map showMissing parent (id + first.length) rest
    pure (first ++ others)

end

/-- The records of a whole tree. -/
def records (map : LineMap) (showMissing : Bool) (t : Tree) : Except Violation (List Record) :=
  t.recordsFrom map showMissing none 0

/-! ## Walking -/

mutual

/-- The visits of a walk: before and after every tree, and at every token. -/
def walk : Tree → List String
  | .token t => ["pre " ++ Entry.token.name, "token " ++ t.text, "post " ++ Entry.token.name]
  | .node kind slots items _ =>
    ("pre " ++ kind.name) ::
      (if kind.isLayout then walkSlots slots else walkItems items) ++ ["post " ++ kind.name]
  | .foreign _ => []

def walkSlots : List (String × Tree) → List String
  | [] => []
  | (_, t) :: rest => t.walk ++ walkSlots rest

def walkItems : List Tree → List String
  | [] => []
  | t :: rest => t.walk ++ walkItems rest

end

end Tree

end SyntaxAtlas
