-- JSON: the values that records are written as, and their text. Fields keep
-- their order.

import SyntaxAtlas.Record
import SyntaxAtlas.Text.Quoted

namespace SyntaxAtlas

/-- A JSON value. -/
inductive JsonValue
  | number (n : Int)
  | text (s : String)
  | array (items : List JsonValue)
  | object (fields : List (String × JsonValue))
deriving Repr

namespace JsonValue

instance : Inhabited JsonValue := ⟨.array []⟩

/-- How a value is laid out: what stands behind a comma and a colon, and the
indentation of one level when each item has its own line. -/
structure Layout where
  comma : String
  colon : String
  indent : Option Int
deriving DecidableEq, Repr

/-- On one line without blanks. -/
def Layout.compact : Layout := ⟨",", ":", none⟩

/-- On one line with blanks. -/
def Layout.spaced : Layout := ⟨", ", ": ", none⟩

/-- One item on each line. -/
def Layout.indented (width : Int) : Layout := ⟨",", ": ", some width⟩

/-- A new line at a depth, when each item has its own. -/
def Layout.newline (layout : Layout) (depth : Nat) : String :=
  match layout.indent with
  | none => ""
  | some width => "\n" ++ String.ofList (List.replicate (width * depth).toNat ' ')

/-- Items between brackets. -/
def Layout.enclose (layout : Layout) (depth : Nat) (opening closing : String)
    (items : List String) : String :=
  if items.isEmpty then opening ++ closing
  else
    opening ++ layout.newline (depth + 1)
      ++ String.intercalate (layout.comma ++ layout.newline (depth + 1)) items
      ++ layout.newline depth ++ closing

mutual

/-- The text of a value at a depth. -/
def write (layout : Layout) (depth : Nat) : JsonValue → String
  | .number n => toString n
  | .text s => Text.jsonQuoted s
  | .array items => layout.enclose depth "[" "]" (writeItems layout (depth + 1) items)
  | .object fields =>
    layout.enclose depth "\x7b" "\x7d" (writeFields layout (depth + 1) fields)

def writeItems (layout : Layout) (depth : Nat) : List JsonValue → List String
  | [] => []
  | v :: rest => v.write layout depth :: writeItems layout depth rest

def writeFields (layout : Layout) (depth : Nat) : List (String × JsonValue) → List String
  | [] => []
  | (name, v) :: rest =>
    (Text.jsonQuoted name ++ layout.colon ++ v.write layout depth)
      :: writeFields layout depth rest

end

/-- A field that is left out when there is no value. -/
def optionalField (name : String) (value : Option JsonValue) : List (String × JsonValue) :=
  (value.map (name, ·)).toList

end JsonValue

/-! ## Records -/

def StructureValue.json (v : StructureValue) : JsonValue :=
  .object <| ("text", .text v.text) :: JsonValue.optionalField "kind" (v.kind.map .text)

def StructureProperty.json (p : StructureProperty) : JsonValue :=
  .object <| ("name", .text p.name)
    :: JsonValue.optionalField "value" (p.value.map (·.json))
    ++ JsonValue.optionalField "ref" (p.ref.map .text)

def SourceRange.json (r : SourceRange) : JsonValue :=
  .object [
    ("startRow", .number r.startRow), ("startColumn", .number r.startColumn),
    ("endRow", .number r.endRow), ("endColumn", .number r.endColumn)]

def TokenInfo.json (t : TokenInfo) : JsonValue :=
  .object [
    ("kind", .text t.kind), ("leadingTrivia", .text t.leading),
    ("trailingTrivia", .text t.trailing)]

def Record.json (r : Record) : JsonValue :=
  .object <| ("id", .number r.id)
    :: JsonValue.optionalField "parent" (r.parent.map fun p => .number p)
    ++ [("label", .text r.label), ("range", r.range.json),
      ("category", .text r.category.name), ("structure", .array (r.properties.map (·.json)))]
    ++ JsonValue.optionalField "tokenInfo" (r.token.map (·.json))

/-- Records as JSON text, on one line unless an indentation is given. -/
def encodeRecords (records : List Record) (indent : Option Int) : String :=
  let layout := match indent with
    | none => JsonValue.Layout.compact
    | some width => .indented width
  (JsonValue.array (records.map (·.json))).write layout 0

end SyntaxAtlas
