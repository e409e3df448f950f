-- The syntax tree. A node keeps its children in named slots or in a list of
-- items; its kind says which of the two it shows. The tokens in tree order,
-- with their trivia, are the source text again.

import SyntaxAtlas.Catalog
import SyntaxAtlas.Datum
import SyntaxAtlas.Token
import SyntaxAtlas.Violation

namespace SyntaxAtlas

/-- A range of the source, in bytes. -/
structure Span where
  start : Int := 0
  stop : Int := 0
deriving DecidableEq, Repr

/-- What a node keeps beside its children: its span, and the names of its slots
in the order in which they were first filled. A slot that a replacement emptied
keeps its name there. -/
structure NodeState where
  span : Span := {}
  order : List String := []
deriving DecidableEq, Repr

/-- A tree: a token, a node, or in place of a child plain data that is no
syntax. The slots of a node stand in the order of the catalog. -/
inductive Tree
  | token (t : Token)
  | node (kind : Kind) (slots : List (String × Tree)) (items : List Tree) (state : NodeState)
  | foreign (value : Datum)
deriving Repr

namespace Tree

/-! ## Making nodes -/

/-- A node with its slots filled one after the other, and with its span set. -/
def layoutAt (span : Span) (kind : Kind) (slots : List (String × Tree)) : Tree :=
  .node kind slots [] { span, order := slots.map (·.1) }

/-- A node with its slots filled. -/
def layout (kind : Kind) (slots : List (String × Tree)) : Tree := layoutAt {} kind slots

/-- A node with a list of items. -/
def collection (kind : Kind) (items : List Tree) : Tree := .node kind [] items {}

/-- A node that holds one of the alternatives of its kind. -/
def choice (kind : Kind) (selected : Tree) : Tree := .node kind [] [selected] {}

/-- The mark of an item that was taken out. Its place stays. -/
def vacant : Tree := .foreign .absent

instance : Inhabited Tree := ⟨vacant⟩

/-! ## Looking at a tree -/

def isToken : Tree → Bool
  | token _ => true
  | _ => false

def isVacant : Tree → Bool
  | foreign .absent => true
  | _ => false

def start : Tree → Int
  | token t => t.position
  | node _ _ _ state => state.span.start
  | foreign _ => 0

def stop : Tree → Int
  | token t => t.endPosition
  | node _ _ _ state => state.span.stop
  | foreign _ => 0

/-- The name that a tree has in listings: its kind, or `Token`. -/
def kindName : Tree → String
  | token _ => Entry.token.name
  | node kind _ _ _ => kind.name
  | foreign value => value.display

/-- The catalog entry of a tree. -/
def entry : Tree → Except Violation Entry
  | node kind _ _ _ =>
    match kind.catalogued with
    | some e => .ok e
    | none => .error (.unknownKind kind.name)
  | _ => .ok Entry.token

/-- The children in source order: the filled slots of a layout, otherwise the
items. -/
def children : Tree → List Tree
  | node kind slots items _ => if kind.isLayout then slots.map (·.2) else items
  | _ => []

/-- The items of a node, whatever its kind. -/
def items : Tree → List Tree
  | node _ _ items _ => items
  | _ => []

/-- The child in a slot. -/
def child? (name : String) : Tree → Option Tree
  | node _ slots _ _ => slots.lookup name
  | _ => none

/-- The children of a tree of a known kind. -/
def knownChildren (t : Tree) : Except Violation (List Tree) :=
  t.entry.map fun _ => t.children

/-- A tree for the debugger. -/
def description (t : Tree) : Except Violation String :=
  match t with
  | token tok => .ok tok.description
  | node kind _ _ _ => do
    let cs ← t.knownChildren
    pure ("SyntaxNode(" ++ kind.name ++ ", " ++ toString cs.length ++ " children)")
  | foreign value => .ok value.written

/-! ## Tokens -/

mutual

/-- The tokens of a tree, in order. -/
def tokens : Tree → List Token
  | .token t => [t]
  | .node kind slots items _ => if kind.isLayout then slotTokens slots else itemTokens items
  | .foreign _ => []

/-- The tokens of the slots, in order. -/
def slotTokens : List (String × Tree) → List Token
  | [] => []
  | (_, t) :: rest => t.tokens ++ slotTokens rest

/-- The tokens of the items, in order. -/
def itemTokens : List Tree → List Token
  | [] => []
  | t :: rest => t.tokens ++ itemTokens rest

end

/-- The source text of a tree. -/
def fullText (t : Tree) : String := String.join (t.tokens.map (·.fullText))

mutual

/-- Stops at the first kind, in pre-order, that has no entry. -/
def checkKinds : Tree → Except Violation Unit
  | .node kind slots items _ =>
    match kind.catalogued with
    | none => .error (.unknownKind kind.name)
    | some _ => if kind.isLayout then checkSlots slots else checkItems items
  | _ => .ok ()

def checkSlots : List (String × Tree) → Except Violation Unit
  | [] => .ok ()
  | (_, t) :: rest => t.checkKinds.bind fun _ => checkSlots rest

def checkItems : List Tree → Except Violation Unit
  | [] => .ok ()
  | t :: rest => t.checkKinds.bind fun _ => checkItems rest

end

/-- Every kind in a tree has an entry. -/
def isKnown (t : Tree) : Bool := t.checkKinds.isOk

mutual

/-- The tokens in front of the first kind that has no entry. -/
def reachedTokens : Tree → List Token
  | .token t => [t]
  | .node kind slots items _ =>
    if kind.catalogued.isNone then []
    else if kind.isLayout then slotReachedTokens slots
    else itemReachedTokens items
  | .foreign _ => []

def slotReachedTokens : List (String × Tree) → List Token
  | [] => []
  | (_, t) :: rest => t.reachedTokens ++ if t.isKnown then slotReachedTokens rest else []

def itemReachedTokens : List Tree → List Token
  | [] => []
  | t :: rest => t.reachedTokens ++ if t.isKnown then itemReachedTokens rest else []

end

/-! ## Exchanging the tokens -/

mutual

/-- Puts new tokens in the places of the old ones, in order. Gives the tokens
that are left over. -/
def withTokens : Tree → List Token → Tree × List Token
  | .token t, new =>
    match new with
    | [] => (.token t, [])
    | u :: rest => (.token u, rest)
  | .node kind slots items state, new =>
    if kind.isLayout then
      let (slots, rest) := slotsWithTokens slots new
      (.node kind slots items state, rest)
    else
      let (items, rest) := itemsWithTokens items new
      (.node kind slots items state, rest)
  | .foreign value, new => (.foreign value, new)

def slotsWithTokens : List (String × Tree) → List Token → List (String × Tree) × List Token
  | [], new => ([], new)
  | (name, t) :: rest, new =>
    let (t, new) := t.withTokens new
    let (rest, new) := slotsWithTokens rest new
    ((name, t) :: rest, new)

def itemsWithTokens : List Tree → List Token → List Tree × List Token
  | [], new => ([], new)
  | t :: rest, new =>
    let (t, new) := t.withTokens new
    let (rest, new) := itemsWithTokens rest new
    (t :: rest, new)

end

end Tree

/-! ## Slots and children -/

/-- A slot takes a token by its terminal's name, and a node by `*`, by its
kind or by its category. -/
def Slot.admits (slot : Slot) (child : Tree) : Except Violation Bool :=
  match child with
  | .token t => .ok (slot.accepts.any (·.spelling == t.terminal.name))
  | .node kind _ _ _ =>
    if slot.accepts.any fun a => a == .anyNode || a.spelling == kind.name then .ok true
    else child.entry.map fun e => slot.accepts.contains (.category e.category)
  | .foreign _ => .ok false

end SyntaxAtlas
