-- Changing a node. Setting a slot to nothing forgets the slot. Replacing a
-- child by nothing leaves its place open. To replace nothing is to fill an open
-- place: of the slots the one that was first filled, and items after slots.

import SyntaxAtlas.Tree

namespace SyntaxAtlas

/-! ## The order of the slots -/

namespace NodeState

/-- Notes that a slot was filled. A slot that is known keeps its place. -/
def filled (s : NodeState) (name : String) : NodeState :=
  if s.order.contains name then s else { s with order := s.order ++ [name] }

/-- Forgets a slot. -/
def without (s : NodeState) (name : String) : NodeState :=
  { s with order := s.order.filter (· != name) }

end NodeState

namespace Tree

/-! ## Slots -/

/-- Fills a slot and keeps the slots in the order of the kind. -/
def putSlot (kind : Kind) (name : String) (child : Tree) (slots : List (String × Tree)) :
    List (String × Tree) :=
  kind.slots.filterMap fun s =>
    if s.name == name then some (name, child) else (slots.lookup s.name).map (s.name, ·)

/-- Empties a slot. -/
def dropSlot (name : String) (slots : List (String × Tree)) : List (String × Tree) :=
  slots.filter (·.1 != name)

/-- Fills a slot, or empties it and forgets it. The kind must be known and have
the slot. -/
def setChild (t : Tree) (name : String) (child : Option Tree) : Except Violation Tree :=
  match t with
  | .node kind slots items state => do
    let e ← t.entry
    match e.slot? name, child with
    | none, _ => .error (.noSlot kind.name name)
    | some _, none => .ok (.node kind (dropSlot name slots) items (state.without name))
    | some _, some child =>
      .ok (.node kind (putSlot kind name child slots) items (state.filled name))
  | _ => .error (.noSlot t.kindName name)

/-! ## Paths -/

/-- A step from a node to a child: a slot, or the number of an item. Numbers
below zero count from the end. -/
inductive Step
  | slot (name : String)
  | item (index : Int)
deriving DecidableEq, Repr

/-- The place of an item among `count` items, for a number that may count from
the end. -/
def itemPlace? (count : Nat) (index : Int) : Option Nat :=
  if 0 ≤ index then some index.toNat
  else if 0 ≤ count + index then some (count + index).toNat
  else none

/-- The child that a step leads to. -/
def step? (t : Tree) : Step → Option Tree
  | .slot name => t.child? name
  | .item index =>
    ((itemPlace? t.items.length index).bind (t.items[·]?)).filter (!·.isVacant)

/-- The tree that a path leads to. -/
def at? (t : Tree) : List Step → Option Tree
  | [] => some t
  | s :: path => (t.step? s).bind (·.at? path)

/-! ## Replacing children -/

/-- Puts a tree in the place of the child that a step leads to. -/
def putChild (t : Tree) (step : Step) (new : Tree) : Tree :=
  match t, step with
  | .node kind slots items state, .slot name =>
    .node kind (slots.map fun s => if s.1 == name then (name, new) else s) items state
  | .node kind slots items state, .item index =>
    match itemPlace? items.length index with
    | some place => .node kind slots (items.set place new) state
    | none => .node kind slots items state
  | t, _ => t

/-- Takes the child out that a step leads to. Its place stays open. -/
def dropChild (t : Tree) (step : Step) : Tree :=
  match t, step with
  | .node kind slots items state, .slot name => .node kind (dropSlot name slots) items state
  | t, step => t.putChild step vacant

/-- The open slot: of those that a replacement emptied, the one that was first
filled. -/
def openSlot? : Tree → Option String
  | .node _ slots _ state => state.order.find? fun name => (slots.lookup name).isNone
  | _ => none

/-- Fills an open place, a slot before an item. Nothing leaves it open. -/
def fillOpen (t : Tree) (new : Option Tree) : Except Violation Tree :=
  match t, t.openSlot? with
  | .node kind slots items state, some name =>
    .ok (match new with
      | some new => .node kind (putSlot kind name new slots) items state
      | none => .node kind slots items state)
  | .node kind slots items state, none =>
    match items.findIdx? isVacant with
    | some place => .ok (.node kind slots (items.set place (new.getD vacant)) state)
    | none => .error (.notChild kind.name)
  | t, _ => .error (.notChild t.kindName)

/-- Replaces the child that a path leads to, by nothing to take it out. A path
that leads nowhere stands for a place that is open. No path stands for a tree
from elsewhere. -/
def replaceChild (t : Tree) (path : Option (List Step)) (new : Option Tree) :
    Except Violation Tree :=
  match path with
  | none => .error (.notChild t.kindName)
  | some path =>
    match t.at? path, path with
    | none, _ => t.fillOpen new
    | some _, [s] =>
      .ok (match new with
        | some new => t.putChild s new
        | none => t.dropChild s)
    | some _, _ => .error (.notChild t.kindName)

/-- Changes the tree that a path leads to. -/
def updateAt (t : Tree) (path : List Step) (change : Tree → Except Violation Tree) :
    Except Violation Tree :=
  match path with
  | [] => change t
  | s :: path =>
    match t.step? s with
    | none => .ok t
    | some c => (c.updateAt path change).map (t.putChild s)

end Tree

end SyntaxAtlas
