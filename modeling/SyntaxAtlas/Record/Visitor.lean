-- The visitor: it walks through a tree and keeps a count, the records so far and the
-- nodes that are open. What it collects is the list of records of the tree.

import SyntaxAtlas.Record

namespace SyntaxAtlas

/-- What the visitor keeps on the way: the records so far, the numbers of the open nodes,
the innermost one first, and the next number. -/
structure Visitor where
  output : List Record := []
  opened : List Nat := []
  next : Nat := 0

namespace Visitor

variable (map : LineMap) (showMissing : Bool)

/-- Opens a tree. Its record is written below the innermost open node. -/
def enter (t : Tree) (v : Visitor) : Except Violation Visitor := do
  let r ← t.nodeRecord map v.opened.head? v.next
  pure { output := v.output ++ [r], opened := v.next :: v.opened, next := v.next + 1 }

/-- Writes what a token adds into the record of the innermost open tree. -/
def addToken (u : Token) (v : Visitor) : Visitor :=
  match v.opened with
  | [] => v
  | id :: _ =>
    let full := u.record map showMissing none id
    { v with output := v.output.modify id fun r => { r with
        label := full.label, token := full.token } }

/-- Closes the innermost open tree. -/
def leave (v : Visitor) : Visitor := { v with opened := v.opened.tail }

mutual

/-- Walks through a tree: opens it, walks through its children, and closes it. -/
def walk : Tree → Visitor → Except Violation Visitor
  | .token u, v => do
    let v ← v.enter map (.token u)
    pure (v.addToken map showMissing u).leave
  | .node kind slots items state, v => do
    let v ← v.enter map (.node kind slots items state)
    let v ← if kind.isLayout then walkSlots slots v else walkItems items v
    pure v.leave
  | .foreign _, v => .ok v

def walkSlots : List (String × Tree) → Visitor → Except Violation Visitor
  | [], v => .ok v
  | (_, t) :: rest, v => do
    let v ← walk t v
    walkSlots rest v

def walkItems : List Tree → Visitor → Except Violation Visitor
  | [], v => .ok v
  | t :: rest, v => do
    let v ← walk t v
    walkItems rest v

end

/-- The records that a new visitor collects in a tree. -/
def visit (t : Tree) : Except Violation (List Record) := (walk map showMissing t {}).map (·.output)

/-! ## What the visitor collects -/

/-- The visitor after some more records, with the same nodes open. -/
def after (v : Visitor) (rs : List Record) : Visitor :=
  { v with output := v.output ++ rs, next := v.next + rs.length }

variable {map showMissing}

theorem after_nil (v : Visitor) : v.after [] = v := by simp [after]

theorem after_append (v : Visitor) (rs more : List Record) :
    (v.after rs).after more = v.after (rs ++ more) := by
  simp [after, Nat.add_assoc]

/-- The record of a token is the record of a tree with the token written into it. -/
theorem walk_token (u : Token) (v : Visitor) (counted : v.output.length = v.next) :
    walk map showMissing (.token u) v =
      .ok (v.after [u.record map showMissing v.opened.head? v.next]) := by
  simp only [walk, enter, Tree.nodeRecord, Tree.entry, Tree.structureBy, Entry.token, Tree.isToken,
    Tree.start, Tree.stop, bind, Except.bind, pure, Except.pure, if_true, addToken, leave, after]
  simp [← counted, List.modify_eq_take_drop, Token.record]

mutual

/-- The visitor goes on from any state: it writes the records of a tree below the innermost
open node, numbered from the next number on, and leaves the open nodes as they were. -/
theorem walk_eq (t : Tree) (v : Visitor) (counted : v.output.length = v.next) :
    walk map showMissing t v =
      (t.recordsFrom map showMissing v.opened.head? v.next).map v.after := by
  match t with
  | .token u => exact walk_token u v counted
  | .foreign value => simp [walk, Tree.recordsFrom, Except.map, after_nil]
  | .node kind slots items state =>
    simp only [walk, Tree.recordsFrom, enter]
    rcases Tree.nodeRecord map v.opened.head? v.next (.node kind slots items state) with e | r
    · rfl
    -- Inside the node its own number is the innermost open one.
    let inner : Visitor :=
      { output := v.output ++ [r], opened := v.next :: v.opened, next := v.next + 1 }
    have counts : inner.output.length = inner.next := by simp [inner, counted]
    have back : ∀ rs, (inner.after rs).leave = v.after (r :: rs) := by
      intro rs
      simp [inner, after, leave, Nat.add_assoc, Nat.add_comm 1]
    have slotted := walkSlots_eq slots v.next inner counts rfl
    have listed := walkItems_eq items v.next inner counts rfl
    simp only [bind, Except.bind, pure, Except.pure]
    by_cases layout : kind.isLayout = true
    · simp only [layout, if_true]
      rw [show walkSlots map showMissing slots _ = _ from slotted]
      cases Tree.slotRecords map showMissing v.next (v.next + 1) slots with
      | error e => rfl
      | ok rs => exact congrArg Except.ok (back rs)
    · simp only [layout, Bool.false_eq_true, if_false]
      rw [show walkItems map showMissing items _ = _ from listed]
      cases Tree.itemRecords map showMissing v.next (v.next + 1) items with
      | error e => rfl
      | ok rs => exact congrArg Except.ok (back rs)

theorem walkSlots_eq (slots : List (String × Tree)) (parent : Nat) (v : Visitor)
    (counted : v.output.length = v.next) (opened : v.opened.head? = some parent) :
    walkSlots map showMissing slots v =
      (Tree.slotRecords map showMissing parent v.next slots).map v.after := by
  match slots with
  | [] => simp [walkSlots, Tree.slotRecords, Except.map, after_nil]
  | (_, t) :: rest =>
    simp only [walkSlots, Tree.slotRecords]
    rw [walk_eq t v counted, opened]
    rcases t.recordsFrom map showMissing (some parent) v.next with e | first
    · rfl
    have others : walkSlots map showMissing rest (v.after first) =
        (Tree.slotRecords map showMissing parent (v.next + first.length) rest).map
          (v.after first).after :=
      walkSlots_eq rest parent (v.after first) (by simp [after, counted]) opened
    simp only [Except.map, bind, Except.bind, pure, Except.pure] at others ⊢
    rw [others]
    cases Tree.slotRecords map showMissing parent (v.next + first.length) rest with
    | error e => rfl
    | ok more => exact congrArg Except.ok (after_append v first more)

theorem walkItems_eq (items : List Tree) (parent : Nat) (v : Visitor)
    (counted : v.output.length = v.next) (opened : v.opened.head? = some parent) :
    walkItems map showMissing items v =
      (Tree.itemRecords map showMissing parent v.next items).map v.after := by
  match items with
  | [] => simp [walkItems, Tree.itemRecords, Except.map, after_nil]
  | t :: rest =>
    simp only [walkItems, Tree.itemRecords]
    rw [walk_eq t v counted, opened]
    rcases t.recordsFrom map showMissing (some parent) v.next with e | first
    · rfl
    have others : walkItems map showMissing rest (v.after first) =
        (Tree.itemRecords map showMissing parent (v.next + first.length) rest).map
          (v.after first).after :=
      walkItems_eq rest parent (v.after first) (by simp [after, counted]) opened
    simp only [Except.map, bind, Except.bind, pure, Except.pure] at others ⊢
    rw [others]
    cases Tree.itemRecords map showMissing parent (v.next + first.length) rest with
    | error e => rfl
    | ok more => exact congrArg Except.ok (after_append v first more)

end

/-- A new visitor collects the records of a tree. -/
theorem visit_eq_records (map : LineMap) (showMissing : Bool) (t : Tree) :
    visit map showMissing t = t.records map showMissing := by
  rw [visit, walk_eq t {} rfl]
  cases records : t.recordsFrom map showMissing none 0 with
  | error e => simp [Tree.records, records, Except.map]
  | ok rs => simp [Tree.records, records, Except.map, after]

end Visitor

end SyntaxAtlas
