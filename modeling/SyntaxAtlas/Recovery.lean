-- Parsing with repairs. A token that does not fit is made to fit by putting a
-- missing token before it, or else it is dropped. A character that starts no
-- token is skipped. At the end of the input missing tokens are put in until
-- the file is complete. Each repair is paid from a budget.

import SyntaxAtlas.Lexeme
import SyntaxAtlas.Machine
import SyntaxAtlas.Trivia.Split

namespace SyntaxAtlas

open Lexeme (Cursor)

/-! ## Repairs and faults -/

/-- One repair. -/
inductive Repair
  /-- A character was skipped. -/
  | skipped (c : Char) (offset : Nat)
  /-- A missing token was put in before a terminal. -/
  | inserted (t before : Terminal)
  /-- A token was dropped. -/
  | dropped (l : Lexeme)
deriving DecidableEq, Repr

/-- Why a source cannot be parsed. -/
inductive Fault
  | stray (c : Char) (offset : Nat)
  | unexpected (l : Lexeme) (expected : List Terminal)
  | unfinished (expected : List Terminal)
deriving DecidableEq, Repr

/-- What the repairs so far have come to. -/
structure Session where
  /-- The repairs that the budget still pays for. -/
  left : Nat
  repairs : List Repair := []
  dropped : Trivia.Dropped := []
  /-- The offsets where an identifier was put in. -/
  named : List Nat := []
deriving DecidableEq, Repr

/-- The end of an attempt: the fault that was not repaired, the number of
repairs after which the budget was used up, and the repairs made. -/
structure Rejection where
  fault : Fault
  gaveUpAfter : Option Nat
  repairs : List Repair
deriving DecidableEq, Repr

namespace Session

/-- A fault that the grammar leaves no repair for. -/
def reject (s : Session) (fault : Fault) : Rejection := ⟨fault, none, s.repairs⟩

/-- A fault that there is no budget left for. A budget of nothing is no giving
up. -/
def giveUp (s : Session) (budget : Nat) (fault : Fault) : Rejection :=
  ⟨fault, if budget = 0 then none else some budget, s.repairs⟩

def skip (s : Session) (c : Char) (offset : Nat) : Session :=
  { s with repairs := s.repairs ++ [.skipped c offset] }

def drop (s : Session) (l : Lexeme) : Session :=
  { s with
    repairs := s.repairs ++ [.dropped l]
    dropped := s.dropped ++ [((l.start : Int), (l.stop : Int))] }

def insert (s : Session) (t before : Terminal) (offset : Nat) : Session :=
  { s with
    repairs := s.repairs ++ [.inserted t before]
    named := if t = .identifier then s.named ++ [offset] else s.named }

end Session

/-! ## Putting in missing tokens -/

namespace Recovery

/-- The terminals that may be put in, the preferred ones first. -/
def insertable : List Terminal :=
  [.mark .rightParen, .mark .rightSquare, .mark .rightBrace, .mark .leftBrace, .mark .colon,
    .keyword .inWord, .identifier]

/-- The terminals that may be put in at an offset: one identifier at most. -/
def candidates (named : List Nat) (offset : Nat) : List Terminal :=
  insertable.filter fun t => !(t = .identifier && named.contains offset)

/-- The stack after a missing token is put in. -/
def insertOn (a : Automaton) (stack : Stack) (t : Terminal) : Option (Terminal × Stack) :=
  match a.feed (.inserted t) stack with
  | .shifted stack => some (t, stack)
  | _ => none

/-- The leaf of a lexeme. -/
def leaf (l : Lexeme) : Leaf := .read l.terminal l.text l.start

/-- The stack after a missing token and a lexeme behind it. -/
def insertBefore (a : Automaton) (stack : Stack) (l : Lexeme) (t : Terminal) :
    Option (Terminal × Stack) :=
  (insertOn a stack t).bind fun (t, trial) =>
    match a.feed (leaf l) trial with
    | .shifted stack => some (t, stack)
    | _ => none

/-- Repairs an unexpected lexeme: puts in the first missing token that lets it
follow, otherwise drops it. -/
def repair (a : Automaton) (l : Lexeme) (stack : Stack) (s : Session) : Stack × Session :=
  match (candidates s.named l.start).findSome? (insertBefore a stack l) with
  | some (t, stack) => (stack, s.insert t l.terminal l.start)
  | none => (stack, s.drop l)

/-! ## The end of the input -/

/-- Puts in missing tokens until the input may end. -/
def complete (a : Automaton) (budget size : Nat) (fault : Fault) :
    (left : Nat) → Stack → Session → Except Rejection (ParseTree × Session)
  | left, stack, s =>
    match a.feedEnd stack with
    | .accepted tree => .ok (tree, { s with left })
    | _ =>
      match left with
      | 0 => .error (s.giveUp budget fault)
      | left + 1 =>
        match (candidates s.named size).findSome? (insertOn a stack) with
        | none => .error (s.reject fault)
        | some (t, stack) =>
          complete a budget size fault left stack (s.insert t .endOfInput size)

/-- Ends the input. -/
def finish (a : Automaton) (budget size : Nat) (stack : Stack) (s : Session) :
    Except Rejection (ParseTree × Session) :=
  match a.feedEnd stack with
  | .accepted tree => .ok (tree, s)
  | .shifted stack | .stuck stack =>
    complete a budget size (.unfinished (a.rowTerminals stack)) s.left stack s

/-! ## The whole input -/

/-- The terminals that a source may continue with: those of the row on top,
and all keywords. -/
def wanted (a : Automaton) (stack : Stack) : Lexeme.Wanted
  | .keyword _ => true
  | t => ((a.row stack.state).action? t).isSome

/-- Pays for a repair and goes on with it. -/
def payFor (budget : Nat) (fault : Fault) (s : Session) : Except Rejection Session :=
  match s.left with
  | 0 => .error (s.giveUp budget fault)
  | left + 1 => .ok { s with left }

/-- Parses from a place in the source on. -/
def parseFrom (a : Automaton) (budget size : Nat) (cursor : Cursor) (stack : Stack)
    (s : Session) : Except Rejection (ParseTree × Session) :=
  match _read : cursor.read (wanted a stack) with
  | .finished => finish a budget size stack s
  | .wanted l after =>
    match a.feed (leaf l) stack with
    | .shifted stack => parseFrom a budget size after stack s
    | .accepted _ => .error (s.reject (.unexpected l []))
    | .stuck stack =>
      match payFor budget (.unexpected l (a.rowTerminals stack)) s with
      | .error r => .error r
      | .ok s =>
        let (stack, s) := repair a l stack s
        parseFrom a budget size after stack s
  | .misplaced l after =>
    match payFor budget (.unexpected l (Lexeme.tried (wanted a stack))) s with
    | .error r => .error r
    | .ok s =>
      let (stack, s) := repair a l stack s
      parseFrom a budget size after stack s
  | .stray c offset after =>
    match payFor budget (.stray c offset) s with
    | .error r => .error r
    | .ok s => parseFrom a budget size after stack (s.skip c offset)
termination_by cursor.rest.length
decreasing_by all_goals exact Cursor.read_after_lt (by rw [_read]; rfl)

/-- Parses a source with a budget of repairs. -/
def parse (a : Automaton) (budget : Nat) (source : List Char) :
    Except Rejection (ParseTree × Session) :=
  parseFrom a budget source.length ⟨0, source⟩ [] { left := budget }

end Recovery

end SyntaxAtlas
