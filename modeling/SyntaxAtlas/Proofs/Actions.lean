-- What the rows of the automaton are looked through for. Where a rule is entered from a state,
-- each of its alternatives leads to a row that reduces it before whatever follows the rule there.
-- The only exceptions are the terminals with which the parser goes on instead.

import Mathlib.Algebra.Ring.Nat
import SyntaxAtlas.Folding
import SyntaxAtlas.Parse
import SyntaxAtlas.Proofs.Swift

namespace SyntaxAtlas

open Automaton (firstOf firstSets nullableRules isNullable)

namespace Grammar

/-- The terminals that a rule can start with. -/
def firsts (r : Rule) : TerminalSet := firstSets.getD r.code 0

/-- The terminals before which the parser goes on behind a production, as it could shift. An
operator goes on with an expression, a bracket with what can be called, and all that starts an
expression with a bare `return`. -/
def goesOn (p : Production) : TerminalSet :=
  match p with
  | ⟨.expression, _⟩ => .of .operator
  | ⟨.group .prefixExpr, [.rule (.group .postfixExpr)]⟩ =>
    .of (.mark .leftParen) ||| .of (.mark .leftSquare)
  | ⟨.node .returnStmt, [_]⟩ => firsts .expression
  | _ => 0

end Grammar

open Grammar

/-- Behind these rules a rule that is reduced from nothing can follow: the modifiers of the next
declaration. -/
def Rule.opens : Rule → Bool
  | .repetition .codeBlockItems | .repetition .memberBlockItems => true
  | _ => false

/-! ## The actions of a row -/

/-- Where a row leads over a symbol. -/
def Row.leads? (row : Row) : Symbol → Option Nat
  | .terminal t => row.shifts.lookup t
  | .rule r => row.goto? r

namespace Automaton

/-- The terminals that a row shifts. -/
def shiftSet (row : Row) : TerminalSet := row.shifts.foldl (fun set e => set ||| .of e.1) 0

/-- Reductions that give a production before each of the wanted terminals. What is taken is not
for them, and neither is what an earlier reduction takes. -/
def givesFor (want : TerminalSet) (p : Production) :
    TerminalSet → List (Production × TerminalSet) → Bool
  | _, [] => want == 0
  | taken, (q, set) :: rest =>
    if q = p then want ||| set == set && want &&& taken == 0
    else givesFor want p (taken ||| set) rest

/-- The terminals of one set without those of another. -/
def without (set out : TerminalSet) : TerminalSet := set ^^^ (set &&& out)

/-- A row reduces a production before these terminals. -/
def reducesBefore (row : Row) (p : Production) (set : TerminalSet) : Bool :=
  givesFor (without set (goesOn p)) p (shiftSet row) row.reductions

/-! ## The states behind a body -/

section Followed

variable (row : Nat → Row) (follow : Nat → Rule → TerminalSet)

/-- The state behind the symbols of a body. In front of each rule on the way the state is known
to be followed by what the symbols behind the rule start with, and where they can be empty by
what is behind the body. -/
def behind? (after : TerminalSet) : Nat → List Symbol → Option Nat
  | state, [] => some state
  | state, s :: rest =>
    ((row state).leads? s).bind fun n =>
      match s with
      | .terminal _ => behind? after n rest
      | .rule r =>
        let next := firstOf firstSets rest ||| if isNullable nullableRules rest then after else 0
        if next ||| follow state r = follow state r then behind? after n rest else none

/-- A state that a rule leads from carries an alternative of the rule: it leads over the symbols
to a row that reduces them. -/
def carries (state : Nat) (r : Rule) (body : List Symbol) : Bool :=
  match behind? row follow (follow state r) state body with
  | none => false
  | some last => reducesBefore (row last) ⟨r, body⟩ (follow state r)

/-- The start leads over a whole file to where the start rule is reached at the end of the
input. -/
def startsRight : Bool :=
  match (row 0).leads? (.rule (.node .sourceFile)) with
  | none => false
  | some n => (follow 0 (.node .sourceFile)).has .endOfInput &&
      (row n).action? .endOfInput == some (.reduce ⟨.start, [.rule (.node .sourceFile)]⟩)

/-- What is looked for where a state leads over a rule. -/
def entersRight (state : Nat) (r : Rule) (n : Nat) : Bool :=
  r != .start && (r.opens || (row n).reductions.all fun e => !e.1.body.isEmpty) &&
    (alternatives r).all (carries row follow state r)

end Followed

/-! ## All rows -/

/-- The rows by their numbers. A row of the array is found by counting up to it, which is too
slow where each row is asked for many times. -/
def rowMap (a : Automaton) : NumberMap Row :=
  a.rows.toList.zipIdx.foldl (fun map (row, n) => map.modify n fun _ => row) .empty

def mappedRow (a : Automaton) (state : Nat) : Row := (a.rowMap.get? state).getD default

def isComplete (a : Automaton) (follow : Nat → Rule → TerminalSet) : Bool :=
  decide (a.rows.size ≤ 2 ^ NumberMap.keyBits) && startsRight a.mappedRow follow &&
    a.rows.toList.zipIdx.all fun (row, state) =>
      row.gotos.all fun (r, n) => entersRight a.mappedRow follow state r n

/-! ## The items of the states -/

/-- The items with the dot in front of a body, but for that of the start rule. -/
def frontItems : ItemSet :=
  numbered.foldl (fun set (i, p) => if p.rule ≠ .start then set ||| 1 <<< (8 * i) else set) 0

/-- One set of items is part of another. -/
def isPart (set whole : ItemSet) : Bool := set ||| whole == whole

section Carried

variable (items : Nat → ItemSet) (before : Symbol → ItemSet)

/-- Nothing leads back to the start or past the last row. A state that another leads to has the
items whose dot moves over the symbol, and items with the dot in front. -/
def handsOn (rows state : Nat) (s : Symbol) (n : Nat) : Bool :=
  n != 0 && decide (n < rows) && isPart (items n) ((items state &&& before s) <<< 1 ||| frontItems)

/-- A production is reduced where the dot is behind its body, and that of the start rule at the
end of the input only. -/
def reducesRight (state : Nat) (e : Production × TerminalSet) : Bool :=
  (numbered.any fun (i, p) => (items state).testBit (8 * i + p.body.length) && p == e.1) &&
    (e.1.rule != .start || e.2 == .of .endOfInput)

/-- A row leads over every rule whose alternatives the items open. -/
def leadsOn (row : Row) (set : ItemSet) : Bool :=
  rules.all fun r => r == .start || set &&& openings r == 0 || (row.goto? r).isSome

/-- Every row does what its items say. -/
def isSafe (a : Automaton) : Bool :=
  decide (0 < a.rows.size) && isPart (items 0) (1 ||| frontItems) &&
    a.rows.toList.zipIdx.all fun (row, state) =>
      (row.shifts.all fun (t, n) => handsOn items before a.rows.size state (.terminal t) n) &&
        (row.gotos.all fun (r, n) => handsOn items before a.rows.size state (.rule r) n) &&
          row.reductions.all (reducesRight items state) && leadsOn row (items state)

end Carried

end Automaton

/-! ## The automaton of the grammar, run

Building its rows takes most of the time, so all that is decided by running it is decided at
once. -/

/-- A name inside 36 parentheses. -/
def nested : String :=
  "((((((((((((((((((((((((((((((((((((x))))))))))))))))))))))))))))))))))))"

/-- Sources with and without faults: one with a stray character, a token too few and a
token too many, one without faults, one that cannot be completed, and one with faults
inside an operator sequence, which can be folded. -/
def SamplesParse (parse : Nat → String → String → Except ParseFailure Parsed) : Prop :=
  ((parse 3 standardFile "f($\"a\" ]").toOption.map (·.recoveries) = some 3 ∧
    (parse 3 standardFile "x = \"é\" $+ (b ] * c").toOption.map
      (fun p => (p.root.foldAll .standard).failure.isNone) = some true) ∧
    (parse 0 standardFile "static variable").toOption.map
        (·.root.tokens.map fun t => (t.terminal, t.text, t.presence, t.position)) =
      some [(.keyword .staticWord, "static", .present, 0),
        (.keyword .varWord, "var", .present, 7), (.identifier, "iable", .present, 10),
        (.endOfFile, "", .present, 15)] ∧
    (match parse 1 standardFile "static" with
      | .error (.rejected r) => some r.gaveUpAfter
      | _ => none) = some none ∧
    (parse 3 standardFile "x = \"é\" $+ (b ] * c").toOption.map
      (fun p => (p.recoveries, (p.root.foldAll .standard).folded)) = some (3, 1) ∧
    (parse 0 standardFile "(a + b) == c == d").toOption.map
      (fun p => ((p.root.foldAll .standard).failure.isNone, (p.root.foldAll .standard).folded)) =
        some (false, 1) ∧
    (parse standardBudget standardFile nested).toOption.map
      (fun p => decide (1000 < p.root.copyCalls)) = some true

/-- A source whose texts are apart, and what is read in it: a range of a string with a blank in
it and a number with a point. -/
def SampleReads (a : Automaton) : Prop :=
  (Recovery.parse a 0 "let a = \"b c\" ... 2.5".toList).toOption.map (·.1.yield) =
    some [.read (.keyword .letWord) "let" 0, .read .identifier "a" 4,
      .read (.mark .equal) "=" 6, .read .string "\"b c\"" 8, .read .operator "..." 14,
      .read .float "2.5" 18]

/-- Every row is there and does what its items say, and this is made of some sources. -/
def Automaton.Evaluates (a : Automaton) (follow : Nat → Rule → TerminalSet) (items : Nat → ItemSet)
    (before : Symbol → ItemSet) : Prop :=
  a.isComplete follow = true ∧ SamplesParse (parseWith a) ∧ SampleReads a ∧
    Automaton.isSafe items before a = true

set_option maxRecDepth 100000 in
theorem Automaton.Swift.ofGrammar_evaluates :
    Evaluates ofGrammar (fun state r => followsAt follows (Automaton.hop state r)) itemsAt
      dotted := by
  unfold Evaluates SamplesParse SampleReads
  decide +kernel

/-- The rows of the automaton, looked through, and what it makes of some sources. -/
theorem ofGrammar_evaluated :
    Automaton.ofGrammar.Evaluates (fun state r => Automaton.follows.at (Automaton.hop state r))
      Automaton.itemsAt Automaton.dotted := by
  have run := Automaton.Swift.ofGrammar_evaluates
  simp only [Automaton.Swift.followsAt_eq, Automaton.Swift.follows_eq] at run
  rwa [Automaton.Swift.ofGrammar_eq, funext Automaton.Swift.dotted_eq,
    Automaton.Swift.itemsAt_eq] at run

theorem sample_parses : SamplesParse parse := ofGrammar_evaluated.2.1

theorem sample_reads : SampleReads .ofGrammar := ofGrammar_evaluated.2.2.1

end SyntaxAtlas
