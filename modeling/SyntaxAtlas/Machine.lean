-- The parser's stack and what a terminal does to it. Feeding a terminal reduces
-- until it can be shifted, until the input is accepted, or until no action is
-- left.

import SyntaxAtlas.Grammar.Automaton
import SyntaxAtlas.Grammar.Derivation

namespace SyntaxAtlas

/-- An entry of the stack: a state and the parse tree that led to it. -/
structure Frame where
  state : Nat
  tree : ParseTree
deriving Repr

/-- The stack of the parser, top first. -/
abbrev Stack := List Frame

namespace Stack

/-- The state on top. The bottom is the start state. -/
def state : Stack → Nat
  | [] => 0
  | frame :: _ => frame.state

/-- The tokens below the trees of the stack, in the order of the source. -/
def yield : Stack → List Leaf
  | [] => []
  | frame :: rest => Stack.yield rest ++ frame.tree.yield

/-- The top `n` trees, deepest first. -/
def trees (stack : Stack) (n : Nat) : List ParseTree := ((stack.take n).map (·.tree)).reverse

/-- Puts a node in the place of the trees of its body. The trees must spell
the body. -/
def reduce (a : Automaton) (p : Grammar.Production) (stack : Stack) : Option Stack :=
  let popped := Stack.trees stack p.body.length
  let below := stack.drop p.body.length
  if popped.map ParseTree.symbol = p.body then
    ((a.row (Stack.state below)).goto? p.rule).map fun state => ⟨state, .node p.rule popped⟩ :: below
  else none

end Stack

/-- What came of feeding a terminal. -/
inductive Fed
  | shifted (stack : Stack)
  | accepted (tree : ParseTree)
  | stuck (stack : Stack)
deriving Repr

namespace Automaton

/-- Feeds a leaf, with at most `fuel` steps. The start rule is not reduced:
what stands on the stack then is the whole file. -/
def feedWith (a : Automaton) (terminal : Terminal) (leaf : Leaf) : Nat → Stack → Fed
  | 0, stack => .stuck stack
  | fuel + 1, stack =>
    match (a.row (Stack.state stack)).action? terminal with
    | none => .stuck stack
    | some (.shift state) => .shifted (⟨state, .leaf leaf⟩ :: stack)
    | some (.reduce p) =>
      if p.rule = .start then
        match stack with
        | [frame] => .accepted frame.tree
        | _ => .stuck stack
      else
        match Stack.reduce a p stack with
        | none => .stuck stack
        | some stack => feedWith a terminal leaf fuel stack

/-- Enough steps to feed one terminal: every tree on the stack is part of a
chain of rules that is shorter than the number of rules. -/
def feedSteps (stack : Stack) : Nat := 100 * (stack.length + 1)

/-- Feeds a leaf. -/
def feed (a : Automaton) (leaf : Leaf) (stack : Stack) : Fed :=
  a.feedWith leaf.terminal leaf (feedSteps stack) stack

/-- Feeds the end of the input. -/
def feedEnd (a : Automaton) (stack : Stack) : Fed := a.feed (.inserted .endOfInput) stack

/-- A terminal that the parser can take from here, after reductions. -/
def takes (a : Automaton) (stack : Stack) (t : Terminal) : Bool :=
  match a.feed (.inserted t) stack with
  | .stuck _ => false
  | _ => true

/-- The terminals of the row on top. -/
def rowTerminals (a : Automaton) (stack : Stack) : List Terminal :=
  (a.row (Stack.state stack)).terminals

/-- The terminals of the row on top that the parser can take. -/
def acceptable (a : Automaton) (stack : Stack) : List Terminal :=
  (a.rowTerminals stack).filter (a.takes stack)

end Automaton

end SyntaxAtlas
