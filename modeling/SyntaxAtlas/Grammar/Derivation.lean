-- Parse trees, and which of them the grammar derives.

import SyntaxAtlas.Grammar

namespace SyntaxAtlas

/-- A token as the parser takes it in: read from the source at a character
offset, or put in by recovery. -/
inductive Leaf
  | read (terminal : Terminal) (text : String) (start : Nat)
  | inserted (terminal : Terminal)
deriving DecidableEq, Repr

namespace Leaf

def terminal : Leaf → Terminal
  | read t _ _ => t
  | inserted t => t

def isInserted : Leaf → Bool
  | read .. => false
  | inserted _ => true

end Leaf

/-- A parse tree: a token, or a rule with the trees of one of its alternatives. -/
inductive ParseTree
  | leaf (l : Leaf)
  | node (rule : Rule) (children : List ParseTree)
deriving Repr

namespace ParseTree

instance : Inhabited ParseTree := ⟨.node .start []⟩

/-- The symbol that a parse tree stands for. -/
def symbol : ParseTree → Symbol
  | leaf l => .terminal l.terminal
  | node rule _ => .rule rule

mutual

/-- The tokens of a parse tree, in order. -/
def yield : ParseTree → List Leaf
  | .leaf l => [l]
  | .node _ children => yieldAll children

def yieldAll : List ParseTree → List Leaf
  | [] => []
  | t :: rest => t.yield ++ yieldAll rest

end

end ParseTree

mutual

/-- A parse tree each of whose nodes spells an alternative of its rule. -/
inductive Derived : ParseTree → Prop
  | leaf (l : Leaf) : Derived (.leaf l)
  | node (rule : Rule) (children : List ParseTree)
      (spelled : children.map ParseTree.symbol ∈ Grammar.alternatives rule)
      (all : AllDerived children) : Derived (.node rule children)

inductive AllDerived : List ParseTree → Prop
  | nil : AllDerived []
  | cons (t : ParseTree) (rest : List ParseTree) (first : Derived t) (others : AllDerived rest) :
      AllDerived (t :: rest)

end

/-- The terminals that the grammar derives from a rule. -/
def Derives (rule : Rule) (word : List Terminal) : Prop :=
  ∃ t, Derived t ∧ t.symbol = .rule rule ∧ t.yield.map Leaf.terminal = word

end SyntaxAtlas
