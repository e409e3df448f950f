-- From a source to its tree: parse with repairs, build the nodes, attach the
-- trivia, set the spans.

import SyntaxAtlas.Location
import SyntaxAtlas.Recovery
import SyntaxAtlas.Tree.Attach
import SyntaxAtlas.Tree.Build
import SyntaxAtlas.Tree.Spans

namespace SyntaxAtlas

/-! ## Nodes of a parse tree -/

/-- The token of a leaf. -/
def Leaf.token : Leaf → Token
  | read t text start => .ofText t text start
  | inserted t => .missing t

namespace ParseTree

/-- Builds what a rule stands for from what its children stand for. -/
def buildNode (rule : Rule) (children : List Tree) : Except Violation (List Tree) :=
  match rule with
  | .node kind => (Tree.buildKind kind children).map ([·])
  | .expression => .ok [Tree.buildExpression children]
  | .start | .group _ | .repetition _ => .ok children

mutual

/-- The trees that a parse tree stands for: one, or those of its children for
a rule without a node. -/
def build : ParseTree → Except Violation (List Tree)
  | .leaf l => .ok [.token l.token]
  | .node rule children => (buildAll children).bind (buildNode rule)

def buildAll : List ParseTree → Except Violation (List Tree)
  | [] => .ok []
  | t :: rest => t.build.bind fun first => (buildAll rest).map (first ++ ·)

end

/-- The tree of a whole file. -/
def toTree (t : ParseTree) : Except Violation Tree := t.build.bind Tree.single

end ParseTree

/-! ## Sources -/

/-- A source that was parsed. -/
structure Parsed where
  root : Tree
  source : String
  file : String
  repairs : List Repair
  recoveries : Nat

def Parsed.lineMap (p : Parsed) : LineMap := .ofSource p.source p.file

/-- Why a source has no tree: it was rejected, or its parse tree does not fit
the catalog. -/
inductive ParseFailure
  | rejected (r : Rejection)
  | violated (v : Violation)
deriving DecidableEq, Repr

/-- The number of repairs that a parser makes unless it is told otherwise. -/
def standardBudget : Nat := 64

/-- The name of a source that does not come from a file. -/
def standardFile : String := "<stdin>"

/-- The tree of an accepted parse tree. -/
def ParseTree.finished (t : ParseTree) (source : List Char) (dropped : Trivia.Dropped) :
    Except Violation Tree :=
  t.toTree.map fun root => (root.attachTrivia source (Trivia.split dropped)).assignSpans

/-- Parses a source with a budget of repairs, on a given automaton. -/
def parseWith (a : Automaton) (budget : Nat) (file source : String) :
    Except ParseFailure Parsed :=
  match Recovery.parse a budget source.toList with
  | .error r => .error (.rejected r)
  | .ok (tree, s) =>
    match tree.finished source.toList s.dropped with
    | .error v => .error (.violated v)
    | .ok root =>
      .ok { root, source, file, repairs := s.repairs, recoveries := budget - s.left }

/-- Parses a source with a budget of repairs. -/
def parse (budget : Nat) (file source : String) : Except ParseFailure Parsed :=
  parseWith .ofGrammar budget file source

end SyntaxAtlas
