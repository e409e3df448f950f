-- The grammar of the source language, a subset of Swift. A rule named after a
-- kind builds a node of that kind. Groups and repetitions have no node of
-- their own: their children go to the rule around them.

import SyntaxAtlas.Kind
import SyntaxAtlas.Terminal

namespace SyntaxAtlas

/-! ## Symbols -/

/-- A choice between rules that has no node of its own. -/
inductive Group
  | blockItem | declaration | bindingSpecifier | parameterName | statement | pattern
  | infixOperator | prefixExpr | postfixExpr | primaryExpr | type
deriving DecidableEq, Repr

/-- One or more of something, one after the other. After the first element of
a list the others come each with their separator. -/
inductive Repetition
  | codeBlockItems | declModifiers | morePatternBindings | moreFunctionParameters
  | memberBlockItems | moreEnumCaseElements | morePathComponents | moreConditions
  | moreOperands | moreLabeledExprs | moreArrayElements
deriving DecidableEq, Repr

/-- A rule of the grammar. -/
inductive Rule
  | start
  | node (k : Kind)
  | expression
  | group (g : Group)
  | repetition (r : Repetition)
deriving DecidableEq, Repr

inductive Symbol
  | terminal (t : Terminal)
  | rule (r : Rule)
deriving DecidableEq, Repr

namespace Rule

/-- The number of a rule. -/
def code : Rule → Nat
  | start => 0
  | expression => 1
  | group g => 2 + g.ctorIdx
  | repetition r => 13 + r.ctorIdx
  | node k => 24 + k.ctorIdx

end Rule

/-! ## The alternatives of each rule -/

namespace Grammar

private def word (k : Keyword) : Symbol := .terminal (.keyword k)
private def sign (m : Mark) : Symbol := .terminal (.mark m)
private def term (t : Terminal) : Symbol := .terminal t
private def node (k : Kind) : Symbol := .rule (.node k)
private def group (g : Group) : Symbol := .rule (.group g)
private def many (r : Repetition) : Symbol := .rule (.repetition r)
private def expr : Symbol := .rule .expression

/-- A sequence with and without an optional part in its middle. -/
def optionally (before part after : List Symbol) : List (List Symbol) :=
  [before ++ part ++ after, before ++ after]

/-- What is repeated, with its separator in front if it has one. -/
def repeated : Repetition → List Symbol
  | .codeBlockItems => [node .codeBlockItem]
  | .declModifiers => [node .declModifier]
  | .morePatternBindings => [sign .comma, node .patternBinding]
  | .moreFunctionParameters => [sign .comma, node .functionParameter]
  | .memberBlockItems => [node .memberBlockItem]
  | .moreEnumCaseElements => [sign .comma, node .enumCaseElement]
  | .morePathComponents => [sign .period, node .importPathComponent]
  | .moreConditions => [sign .comma, node .conditionElement]
  | .moreOperands => [group .infixOperator, group .prefixExpr]
  | .moreLabeledExprs => [sign .comma, node .labeledExpr]
  | .moreArrayElements => [sign .comma, node .arrayElement]

/-- The alternatives of a choice. -/
def choices : Group → List Symbol
  | .blockItem => [group .declaration, group .statement, expr]
  | .declaration => [node .variableDecl, node .functionDecl, node .structDecl, node .classDecl,
      node .enumDecl, node .enumCaseDecl, node .importDecl]
  | .bindingSpecifier => [word .letWord, word .varWord]
  | .parameterName => [term .identifier, sign .underscore]
  | .statement => [node .returnStmt, node .whileStmt, node .forStmt, node .breakStmt,
      node .continueStmt]
  | .pattern => [node .identifierPattern, node .wildcardPattern]
  | .infixOperator => [node .binaryOperatorExpr, node .assignmentExpr]
  | .prefixExpr => [node .prefixOperatorExpr, group .postfixExpr]
  | .postfixExpr => [node .functionCallExpr, node .subscriptCallExpr, node .memberAccessExpr,
      group .primaryExpr]
  | .primaryExpr => [node .declReferenceExpr, node .integerLiteralExpr, node .floatLiteralExpr,
      node .booleanLiteralExpr, node .nilLiteralExpr, node .stringLiteralExpr, node .arrayExpr,
      node .tupleExpr, node .ifExpr]
  | .type => [node .identifierType, node .optionalType, node .arrayType]

/-- A list with separators: one element and more of them. -/
def separated (element : Kind) (more : Repetition) : List (List Symbol) :=
  [[node element, many more], [node element]]

/-- A declaration with its modifiers in front. -/
def declared (rest : List Symbol) : List (List Symbol) :=
  [node .declModifierList :: rest]

/-- The alternatives of the rule of a kind. Kinds that only folding or string
literals make have none. -/
def forms : Kind → List (List Symbol)
  | .sourceFile => [[node .codeBlockItemList]]
  | .codeBlockItemList => [[many .codeBlockItems], []]
  | .codeBlockItem => optionally [group .blockItem] [sign .semicolon] []
  | .codeBlock => [[sign .leftBrace, node .codeBlockItemList, sign .rightBrace]]
  | .declModifierList => [[many .declModifiers], []]
  | .declModifier => Keyword.modifiers.map fun k => [word k]
  | .variableDecl => declared [group .bindingSpecifier, node .patternBindingList]
  | .patternBindingList => separated .patternBinding .morePatternBindings
  | .patternBinding =>
    optionally [group .pattern, node .annotatedType] [node .initializerClause] []
      ++ optionally [group .pattern] [node .initializerClause] []
  | .annotatedType => [[sign .colon, group .type]]
  | .initializerClause => [[sign .equal, expr]]
  | .functionDecl =>
    declared [word .funcWord, term .identifier, node .functionSignature, node .codeBlock]
  | .functionSignature => optionally [node .functionParameterClause] [node .returnClause] []
  | .functionParameterClause =>
    [[sign .leftParen, node .functionParameterList, sign .rightParen]]
  | .functionParameterList => separated .functionParameter .moreFunctionParameters ++ [[]]
  | .functionParameter =>
    optionally [group .parameterName] [term .identifier]
        [sign .colon, group .type, node .initializerClause]
      ++ optionally [group .parameterName] [term .identifier] [sign .colon, group .type]
  | .returnClause => [[sign .arrow, group .type]]
  | .structDecl => declared [word .structWord, term .identifier, node .memberBlock]
  | .classDecl => declared [word .classWord, term .identifier, node .memberBlock]
  | .enumDecl => declared [word .enumWord, term .identifier, node .memberBlock]
  | .memberBlock => [[sign .leftBrace, node .memberBlockItemList, sign .rightBrace]]
  | .memberBlockItemList => [[many .memberBlockItems], []]
  | .memberBlockItem => optionally [group .declaration] [sign .semicolon] []
  | .enumCaseDecl => declared [word .caseWord, node .enumCaseElementList]
  | .enumCaseElementList => separated .enumCaseElement .moreEnumCaseElements
  | .enumCaseElement => optionally [term .identifier] [node .initializerClause] []
  | .importDecl => [[word .importWord, node .importPathComponentList]]
  | .importPathComponentList => separated .importPathComponent .morePathComponents
  | .importPathComponent => [[term .identifier]]
  | .returnStmt => optionally [word .returnWord] [expr] []
  | .breakStmt => [[word .breakWord]]
  | .continueStmt => [[word .continueWord]]
  | .whileStmt => [[word .whileWord, node .conditionElementList, node .codeBlock]]
  | .forStmt => [[word .forWord, group .pattern, word .inWord, expr, node .codeBlock]]
  | .conditionElementList => separated .conditionElement .moreConditions
  | .conditionElement => [[node .condition]]
  | .condition => [[expr], [node .optionalBindingCondition]]
  | .optionalBindingCondition =>
    [[group .bindingSpecifier, group .pattern, node .initializerClause]]
  | .identifierPattern => [[term .identifier]]
  | .wildcardPattern => [[sign .underscore]]
  | .binaryOperatorExpr => [[term .operator]]
  | .assignmentExpr => [[sign .equal]]
  | .prefixOperatorExpr => [[term .operator, group .prefixExpr]]
  | .functionCallExpr =>
    [[group .postfixExpr, sign .leftParen, node .labeledExprList, sign .rightParen]]
  | .subscriptCallExpr =>
    [[group .postfixExpr, sign .leftSquare, node .labeledExprList, sign .rightSquare]]
  | .memberAccessExpr => [[group .postfixExpr, sign .period, node .declReferenceExpr]]
  | .labeledExprList => separated .labeledExpr .moreLabeledExprs ++ [[]]
  | .labeledExpr => optionally [] [term .identifier, sign .colon] [expr]
  | .declReferenceExpr => [[term .identifier], [word .selfWord]]
  | .integerLiteralExpr => [[term .integer]]
  | .floatLiteralExpr => [[term .float]]
  | .booleanLiteralExpr => [[word .trueWord], [word .falseWord]]
  | .nilLiteralExpr => [[word .nilWord]]
  | .stringLiteralExpr => [[term .string]]
  | .arrayExpr => [[sign .leftSquare, node .arrayElementList, sign .rightSquare]]
  | .arrayElementList => separated .arrayElement .moreArrayElements ++ [[]]
  | .arrayElement => [[expr]]
  | .tupleExpr => [[sign .leftParen, node .labeledExprList, sign .rightParen]]
  | .ifExpr =>
    optionally [word .ifWord, node .conditionElementList, node .codeBlock]
      [word .elseWord, node .elseBody] []
  | .elseBody => [[node .codeBlock], [node .ifExpr]]
  | .identifierType => [[term .identifier]]
  | .optionalType => [[group .type, sign .question]]
  | .arrayType => [[sign .leftSquare, group .type, sign .rightSquare]]
  | .stringLiteralSegmentList | .stringSegment | .sequenceExpr | .exprList
  | .infixOperatorExpr | .unregistered _ => []

/-- The alternatives of a rule. Operator sequences stay flat; precedence is a
matter of folding. -/
def alternatives : Rule → List (List Symbol)
  | .start => [[node .sourceFile]]
  | .node k => forms k
  | .expression => [[group .prefixExpr, many .moreOperands], [group .prefixExpr]]
  | .group g => (choices g).map ([·])
  | .repetition r => [repeated r, many r :: repeated r]

/-! ## Productions -/

/-- One alternative of a rule. -/
structure Production where
  rule : Rule
  body : List Symbol
deriving DecidableEq, Repr

def groups : List Group :=
  [.blockItem, .declaration, .bindingSpecifier, .parameterName, .statement, .pattern,
    .infixOperator, .prefixExpr, .postfixExpr, .primaryExpr, .type]

def repetitions : List Repetition :=
  [.codeBlockItems, .declModifiers, .morePatternBindings, .moreFunctionParameters,
    .memberBlockItems, .moreEnumCaseElements, .morePathComponents, .moreConditions,
    .moreOperands, .moreLabeledExprs, .moreArrayElements]

/-- Every rule, in the order of the numbers. -/
def rules : List Rule :=
  [.start, .expression] ++ groups.map .group ++ repetitions.map .repetition
    ++ Kind.registered.map .node

/-- Every production. The first one is that of the start rule. -/
def productions : List Production :=
  rules.flatMap fun r => (alternatives r).map fun body => ⟨r, body⟩

end Grammar

end SyntaxAtlas
