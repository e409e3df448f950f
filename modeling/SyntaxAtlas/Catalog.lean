-- The catalog of node kinds. Each entry gives the category of a kind and its
-- shape: named slots, a list of elements, or one of several alternatives.

import SyntaxAtlas.Kind
import SyntaxAtlas.Terminal

namespace SyntaxAtlas

/-! ## What a slot accepts -/

/-- One thing that a slot accepts: any node, a node of a category, or what has
the name: a token by its terminal, a node by its kind. -/
inductive Accept
  | anyNode
  | category (c : Category)
  | named (name : String)
deriving DecidableEq, Repr

namespace Accept

def spelling : Accept → String
  | anyNode => "*"
  | category c => "<" ++ c.name ++ ">"
  | named n => n

/-- Reads an accepted thing from its spelling. -/
def ofSpelling (s : String) : Accept :=
  if s == "*" then anyNode else
  match Category.all.find? fun c => (category c).spelling == s with
  | some c => category c
  | none => named s

def keyword (k : Keyword) : Accept := named k.name

def mark (m : Mark) : Accept := named m.name

def terminal (t : Terminal) : Accept := named t.name

def kind (k : Kind) : Accept := named k.name

end Accept

/-! ## Entries -/

/-- A named slot. -/
structure Slot where
  name : String
  accepts : List Accept
deriving DecidableEq, Repr

/-- The shape of a kind. -/
inductive Shape
  | layout (slots : List Slot)
  | collection (element : String)
  | choice (alternatives : List Accept)
deriving DecidableEq, Repr

def Shape.name : Shape → String
  | layout _ => "layout"
  | collection _ => "collection"
  | choice _ => "choices"

def Shape.slots : Shape → List Slot
  | layout slots => slots
  | _ => []

/-- The entry of a kind. -/
structure Entry where
  name : String
  category : Category
  shape : Shape
deriving DecidableEq, Repr

/-- Ends the name that a kind has in structure listings. -/
def nodeSuffix : String := "Syntax"

def Entry.displayName (e : Entry) : String := e.name ++ nodeSuffix

def Entry.slot? (e : Entry) (name : String) : Option Slot :=
  e.shape.slots.find? (·.name == name)

/-- The entry that tokens share. -/
def Entry.token : Entry := ⟨"Token", .other, .layout []⟩

/-! ## The table -/

namespace Catalog

private def slot (name : String) (accepts : List Accept) : Slot := ⟨name, accepts⟩
private def node (k : Kind) : Accept := .kind k
private def word (k : Keyword) : Accept := .keyword k
private def sign (m : Mark) : Accept := .mark m
private def term (t : Terminal) : Accept := .terminal t

private def modifiers : Slot := slot "modifiers" [node .declModifierList]
private def expr : Accept := .category .expression
private def pat : Accept := .category .pattern
private def type : Accept := .category .type
private def binding : List Accept := [word .letWord, word .varWord]
private def trailingComma : Slot := slot "trailingComma" [sign .comma]

/-- The category and shape of a registered kind. -/
def describe : Kind → Option (Category × Shape)
  | .sourceFile => some (.other, .layout [
      slot "statements" [node .codeBlockItemList], slot "endOfFileToken" [term .endOfFile]])
  | .codeBlockItemList => some (.collection, .collection "CodeBlockItem")
  | .codeBlockItem => some (.other, .layout [
      slot "item" [.anyNode], slot "semicolon" [sign .semicolon]])
  | .codeBlock => some (.other, .layout [
      slot "leftBrace" [sign .leftBrace], slot "statements" [node .codeBlockItemList],
      slot "rightBrace" [sign .rightBrace]])
  | .declModifierList => some (.collection, .collection "DeclModifier")
  | .declModifier => some (.other, .layout [slot "name" (Keyword.modifiers.map word)])
  | .variableDecl => some (.declaration, .layout [
      modifiers, slot "bindingSpecifier" binding, slot "bindings" [node .patternBindingList]])
  | .patternBindingList => some (.collection, .collection "PatternBinding")
  | .patternBinding => some (.other, .layout [
      slot "pattern" [pat], slot "typeAnnotation" [node .annotatedType],
      slot "initializer" [node .initializerClause], trailingComma])
  | .annotatedType => some (.other, .layout [slot "colon" [sign .colon], slot "type" [type]])
  | .initializerClause => some (.other, .layout [
      slot "equal" [sign .equal], slot "value" [expr]])
  | .functionDecl => some (.declaration, .layout [
      modifiers, slot "funcKeyword" [word .funcWord], slot "name" [term .identifier],
      slot "signature" [node .functionSignature], slot "body" [node .codeBlock]])
  | .functionSignature => some (.other, .layout [
      slot "parameterClause" [node .functionParameterClause],
      slot "returnClause" [node .returnClause]])
  | .functionParameterClause => some (.other, .layout [
      slot "leftParen" [sign .leftParen], slot "parameters" [node .functionParameterList],
      slot "rightParen" [sign .rightParen]])
  | .functionParameterList => some (.collection, .collection "FunctionParameter")
  | .functionParameter => some (.other, .layout [
      slot "firstName" [term .identifier, sign .underscore],
      slot "secondName" [term .identifier], slot "colon" [sign .colon], slot "type" [type],
      slot "defaultValue" [node .initializerClause], trailingComma])
  | .returnClause => some (.other, .layout [slot "arrow" [sign .arrow], slot "type" [type]])
  | .structDecl => some (.declaration, .layout [
      modifiers, slot "structKeyword" [word .structWord], slot "name" [term .identifier],
      slot "memberBlock" [node .memberBlock]])
  | .classDecl => some (.declaration, .layout [
      modifiers, slot "classKeyword" [word .classWord], slot "name" [term .identifier],
      slot "memberBlock" [node .memberBlock]])
  | .enumDecl => some (.declaration, .layout [
      modifiers, slot "enumKeyword" [word .enumWord], slot "name" [term .identifier],
      slot "memberBlock" [node .memberBlock]])
  | .memberBlock => some (.other, .layout [
      slot "leftBrace" [sign .leftBrace], slot "members" [node .memberBlockItemList],
      slot "rightBrace" [sign .rightBrace]])
  | .memberBlockItemList => some (.collection, .collection "MemberBlockItem")
  | .memberBlockItem => some (.other, .layout [
      slot "decl" [.category .declaration], slot "semicolon" [sign .semicolon]])
  | .enumCaseDecl => some (.declaration, .layout [
      modifiers, slot "caseKeyword" [word .caseWord],
      slot "elements" [node .enumCaseElementList]])
  | .enumCaseElementList => some (.collection, .collection "EnumCaseElement")
  | .enumCaseElement => some (.other, .layout [
      slot "name" [term .identifier], slot "rawValue" [node .initializerClause],
      trailingComma])
  | .importDecl => some (.declaration, .layout [
      slot "importKeyword" [word .importWord], slot "path" [node .importPathComponentList]])
  | .importPathComponentList => some (.collection, .collection "ImportPathComponent")
  | .importPathComponent => some (.other, .layout [
      slot "name" [term .identifier], slot "trailingPeriod" [sign .period]])
  | .returnStmt => some (.other, .layout [
      slot "returnKeyword" [word .returnWord], slot "expression" [expr]])
  | .breakStmt => some (.other, .layout [slot "breakKeyword" [word .breakWord]])
  | .continueStmt => some (.other, .layout [slot "continueKeyword" [word .continueWord]])
  | .whileStmt => some (.other, .layout [
      slot "whileKeyword" [word .whileWord], slot "conditions" [node .conditionElementList],
      slot "body" [node .codeBlock]])
  | .forStmt => some (.other, .layout [
      slot "forKeyword" [word .forWord], slot "pattern" [pat], slot "inKeyword" [word .inWord],
      slot "sequence" [expr], slot "body" [node .codeBlock]])
  | .conditionElementList => some (.collection, .collection "ConditionElement")
  | .conditionElement => some (.other, .layout [
      slot "condition" [node .condition], trailingComma])
  | .condition => some (.other, .choice [expr, node .optionalBindingCondition])
  | .optionalBindingCondition => some (.other, .layout [
      slot "bindingSpecifier" binding, slot "pattern" [pat],
      slot "initializer" [node .initializerClause]])
  | .identifierPattern => some (.pattern, .layout [slot "identifier" [term .identifier]])
  | .wildcardPattern => some (.pattern, .layout [slot "wildcard" [sign .underscore]])
  | .ifExpr => some (.expression, .layout [
      slot "ifKeyword" [word .ifWord], slot "conditions" [node .conditionElementList],
      slot "body" [node .codeBlock], slot "elseKeyword" [word .elseWord],
      slot "elseBody" [node .elseBody]])
  | .elseBody => some (.other, .choice [node .codeBlock, node .ifExpr])
  | .declReferenceExpr => some (.expression, .layout [
      slot "baseName" [term .identifier, word .selfWord]])
  | .integerLiteralExpr => some (.expression, .layout [slot "literal" [term .integer]])
  | .floatLiteralExpr => some (.expression, .layout [slot "literal" [term .float]])
  | .booleanLiteralExpr => some (.expression, .layout [
      slot "literal" [word .trueWord, word .falseWord]])
  | .nilLiteralExpr => some (.expression, .layout [slot "nilKeyword" [word .nilWord]])
  | .stringLiteralExpr => some (.expression, .layout [
      slot "openingQuote" [term .stringQuote],
      slot "segments" [node .stringLiteralSegmentList],
      slot "closingQuote" [term .stringQuote]])
  | .stringLiteralSegmentList => some (.collection, .collection "StringSegment")
  | .stringSegment => some (.other, .layout [slot "content" [term .stringSegment]])
  | .sequenceExpr => some (.expression, .layout [slot "elements" [node .exprList]])
  | .exprList => some (.collection, .collection "Expr")
  | .binaryOperatorExpr => some (.expression, .layout [slot "operator" [term .operator]])
  | .assignmentExpr => some (.expression, .layout [slot "equal" [sign .equal]])
  | .prefixOperatorExpr => some (.expression, .layout [
      slot "operator" [term .operator], slot "expression" [expr]])
  | .infixOperatorExpr => some (.expression, .layout [
      slot "leftOperand" [expr],
      slot "operator" [node .binaryOperatorExpr, node .assignmentExpr],
      slot "rightOperand" [expr]])
  | .functionCallExpr => some (.expression, .layout [
      slot "calledExpression" [expr], slot "leftParen" [sign .leftParen],
      slot "arguments" [node .labeledExprList], slot "rightParen" [sign .rightParen]])
  | .subscriptCallExpr => some (.expression, .layout [
      slot "calledExpression" [expr], slot "leftSquare" [sign .leftSquare],
      slot "arguments" [node .labeledExprList], slot "rightSquare" [sign .rightSquare]])
  | .memberAccessExpr => some (.expression, .layout [
      slot "base" [expr], slot "period" [sign .period],
      slot "declName" [node .declReferenceExpr]])
  | .labeledExprList => some (.collection, .collection "LabeledExpr")
  | .labeledExpr => some (.other, .layout [
      slot "label" [term .identifier], slot "colon" [sign .colon], slot "expression" [expr],
      trailingComma])
  | .arrayExpr => some (.expression, .layout [
      slot "leftSquare" [sign .leftSquare], slot "elements" [node .arrayElementList],
      slot "rightSquare" [sign .rightSquare]])
  | .arrayElementList => some (.collection, .collection "ArrayElement")
  | .arrayElement => some (.other, .layout [slot "expression" [expr], trailingComma])
  | .tupleExpr => some (.expression, .layout [
      slot "leftParen" [sign .leftParen], slot "elements" [node .labeledExprList],
      slot "rightParen" [sign .rightParen]])
  | .identifierType => some (.type, .layout [slot "name" [term .identifier]])
  | .optionalType => some (.type, .layout [
      slot "wrappedType" [type], slot "questionMark" [sign .question]])
  | .arrayType => some (.type, .layout [
      slot "leftSquare" [sign .leftSquare], slot "element" [type],
      slot "rightSquare" [sign .rightSquare]])
  | .unregistered _ => none

end Catalog

/-- The entry of a kind, for a kind that has one. -/
def Kind.catalogued (k : Kind) : Option Entry :=
  (Catalog.describe k).map fun (category, shape) => ⟨k.name, category, shape⟩

/-- The slots of a kind: none for a kind that is no layout. -/
def Kind.slots (k : Kind) : List Slot :=
  match Catalog.describe k with
  | some (_, shape) => shape.slots
  | none => []

/-- A kind whose children stand in named slots. -/
def Kind.isLayout (k : Kind) : Bool :=
  match Catalog.describe k with
  | some (_, .layout _) => true
  | _ => false

end SyntaxAtlas
