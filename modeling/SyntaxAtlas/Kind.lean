-- The kinds of tree nodes and the display categories they fall in.

import SyntaxAtlas.Text.LowerCase

namespace SyntaxAtlas

/-- The display category of a node. -/
inductive Category
  | declaration | expression | pattern | type | collection | other
deriving DecidableEq, Repr

def Category.name : Category → String
  | declaration => "declaration" | expression => "expression" | pattern => "pattern"
  | type => "type" | collection => "collection" | other => "other"

def Category.all : List Category :=
  [.declaration, .expression, .pattern, .type, .collection, .other]

/-- The kind of a node. `unregistered` is a name without an entry in the
catalog. -/
inductive Kind
  | sourceFile | codeBlockItemList | codeBlockItem | codeBlock
  | declModifierList | declModifier
  | variableDecl | patternBindingList | patternBinding | annotatedType | initializerClause
  | functionDecl | functionSignature | functionParameterClause | functionParameterList
  | functionParameter | returnClause
  | structDecl | classDecl | enumDecl | memberBlock | memberBlockItemList | memberBlockItem
  | enumCaseDecl | enumCaseElementList | enumCaseElement
  | importDecl | importPathComponentList | importPathComponent
  | returnStmt | breakStmt | continueStmt | whileStmt | forStmt
  | conditionElementList | conditionElement | condition | optionalBindingCondition
  | identifierPattern | wildcardPattern
  | ifExpr | elseBody | declReferenceExpr | integerLiteralExpr | floatLiteralExpr
  | booleanLiteralExpr | nilLiteralExpr | stringLiteralExpr | stringLiteralSegmentList
  | stringSegment | sequenceExpr | exprList | binaryOperatorExpr | assignmentExpr
  | prefixOperatorExpr | infixOperatorExpr | functionCallExpr | subscriptCallExpr
  | memberAccessExpr | labeledExprList | labeledExpr | arrayExpr | arrayElementList
  | arrayElement | tupleExpr
  | identifierType | optionalType | arrayType
  | unregistered (name : String)
deriving DecidableEq, Repr

namespace Kind

def name : Kind → String
  | sourceFile => "SourceFile"
  | codeBlockItemList => "CodeBlockItemList"
  | codeBlockItem => "CodeBlockItem"
  | codeBlock => "CodeBlock"
  | declModifierList => "DeclModifierList"
  | declModifier => "DeclModifier"
  | variableDecl => "VariableDecl"
  | patternBindingList => "PatternBindingList"
  | patternBinding => "PatternBinding"
  | annotatedType => "TypeAnnotation"
  | initializerClause => "InitializerClause"
  | functionDecl => "FunctionDecl"
  | functionSignature => "FunctionSignature"
  | functionParameterClause => "FunctionParameterClause"
  | functionParameterList => "FunctionParameterList"
  | functionParameter => "FunctionParameter"
  | returnClause => "ReturnClause"
  | structDecl => "StructDecl"
  | classDecl => "ClassDecl"
  | enumDecl => "EnumDecl"
  | memberBlock => "MemberBlock"
  | memberBlockItemList => "MemberBlockItemList"
  | memberBlockItem => "MemberBlockItem"
  | enumCaseDecl => "EnumCaseDecl"
  | enumCaseElementList => "EnumCaseElementList"
  | enumCaseElement => "EnumCaseElement"
  | importDecl => "ImportDecl"
  | importPathComponentList => "ImportPathComponentList"
  | importPathComponent => "ImportPathComponent"
  | returnStmt => "ReturnStmt"
  | breakStmt => "BreakStmt"
  | continueStmt => "ContinueStmt"
  | whileStmt => "WhileStmt"
  | forStmt => "ForStmt"
  | conditionElementList => "ConditionElementList"
  | conditionElement => "ConditionElement"
  | condition => "Condition"
  | optionalBindingCondition => "OptionalBindingCondition"
  | identifierPattern => "IdentifierPattern"
  | wildcardPattern => "WildcardPattern"
  | ifExpr => "IfExpr"
  | elseBody => "ElseBody"
  | declReferenceExpr => "DeclReferenceExpr"
  | integerLiteralExpr => "IntegerLiteralExpr"
  | floatLiteralExpr => "FloatLiteralExpr"
  | booleanLiteralExpr => "BooleanLiteralExpr"
  | nilLiteralExpr => "NilLiteralExpr"
  | stringLiteralExpr => "StringLiteralExpr"
  | stringLiteralSegmentList => "StringLiteralSegmentList"
  | stringSegment => "StringSegment"
  | sequenceExpr => "SequenceExpr"
  | exprList => "ExprList"
  | binaryOperatorExpr => "BinaryOperatorExpr"
  | assignmentExpr => "AssignmentExpr"
  | prefixOperatorExpr => "PrefixOperatorExpr"
  | infixOperatorExpr => "InfixOperatorExpr"
  | functionCallExpr => "FunctionCallExpr"
  | subscriptCallExpr => "SubscriptCallExpr"
  | memberAccessExpr => "MemberAccessExpr"
  | labeledExprList => "LabeledExprList"
  | labeledExpr => "LabeledExpr"
  | arrayExpr => "ArrayExpr"
  | arrayElementList => "ArrayElementList"
  | arrayElement => "ArrayElement"
  | tupleExpr => "TupleExpr"
  | identifierType => "IdentifierType"
  | optionalType => "OptionalType"
  | arrayType => "ArrayType"
  | unregistered n => n

/-- The kinds of the catalog, in its order. -/
def registered : List Kind := [
  sourceFile, codeBlockItemList, codeBlockItem, codeBlock,
  declModifierList, declModifier,
  variableDecl, patternBindingList, patternBinding, annotatedType, initializerClause,
  functionDecl, functionSignature, functionParameterClause, functionParameterList,
  functionParameter, returnClause,
  structDecl, classDecl, enumDecl, memberBlock, memberBlockItemList, memberBlockItem,
  enumCaseDecl, enumCaseElementList, enumCaseElement,
  importDecl, importPathComponentList, importPathComponent,
  returnStmt, breakStmt, continueStmt, whileStmt, forStmt,
  conditionElementList, conditionElement, condition, optionalBindingCondition,
  identifierPattern, wildcardPattern,
  ifExpr, elseBody, declReferenceExpr, integerLiteralExpr, floatLiteralExpr,
  booleanLiteralExpr, nilLiteralExpr, stringLiteralExpr, stringLiteralSegmentList,
  stringSegment, sequenceExpr, exprList, binaryOperatorExpr, assignmentExpr,
  prefixOperatorExpr, infixOperatorExpr, functionCallExpr, subscriptCallExpr,
  memberAccessExpr, labeledExprList, labeledExpr, arrayExpr, arrayElementList,
  arrayElement, tupleExpr,
  identifierType, optionalType, arrayType]

/-- The kind of a name. -/
def ofName (n : String) : Kind :=
  (registered.find? (·.name == n)).getD (unregistered n)

end Kind

/-! ## Rule names -/

/-- Puts an underscore before every capital letter. -/
def underscored : List Char → List Char
  | [] => []
  | c :: cs => if c.isUpper then '_' :: c :: underscored cs else c :: underscored cs

/-- The name of the grammar rule of a kind: `VariableDecl` becomes
`variable_decl`. A capital at the very start gets no underscore. -/
def ruleName (kindName : String) : String :=
  Text.lowerCase <| String.ofList <|
    match kindName.toList with
    | [] => []
    | c :: cs => c :: underscored cs

/-- The kind of a grammar rule. -/
def Kind.ofRule? (rule : String) : Option Kind :=
  Kind.registered.find? fun k => ruleName k.name == rule

end SyntaxAtlas
