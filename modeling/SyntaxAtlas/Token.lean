-- Tokens, the leaves of the tree.

import SyntaxAtlas.Terminal
import SyntaxAtlas.Text.Utf8
import SyntaxAtlas.Trivia

namespace SyntaxAtlas

/-! ## Kinds of tokens -/

/-- The kind of a token. The payload is the word of a keyword, the text of a
token with a spelling of its own, and absent for a mark. -/
structure TokenKind where
  name : String
  payload : Option String := none
deriving DecidableEq, Repr

namespace TokenKind

def isKeyword (k : TokenKind) : Bool := k.name == "keyword"

/-- A kind for the debugger: `keyword(.let)`, `identifier("x")`, `comma`. -/
def description (k : TokenKind) : String :=
  if k.isKeyword then k.name ++ "(." ++ k.payload.getD "None" ++ ")" else
  match k.payload with
  | some text => k.name ++ "(" ++ Text.jsonQuoted text ++ ")"
  | none => k.name

/-- The kind of a token with this terminal and text. -/
def ofTerminal (t : Terminal) (text : String) : TokenKind :=
  match t with
  | .keyword k => ⟨"keyword", some k.text⟩
  | .mark m => ⟨m.kindName, none⟩
  | .stringQuote => ⟨"stringQuote", none⟩
  | .endOfFile => ⟨"endOfFile", none⟩
  | .identifier => ⟨"identifier", some text⟩
  | .integer => ⟨"integerLiteral", some text⟩
  | .float => ⟨"floatLiteral", some text⟩
  | .operator => ⟨"binaryOperator", some text⟩
  | .stringSegment => ⟨"stringSegment", some text⟩
  | .string => ⟨"stringLiteral", some text⟩
  | .endOfInput | .other _ => ⟨"unknown", some text⟩

def prefixOperator (text : String) : TokenKind := ⟨"prefixOperator", some text⟩

end TokenKind

/-! ## Tokens -/

/-- Whether the source writes a token or recovery put it in. -/
inductive Presence
  | present | missing
deriving DecidableEq, Repr

/-- A token with the trivia around it. The position counts characters until
trivia is attached, and bytes from then on. -/
structure Token where
  terminal : Terminal
  kind : TokenKind
  text : String
  presence : Presence := .present
  position : Int := 0
  leading : List TriviaPiece := []
  trailing : List TriviaPiece := []
deriving DecidableEq, Repr

namespace Token

def isMissing (t : Token) : Bool := t.presence == .missing

/-- A token that the source writes at `position`. -/
def ofText (terminal : Terminal) (text : String) (position : Int) : Token where
  terminal := terminal
  kind := .ofTerminal terminal text
  text := text
  position := position

/-- The token that stands for a terminal which the source leaves out. -/
def missing (terminal : Terminal) : Token where
  terminal := terminal
  kind := .ofTerminal terminal terminal.canonicalText
  text := terminal.canonicalText
  presence := .missing

/-- The token at the end of every source file. -/
def endOfFile : Token := ofText .endOfFile "" 0

/-- A missing token has no width. -/
def endPosition (t : Token) : Int :=
  if t.isMissing then t.position else t.position + Text.byteLength t.text.toList

/-- The text of a token with its trivia; a missing token has no text. -/
def fullText (t : Token) : String :=
  if t.isMissing then "" else triviaText t.leading ++ t.text ++ triviaText t.trailing

def description (t : Token) : String :=
  "Token(" ++ t.kind.description ++ ", " ++ Text.debugQuoted t.text
    ++ (if t.isMissing then ", missing" else "") ++ ")"

/-- The text between the quotes of a string token. -/
def stringContent (text : String) : String :=
  String.ofList (text.toList.drop 1).dropLast

/-- Cuts a string token into its opening quote, its content and its closing
quote. -/
def splitString (t : Token) : Token × Token × Token :=
  let content := stringContent t.text
  (ofText .stringQuote "\"" t.position,
    ofText .stringSegment content (t.position + 1),
    ofText .stringQuote "\"" (t.position + 1 + content.length))

/-- An operator token that stands before its operand. -/
def asPrefixOperator (t : Token) : Token := { t with kind := .prefixOperator t.text }

end Token

end SyntaxAtlas
