import Formula.Operator
import Formula.Text.Case
import Formula.Text.Quoted

set_option autoImplicit false

/-! # Tokens

A token is a lexeme of an expression: its kind, the value it stands for, its position among the
tokens, and the source text it was read from. -/

namespace Formula

/-- What a token is. -/
inductive TokenKind where
  | operator
  | string
  | number
  | name
  | leftParen
  | rightParen
  | leftBracket
  | rightBracket
  | comma
  deriving DecidableEq, Repr

/-- The name under which a kind is listed. -/
def TokenKind.label : TokenKind → String
  | operator => "OPERATOR"
  | string => "STRING"
  | number => "NUMBER"
  | name => "NAME"
  | leftParen => "LPAREN"
  | rightParen => "RPAREN"
  | leftBracket => "LBRACKET"
  | rightBracket => "RBRACKET"
  | comma => "COMMA"

/-- A lexeme: `value` is the canonical symbol of an operator, the content of a string without its
quotes, and the text itself otherwise. -/
structure Token where
  kind : TokenKind
  value : String
  index : Nat
  text : String
  deriving DecidableEq, Repr

namespace Token

/-- Whether the token is a name that spells the given lower-case keyword in any letter case. -/
def isKeyword (keyword : String) (t : Token) : Bool :=
  t.kind == .name && Text.lower t.value == keyword

/-- The operator that the token denotes, if it is an operator with a known symbol. -/
def operator? (t : Token) : Option Operator :=
  if t.kind = .operator then Operator.ofSymbol? t.value else none

/-- The display form of a token. -/
def display (t : Token) : String :=
  "Token(" ++ t.kind.label ++ ", " ++ Text.quoted t.value ++ ", index=" ++ toString t.index ++ ")"

end Token

end Formula
