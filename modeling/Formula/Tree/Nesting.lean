import Formula.Token

set_option autoImplicit false

/-! # Nesting

How deep the expressions in a row of tokens are nested: a bracket nests what stands inside it, and
`else` nests what follows it up to the end of the bracket or the argument it stands in. -/

namespace Formula

namespace Nesting

/-- The number of `else` seen in each open bracket, the innermost first, and outside of all
brackets. -/
abbrev Open := List Nat

/-- The open brackets after a token. -/
def next (opened : Open) (t : Token) : Open :=
  match t.kind with
  | .leftParen | .leftBracket => 0 :: opened
  | .rightParen | .rightBracket => opened.drop 1
  | .comma => 0 :: opened.drop 1
  | _ =>
    if t.isKeyword "else" then
      match opened with
      | pending :: outer => (pending + 1) :: outer
      | [] => [1]
    else opened

/-- The depth at some place, given the open brackets there. -/
def depth : Open → Nat
  | [] => 0
  | pending :: outer => depth outer + pending + 1

/-- The greatest depth in a row of tokens, given the open brackets before it. -/
def deepest (opened : Open) : List Token → Nat
  | [] => depth opened
  | t :: ts => max (depth opened) (deepest (next opened t) ts)

/-- Expressions that are nested deeper than this are not read. -/
def limit : Nat := 250

end Nesting

/-- Whether the expressions in a row of tokens are nested too deeply to be read. -/
def isTooDeep (tokens : List Token) : Bool := Nesting.limit < Nesting.deepest [] tokens

end Formula
