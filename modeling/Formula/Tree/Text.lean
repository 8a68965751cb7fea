import Formula.Number.Layout
import Formula.Tree

set_option autoImplicit false

/-! # The two written forms of a tree

The text of a node is what errors quote: operands that are operations or conditionals are bracketed,
numbers are in their display form and truth values in lower case. The source of a node brackets only
what precedence requires, apart from the operands of `and` and `or`, which are always bracketed;
numbers are written without exponents and truth values with a capital. -/

namespace Formula

/-! ## Literals -/

/-- A string in quotes: double ones if a single quote occurs in it. -/
def quoteString (s : String) : String :=
  let quote := if '\'' ∈ s.toList then "\"" else "'"
  quote ++ s ++ quote

namespace Scalar

/-- A literal as the text of a node shows it. -/
def text : Scalar → String
  | bool b => if b then "true" else "false"
  | int n => toString n
  | double x => x.display
  | string s => quoteString s

/-- A literal as source. -/
def source : Scalar → String
  | bool b => if b then "True" else "False"
  | int n => toString n
  | double x => x.plain
  | string s => quoteString s

end Scalar

/-- A text in round brackets. -/
def bracketed (s : String) : String := "(" ++ s ++ ")"

/-- Texts separated by commas. -/
def commaSeparated (texts : List String) : String := ", ".intercalate texts

/-- A member of a named thing, or a name by itself. -/
def qualify (parent : Option String) (name : String) : String :=
  match parent with
  | some parent => parent ++ "." ++ name
  | none => name

namespace Node

/-- Whether a node is an operation or a conditional. -/
def isCompound (node : Node) : Bool := isA .binary node || isA .conditional node

mutual

/-- The text of a node, which errors quote. -/
def text : Node → String
  | literal value => value.text
  | list items => "[" ++ commaSeparated (items.toList.map Scalar.text) ++ "]"
  | name n => n
  | member parent n => qualify (some parent) n
  | call parent n arguments => qualify parent n ++ bracketed (commaSeparated (textAll arguments))
  | binary op left right =>
    (if left.isCompound then bracketed (text left) else text left) ++ " " ++ op.symbol ++ " " ++
      (if right.isCompound then bracketed (text right) else text right)
  | conditional condition truthy falsy =>
    (if isA .conditional truthy then bracketed (text truthy) else text truthy) ++
      " if(" ++ text condition ++ ") else " ++ text falsy

/-- The texts of some nodes. -/
def textAll : List Node → List String
  | [] => []
  | node :: nodes => text node :: textAll nodes

end

/-! ## Source -/

/-- Whether an operand needs brackets beside an operator: conditionals do, and operations that bind
less tightly, or, on the right, equally tightly. -/
def needsBrackets (precedence : Nat) (onRight : Bool) : Node → Bool
  | conditional _ _ _ => true
  | binary op _ _ => op.precedence < precedence || (onRight && op.precedence == precedence)
  | _ => false

/-- Whether the operands of an operator are always bracketed. -/
def bracketsAlways : Operator → Bool
  | .both | .either => true
  | _ => false

mutual

/-- The source of a tree. -/
def source : Node → String
  | literal value => value.source
  | list items => "[" ++ commaSeparated (items.toList.map Scalar.source) ++ "]"
  | name n => n
  | member parent n => qualify (some parent) n
  | call parent n arguments => qualify parent n ++ bracketed (commaSeparated (sourceAll arguments))
  | binary op left right =>
    (if bracketsAlways op || needsBrackets op.precedence false left then bracketed (source left)
      else source left) ++ " " ++ op.symbol ++ " " ++
    (if bracketsAlways op || needsBrackets op.precedence true right then bracketed (source right)
      else source right)
  | conditional condition truthy falsy =>
    (if isA .conditional truthy then bracketed (source truthy) else source truthy) ++
      " if (" ++ source condition ++ ") else " ++ source falsy

/-- The sources of some trees. -/
def sourceAll : List Node → List String
  | [] => []
  | node :: nodes => source node :: sourceAll nodes

end

end Node

end Formula
