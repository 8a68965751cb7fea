set_option autoImplicit false

/-! # Binary operators

The operators of the language, the symbol each is written with, and how tightly each binds.

Main statement: `Operator.ofSymbol?_symbol` (an operator is found again by its symbol). -/

namespace Formula

/-- The binary operators. -/
inductive Operator where
  | either
  | both
  | member
  | absent
  | equal
  | unequal
  | greater
  | less
  | greaterOrEqual
  | lessOrEqual
  | plus
  | minus
  | times
  | dividedBy
  deriving DecidableEq, Repr

namespace Operator

/-- All operators. -/
def all : List Operator :=
  [either, both, member, absent, equal, unequal, greater, less, greaterOrEqual, lessOrEqual, plus,
    minus, times, dividedBy]

/-- The canonical spelling. -/
def symbol : Operator → String
  | either => "or"
  | both => "and"
  | member => "in"
  | absent => "not in"
  | equal => "=="
  | unequal => "!="
  | greater => ">"
  | less => "<"
  | greaterOrEqual => ">="
  | lessOrEqual => "<="
  | plus => "+"
  | minus => "-"
  | times => "*"
  | dividedBy => "/"

/-- Operators of a higher number bind their operands more tightly. -/
def precedence : Operator → Nat
  | either => 1
  | both => 2
  | member | absent => 3
  | equal | unequal | greater | less | greaterOrEqual | lessOrEqual => 4
  | plus | minus => 5
  | times | dividedBy => 6

/-- The operator with the given canonical spelling. -/
def ofSymbol? (s : String) : Option Operator := all.find? (·.symbol == s)

theorem mem_all (op : Operator) : op ∈ all := by cases op <;> decide

theorem ofSymbol?_symbol (op : Operator) : ofSymbol? op.symbol = some op := by
  cases op <;> decide

end Operator

end Formula
