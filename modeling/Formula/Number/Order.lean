import Formula.Number.Binary64

set_option autoImplicit false

/-! # Comparing numbers of both kinds

Integers and floating-point values are compared as the reals they denote: no integer is rounded for
it. Both are placed on one scale of units, with the infinities at its ends; the value that is not a
number has no place and compares with nothing. -/

namespace Formula.Number

/-- A place on the scale of units, closed at both ends. -/
inductive Place where
  | bottom
  | units (n : Int)
  | top
  deriving DecidableEq

namespace Place

/-- The order of two places. -/
def compare : Place → Place → Ordering
  | bottom, bottom => .eq
  | bottom, _ => .lt
  | units _, bottom => .gt
  | units a, units b => if a < b then .lt else if a = b then .eq else .gt
  | units _, top => .lt
  | top, top => .eq
  | top, _ => .gt

end Place

/-- A number of either kind. -/
inductive Numeric where
  | int (n : Int)
  | float (x : Binary64)
  deriving DecidableEq

namespace Numeric

/-- Where a number stands; the value that is not a number stands nowhere. -/
def place? : Numeric → Option Place
  | int n => some (.units (n * unitsPerOne))
  | float (.finite negative size) => some (.units (Binary64.signedUnits negative size))
  | float (.infinite negative) => some (if negative then .bottom else .top)
  | float .nan => none

/-- The order of two numbers, when both have a place. -/
def compare? (a b : Numeric) : Option Ordering := do
  return (← a.place?).compare (← b.place?)

/-- Equality of the numbers denoted; the value that is not a number equals nothing. -/
def same (a b : Numeric) : Bool := a.compare? b == some .eq

/-- Whether the first number is smaller. -/
def less (a b : Numeric) : Bool := a.compare? b == some .lt

/-- Whether the first number is smaller or equal. -/
def atMost (a b : Numeric) : Bool := a.same b || a.less b

end Numeric

end Formula.Number
