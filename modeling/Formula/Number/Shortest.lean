import Formula.Number.Binary64

set_option autoImplicit false

/-! # Shortest decimal digits

The digits shown for a finite value are the fewest whose decimal number is read back as that value,
and of those the nearest one. They are found on the grids of one, two, up to seventeen significant
digits: on each the two neighbours of the value are tried. The exact expansion, which always exists
because a unit is a power of one half, stands behind them. -/

namespace Formula.Number

/-- The number `digits * 10 ^ exponent`. -/
structure Decimal where
  digits : Nat
  exponent : Int
  deriving DecidableEq

namespace Decimal

/-- The magnitude nearest to a decimal number. -/
def magnitude? (d : Decimal) : Option Magnitude :=
  if 0 ≤ d.exponent then
    Magnitude.round? (d.digits * powerOfTen d.exponent.toNat * unitsPerOne) 1
  else Magnitude.round? (d.digits * unitsPerOne) (powerOfTen (-d.exponent).toNat)

/-- Whether a decimal number is read as the given magnitude. -/
def readsAs (d : Decimal) (m : Magnitude) : Bool := d.magnitude? == some m

/-- Moves the zeros at the end of the digits into the exponent. -/
def dropZeros : Nat → Decimal → Decimal
  | 0, d => d
  | fuel + 1, d =>
    if d.digits % 10 = 0 ∧ d.digits ≠ 0 then dropZeros fuel ⟨d.digits / 10, d.exponent + 1⟩ else d

end Decimal

/-- The number of decimal digits of a number. -/
def digitCount (n : Nat) : Nat := (Nat.toDigits 10 n).length

/-- The position of the first significant digit of a magnitude: the least `k` for which it is below
`10 ^ k`. A unit is above `10 ^ -400`. -/
def leadingPlace (m : Magnitude) : Int :=
  (digitCount (m.units * powerOfTen 400 / unitsPerOne) : Int) - 400

/-- The magnitude over `10 ^ exponent` as a fraction. -/
def scaledBy (m : Magnitude) (exponent : Int) : Nat × Nat :=
  if 0 ≤ exponent then (m.units, unitsPerOne * powerOfTen exponent.toNat)
  else (m.units * powerOfTen (-exponent).toNat, unitsPerOne)

/-- The neighbours of a magnitude on the grid of multiples of `10 ^ exponent`, the nearer first and
of equally near ones the even one. -/
def neighbours (m : Magnitude) (exponent : Int) : List Decimal :=
  let (num, den) := scaledBy m exponent
  let near := roundDiv num den
  let far := if near = num / den then near + 1 else num / den
  [⟨near, exponent⟩, ⟨far, exponent⟩]

/-- The shortest of the numbers with `count` digits or more that is read back, as long as `fuel`
grids are left. -/
def searchFrom (m : Magnitude) (count : Nat) : Nat → Option Decimal
  | 0 => none
  | fuel + 1 =>
    (neighbours m (leadingPlace m - count)).find? (·.readsAs m) <|> searchFrom m (count + 1) fuel

/-- The exact decimal expansion of a magnitude. -/
def exactDecimal (m : Magnitude) : Decimal := ⟨m.units * Nat.pow 5 unitExponent, -unitExponent⟩

/-- The shortest decimal number that is read back as the magnitude. -/
def shortest (m : Magnitude) : Decimal :=
  let d := (searchFrom m 1 17).getD (exactDecimal m)
  d.dropZeros (digitCount d.digits)

end Formula.Number
