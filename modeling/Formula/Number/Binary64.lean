import Formula.Number.Rounding

set_option autoImplicit false

/-! # Binary floating point of 64 bits

Every finite value is a whole number of units of `2 ^ -1074`, so it is kept as a sign and that
number: a magnitude is a number of units below `2 ^ 2098` whose binary digits after the first
fifty-three are zero. An exact result is rounded to the nearest magnitude, and a tie goes to the one
whose last digit is even; a result of `2 ^ 1024` or more overflows.

All operations are exact arithmetic on units followed by one rounding. -/

namespace Formula.Number

/-! ## Magnitudes -/

/-- A unit is one halved this many times. -/
def unitExponent : Nat := 1074

/-- The number of units in one. -/
def unitsPerOne : Nat := powerOfTwo unitExponent

/-- A unit doubled this many times is too large to be represented. -/
def limitExponent : Nat := 2098

/-- Magnitudes stay below this number of units. -/
def unitsLimit : Nat := powerOfTwo limitExponent

theorem unitsLimit_pos : 0 < unitsLimit := powerOfTwo_pos limitExponent

/-- Whether a number of units has at most fifty-three significant binary digits and stays below the
limit. -/
def isMagnitude (units : Nat) : Bool :=
  units < unitsLimit && units % powerOfTwo (units.log2 - 52) == 0

/-- The size of a finite value. -/
structure Magnitude where
  units : Nat
  representable : isMagnitude units = true
  deriving DecidableEq

namespace Magnitude

/-- No units at all. -/
def zero : Magnitude :=
  ⟨0, by
    rw [isMagnitude, Nat.zero_mod, Bool.and_eq_true]
    exact ⟨decide_eq_true unitsLimit_pos, rfl⟩⟩

/-- The magnitude nearest to `num / den` units, or nothing when it overflows. -/
def round? (num den : Nat) : Option Magnitude :=
  let step := powerOfTwo ((num / den).log2 - 52)
  let units := roundDiv num (den * step) * step
  if h : isMagnitude units = true then some ⟨units, h⟩ else none

/-- A magnitude is its own nearest magnitude. -/
theorem round?_self (m : Magnitude) : round? m.units 1 = some m := by
  have fits := m.representable
  have exact : m.units % powerOfTwo (m.units.log2 - 52) = 0 := by
    rw [isMagnitude, Bool.and_eq_true, beq_iff_eq] at fits
    exact fits.2
  have back : m.units / powerOfTwo (m.units.log2 - 52) * powerOfTwo (m.units.log2 - 52) = m.units :=
    Nat.div_mul_cancel (Nat.dvd_of_mod_eq_zero exact)
  have pos : 0 < powerOfTwo (m.units.log2 - 52) := powerOfTwo_pos _
  have rounded : roundDiv m.units (powerOfTwo (m.units.log2 - 52)) =
      m.units / powerOfTwo (m.units.log2 - 52) := by
    rw [roundDiv, exact, if_pos pos]
  unfold round?
  simp only [Nat.div_one, Nat.one_mul, rounded, back]
  rw [dif_pos fits]

end Magnitude

/-! ## Values -/

/-- A binary floating-point value of 64 bits; there are two zeros and one value that is not a
number. -/
inductive Binary64 where
  | finite (negative : Bool) (size : Magnitude)
  | infinite (negative : Bool)
  | nan
  deriving DecidableEq

namespace Binary64

/-- The zero of the given sign. -/
def zero (negative : Bool) : Binary64 := .finite negative .zero

/-- The value nearest to `num / den` units with the given sign; too large a size gives infinity. -/
def ofUnits (negative : Bool) (num den : Nat) : Binary64 :=
  (Magnitude.round? num den).elim (.infinite negative) (.finite negative)

/-- The value nearest to an integer, or nothing when it overflows. -/
def ofInt? (n : Int) : Option Binary64 :=
  (Magnitude.round? (n.natAbs * unitsPerOne) 1).map (.finite (decide (n < 0)))

/-- The value nearest to `digits / 10 ^ places`. -/
def ofDecimal (negative : Bool) (digits places : Nat) : Binary64 :=
  ofUnits negative (digits * unitsPerOne) (powerOfTen places)

/-- The same value with the other sign. -/
def neg : Binary64 → Binary64
  | finite negative size => finite (!negative) size
  | infinite negative => infinite (!negative)
  | nan => nan

/-- The same value without its sign. -/
def abs : Binary64 → Binary64
  | finite _ size => finite false size
  | infinite _ => infinite false
  | nan => nan

/-- The signed number of units of a finite value. -/
def signedUnits (negative : Bool) (size : Magnitude) : Int :=
  if negative then -(size.units : Int) else size.units

/-! ## Arithmetic -/

/-- The sum. Opposite infinities have none, and a sum of zero is negative only if both terms are. -/
def add : Binary64 → Binary64 → Binary64
  | nan, _ => nan
  | _, nan => nan
  | infinite a, infinite b => if a = b then infinite a else nan
  | infinite a, finite _ _ => infinite a
  | finite _ _, infinite b => infinite b
  | finite a x, finite b y =>
    let total := signedUnits a x + signedUnits b y
    if total = 0 then zero (a && b) else ofUnits (decide (total < 0)) total.natAbs 1

/-- The difference. -/
def sub (x y : Binary64) : Binary64 := add x (neg y)

/-- The product. Zero times infinity has none. -/
def mul : Binary64 → Binary64 → Binary64
  | nan, _ => nan
  | _, nan => nan
  | infinite a, infinite b => infinite (a != b)
  | infinite a, finite b y => if y.units = 0 then nan else infinite (a != b)
  | finite a x, infinite b => if x.units = 0 then nan else infinite (a != b)
  | finite a x, finite b y => ofUnits (a != b) (x.units * y.units) unitsPerOne

/-- Whether a value is a zero of either sign. -/
def isZero : Binary64 → Bool
  | finite _ size => size.units == 0
  | _ => false

/-- The quotient, or nothing when the divisor is zero. -/
def div? (x y : Binary64) : Option Binary64 :=
  if y.isZero then none
  else some <| match x, y with
    | nan, _ => nan
    | _, nan => nan
    | infinite _, infinite _ => nan
    | infinite a, finite b _ => infinite (a != b)
    | finite a _, infinite b => zero (a != b)
    | finite a u, finite b v => ofUnits (a != b) (u.units * unitsPerOne) v.units

/-- Whether a value is finite and whole. -/
def isWhole : Binary64 → Bool
  | finite _ size => size.units % unitsPerOne == 0
  | _ => false

/-! ## Decimal rounding -/

/-- The value nearest to `x` rounded at the given decimal place, a negative place lying before the
point; nothing when the result overflows. Past the places a value can have it is kept, and before
them it becomes zero. -/
def roundAt? (x : Binary64) (place : Int) : Option Binary64 :=
  match x with
  | finite negative size =>
    if 323 < place then some x
    else if place < -308 then some (zero negative)
    else
      let decimal :=
        if 0 ≤ place then
          let power := powerOfTen place.toNat
          Magnitude.round? (roundDiv (size.units * power) unitsPerOne * unitsPerOne) power
        else
          let power := powerOfTen (-place).toNat
          Magnitude.round? (roundDiv size.units (unitsPerOne * power) * power * unitsPerOne) 1
      decimal.map (finite negative)
  | _ => some x

end Binary64

end Formula.Number
