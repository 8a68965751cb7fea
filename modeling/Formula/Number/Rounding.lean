import Formula.Number.Power

set_option autoImplicit false

/-! # Rounding a quotient to the nearest integer

A quotient is rounded to the nearest integer, and a tie goes to the even neighbour. The signed form
rounds the magnitude and puts the sign back.

Main statements: `two_mul_roundDiv_le` and `le_two_mul_roundDiv` (the result lies within half a
divisor of the dividend) and `roundDiv_mul_self` (an exact quotient is kept). -/

namespace Formula.Number

/-- The natural number nearest to `num / den`; a tie goes to the even neighbour. -/
def roundDiv (num den : Nat) : Nat :=
  if 2 * (num % den) < den then num / den
  else if den < 2 * (num % den) then num / den + 1
  else if num / den % 2 = 0 then num / den else num / den + 1

/-- The result is the neighbour below the quotient or the one above it, whichever is nearer. -/
theorem roundDiv_cases (num den : Nat) :
    den * roundDiv num den + num % den = num ∧ 2 * (num % den) ≤ den ∨
      den * roundDiv num den + num % den = num + den ∧ den ≤ 2 * (num % den) := by
  have split := Nat.div_add_mod num den
  have step : den * (num / den + 1) = den * (num / den) + den := Nat.mul_succ _ _
  unfold roundDiv
  split
  · omega
  · split
    · rw [step]; omega
    · split
      · omega
      · rw [step]; omega

/-- The result exceeds the quotient by at most one half. -/
theorem two_mul_roundDiv_le (num den : Nat) :
    2 * (den * roundDiv num den) ≤ 2 * num + den := by
  rcases roundDiv_cases num den with h | h <;> omega

/-- The result falls short of the quotient by at most one half. -/
theorem le_two_mul_roundDiv (num den : Nat) (pos : 0 < den) :
    2 * num ≤ 2 * (den * roundDiv num den) + den := by
  have small := Nat.mod_lt num pos
  rcases roundDiv_cases num den with h | h <;> omega

/-- An exact quotient is kept. -/
theorem roundDiv_mul_self (q den : Nat) (pos : 0 < den) : roundDiv (q * den) den = q := by
  simp [roundDiv, Nat.mul_div_cancel q pos, pos]

/-- The integer nearest to `num / den`; a tie goes to the even neighbour. -/
def roundDivInt (num den : Int) : Int :=
  let size := roundDiv num.natAbs den.natAbs
  if (num < 0) = (den < 0) then size else -size

/-- An integer rounded to a multiple of a power of ten; a tie goes to the even multiple. -/
def roundToPowerOfTen (n : Int) (power : Nat) : Int :=
  roundDivInt n (powerOfTen power) * powerOfTen power

end Formula.Number
