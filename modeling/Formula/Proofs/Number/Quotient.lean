import Formula.Number.Rounding

set_option autoImplicit false

/-! # The integer nearest to a quotient

An integer is nearest to a quotient if it misses the dividend by at most half a divisor, and if it is
even where it misses by just that much (`IsNearest`). Whatever the signs, there is one such integer,
and a change of sign of the dividend or the divisor is one of the quotient.

Main statements: `isNearest_roundDivInt` and `IsNearest.unique`. -/

namespace Formula.Number

/-- An integer misses a quotient by at most one half, and is even if it misses it by one half. -/
structure IsNearest (num den q : Int) : Prop where
  close : 2 * (num - q * den).natAbs ≤ den.natAbs
  even : 2 * (num - q * den).natAbs = den.natAbs → q % 2 = 0

/-! ## Natural numbers -/

/-- Where the result misses the quotient by one half, it is even. -/
theorem roundDiv_even {num den : Nat} (pos : 0 < den)
    (half : 2 * num = 2 * (den * roundDiv num den) + den ∨
      2 * (den * roundDiv num den) = 2 * num + den) : roundDiv num den % 2 = 0 := by
  have split := Nat.div_add_mod num den
  have small := Nat.mod_lt num pos
  have step : den * (num / den + 1) = den * (num / den) + den := Nat.mul_succ _ _
  revert half
  unfold roundDiv
  split
  · intro half
    omega
  · split
    · rw [step]
      intro half
      omega
    · split
      · intro _
        assumption
      · intro _
        omega

/-! ## Signs -/

/-- Both signs can be left out of what an integer misses a quotient by, if it has the sign of the
quotient. -/
theorem natAbs_sub_roundDivInt (num den : Int) :
    ((num - roundDivInt num den * den).natAbs : Int) =
      ((num.natAbs : Int) - den.natAbs * roundDiv num.natAbs den.natAbs).natAbs := by
  unfold roundDivInt
  generalize roundDiv num.natAbs den.natAbs = size
  rcases Int.lt_or_le num 0 with hnum | hnum <;> rcases Int.lt_or_le den 0 with hden | hden
  · have hsize : (den.natAbs : Int) * size = -(size * den) := by
      rw [Int.ofNat_natAbs_of_nonpos (Int.le_of_lt hden), Int.neg_mul, Int.mul_comm]
    rw [if_pos (by simp [hnum, hden]), hsize]
    omega
  · have hsize : (den.natAbs : Int) * size = -(-size * den) := by
      rw [Int.natAbs_of_nonneg hden, Int.neg_mul, Int.neg_neg, Int.mul_comm]
    rw [if_neg (by simp [hnum, Int.not_lt.2 hden]), hsize]
    omega
  · have hsize : (den.natAbs : Int) * size = -size * den := by
      rw [Int.ofNat_natAbs_of_nonpos (Int.le_of_lt hden), Int.neg_mul, Int.neg_mul, Int.mul_comm]
    rw [if_neg (by simp [hden, Int.not_lt.2 hnum]), hsize]
    omega
  · have hsize : (den.natAbs : Int) * size = size * den := by
      rw [Int.natAbs_of_nonneg hden, Int.mul_comm]
    rw [if_pos (by simp [Int.not_lt.2 hnum, Int.not_lt.2 hden]), hsize]
    omega

theorem roundDivInt_even_iff (num den : Int) :
    roundDivInt num den % 2 = 0 ↔ roundDiv num.natAbs den.natAbs % 2 = 0 := by
  unfold roundDivInt
  simp only
  split <;> omega

/-- There is a nearest integer. -/
theorem isNearest_roundDivInt (num : Int) {den : Int} (hden : den ≠ 0) :
    IsNearest num den (roundDivInt num den) := by
  have hpos : 0 < den.natAbs := Int.natAbs_pos.2 hden
  have habove := two_mul_roundDiv_le num.natAbs den.natAbs
  have hbelow := le_two_mul_roundDiv num.natAbs den.natAbs hpos
  have hmiss := natAbs_sub_roundDivInt num den
  have heven := @roundDiv_even num.natAbs _ hpos
  rw [← Int.natCast_mul] at hmiss
  constructor
  · omega
  · intro hhalf
    rw [roundDivInt_even_iff]
    apply heven
    omega

/-! ## Only one -/

/-- There is no other nearest integer: two of them differ by at most one, and if they do differ both
are even. -/
theorem IsNearest.unique {num den q r : Int} (hden : den ≠ 0) (hq : IsNearest num den q)
    (hr : IsNearest num den r) : q = r := by
  have hpos : 0 < den.natAbs := Int.natAbs_pos.2 hden
  have hapart : (q - r).natAbs * den.natAbs =
      ((num - r * den) - (num - q * den)).natAbs := by
    rw [← Int.natAbs_mul, Int.sub_mul]
    congr 1
    omega
  have hsum : (q - r).natAbs * den.natAbs ≤ (num - r * den).natAbs + (num - q * den).natAbs := by
    rw [hapart]
    exact Int.natAbs_sub_le _ _
  have hclose := hq.close
  have hclose' := hr.close
  have hnext : (q - r).natAbs ≤ 1 := by
    refine Nat.le_of_mul_le_mul_right (c := den.natAbs) ?_ hpos
    omega
  rcases Nat.le_one_iff_eq_zero_or_eq_one.1 hnext with hzero | hone
  · omega
  · rw [hone, Nat.one_mul] at hsum
    have heven := hq.even (by omega)
    have heven' := hr.even (by omega)
    omega

theorem isNearest_iff {num den q : Int} (hden : den ≠ 0) :
    IsNearest num den q ↔ q = roundDivInt num den := by
  constructor
  · intro h
    exact h.unique hden (isNearest_roundDivInt num hden)
  · rintro rfl
    exact isNearest_roundDivInt num hden

/-! ## Laws -/

variable {num den q : Int}

theorem IsNearest.neg_left (h : IsNearest num den q) : IsNearest (-num) den (-q) := by
  have hmiss : (-num - -q * den).natAbs = (num - q * den).natAbs := by
    rw [Int.neg_mul]
    omega
  constructor
  · rw [hmiss]
    exact h.close
  · rw [hmiss]
    intro hhalf
    have heven := h.even hhalf
    omega

theorem IsNearest.neg_right (h : IsNearest num den q) : IsNearest num (-den) (-q) := by
  have hmiss : num - -q * -den = num - q * den := by rw [Int.neg_mul_neg]
  constructor
  · rw [hmiss, Int.natAbs_neg]
    exact h.close
  · rw [hmiss, Int.natAbs_neg]
    intro hhalf
    have heven := h.even hhalf
    omega

/-- An exact quotient is missed by nothing. -/
theorem isNearest_mul_self (q : Int) (hden : den ≠ 0) : IsNearest (q * den) den q := by
  constructor
  · simp
  · intro hhalf
    simp only [Int.sub_self, Int.natAbs_zero, Nat.mul_zero] at hhalf
    exact absurd (Int.natAbs_eq_zero.1 hhalf.symm) hden

end Formula.Number
