import Formula.Number.Layout
import Formula.Text.Digit

set_option autoImplicit false

/-! # Written numbers are read back

The shortest digits of a magnitude stand for a decimal number whose nearest magnitude is the one they
were found for, and the plain form of a magnitude has just the digits of that number.

A decimal number can be brought to any number of decimal places that is large enough
(`Decimal.magnitude?_eq`); all forms of it are compared that way.

Main statements: `shortest_readsBack` and `Magnitude.text_wide`. -/

namespace Formula.Number

/-! ## Quotients -/

/-- A common factor does not matter for rounding a quotient. -/
theorem roundDiv_mul_mul_left {k : Nat} (hk : 0 < k) (num den : Nat) :
    roundDiv (k * num) (k * den) = roundDiv num den := by
  have hmod : k * num % (k * den) = k * (num % den) := Nat.mul_mod_mul_left ..
  have hdiv : k * num / (k * den) = num / den := Nat.mul_div_mul_left _ _ hk
  have hlow : 2 * (k * (num % den)) < k * den ↔ 2 * (num % den) < den := by
    rw [Nat.mul_left_comm]
    exact Nat.mul_lt_mul_left hk
  have hhigh : k * den < 2 * (k * (num % den)) ↔ den < 2 * (num % den) := by
    rw [Nat.mul_left_comm 2]
    exact Nat.mul_lt_mul_left hk
  unfold roundDiv
  simp only [hmod, hdiv, hlow, hhigh]

theorem Magnitude.round?_mul_mul_left {k : Nat} (hk : 0 < k) (num den : Nat) :
    round? (k * num) (k * den) = round? num den := by
  unfold round?
  simp only
  rw [Nat.mul_div_mul_left _ _ hk, Nat.mul_assoc k den, roundDiv_mul_mul_left hk]

theorem Magnitude.round?_zero (den : Nat) : round? 0 den = some zero := by
  have hround : roundDiv 0 (den * powerOfTwo ((0 / den).log2 - 52)) = 0 := by simp [roundDiv]
  unfold round?
  simp only
  simp only [hround, Nat.zero_mul]
  exact dif_pos zero.representable

theorem Binary64.ofUnits_of_round? {negative : Bool} {num den : Nat} {m : Magnitude}
    (h : Magnitude.round? num den = some m) : ofUnits negative num den = .finite negative m := by
  rw [ofUnits, h]
  rfl

theorem powerOfTen_add (a b : Nat) : powerOfTen (a + b) = powerOfTen a * powerOfTen b :=
  Nat.pow_add 10 a b

/-! ## Decimal numbers -/

namespace Decimal

/-- A decimal number brought to a number of decimal places. -/
theorem magnitude?_eq (d : Decimal) (places : Nat) (h : 0 ≤ d.exponent + places) :
    d.magnitude? = Magnitude.round? (d.digits * powerOfTen (d.exponent + places).toNat * unitsPerOne)
      (powerOfTen places) := by
  unfold magnitude?
  split
  next hexponent =>
    have hsum : (d.exponent + places).toNat = places + d.exponent.toNat := by omega
    have hnum : d.digits * powerOfTen (places + d.exponent.toNat) * unitsPerOne =
        powerOfTen places * (d.digits * powerOfTen d.exponent.toNat * unitsPerOne) := by
      rw [powerOfTen_add, Nat.mul_left_comm, Nat.mul_assoc]
    have hround := Magnitude.round?_mul_mul_left (powerOfTen_pos places)
      (d.digits * powerOfTen d.exponent.toNat * unitsPerOne) 1
    rw [Nat.mul_one] at hround
    rw [hsum, hnum, hround]
  next hexponent =>
    have hplaces : places = (d.exponent + places).toNat + (-d.exponent).toNat := by omega
    have hnum : d.digits * powerOfTen (d.exponent + places).toNat * unitsPerOne =
        powerOfTen (d.exponent + places).toNat * (d.digits * unitsPerOne) := by
      rw [Nat.mul_comm d.digits, Nat.mul_assoc]
    have hden : powerOfTen places =
        powerOfTen (d.exponent + places).toNat * powerOfTen (-d.exponent).toNat := by
      rw [← powerOfTen_add, ← hplaces]
    rw [hnum, hden, Magnitude.round?_mul_mul_left (powerOfTen_pos _)]

/-- A zero at the end of the digits may be moved into the exponent. -/
theorem magnitude?_dropZero {d : Decimal} (h : d.digits % 10 = 0) :
    (Decimal.mk (d.digits / 10) (d.exponent + 1)).magnitude? = d.magnitude? := by
  have hdigits : d.digits = d.digits / 10 * 10 := by omega
  have hexponent : (d.exponent + 1 + (d.exponent.natAbs : Int)).toNat =
      (d.exponent + d.exponent.natAbs).toNat + 1 := by omega
  rw [magnitude?_eq _ d.exponent.natAbs (by simp only; omega),
    magnitude?_eq d d.exponent.natAbs (by omega)]
  simp only
  rw [hexponent, powerOfTen_add]
  have hnum : d.digits / 10 * (powerOfTen (d.exponent + d.exponent.natAbs).toNat * powerOfTen 1) =
      d.digits * powerOfTen (d.exponent + d.exponent.natAbs).toNat := by
    have hten : powerOfTen 1 = 10 := rfl
    rw [hten, Nat.mul_comm (powerOfTen _), ← Nat.mul_assoc, ← hdigits]
  rw [hnum]

theorem magnitude?_dropZeros (fuel : Nat) (d : Decimal) :
    (d.dropZeros fuel).magnitude? = d.magnitude? := by
  induction fuel generalizing d with
  | zero => rfl
  | succ fuel ih =>
      rw [dropZeros]
      split
      next h => rw [ih, magnitude?_dropZero h.1]
      · rfl

end Decimal

/-! ## Shortest digits -/

theorem exactDecimal_readsBack (m : Magnitude) : (exactDecimal m).magnitude? = some m := by
  have hpower (n : Nat) : m.units * Nat.pow 5 n * powerOfTen 0 * powerOfTwo n =
      powerOfTen n * m.units := by
    have hten : (10 : Nat) ^ n = 2 ^ n * 5 ^ n := by rw [← Nat.mul_pow]
    simp only [powerOfTen, powerOfTwo, Nat.pow_eq, Nat.pow_zero, Nat.mul_one, hten]
    ac_rfl
  have hzero : ((exactDecimal m).exponent + (unitExponent : Int)).toNat = 0 := by
    simp only [exactDecimal]
    omega
  rw [Decimal.magnitude?_eq _ unitExponent (by simp only [exactDecimal]; omega), hzero,
    show (exactDecimal m).digits = m.units * Nat.pow 5 unitExponent from rfl, unitsPerOne,
    hpower, ← Nat.mul_one (powerOfTen unitExponent), Nat.mul_assoc, Nat.one_mul,
    Magnitude.round?_mul_mul_left (powerOfTen_pos _), Magnitude.round?_self]

theorem searchFrom_readsBack {m : Magnitude} {count fuel : Nat} {d : Decimal}
    (h : searchFrom m count fuel = some d) : d.magnitude? = some m := by
  induction fuel generalizing count with
  | zero => cases h
  | succ fuel ih =>
      rw [searchFrom] at h
      generalize hfind : List.find? _ _ = found at h
      cases found with
      | none => exact ih h
      | some d' =>
          cases h
          have hreads := List.find?_some hfind
          simpa [Decimal.readsAs] using hreads

/-- The shortest digits stand for a number whose nearest magnitude is the given one. -/
theorem shortest_readsBack (m : Magnitude) : (shortest m).magnitude? = some m := by
  unfold shortest
  simp only
  rw [Decimal.magnitude?_dropZeros]
  cases h : searchFrom m 1 17 with
  | none => exact exactDecimal_readsBack m
  | some d => exact searchFrom_readsBack h

/-! ## Digits -/

theorem digitValue?_of_isDigit {c : Char} (h : c.isDigit = true) :
    Text.digitValue? c = some (c.toNat - 48) := by
  simp only [Char.isDigit, Bool.and_eq_true, decide_eq_true_eq, ge_iff_le, UInt32.le_iff_toNat_le]
    at h
  exact Text.digitValue?_ascii h.1 (Nat.lt_succ_of_le h.2)

/-- The usual digits are read as in the library. -/
theorem readDigits_eq_ofDigitChars {cs : List Char} (h : ∀ c ∈ cs, c.isDigit = true) :
    Text.readDigits cs = Nat.ofDigitChars 10 cs 0 := by
  suffices hfold : ∀ n, cs.foldl (fun n c => n * 10 + (Text.digitValue? c).getD 0) n =
      Nat.ofDigitChars 10 cs n from hfold 0
  induction cs with
  | nil => simp
  | cons c cs ih =>
      intro n
      have hc : Text.digitValue? c = some (c.toNat - 48) := digitValue?_of_isDigit (h c (by simp))
      rw [List.foldl_cons, ih fun d hd => h d (List.mem_cons_of_mem _ hd),
        Nat.ofDigitChars_cons, hc, Nat.mul_comm n 10]
      rfl

theorem isDigit_of_mem_toDigits {n : Nat} {c : Char} (h : c ∈ Nat.toDigits 10 n) :
    c.isDigit = true :=
  Nat.isDigit_of_mem_toDigits (by decide) (by decide) h

theorem readDigits_toDigits (n : Nat) : Text.readDigits (Nat.toDigits 10 n) = n := by
  rw [readDigits_eq_ofDigitChars fun c hc => isDigit_of_mem_toDigits hc]
  exact Nat.ofDigitChars_ten_toDigits

/-! ## Positional digits -/

theorem isDigit_of_mem_padded {digits : List Char} (h : ∀ c ∈ digits, c.isDigit = true)
    (before behind : Nat) :
    ∀ c ∈ List.replicate before '0' ++ (digits ++ List.replicate behind '0'), c.isDigit = true := by
  simp only [List.mem_append, List.mem_replicate]
  rintro c (⟨_, rfl⟩ | hc | ⟨_, rfl⟩)
  · decide
  · exact h c hc
  · decide

/-- Zeros before digits do not count, and each zero behind them is one more place. -/
theorem readDigits_padded {digits : List Char} (h : ∀ c ∈ digits, c.isDigit = true)
    (before behind : Nat) :
    Text.readDigits (List.replicate before '0' ++ (digits ++ List.replicate behind '0')) =
      Text.readDigits digits * powerOfTen behind := by
  rw [readDigits_eq_ofDigitChars (isDigit_of_mem_padded h before behind),
    readDigits_eq_ofDigitChars h, Nat.ofDigitChars_append, Nat.ofDigitChars_replicate_zero,
    Nat.ofDigitChars_append, Nat.ofDigitChars_replicate_zero, Nat.mul_zero, Nat.mul_comm]
  rfl

/-- Positional digits are the given ones, with zeros before or behind them and a point among them. -/
theorem exists_padded_positional {digits : List Char} (hpos : 0 < digits.length) (place : Int) :
    ∃ whole fraction before behind, (positional digits place).toList = whole ++ '.' :: fraction ∧
      whole ≠ [] ∧
      whole ++ fraction = List.replicate before '0' ++ (digits ++ List.replicate behind '0') ∧
      place - digits.length + fraction.length = (behind : Nat) := by
  unfold positional
  split
  next hplace =>
    -- A zero before the point, and zeros behind it before the digits.
    refine ⟨['0'], List.replicate (-place).toNat '0' ++ digits, (-place).toNat + 1, 0, ?_, ?_, ?_, ?_⟩
    · simp
    · simp
    · simp [List.replicate_succ]
    · simp only [List.length_append, List.length_replicate]
      omega
  next hplace =>
    split
    next hlong =>
      -- Zeros between the digits and the point, and one behind it.
      refine ⟨digits ++ List.replicate (place.toNat - digits.length) '0', ['0'], 0,
        place.toNat - digits.length + 1, ?_, ?_, ?_, ?_⟩
      · simp
      · exact List.ne_nil_of_length_pos (by simp only [List.length_append]; omega)
      · simp [List.replicate_succ']
      · simp only [List.length_cons, List.length_nil]
        omega
    next hshort =>
      -- The point among the digits.
      refine ⟨digits.take place.toNat, digits.drop place.toNat, 0, 0, ?_, ?_, ?_, ?_⟩
      · simp
      · exact List.ne_nil_of_length_pos (by simp only [List.length_take]; omega)
      · simp
      · simp only [List.length_drop]
        omega

/-- What `positional` writes: digits on both sides of a point, which are the given digits and enough
zeros. -/
theorem positional_toDigits (n : Nat) (place : Int) :
    ∃ whole fraction, (positional (Nat.toDigits 10 n) place).toList = whole ++ '.' :: fraction ∧
      whole ≠ [] ∧ (∀ c ∈ whole ++ fraction, c.isDigit = true) ∧
      0 ≤ place - (Nat.toDigits 10 n).length + fraction.length ∧
      Text.readDigits (whole ++ fraction) =
        n * powerOfTen (place - (Nat.toDigits 10 n).length + fraction.length).toNat := by
  have hdigits : ∀ c ∈ Nat.toDigits 10 n, c.isDigit = true := fun c => isDigit_of_mem_toDigits
  obtain ⟨whole, fraction, before, behind, htext, hwhole, hpadded, hplaces⟩ :=
    exists_padded_positional (Nat.length_toDigits_pos (b := 10) (n := n)) place
  refine ⟨whole, fraction, htext, hwhole, ?_, ?_, ?_⟩
  · rw [hpadded]
    exact isDigit_of_mem_padded hdigits before behind
  · rw [hplaces]
    exact Int.natCast_nonneg behind
  · rw [hpadded, hplaces, readDigits_padded hdigits, readDigits_toDigits, Int.toNat_natCast]

/-- The plain form of a magnitude is digits on both sides of a point, and read back as that
magnitude, whatever the sign. -/
theorem Magnitude.text_wide (m : Magnitude) :
    ∃ whole fraction, (m.text true).toList = whole ++ '.' :: fraction ∧ whole ≠ [] ∧
      (∀ c ∈ whole ++ fraction, c.isDigit = true) ∧
      ∀ negative, Binary64.ofDecimal negative (Text.readDigits (whole ++ fraction))
        fraction.length = .finite negative m := by
  unfold text
  split
  next hzero =>
    refine ⟨['0'], ['0'], rfl, by simp, by simp, fun negative => ?_⟩
    have hm : m = Magnitude.zero := by
      obtain ⟨units, representable⟩ := m
      obtain rfl : units = 0 := hzero
      rfl
    have hread : Text.readDigits (['0'] ++ ['0']) = 0 := by decide
    rw [hread, Binary64.ofDecimal, Nat.zero_mul, hm]
    exact Binary64.ofUnits_of_round? (round?_zero _)
  next hne =>
    simp only [Bool.true_or, ↓reduceIte]
    obtain ⟨whole, fraction, htext, hwhole, hdigits, hplaces, hread⟩ :=
      positional_toDigits (shortest m).digits
        ((Nat.toDigits 10 (shortest m).digits).length + (shortest m).exponent)
    refine ⟨whole, fraction, htext, hwhole, hdigits, fun negative => ?_⟩
    have hexponent : ((Nat.toDigits 10 (shortest m).digits).length : Int) + (shortest m).exponent -
        (Nat.toDigits 10 (shortest m).digits).length = (shortest m).exponent := by omega
    rw [hexponent] at hplaces hread
    have hback := shortest_readsBack m
    rw [Decimal.magnitude?_eq _ _ hplaces] at hback
    rw [Binary64.ofDecimal, hread]
    exact Binary64.ofUnits_of_round? hback

end Formula.Number
