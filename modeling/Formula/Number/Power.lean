set_option autoImplicit false

/-! # Powers of two and of ten

Binary digits count powers of two, and decimal places powers of ten.

Main statements: `powerOfTwo_pos` and `powerOfTen_pos` (a power is never zero, so it can divide). -/

namespace Formula.Number

/-- Two multiplied by itself so many times. -/
def powerOfTwo (exponent : Nat) : Nat := Nat.pow 2 exponent

/-- Ten multiplied by itself so many times. -/
def powerOfTen (exponent : Nat) : Nat := Nat.pow 10 exponent

theorem powerOfTwo_pos (exponent : Nat) : 0 < powerOfTwo exponent := Nat.two_pow_pos exponent

theorem powerOfTen_pos (exponent : Nat) : 0 < powerOfTen exponent := Nat.pow_pos (by decide)

end Formula.Number
