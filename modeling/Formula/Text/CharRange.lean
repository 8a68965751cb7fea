set_option autoImplicit false

/-! # Tables of character ranges

A property of characters is kept as the list of its ranges of code points, ends included, in
increasing order. `inRanges` decides membership and stops at the first range that lies above the
code point. -/

namespace Formula.Text

/-- Membership of a code point in an increasing list of closed ranges. -/
def inRanges : List (Nat × Nat) → Nat → Bool
  | [], _ => false
  | (low, high) :: rest, n =>
    if n < low then false else if n ≤ high then true else inRanges rest n

/-- A code point that some range contains, below all ranges before it being absent, is found. -/
theorem inRanges_cons_of_mem {low high n : Nat} (rest : List (Nat × Nat)) (hl : low ≤ n)
    (hh : n ≤ high) : inRanges ((low, high) :: rest) n = true := by
  simp [inRanges, Nat.not_lt.2 hl, hh]

end Formula.Text
