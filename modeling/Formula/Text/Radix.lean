set_option autoImplicit false

/-! # Numerals in a base

Numbers written with the usual ten digits and, in bases above ten, with letters of either case.

Main statement: `readIn_append_singleton` (one more digit). -/

namespace Formula.Text

/-- Whether a character is a digit in base sixteen. -/
def isHexDigit (c : Char) : Bool := c.isDigit || ('a' ≤ c.toLower && c.toLower ≤ 'f')

/-- The value of a digit in any base up to sixteen. -/
def hexValue (c : Char) : Nat :=
  if c.isDigit then c.toNat - '0'.toNat else c.toLower.toNat - 'a'.toNat + 10

/-- The number that digits denote in a base. -/
def readIn (base : Nat) (cs : List Char) : Nat :=
  cs.foldl (fun n c => n * base + hexValue c) 0

theorem readIn_append_singleton (base : Nat) (cs : List Char) (c : Char) :
    readIn base (cs ++ [c]) = readIn base cs * base + hexValue c := by
  rw [readIn, List.foldl_append, List.foldl_cons, List.foldl_nil, readIn]

/-- Integers in base ten are read up to this many digits. -/
def digitLimit : Nat := 4300

end Formula.Text
