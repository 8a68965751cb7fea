import Formula.Number.Shortest

set_option autoImplicit false

/-! # The written form of floating-point values

Two forms use the shortest digits of a value. The display form is positional while the first digit
stands at most sixteen places before the point and at most four behind it, and has an exponent of
at least two digits otherwise. The plain form is always positional. Positional digits always have a
point with a digit on both sides of it. -/

namespace Formula.Number

/-- A number of at least two digits. -/
def twoDigits (n : Nat) : String := if n < 10 then "0" ++ toString n else toString n

/-- Digits with a point after the first `place` of them; zeros fill the gap to the point. -/
def positional (digits : List Char) (place : Int) : String :=
  if place ≤ 0 then
    String.ofList (['0', '.'] ++ List.replicate (-place).toNat '0' ++ digits)
  else if digits.length ≤ place.toNat then
    String.ofList (digits ++ List.replicate (place.toNat - digits.length) '0' ++ ['.', '0'])
  else
    String.ofList (digits.take place.toNat ++ '.' :: digits.drop place.toNat)

/-- Digits with a point after the first of them and the exponent that puts it back. -/
def exponential (digits : List Char) (place : Int) : String :=
  let point := if digits.length ≤ 1 then [] else ['.']
  let sign := if place - 1 < 0 then "-" else "+"
  String.ofList (digits.take 1 ++ point ++ digits.drop 1) ++ "e" ++ sign ++
    twoDigits (place - 1).natAbs

/-- Whether the display form of a number with its first digit at the given place is positional. -/
def isPositional (place : Int) : Bool := -4 < place && place ≤ 16

/-- The written form of a magnitude; `wide` asks for positional digits whatever the size. -/
def Magnitude.text (wide : Bool) (m : Magnitude) : String :=
  if m.units = 0 then "0.0"
  else
    let d := shortest m
    let digits := Nat.toDigits 10 d.digits
    let place := digits.length + d.exponent
    if wide || isPositional place then positional digits place else exponential digits place

namespace Binary64

/-- The written form of a value; `wide` asks for positional digits whatever the size. -/
def text (wide : Bool) : Binary64 → String
  | finite negative size => (if negative then "-" else "") ++ size.text wide
  | infinite negative => if negative then "-inf" else "inf"
  | nan => "nan"

/-- The display form: an exponent is used for very large and very small values. -/
def display (x : Binary64) : String := x.text false

/-- The plain form: never an exponent. -/
def plain (x : Binary64) : String := x.text true

end Binary64

end Formula.Number
