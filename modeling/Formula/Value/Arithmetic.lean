import Formula.Fault

set_option autoImplicit false

/-! # Arithmetic

Arithmetic on numbers of both kinds: two integers stay integers, and an integer beside a
floating-point value is converted first, which fails when it is too large. The quotient of two
integers is the nearest integer, a tie going to the even one.

Host code adds and multiplies more: truth values count as numbers, rows and texts are joined by
addition and repeated by multiplication. -/

namespace Formula

open Number (Binary64 Numeric)

namespace Number.Numeric

/-- A number as a floating-point value. -/
def toFloat : Numeric → Except Fault Binary64
  | .float x => .ok x
  | .int n => (Binary64.ofInt? n).elim (.error .integerTooLarge) .ok

/-- Applies an operation on integers to two integers, and one on floating-point values to any other
two numbers. -/
def combine (ints : Int → Int → Int) (floats : Binary64 → Binary64 → Binary64) :
    Numeric → Numeric → Except Fault Numeric
  | .int a, .int b => .ok (.int (ints a b))
  | a, b => do return .float (floats (← a.toFloat) (← b.toFloat))

/-- The sum. -/
def add : Numeric → Numeric → Except Fault Numeric := combine (· + ·) Binary64.add

/-- The difference. -/
def sub : Numeric → Numeric → Except Fault Numeric := combine (· - ·) Binary64.sub

/-- The product. -/
def mul : Numeric → Numeric → Except Fault Numeric := combine (· * ·) Binary64.mul

/-- The quotient; of two integers the nearest integer, a tie going to the even one. -/
def div : Numeric → Numeric → Except Fault Numeric
  | .int a, .int b =>
    if b = 0 then .error (.divisionByZero a) else .ok (.int (Number.roundDivInt a b))
  | a, b => do
    let x ← a.toFloat
    let y ← b.toFloat
    (x.div? y).elim (.error .floatDivisionByZero) fun q => .ok (.float q)

end Number.Numeric

namespace Value

/-! ## Host arithmetic -/

/-- The error of an operation that is not defined for its operands. -/
def unsupported (symbol : String) (a b : Value) : Fault :=
  .raised "TypeError" ("unsupported operand type(s) for " ++ symbol ++ ": '" ++ a.typeName ++
    "' and '" ++ b.typeName ++ "'")

/-- The error of joining a row or a text with something else. -/
def cannotJoin (a b : Value) : Fault :=
  .raised "TypeError" ("can only concatenate " ++ a.typeName ++ " (not \"" ++ b.typeName ++
    "\") to " ++ a.typeName)

/-- Addition in host code. A list stands for itself and not by its identity. -/
def plus (a b : Value) : Except Fault Value :=
  match a.numeric?, b.numeric? with
  | some x, some y => (x.add y).map ofNumeric
  | _, _ =>
    match a, b with
    | str s, str t => .ok (str (s ++ t))
    | list xs, list ys => .ok (list (xs ++ ys))
    | tuple xs, tuple ys => .ok (tuple (xs ++ ys))
    | str _, _ | list _, _ | tuple _, _ => .error (cannotJoin a b)
    | _, _ => .error (unsupported "+" a b)

/-- A row or a text repeated; a negative number of times counts as none. -/
def repeated (row : Value) (times : Int) : Value :=
  match row with
  | str s => str (String.join (List.replicate times.toNat s))
  | list xs => list (List.replicate times.toNat xs).flatten
  | tuple xs => tuple (List.replicate times.toNat xs).flatten
  | v => v

/-- Whether a value is a row or a text. -/
def isRow : Value → Bool
  | str _ | list _ | tuple _ => true
  | _ => false

/-- Multiplication in host code. A list stands for itself and not by its identity. -/
def times (a b : Value) : Except Fault Value :=
  match a.numeric?, b.numeric? with
  | some x, some y => (x.mul y).map ofNumeric
  | some (.int n), .none => if b.isRow then .ok (repeated b n) else .error (unsupported "*" a b)
  | .none, some (.int n) => if a.isRow then .ok (repeated a n) else .error (unsupported "*" a b)
  | _, _ =>
    if a.isRow || b.isRow then
      let other := if a.isRow then b else a
      .error (.raised "TypeError" ("can't multiply sequence by non-int of type '" ++
        other.typeName ++ "'"))
    else .error (unsupported "*" a b)

end Value

end Formula
