import Formula.Text.Radix
import Formula.Value

set_option autoImplicit false

/-! # The values of plain scalars

A plain scalar is null, a truth value, a number or, if it has none of these forms, a text. Numbers
may hold underscores, and may be written in parts of sixty with colons between them: `1:30` is
ninety. -/

namespace Formula.Yaml

open Number (Binary64 powerOfTen)
open Text (digitLimit isHexDigit readIn)

/-! ## Digits -/

/-- The sign of a number, if one is written, and what follows it. -/
def signed : List Char → Option Char × List Char
  | '-' :: cs => (some '-', cs)
  | '+' :: cs => (some '+', cs)
  | cs => (none, cs)

/-- Whether a character is a decimal digit or an underscore. -/
def isDigitOrUnderscore (c : Char) : Bool := c.isDigit || c == '_'

/-- The text without its underscores. -/
def withoutUnderscores (cs : List Char) : List Char := cs.filter (· ≠ '_')

/-- Whether a text begins with a digit and goes on with digits and underscores. -/
def isDigits : List Char → Bool
  | [] => false
  | d :: ds => d.isDigit && ds.all isDigitOrUnderscore

/-- Whether a text is a number below sixty, written with one digit or two. -/
def isBelowSixty : List Char → Bool
  | [d] => d.isDigit
  | [t, d] => '0' ≤ t && t ≤ '5' && d.isDigit
  | _ => false

/-- The parts of a text between colons; there is always a first one. -/
def colonParts : List Char → List Char × List (List Char)
  | [] => ([], [])
  | c :: cs =>
    let (first, others) := colonParts cs
    if c = ':' then ([], first :: others) else (c :: first, others)

/-! ## Integers -/

/-- How the size of an integer is written: with digits in a base, or with decimal digits and parts
of sixty. -/
inductive IntegerForm where
  | digits (base : Nat) (ds : List Char)
  | sixties (first : List Char) (parts : List (List Char))
  deriving DecidableEq, Repr

namespace IntegerForm

/-- The form in which a text gives the size of an integer. Binary, hexadecimal and octal numbers
begin with a zero. -/
def of? : List Char → Option IntegerForm
  | [] => none
  | ['0'] => some (.digits 10 ['0'])
  | '0' :: 'b' :: ds =>
    if !ds.isEmpty && ds.all (fun c => c == '0' || c == '1' || c == '_') then
      some (.digits 2 (withoutUnderscores ds))
    else none
  | '0' :: 'x' :: ds =>
    if !ds.isEmpty && ds.all (fun c => isHexDigit c || c == '_') then
      some (.digits 16 (withoutUnderscores ds))
    else none
  | '0' :: ds =>
    if ds.all (fun c => ('0' ≤ c && c ≤ '7') || c == '_') then
      some (.digits 8 ('0' :: withoutUnderscores ds))
    else none
  | ds =>
    match colonParts ds with
    | (whole, []) =>
      if isDigits whole then some (.digits 10 (withoutUnderscores whole)) else none
    | (first, parts) =>
      if isDigits first && parts.all isBelowSixty then
        some (.sixties (withoutUnderscores first) parts)
      else none

/-- The size of an integer. Underscores alone, and too many decimal digits, give none. -/
def value? : IntegerForm → Option Nat
  | digits base ds =>
    if ds.isEmpty ∨ (base = 10 ∧ digitLimit < ds.length) then none else some (readIn base ds)
  | sixties first parts =>
    if digitLimit < first.length then none
    else some (parts.foldl (fun n part => n * 60 + readIn 10 part) (readIn 10 first))

end IntegerForm

/-! ## Floating-point numbers -/

/-- How the size of a floating-point number is written: as a word, with a point and perhaps a power
of ten, or with parts of sixty, the last of which has a point. -/
inductive FloatForm where
  | word (x : Binary64)
  | decimal (whole fraction : List Char) (exponent : Int)
  | sixties (first : List Char) (parts : List (List Char)) (fraction : List Char)

/-- The exponent behind the digits of a floating-point number. Its sign must be written. -/
def exponent? : List Char → Option Int
  | [] => some 0
  | e :: sign :: ds =>
    if (e == 'e' || e == 'E') && (sign == '+' || sign == '-') && !ds.isEmpty &&
        ds.all Char.isDigit then
      let n : Int := readIn 10 ds
      some (if sign == '-' then -n else n)
    else none
  | _ => none

/-- The number with some digits before and after the point and a power of ten. The powers that are
not computed are beyond the largest number, or so small that nothing is left. -/
def scaled (whole fraction : List Char) (exponent : Int) : Binary64 :=
  let digits := readIn 10 (whole ++ fraction)
  let places : Int := fraction.length - exponent
  if digits = 0 then .zero false
  else if places < -400 then .infinite false
  else if places < 0 then .ofDecimal false (digits * powerOfTen places.natAbs) 0
  else if whole.length + fraction.length + 400 < places then .zero false
  else .ofDecimal false digits places.natAbs

/-- Adds parts to a sum, the least first; `weight` is what one stands for in the next part. The
product and the sum are rounded for each part. -/
def addSixties (weight : Nat) (sum : Binary64) : List Binary64 → Option Binary64
  | [] => some sum
  | part :: parts => do
    let w ← Binary64.ofInt? weight
    addSixties (weight * 60) (sum.add (part.mul w)) parts

namespace FloatForm

/-- The form in which a text gives the size of a floating-point number. A sign may stand before it
unless it is no number or begins with the point. -/
def of? (hasSign : Bool) (cs : List Char) : Option FloatForm :=
  let text := String.ofList cs
  if [".inf", ".Inf", ".INF"].contains text then some (.word (.infinite false))
  else if !hasSign && [".nan", ".NaN", ".NAN"].contains text then some (.word .nan)
  else
    match cs.dropWhile (· ≠ '.') with
    | '.' :: rest =>
      let fraction := rest.takeWhile isDigitOrUnderscore
      let tail := rest.dropWhile isDigitOrUnderscore
      match colonParts (cs.takeWhile (· ≠ '.')) with
      | ([], []) =>
        if !hasSign && isDigits fraction then
          (exponent? tail).map (.decimal [] (withoutUnderscores fraction))
        else none
      | (whole, []) =>
        if isDigits whole then
          (exponent? tail).map (.decimal (withoutUnderscores whole) (withoutUnderscores fraction))
        else none
      | (first, parts) =>
        if isDigits first && parts.all isBelowSixty && tail.isEmpty then
          some (.sixties (withoutUnderscores first) parts (withoutUnderscores fraction))
        else none
    | _ => none

/-- The size of a floating-point number, unless it has so many parts that one stands for more than
the largest number. -/
def value? : FloatForm → Option Binary64
  | word x => some x
  | decimal whole fraction exponent => some (scaled whole fraction exponent)
  | sixties first parts fraction =>
    match (first :: parts).reverse with
    | [] => none
    | last :: others =>
      addSixties 1 (.zero false) (scaled last fraction 0 :: others.map (scaled · [] 0))

end FloatForm

/-! ## Values -/

/-- The spellings of a word that are read as the word: in lower case, in capitals, or with a capital
first. -/
def spellings (word : String) : List String :=
  [word, word.capitalize, String.ofList (word.toList.map Char.toUpper)]

/-- Whether a text spells one of some words. -/
def spells (words : List String) (text : String) : Bool :=
  words.any fun word => (spellings word).contains text

/-- The value of a plain scalar. The marks of merged keys and of default values have none, nor has a
number that cannot be read. -/
def plainValue? (text : String) : Option Value :=
  if text = "" ∨ text = "~" ∨ spells ["null"] text then some .none
  else if spells ["yes", "true", "on"] text then some (.bool true)
  else if spells ["no", "false", "off"] text then some (.bool false)
  else if text = "<<" ∨ text = "=" then none
  else
    let (sign, size) := signed text.toList
    let negative := sign == some '-'
    match FloatForm.of? sign.isSome size, IntegerForm.of? size with
    | some form, _ => form.value?.map fun x => .float (if negative then x.neg else x)
    | none, some form => form.value?.map fun (n : Nat) => .int (if negative then -(n : Int) else n)
    | none, none => some (.str text)

end Formula.Yaml
