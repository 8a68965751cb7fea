import Formula.Host.BuiltIn

set_option autoImplicit false

/-! # The standard functions

The functions that every interpreter offers by default: tests and conversions of texts, the lesser
and the greater of two values, absolute values, rounding, and the first value that is present. A
value that is absent counts as an empty text, and beside another value it gives way to that one. -/

namespace Formula

open Number (Binary64 Numeric)

/-- What a function is about. -/
inductive FunctionCategory where
  | string
  | math
  | logic
  | custom
  deriving DecidableEq, Repr

namespace FunctionCategory

/-- The label of a category. -/
def label : FunctionCategory → String
  | string => "string"
  | math => "math"
  | logic => "logic"
  | custom => "custom"

/-- All categories. -/
def all : List FunctionCategory := [string, math, logic, custom]

end FunctionCategory

/-- A standard function. -/
inductive StandardFunction where
  | startsWith
  | endsWith
  | length
  | isEmpty
  | upper
  | lower
  | trim
  | least
  | greatest
  | absolute
  | round
  | coalesce
  deriving DecidableEq, Repr

namespace StandardFunction

/-- All standard functions in the order in which they are registered. -/
def all : List StandardFunction :=
  [startsWith, endsWith, length, isEmpty, upper, lower, trim, least, greatest, absolute, round,
    coalesce]

/-! ## Description -/

/-- The name by which expressions call a function. -/
def name : StandardFunction → String
  | startsWith => "startsWith"
  | endsWith => "endsWith"
  | length => "len"
  | isEmpty => "isEmpty"
  | upper => "upper"
  | lower => "lower"
  | trim => "trim"
  | least => "min"
  | greatest => "max"
  | absolute => "abs"
  | round => "round"
  | coalesce => "coalesce"

/-- The names of the parameters; those of a function that takes any number of values are a single
name. -/
def parameters : StandardFunction → List String
  | startsWith => ["value", "prefix"]
  | endsWith => ["value", "suffix"]
  | least | greatest => ["a", "b"]
  | round => ["value", "decimals"]
  | coalesce => ["values"]
  | length | isEmpty | upper | lower | trim | absolute => ["value"]

/-- Whether a function takes any number of values. -/
def isVariadic : StandardFunction → Bool
  | coalesce => true
  | _ => false

/-- What a function is about. -/
def category : StandardFunction → FunctionCategory
  | startsWith | endsWith | length | isEmpty | upper | lower | trim => .string
  | least | greatest | absolute | round => .math
  | coalesce => .logic

/-- What a function does. -/
def description : StandardFunction → String
  | startsWith => "Tests if string starts with prefix"
  | endsWith => "Tests if string ends with suffix"
  | length => "Returns length of string or list"
  | isEmpty => "Tests if value is None, blank or an empty list"
  | upper => "Converts string to uppercase"
  | lower => "Converts string to lowercase"
  | trim => "Removes leading and trailing whitespace"
  | least => "Returns the smaller number or the shorter string"
  | greatest => "Returns the larger number or the longer string"
  | absolute => "Returns absolute value"
  | round => "Rounds to the given number of decimal places"
  | coalesce => "Returns the first non-null argument"

/-- Expressions that use a function. -/
def examples : StandardFunction → List String
  | startsWith => ["startsWith(name, 'Dr')"]
  | endsWith => ["endsWith(email, '@example.com')"]
  | length => ["len(name) > 0"]
  | isEmpty => ["isEmpty(notes)"]
  | upper => ["upper(code) == 'ABC'"]
  | lower => ["lower(email)"]
  | trim => ["trim(name)"]
  | least => ["min(price, 100)", "min('ab', 'abc')"]
  | greatest => ["max(quantity, 1)"]
  | absolute => ["abs(balance) < 100"]
  | round => ["round(total, 2)"]
  | coalesce => ["coalesce(nickname, name)"]

/-! ## Texts -/

/-- The text of a frozen value; that of an absent one is empty. -/
def textOf : Value → String
  | .none => ""
  | v => v.plain

/-- Whether the text of a frozen value begins, or ends, with the given text or one of some texts. -/
def hasAffix (atEnd : Bool) (v affix : Value) : Except Fault Value :=
  if v.isNone then .ok (.bool false)
  else (BuiltIn.testAffix atEnd (some v.plain.toList) affix).map .bool

/-- The number of characters of a text or of items of a row; anything else has none. -/
def lengthOf : Value → Nat
  | .str s => s.length
  | .list items | .tuple items => items.length
  | _ => 0

/-- Whether a frozen value is absent, a blank text or an empty row. -/
def isBlankValue : Value → Bool
  | .none => true
  | .str s => (Text.trim s).isEmpty
  | .list items | .tuple items => items.isEmpty
  | _ => false

/-! ## The lesser and the greater -/

/-- One of two values: the one that is present, the second of two numbers or the first of two texts
by length if it comes before the other, and otherwise the other one. -/
def pick (function : String) (before : Numeric → Numeric → Bool) (shorter : Nat → Nat → Bool)
    (a b : Value) : Except Fault Value :=
  match a, b with
  | .none, b => .ok b
  | a, .none => .ok a
  | .str s, .str t => .ok (if shorter s.length t.length then .str s else .str t)
  | a, b =>
    match a.number?, b.number? with
    | some x, some y => .ok (if before y x then b else a)
    | _, _ => .error (.undefinedFor function a.typeName b.typeName)

/-- The smaller of two numbers, or the shorter of two texts. -/
def leastOf (a b : Value) : Except Fault Value :=
  pick "min" Numeric.less (fun m n => m < n) a b

/-- The larger of two numbers, or the longer of two texts. -/
def greatestOf (a b : Value) : Except Fault Value :=
  pick "max" (fun x y => y.less x) (fun m n => n < m) a b

/-! ## Numbers -/

/-- The size of a number. -/
def absoluteOf (v : Value) : Except Fault Value :=
  match v with
  | .none => .ok .none
  | v =>
    match v.numeric? with
    | some (.int n) => .ok (.int n.natAbs)
    | some (.float x) => .ok (.float x.abs)
    | none => .error (.noAbsoluteValue v.typeName)

/-- A number rounded at a decimal place; a tie goes to the even neighbour. -/
def roundAt (x : Numeric) (place : Int) : Except Fault Value :=
  match x with
  | .int n => .ok (.int (if place < 0 then Number.roundToPowerOfTen n place.natAbs else n))
  | .float x => (x.roundAt? place).elim (.error .roundedTooLarge) fun y => .ok (.float y)

/-- A value rounded at a decimal place, which may be given as a truth value. -/
def roundOf (v decimals : Value) : Except Fault Value :=
  if v.isNone then .ok .none
  else
    match v.number?, decimals.numeric? with
    | some x, some (.int place) => roundAt x place
    | _, _ => .error (.undefinedFor "round" v.typeName decimals.typeName)

/-- The first value that is present. -/
def firstPresent (values : List Value) : Value := (values.find? (!·.isNone)).getD .none

/-! ## Calls -/

/-- Calls a function. Texts and rows are looked at as they are now; a value that is handed on keeps
its identity. -/
def call (f : StandardFunction) (heap : Heap) (arguments : List Value) : Except Fault Value :=
  match f, arguments with
  | startsWith, [v, affix] => hasAffix false (heap.freeze v) (heap.freeze affix)
  | endsWith, [v, affix] => hasAffix true (heap.freeze v) (heap.freeze affix)
  | length, [v] => .ok (.int (lengthOf (heap.freeze v)))
  | isEmpty, [v] => .ok (.bool (isBlankValue (heap.freeze v)))
  | upper, [v] => .ok (.str (Text.upper (textOf (heap.freeze v))))
  | lower, [v] => .ok (.str (Text.lower (textOf (heap.freeze v))))
  | trim, [v] => .ok (.str (Text.trim (textOf (heap.freeze v))))
  | least, [a, b] => leastOf a b
  | greatest, [a, b] => greatestOf a b
  | absolute, [v] => absoluteOf v
  | round, [v, decimals] => roundOf v decimals
  | coalesce, values => .ok (firstPresent values)
  | f, _ => .error (BuiltIn.misfit f.name)

end StandardFunction

end Formula
