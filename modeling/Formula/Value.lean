import Formula.Number.Layout
import Formula.Number.Order
import Formula.Text.Quoted

set_option autoImplicit false

/-! # Values

The values that expressions compute with and that hosts hand in. A list made by an expression is a
value by itself; a list handed in by the host has an identity, because host code can make it longer
while others hold it, so the value only names it and its items are kept in the heap. The same holds
for objects.

The floating-point value that is not a number does not equal itself, yet a row that holds one finds
it again. So it has an identity too, from the moment something holds it. -/

namespace Formula

open Number (Binary64 Numeric)

/-! ## Types -/

/-- The exact type of a value: built in, or a class declared by the host. -/
inductive ValueType where
  | object
  | none
  | bool
  | int
  | float
  | str
  | list
  | tuple
  | dict
  | complex
  | function
  | declared (name : String)
  deriving DecidableEq, Repr

namespace ValueType

/-- The name of a type. -/
def name : ValueType → String
  | object => "object"
  | none => "NoneType"
  | bool => "bool"
  | int => "int"
  | float => "float"
  | str => "str"
  | list => "list"
  | tuple => "tuple"
  | dict => "dict"
  | complex => "complex"
  | function => "function"
  | declared name => name

/-- The name of a type with the module it is declared in. -/
def qualified : ValueType → String
  | declared name => "host." ++ name
  | t => "builtins." ++ t.name

/-- The built-in types that can be referred to by name. -/
def builtIn : List ValueType := [int, float, str, bool, list, tuple, dict, complex, object]

end ValueType

/-! ## Values -/

/-- A host object: the class it is an instance of and the label that identifies it. -/
structure ObjectRef where
  className : String
  label : String
  deriving DecidableEq, Repr

/-- A value. -/
inductive Value where
  | none
  | bool (b : Bool)
  | int (n : Int)
  | float (x : Binary64)
  /-- The floating-point value that is not a number, when something holds it. -/
  | nan (id : Nat)
  | str (s : String)
  | list (items : List Value)
  | tuple (items : List Value)
  | shared (id : Nat)
  | object (ref : ObjectRef)
  | function

namespace Value

instance : Inhabited Value := ⟨none⟩

/-- The exact type of a value. -/
def type : Value → ValueType
  | none => .none
  | bool _ => .bool
  | int _ => .int
  | float _ | nan _ => .float
  | str _ => .str
  | list _ => .list
  | tuple _ => .tuple
  | shared _ => .list
  | object ref => .declared ref.className
  | function => .function

/-- The name of the exact type of a value. -/
def typeName (v : Value) : String := v.type.name

/-- Whether a value is the absent value. -/
def isNone : Value → Bool
  | none => true
  | _ => false

/-- A number that is not a truth value. -/
def number? : Value → Option Numeric
  | int n => some (.int n)
  | float x => some (.float x)
  | nan _ => some (.float .nan)
  | _ => Option.none

/-- A number, a truth value counting as zero or one. -/
def numeric? : Value → Option Numeric
  | bool b => some (.int (if b then 1 else 0))
  | v => v.number?

/-- The value of a number. -/
def ofNumeric : Numeric → Value
  | .int n => int n
  | .float x => float x

/-! ## Display -/

/-- A row of texts in round brackets; a single one is followed by a comma. -/
def tupleText (texts : List String) : String :=
  match texts with
  | [text] => "(" ++ text ++ ",)"
  | texts => "(" ++ ", ".intercalate texts ++ ")"

mutual

/-- The display form of a value. -/
def display : Value → String
  | none => "None"
  | bool b => if b then "True" else "False"
  | int n => toString n
  | float x => x.display
  | nan _ => Binary64.nan.display
  | str s => Text.quoted s
  | list items => "[" ++ ", ".intercalate (displayAll items) ++ "]"
  | tuple items => tupleText (displayAll items)
  | shared _ => "[...]"
  | object ref => "<" ++ ref.className ++ " " ++ ref.label ++ ">"
  | function => "<function>"

/-- The display forms of some values. -/
def displayAll : List Value → List String
  | [] => []
  | v :: vs => display v :: displayAll vs

end

/-- The plain text of a value: a string as it is, anything else in its display form. -/
def plain : Value → String
  | str s => s
  | v => v.display

/-! ## Equality -/

/-- Equality of numbers of any kind, a truth value counting as a number. -/
def sameNumber (a b : Value) : Bool :=
  match a.numeric?, b.numeric? with
  | some x, some y => x.same y
  | _, _ => false

/-- Equality of values other than rows. Numbers are equal by what they denote; objects, lists with
an identity and what is not a number have only their identity. Functions are not told apart. -/
def same : Value → Value → Bool
  | none, none => true
  | str a, str b => a == b
  | shared a, shared b => a == b
  | object a, object b => a == b
  | nan a, nan b => a == b
  | function, function => true
  | a, b => sameNumber a b

end Value

end Formula
