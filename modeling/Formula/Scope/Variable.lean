import Formula.Host.Heap

set_option autoImplicit false

/-! # Variables

A variable has a declared type and a value: the absent value, or one whose exact type is the
declared type. -/

namespace Formula

/-- A typed variable. -/
structure Variable where
  type : ValueType
  value : Value

namespace Variable

/-- A variable of the given type without a value. -/
def declare (t : ValueType) : Variable := ⟨t, .none⟩

/-- A variable that has the type of its value. -/
def ofValue (v : Value) : Except Fault Variable :=
  if v.isNone then .error .untypedVariable else .ok ⟨v.type, v⟩

/-- The variable with another value: the absent value, or one of its type. -/
def assign (x : Variable) (v : Value) : Except Fault Variable :=
  if v.isNone ∨ v.type = x.type then .ok { x with value := v }
  else .error (.typeMismatch x.type.name v.typeName)

/-- Whether a variable has a value. -/
def hasValue (x : Variable) : Bool := !x.value.isNone

/-- The display form of a variable. -/
def display (heap : Heap) (x : Variable) : String :=
  "Variable(" ++ x.type.name ++ ", value=" ++ (heap.freeze x.value).display ++ ")"

end Variable

end Formula
