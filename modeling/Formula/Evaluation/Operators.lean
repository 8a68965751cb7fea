import Formula.Tree
import Formula.Value.Arithmetic

set_option autoImplicit false

/-! # What operators do

The kinds of both operands decide what an operator means: truth values are combined, texts compared
and joined, numbers compared and calculated with. Any other operator, and any other pair of kinds,
gives the absent value. An integer and a truth value are of different kinds. -/

namespace Formula

open Number (Numeric)

/-! ## Literals -/

/-- The value of a literal. -/
def Scalar.toValue : Scalar → Value
  | bool b => .bool b
  | int n => .int n
  | double x => .float x
  | string s => .str s

namespace Items

/-- The type of the items of a list literal. -/
def type : Items → ValueType
  | ints _ => .int
  | doubles _ => .float
  | strings _ => .str

/-- The values of the items of a list literal. -/
def values (items : Items) : List Value := items.toList.map Scalar.toValue

end Items

namespace Operator

/-! ## Operations -/

/-- An operator between truth values. -/
def onTruths : Operator → Bool → Bool → Value
  | both, a, b => .bool (a && b)
  | either, a, b => .bool (a || b)
  | _, _, _ => .none

/-- An operator between texts. -/
def onTexts : Operator → String → String → Value
  | equal, a, b => .bool (a == b)
  | unequal, a, b => .bool (a != b)
  | plus, a, b => .str (a ++ b)
  | _, _, _ => .none

/-- An operator between numbers. -/
def onNumbers : Operator → Numeric → Numeric → Except Fault Value
  | equal, a, b => .ok (.bool (a.same b))
  | unequal, a, b => .ok (.bool (!a.same b))
  | greater, a, b => .ok (.bool (b.less a))
  | less, a, b => .ok (.bool (a.less b))
  | greaterOrEqual, a, b => .ok (.bool (b.atMost a))
  | lessOrEqual, a, b => .ok (.bool (a.atMost b))
  | plus, a, b => (a.add b).map .ofNumeric
  | minus, a, b => (a.sub b).map .ofNumeric
  | times, a, b => (a.mul b).map .ofNumeric
  | dividedBy, a, b => (a.div b).map .ofNumeric
  | both, _, _ | either, _, _ | member, _, _ | absent, _, _ => .ok .none

/-- An operator between values. -/
def apply (op : Operator) (a b : Value) : Except Fault Value :=
  match a, b with
  | .bool a, .bool b => .ok (op.onTruths a b)
  | .str a, .str b => .ok (op.onTexts a b)
  | a, b =>
    match a.number?, b.number? with
    | some x, some y => op.onNumbers x y
    | _, _ => .ok .none

/-! ## Membership -/

/-- Whether a value occurs among the items of a list literal. The absent value does not say; any
other one must have the type of the items. -/
def occursIn (v : Value) (items : Items) : Except Fault (Option Bool) :=
  if v.isNone then .ok none
  else if v.type = items.type then .ok (some (items.values.any v.same))
  else .error (.itemType v.typeName items.type.name)

/-- An operator between a value and a list literal: only membership is defined. -/
def applyToItems (op : Operator) (v : Value) (items : Items) : Except Fault Value :=
  match op with
  | member => (occursIn v items).map fun
    | some found => .bool found
    | none => .none
  | absent => (occursIn v items).map fun
    | some found => .bool (!found)
    | none => .none
  | _ => .ok .none

end Operator

end Formula
