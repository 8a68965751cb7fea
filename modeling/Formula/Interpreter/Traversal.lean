import Formula.Interpreter.Expression

set_option autoImplicit false

/-! # Traversals

An expression applied to every item of a sequence, each bound to the same name: to keep the items
for which it is true, or to give its values. The first item decides the type of the name. A
traversal stops at the first fault and keeps what it gave before.

A traversal is lazy: each value is handed to a consumer before the next item is bound. The consumer
may change what values share, or run another traversal, and may keep a value as it stands. -/

namespace Formula

/-- What the consumer of a traversal made of the values it was given, and the fault that stopped the
traversal. -/
structure Yield (α : Type) where
  items : List α
  stopped : Option Fault

/-- What a traversal does: it keeps items, or gives the value for each. -/
inductive Traversal where
  | filter
  | map
  deriving DecidableEq, Repr

/-- An expression, or a text that becomes one when a traversal begins. -/
inductive Formulation where
  | bound (e : Expression)
  | text (s : String)

namespace Traversal

/-- What one item gives: a value, or nothing. -/
def step (i : Interpreter) (e : Expression) (name : String) (item : Value) :
    Traversal → WorldAction (Option Value)
  | filter => do
    e.assign i name item
    match ← e.evaluateAs i .bool with
    | .bool true => return some item
    | _ => return none
  | map => do
    e.assign i name item
    return some (← e.evaluate i)

/-- What the consumer makes of what the items give in order. A fault of the consumer is not one of
the traversal. -/
def run {α : Type} (consume : Value → WorldAction α) (i : Interpreter) (e : Expression)
    (name : String) (t : Traversal) : List Value → WorldAction (Yield α)
  | [] => return ⟨[], none⟩
  | item :: items => do
    let found ← tryCatch (Except.ok <$> t.step i e name item) fun fault => return .error fault
    match found with
    | .error fault => return ⟨[], some fault⟩
    | .ok none => t.run consume i e name items
    | .ok (some v) =>
      let made ← consume v
      let more ← t.run consume i e name items
      return { more with items := made :: more.items }

/-- What the consumer makes of what the items of a sequence give. Without a sequence the formula is
not even read. -/
def apply {α : Type} (consume : Value → WorldAction α) (i : Interpreter) (t : Traversal)
    (items : Option (List Value)) (name : String) (formula : Formulation) :
    WorldAction (Yield α) := do
  match items with
  | none => return ⟨[], none⟩
  | some items =>
    match formula with
    | .bound e => t.run consume i e name items
    | .text s =>
      let e ← tryCatch (Except.ok <$> Expression.ofText i s) fun fault => return .error fault
      match e with
      | .error fault => return ⟨[], some fault⟩
      | .ok e => t.run consume i e name items

/-- The consumer that keeps values as they stand: later changes of shared lists do not show. -/
def snapshot (v : Value) : WorldAction Value := return (← get).store.heap.freeze v

end Traversal

end Formula
