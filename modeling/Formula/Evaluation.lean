import Formula.Evaluation.Operators
import Formula.Function
import Formula.Scope

set_option autoImplicit false

/-! # Evaluation

The value of a tree, given what each name is bound to and which functions there are. Parts are
evaluated from left to right: both operands of an operation, all arguments before a function or a
method is looked up, and of a conditional the condition and then one branch. A list literal on the
right of an operator is no operand of its own.

A variable without a value lets members and methods be checked by name: they are absent, and nothing
of the host is touched.

An error names the innermost part in which it arose. While an evaluation is traced, every part
reports its value when it is done. -/

namespace Formula

/-- The fault, naming the part in which it arose unless it names one already. -/
def Fault.within (part : String) (fault : Fault) : Fault :=
  if fault.isEvaluation then fault else .evaluation part fault

/-- What an evaluation can see. -/
structure Setting where
  host : Universe
  functions : FunctionTable
  lookup : String → Option Binding
  traced : Bool

namespace Setting

/-- Reports an event if the evaluation is traced. -/
def trace (s : Setting) (event : Heap → Event) : Action Unit := do
  if s.traced then Action.report [event (← get).heap]

/-- Tracing does nothing but report. -/
theorem run_trace (s : Setting) (event : Heap → Event) (σ : Store) :
    s.trace event σ = (.ok (), if s.traced then σ.report [event σ.heap] else σ) := by
  unfold trace
  split <;> rfl

/-- Ends the evaluation of a node: a fault names the node, and a value is reported. -/
def complete (s : Setting) (node : Node) (action : Action Value) : Action Value := do
  let v ← tryCatch action fun fault => throw (fault.within node.text)
  s.trace fun heap => .evaluated node (heap.freeze v)
  return v

/-! ## Names and members -/

/-- The value of a variable. -/
def readName (s : Setting) (name : String) : Action Value :=
  match s.lookup name with
  | some b => return b.value
  | none => throw (.unboundName name)

/-- The value of a member of a variable. Without a value only its type is asked. -/
def readMember (s : Setting) (parent name : String) : Action Value := do
  match s.lookup parent with
  | none => throw (.unboundParent parent)
  | some b =>
    let m := (← get).table b.members
    if b.value.isNone then
      if m.hasMember name then return .none else throw (.noMember name parent)
    else
      match ← Action.ofHost (m.readMember? s.host b.value name) with
      | some v => return v
      | none => throw (.noMember name parent)

/-! ## Calls -/

/-- Calls a function. A conditional that is written like a call is refused by its own message. -/
def callFunction (s : Setting) (name : String) (arguments : List Value) : Action Value := do
  match s.functions.find? name with
  | none => throw (if Text.lower name = "if" then .conditionalForm else .notRegistered name)
  | some f =>
    s.trace fun heap => .calling name (arguments.map heap.freeze)
    Action.ofHost (f.call s.host arguments)

/-- Calls a method of a variable. Without a value it is only checked that the call would be
possible. -/
def callMethod (s : Setting) (parent name : String) (arguments : List Value) : Action Value := do
  match s.lookup parent with
  | none => throw (.unboundName parent)
  | some b =>
    if ((← get).table b.members).hasMethod name then
      let types := arguments.map (·.type)
      match ← Action.resolve s.host b.members name types with
      | none => throw (.noOverload name parent (types.map (·.name)))
      | some _ =>
        if b.value.isNone then return .none
        else
          s.trace fun heap => .invoking parent name (arguments.map heap.freeze)
          let m := (← get).table b.members
          Action.ofHost (m.invoke s.host b.value name arguments)
    else throw (.noMethod name parent)

/-- Calls a function or, with a parent, a method. -/
def call (s : Setting) (parent : Option String) (name : String) (arguments : List Value) :
    Action Value :=
  match parent with
  | none => s.callFunction name arguments
  | some parent => s.callMethod parent name arguments

/-! ## Trees -/

/-- Whether a condition holds: the absent value counts as false. -/
def holds (condition : Value) : Except Fault Bool :=
  match condition with
  | .none => .ok false
  | .bool b => .ok b
  | _ => .error .conditionType

end Setting

/-- The items of a list literal. -/
def Node.items? : Node → Option Items
  | list items => some items
  | _ => none

namespace Action

/-- A result that does not depend on the store. -/
def ofExcept {α : Type} : Except Fault α → Action α
  | .ok a => pure a
  | .error fault => throw fault

end Action

namespace Setting

mutual

/-- The value of a tree. -/
def evaluate (s : Setting) : Node → Action Value
  | .literal value => s.complete (.literal value) (return value.toValue)
  | .list items => s.complete (.list items) (return .list items.values)
  | .name n => s.complete (.name n) (s.readName n)
  | .member parent n => s.complete (.member parent n) (s.readMember parent n)
  | .call parent n arguments => s.complete (.call parent n arguments) do
    let values ← s.evaluateAll arguments
    s.call parent n values
  | .binary op left right => s.complete (.binary op left right) do
    let a ← s.evaluate left
    match right.items? with
    | some items => Action.ofExcept (op.applyToItems a items)
    | none =>
      let b ← s.evaluate right
      Action.ofExcept (op.apply a b)
  | .conditional condition truthy falsy =>
    s.complete (.conditional condition truthy falsy) do
      let c ← s.evaluate condition
      if ← Action.ofExcept (holds c) then s.evaluate truthy else s.evaluate falsy

/-- The values of some trees, from left to right. -/
def evaluateAll (s : Setting) : List Node → Action (List Value)
  | [] => return []
  | node :: nodes => do
    let v ← s.evaluate node
    let vs ← s.evaluateAll nodes
    return v :: vs

end

end Setting

end Formula
