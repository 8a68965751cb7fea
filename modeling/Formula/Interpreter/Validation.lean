import Formula.Interpreter.Expression

set_option autoImplicit false

/-! # Validation

An expression is validated by evaluating all references in it, each by itself, and then all
conditionals. The fault of an operand appears again in the conditional around it; it is reported
once. -/

namespace Formula

/-- The outcome of a validation: whether the text is valid, the faults, and the expression if there
are none. -/
structure Report where
  isValid : Bool
  faults : List Fault
  expression : Option Expression

/-- What a fault is reported by: the expression part it names and the wording of its cause. -/
def Fault.identity : Fault → String × String
  | .evaluation part cause => (part, cause.message)
  | fault => ("", fault.message)

namespace Validation

/-- Adds the faults of conditionals to those found before, each unless it is there already. -/
def faultsOfConditionals (i : Interpreter) (e : Expression) (known : List Fault) :
    List Node → WorldAction (List Fault)
  | [] => return known
  | node :: nodes => do
    let isolated ← Expression.make i node true e.scope
    match ← Fault.caught (isolated.evaluate i) with
    | some fault =>
      if known.any fun f => f.identity == fault.identity then
        faultsOfConditionals i e known nodes
      else faultsOfConditionals i e (known ++ [fault]) nodes
    | none => faultsOfConditionals i e known nodes

end Validation

namespace Interpreter

/-- Checks a tree that was read from a text. -/
def validateTree (i : Interpreter) (text : String) (tree : Node)
    (types : Dictionary String ValueType) : WorldAction Report := do
  let e ← Expression.make i tree true i.globals
  e.declareAll i types
  let faults ← e.checkReferences i
  let faults ← Validation.faultsOfConditionals i e faults
    (tree.find [.conditional] true true)
  if faults.isEmpty then return ⟨true, [], some { e with checking := false }⟩
  else
    WorldAction.ofAction (Action.report [.invalid text faults.length])
    return ⟨false, faults, none⟩

/-- Checks a text, given the types of some variables. A text that cannot be read has that fault
alone. -/
def validate (i : Interpreter) (text : String) (types : Dictionary String ValueType) :
    WorldAction Report := do
  let tree ← tryCatch (Except.ok <$> WorldAction.ofAction (i.read text)) fun fault =>
    match fault with
    | .unreadable _ => return .error fault
    | fault => throw fault
  match tree with
  | .error fault => return ⟨false, [fault], none⟩
  | .ok tree => i.validateTree text tree types

end Interpreter

end Formula
