import Formula.Interpreter

set_option autoImplicit false

/-! # Expressions

An expression is a tree with a scope of its own, whose parent is the scope of the globals of its
interpreter. While it is only being checked it is not traced. -/

namespace Formula

/-- A tree, the scope it is evaluated in, and whether it is only being checked and whether it is
traced otherwise. -/
structure Expression where
  tree : Node
  scope : Nat
  checking : Bool
  debug : Bool

namespace Expression

/-- An expression in a new scope. -/
def make (i : Interpreter) (tree : Node) (checking : Bool) (parent : Nat) :
    WorldAction Expression := do
  let scope ← WorldAction.newScope (some parent)
  return ⟨tree, scope, checking, i.config.debug⟩

/-- Reads a text into an expression. -/
def ofText (i : Interpreter) (text : String) : WorldAction Expression := do
  let tree ← WorldAction.ofAction (i.read text)
  make i tree false i.globals

/-- What an evaluation of the expression can see. -/
def setting (i : Interpreter) (e : Expression) (checking : Bool) (w : World) : Setting :=
  { host := i.host
    functions := i.functions
    lookup := w.lookup e.scope
    traced := e.debug && !checking }

/-- The value of an expression. -/
def evaluate (i : Interpreter) (e : Expression) : WorldAction Value := do
  let s := e.setting i e.checking (← get)
  WorldAction.ofAction do
    s.trace fun _ => .evaluating e.tree.text
    s.evaluate e.tree

/-- The value of an expression, which must belong to a type. -/
def evaluateAs (i : Interpreter) (e : Expression) (t : ValueType) : WorldAction Value := do
  let v ← e.evaluate i
  if i.host.isSubtype v.type t then return v
  else throw (.resultType e.tree.text v.typeName t.name)

/-! ## Bindings -/

/-- Gives a variable of the expression a value. -/
def assign (i : Interpreter) (e : Expression) (name : String) (v : Value) : WorldAction Unit :=
  WorldAction.assign i.host e.scope name v

/-- Gives variables of the expression their values. -/
def assignAll (i : Interpreter) (e : Expression) (values : Dictionary String Value) :
    WorldAction Unit :=
  WorldAction.assignAll i.host e.scope values.entries

/-- Declares variables of the expression by their types. -/
def declareAll (i : Interpreter) (e : Expression) (types : Dictionary String ValueType) :
    WorldAction Unit :=
  WorldAction.declareAll i.host e.scope types.entries

/-! ## Checking -/

/-- The classes of nodes that refer to something by name. -/
def references : List Node.Class := [.name, .member, .call]

/-- The faults of some trees, each evaluated by itself. -/
def faultsOf (s : Setting) : List Node → Action (List Fault)
  | [] => return []
  | node :: nodes => do
    let found ← Fault.caught (s.evaluate node)
    return found.toList ++ (← faultsOf s nodes)

/-- The faults of the references in the tree. -/
def checkReferences (i : Interpreter) (e : Expression) : WorldAction (List Fault) := do
  let s := e.setting i true (← get)
  WorldAction.ofAction (faultsOf s (e.tree.find references true true))

end Expression

end Formula
