import Formula.Store
import Formula.Scope.Variable

set_option autoImplicit false

/-! # Scopes

A scope binds names to variables and may have a parent. A scope is known by its number, and a parent
has a smaller number than its children, so every chain of parents ends at a root. A name means its
nearest binding along the chain. The member tables of types are registered at the root, one for each
type, and a binding holds the table of its type. -/

namespace Formula

/-- A bound variable with the number of the member table of its type. -/
structure Binding extends Variable where
  members : Nat

/-- A scope. Only roots have member tables. -/
structure Scope where
  parent : Option Nat
  bindings : Dictionary String Binding
  tables : Dictionary ValueType Nat

namespace Scope

instance : Inhabited Scope := ⟨⟨none, .empty, .empty⟩⟩

/-- A scope without bindings. -/
def child (parent : Option Nat) : Scope := ⟨parent, .empty, .empty⟩

end Scope

/-- The scopes by number, and the store that they share. -/
structure World where
  store : Store
  scopes : List Scope

namespace World

/-- No scopes and an empty store. -/
def empty : World := ⟨.empty, []⟩

/-- The scope with the given number. -/
def scope (w : World) (id : Nat) : Scope := w.scopes[id]?.getD default

/-- The numbers of a scope and its ancestors, the root last. -/
def chain (w : World) (id : Nat) : List Nat :=
  match (w.scope id).parent with
  | none => [id]
  | some parent => if parent < id then id :: w.chain parent else [id]
termination_by id

/-- The root of the chain of a scope. -/
def root (w : World) (id : Nat) : Nat := (w.chain id).getLast?.getD id

/-- The scope, nearest along the chain, that binds a name. -/
def owner? (w : World) (id : Nat) (name : String) : Option Nat :=
  (w.chain id).find? fun k => (w.scope k).bindings.contains name

/-- The nearest binding of a name along the chain of a scope. -/
def lookup (w : World) (id : Nat) (name : String) : Option Binding :=
  (w.chain id).findSome? fun k => (w.scope k).bindings.find? name

/-- The lines that show the bindings of one scope. -/
def bindingLines (w : World) (id : Nat) : List String :=
  "Variables:" :: (w.scope id).bindings.entries.map fun (name, b) =>
    "- " ++ name ++ " => " ++ b.toVariable.display w.store.heap

/-- The text of a scope: the bindings of the whole chain, the root first, after one heading for each
parent. -/
def scopeText (w : World) (id : Nat) : String :=
  let chain := w.chain id
  "\n".intercalate (List.replicate (chain.length - 1) "Parent variables:" ++
    chain.reverse.flatMap w.bindingLines)

/-! ## Changes -/

/-- The world with a scope replaced. -/
def replaceScope (w : World) (id : Nat) (s : Scope) : World :=
  { w with scopes := w.scopes.set id s }

/-- The world with a new scope, whose number is that of the scopes before. -/
def addScope (w : World) (parent : Option Nat) : World :=
  { w with scopes := w.scopes ++ [.child parent] }

/-- The world in which a scope binds a name. -/
def bind (w : World) (id : Nat) (name : String) (b : Binding) : World :=
  let s := w.scope id
  w.replaceScope id { s with bindings := s.bindings.put name b }

/-- The member table registered for a type at the root of the chain of a scope. -/
def registered? (w : World) (id : Nat) (t : ValueType) : Option Nat :=
  (w.scope (w.root id)).tables.find? t

/-- The world with a newly built member table of a type in the store. -/
def buildTable (u : Universe) (w : World) (t : ValueType) : World :=
  let m := MemberTable.ofType u t
  { w with store := (w.store.addTable m).report m.events }

/-- The world with a member table registered at the root of the chain of a scope, unless the type
has one there. -/
def register (w : World) (id : Nat) (t : ValueType) (table : Nat) : World :=
  if (w.registered? id t).isSome then w
  else
    let root := w.root id
    let s := w.scope root
    w.replaceScope root { s with tables := s.tables.put t table }

end World

/-- An action on a world. It may fail, and keeps what it did before failing. -/
abbrev WorldAction (α : Type) := ExceptT Fault (StateM World) α

namespace WorldAction

/-- An action of evaluation, run on the store. -/
def ofAction {α : Type} (action : Action α) : WorldAction α := fun w =>
  let (result, store) := action w.store
  (result, { w with store })

/-- A result that does not depend on the world. -/
def ofExcept {α : Type} : Except Fault α → WorldAction α
  | .ok a => pure a
  | .error fault => throw fault

/-- Makes a scope. -/
def newScope (parent : Option Nat) : WorldAction Nat := do
  let id := (← get).scopes.length
  modify fun w => w.addScope parent
  return id

/-- The member table of a type, built when the type is first met. -/
def tableFor (u : Universe) (id : Nat) (t : ValueType) : WorldAction Nat := do
  let w ← get
  match w.registered? id t with
  | some table => return table
  | none =>
    let table := w.store.tables.length
    set ((w.buildTable u t).register id t table)
    return table

/-- Builds a member table of a type and offers it for registration; gives its number. -/
def offerTable (u : Universe) (id : Nat) (t : ValueType) : WorldAction Nat := do
  let w ← get
  let table := w.store.tables.length
  set ((w.buildTable u t).register id t table)
  return table

/-- Declares a variable of a scope by its type alone. -/
def declare (u : Universe) (id : Nat) (name : String) (t : ValueType) : WorldAction Unit := do
  let members ← tableFor u id t
  modify fun w => w.bind id name { Variable.declare t with members }

/-- Declares variables in order. -/
def declareAll (u : Universe) (id : Nat) : List (String × ValueType) → WorldAction Unit
  | [] => return
  | (name, t) :: rest => do
    declare u id name t
    declareAll u id rest

/-- Gives a variable of a scope a value. A new variable takes the type of its value. -/
def assign (u : Universe) (id : Nat) (name : String) (v : Value) : WorldAction Unit := do
  match ((← get).scope id).bindings.find? name with
  | some b =>
    let x ← ofExcept (b.toVariable.assign v)
    modify fun w => w.bind id name { x with members := b.members }
  | none =>
    if v.isNone then throw (.untypedBinding name)
    else
      let members ← tableFor u id v.type
      modify fun w => w.bind id name ⟨⟨v.type, v⟩, members⟩

/-- Gives variables of a scope their values in order, up to the first that fails. -/
def assignAll (u : Universe) (id : Nat) : List (String × Value) → WorldAction Unit
  | [] => return
  | (name, v) :: rest => do
    assign u id name v
    assignAll u id rest

/-- Gives the variable that a name means in a scope a value, whichever scope binds it. -/
def assignNearest (u : Universe) (id : Nat) (name : String) (v : Value) : WorldAction Unit := do
  match (← get).owner? id name with
  | some owner => assign u owner name v
  | none => throw (.unboundName name)

end WorldAction

end Formula
