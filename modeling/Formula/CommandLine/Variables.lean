import Formula.CommandLine.Options
import Formula.Scope
import Formula.Yaml

set_option autoImplicit false

/-! # Variables on the command line

Variables come from a file that maps names to values, and from assignments, which take precedence.
The value of an assignment is read as a document of its own. -/

namespace Formula.CommandLine

/-! ## Bindings -/

/-- Keys with the values bound to them, in the order in which the keys were first bound. Any key of
a document takes part, but only a text names a variable. -/
abbrev Bindings := List (Value × Value)

namespace Bindings

/-- Binds a key: in place if a key that counts as equal is bound, at the end otherwise. -/
def bind (key v : Value) : Bindings → Bindings
  | [] => [(key, v)]
  | (k, old) :: rest => if k.same key then (k, v) :: rest else (k, old) :: bind key v rest

/-- Binds the keys of a row of entries, one after the other. -/
def ofEntries (entries : List (Value × Value)) : Bindings :=
  entries.foldl (fun bindings (key, v) => bind key v bindings) []

end Bindings

/-! ## Loading -/

/-- Why variables cannot be loaded: the command is used wrongly, or a text is not a document. -/
inductive LoadFault where
  | misuse (fault : UsageFault)
  | unreadable
  deriving DecidableEq, Repr

/-- The name and the value of an assignment; blanks around the name do not count. -/
def splitAssignment (option text : String) : Except UsageFault (String × String) :=
  match cutAtEquals text.toList with
  | (name, some value) =>
    let name := Text.trim (String.ofList name)
    if name.isEmpty then .error (.assignmentExpected option text)
    else .ok (name, String.ofList value)
  | (_, none) => .error (.assignmentExpected option text)

/-- Whether a value counts as nothing at all. -/
def isVoid : Value → Bool
  | .none => true
  | .bool b => !b
  | .int n => n == 0
  | .float x => x.isZero
  | .str s => s.isEmpty
  | .list items => items.isEmpty
  | _ => false

/-- The variables that a file gives. -/
def variablesOfFile (text : String) : Except LoadFault Bindings :=
  match Yaml.read? text with
  | none => .error .unreadable
  | some (.mapping entries) => .ok (.ofEntries entries)
  | some (.value v) => if isVoid v then .ok [] else .error (.misuse .mappingExpected)

/-- Adds the variables of assignments. -/
def addAssignments (bindings : Bindings) : List String → Except LoadFault Bindings
  | [] => .ok bindings
  | text :: rest =>
    match splitAssignment "--var" text with
    | .error fault => .error (.misuse fault)
    | .ok (name, value) =>
      match if value.isEmpty then some (.str "") else Yaml.value? value with
      | none => .error .unreadable
      | some v => addAssignments (bindings.bind (.str name) v) rest

/-- The variables of a file, if there is one, and of assignments. -/
def loadVariables (file : Option String) (assignments : List String) :
    Except LoadFault Bindings := do
  let bindings ← match file with
    | some text => variablesOfFile text
    | none => .ok []
  addAssignments bindings assignments

/-- The types that variables can be declared with. -/
def knownTypes : List ValueType := [.int, .float, .str, .bool]

/-- Adds the types of declarations. -/
def loadTypes (types : Dictionary String ValueType) :
    List String → Except UsageFault (Dictionary String ValueType)
  | [] => .ok types
  | text :: rest => do
    let (name, typeName) ← splitAssignment "--type" text
    match knownTypes.find? (·.name == typeName) with
    | some t => loadTypes (types.put name t) rest
    | none => .error (.unknownType typeName (knownTypes.map (·.name)))

/-! ## Assigning -/

/-- The value as a variable holds it: a list has an identity. -/
def share (v : Value) : WorldAction Value := do
  let w ← get
  let (v, heap) := w.store.heap.hold v
  let (v, heap) := match v with
    | .list items => heap.allocate items
    | v => (v, heap)
  set { w with store := { w.store with heap } }
  return v

/-- Gives the variables of a scope their values in order. A key that is not a text names none, but
it cannot stand for null either. -/
def assignBindings (u : Universe) (scope : Nat) : Bindings → WorldAction Unit
  | [] => return
  | (.str name, v) :: rest => do
    WorldAction.assign u scope name (← share v)
    assignBindings u scope rest
  | (key, .none) :: _ => throw (.untypedBinding key.plain)
  | _ :: rest => assignBindings u scope rest

end Formula.CommandLine
