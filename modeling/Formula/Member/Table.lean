import Formula.Host.BuiltIn
import Formula.Log
import Formula.Member.Signature

set_option autoImplicit false

/-! # Member tables

What expressions can see of a type: every public name is a field, a property or a method, or
nothing. The classes of a type are read from the most distant ancestor to the class itself, so that
the nearest one decides what a name is. Within a class the attributes come after the types of its
fields. A plain value does not change a field that is there already, and nested classes and
callables are no members.

A table also keeps the generic signatures that were instantiated, by method and argument types. -/

namespace Formula

/-! ## Members -/

/-- What a public name of a type is. -/
inductive Member where
  | field (type : TypeExpr)
  | property
  | method (overloads : List Signature)

namespace Member

/-- Whether a member is a field. -/
def isField : Member → Bool
  | field _ => true
  | _ => false

/-- Whether a member is a property. -/
def isProperty : Member → Bool
  | property => true
  | _ => false

/-- Whether a member is a method. -/
def isMethod : Member → Bool
  | method _ => true
  | _ => false

end Member

/-- Whether a name may be used in expressions: it does not begin with an underscore. -/
def isPublic (name : String) : Bool := name.toList.head? != some '_'

/-- The members of a type by name. -/
abbrev Members := Dictionary String Member

namespace Members

/-- Adds a field with its type, unless the field belongs to the class. -/
def addFieldType (members : Members) (name : String) (a : TypeExpr) : Members :=
  if isPublic name && !a.isClassVar then members.put name (.field a) else members

/-- The signatures of a method: those of its overloads, or its own. The overloads of a method that
is called on its class cannot be read. -/
def overloads (u : Universe) (name : String) (m : Method) : List Signature :=
  if m.overloads.isEmpty then [.ofParameters u name false m.parameters]
  else if m.kind == .ofClass then m.overloads.map fun _ => .opaqueShape name
  else m.overloads.map (Signature.ofParameters u name false)

/-- The member that an attribute of a class makes of a name, given the member it was. -/
def ofAttribute (u : Universe) (name : String) (known : Option Member) :
    ClassAttribute → Option Member
  | .method m => some (.method (overloads u name m))
  | .property _ | .cached _ => some .property
  | .slot =>
    match known with
    | some (.field a) => some (.field a)
    | _ => some (.field .any)
  | .value v =>
    match known with
    | some (.field a) => some (.field a)
    | _ => some (.field (.type v.type))
  | .nested | .callable => known

/-- Adds the attribute of a class. -/
def addAttribute (u : Universe) (members : Members) (name : String) (what : ClassAttribute) :
    Members :=
  if isPublic name then
    match ofAttribute u name (members.find? name) what with
    | some member => members.put name member
    | none => members
  else members

/-- Adds what a class declares. -/
def addClass (u : Universe) (members : Members) (c : HostClass) : Members :=
  c.attributes.entries.foldl (fun ms (name, what) => addAttribute u ms name what)
    (c.fieldTypes.entries.foldl (fun ms (name, a) => addFieldType ms name a) members)

/-- The members of a host class. -/
def ofClass (u : Universe) (className : String) : Members :=
  (u.ancestors className).reverse.foldl (addClass u) .empty

/-- The signature of a method of a built-in type: so many parameters, of which the first ones are
required, or a shape that cannot be read. -/
def builtInSignature (name : String) : Option (Nat × Nat) → Signature
  | none => .opaqueShape name
  | some (count, required) =>
    { Signature.opaqueShape name with
      parameters := List.replicate count .missing
      required
      variadic := false
      readable := true }

/-- The members of a built-in type. -/
def ofBuiltIn (t : ValueType) : Members :=
  (BuiltIn.methodShapes t).foldl (fun ms (name, shape) =>
      ms.put name (.method [builtInSignature name shape]))
    ((BuiltIn.propertyNames t).foldl (fun ms name => ms.put name .property) .empty)

/-- The members of a type. -/
def ofType (u : Universe) : ValueType → Members
  | .declared name => ofClass u name
  | t => ofBuiltIn t

end Members

/-! ## Tables -/

/-- The members of a type, and the generic signatures instantiated so far. -/
structure MemberTable where
  type : ValueType
  members : Members
  instantiations : Dictionary (String × List ValueType) Signature

namespace MemberTable

/-- The table of a type, with nothing instantiated. -/
def ofType (u : Universe) (t : ValueType) : MemberTable := ⟨t, .ofType u t, .empty⟩

instance : Inhabited MemberTable := ⟨⟨.object, .empty, .empty⟩⟩

/-- The display form of a table. -/
def display (m : MemberTable) : String := "MemberMap(" ++ m.type.name ++ ")"

/-- The fields with their types. -/
def fields (m : MemberTable) : List (String × TypeExpr) :=
  m.members.entries.filterMap fun
    | (name, .field a) => some (name, a)
    | _ => none

/-- The names of the properties. -/
def properties (m : MemberTable) : List String :=
  m.members.entries.filterMap fun
    | (name, .property) => some name
    | _ => none

/-- The methods with their overloads. -/
def methods (m : MemberTable) : List (String × List Signature) :=
  m.members.entries.filterMap fun
    | (name, .method overloads) => some (name, overloads)
    | _ => none

/-- The overloads of a method. -/
def overloads (m : MemberTable) (name : String) : List Signature :=
  match m.members.find? name with
  | some (.method overloads) => overloads
  | _ => []

/-- Whether a name is a field. -/
def hasField (m : MemberTable) (name : String) : Bool :=
  (m.members.find? name).any Member.isField

/-- Whether a name is a property. -/
def hasProperty (m : MemberTable) (name : String) : Bool :=
  (m.members.find? name).any Member.isProperty

/-- Whether a name is a field or a property. -/
def hasMember (m : MemberTable) (name : String) : Bool := m.hasField name || m.hasProperty name

/-- Whether a name is a method. -/
def hasMethod (m : MemberTable) (name : String) : Bool :=
  (m.members.find? name).any Member.isMethod

/-- What is reported when a table was made; the tables of built-in types are not reported. -/
def events (m : MemberTable) : List Event :=
  match m.type with
  | .declared _ =>
    [.mapped m.type.qualified m.fields.length m.properties.length m.methods.length]
  | _ => []

/-! ## Instantiated signatures -/

/-- The written form of a method with argument types. -/
def keyText (method : String) (types : List ValueType) : String :=
  method ++ "[" ++ ",".intercalate (types.map (·.qualified)) ++ "]"

/-- The written forms of the methods and types for which a signature was instantiated. -/
def instantiationKeys (m : MemberTable) : List String :=
  m.instantiations.keys.map fun (method, types) => keyText method types

end MemberTable

end Formula
