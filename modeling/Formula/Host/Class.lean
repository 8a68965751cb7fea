import Formula.Dictionary
import Formula.Fault
import Formula.Host.TypeExpr

set_option autoImplicit false

/-! # Host classes

The classes of the host application, given as data: the types of their fields, their attributes,
and the bodies of their properties and methods. A class inherits along its linear order of
ancestors, which merges the orders of its bases with the order in which it names them, a class
always standing before its own bases. -/

namespace Formula

/-! ## Code -/

/-- How a parameter takes its argument. -/
inductive ParameterKind where
  | positional
  | positionalOnly
  | rest
  | keywordOnly
  deriving DecidableEq, Repr

namespace ParameterKind

/-- Whether an argument can be given by its position. -/
def takesPosition : ParameterKind → Bool
  | positional | positionalOnly => true
  | _ => false

end ParameterKind

/-- A parameter of a method or a function. -/
structure Parameter where
  name : String
  type : TypeExpr
  default : Option Value
  kind : ParameterKind

/-- What a property, a method or a function does when it runs. -/
inductive Body where
  | const (value : Value)
  /-- The value of a parameter. -/
  | param (name : String)
  /-- An attribute of the instance. -/
  | self (name : String)
  /-- All parameter values in a row. -/
  | arguments
  | add (left right : Body)
  | mul (left right : Body)
  /-- The plain texts of some values, joined. -/
  | concat (parts : List Body)
  | upper (part : Body)
  /-- Sets an attribute of the instance and gives its value. -/
  | assign (name : String) (part : Body)
  | raise (kind message : String)

instance : Inhabited Body := ⟨.const .none⟩

/-- What a method is called on. -/
inductive MethodKind where
  | ofInstance
  | static
  | ofClass
  deriving DecidableEq, Repr

/-- A method: the signatures of its overloads, and the parameters and the body that run. -/
structure Method where
  kind : MethodKind
  parameters : List Parameter
  body : Body
  overloads : List (List Parameter)

/-! ## Classes -/

/-- An attribute of a class. -/
inductive ClassAttribute where
  | value (value : Value)
  /-- A place for an attribute of the instance. -/
  | slot
  | property (body : Body)
  /-- A property that is computed once and then kept in the instance. -/
  | cached (body : Body)
  | method (method : Method)
  | nested
  | callable

/-- One declaration in a class. -/
inductive Declaration where
  | field (type : Option TypeExpr) (value : Option Value)
  | other (what : ClassAttribute)

/-- A class of the host. With `slots` its instances have places for those attributes only, unless a
base has none. -/
structure HostClass where
  name : String
  bases : List String
  slots : Option (List String)
  declarations : List (String × Declaration)

namespace HostClass

/-- The types of the fields of a class. -/
def fieldTypes (c : HostClass) : Dictionary String TypeExpr :=
  c.declarations.foldl (fun d (name, declaration) =>
    match declaration with
    | .field (some a) _ => d.put name a
    | _ => d) .empty

/-- The attributes of a class; slots come last. -/
def attributes (c : HostClass) : Dictionary String ClassAttribute :=
  let declared := c.declarations.foldl (fun d (name, declaration) =>
    match declaration with
    | .field _ (some v) => d.put name (.value v)
    | .field _ none => d
    | .other what => d.put name what) .empty
  (c.slots.getD []).foldl (fun d name => d.put name .slot) declared

end HostClass

/-! ## Linear orders -/

/-- Whether a class stands behind the first place of some order. -/
def standsBehind (name : String) (orders : List (List String)) : Bool :=
  orders.any fun order => (order.drop 1).contains name

/-- Merges orders: takes the first of their heads that stands behind no other class. -/
def mergeOrders : Nat → List (List String) → List String
  | 0, _ => []
  | fuel + 1, orders =>
    let orders := orders.filter (!·.isEmpty)
    match (orders.filterMap List.head?).find? fun name => !standsBehind name orders with
    | none => []
    | some name =>
      name :: mergeOrders fuel
        (orders.map fun order => if order.head? == some name then order.drop 1 else order)

/-- The linear order of a class, given those of the classes before it. -/
def linearOrder (known : Dictionary String (List String)) (c : HostClass) : List String :=
  let bases := c.bases.filter known.contains
  let orders := bases.map (fun base => (known.find? base).getD []) ++ [bases]
  c.name :: mergeOrders orders.flatten.length orders

/-- The classes and type variables of a host. -/
structure Universe where
  classes : List HostClass
  typeParameters : List TypeParameter

namespace Universe

/-- The linear orders of all classes; a class is declared after its bases. -/
def orders (u : Universe) : Dictionary String (List String) :=
  u.classes.foldl (fun known c => known.put c.name (linearOrder known c)) .empty

/-- The class with the given name. -/
def class? (u : Universe) (name : String) : Option HostClass :=
  u.classes.find? (·.name == name)

/-- The type variable with the given name. -/
def typeParameter? (u : Universe) (name : String) : Option TypeParameter :=
  u.typeParameters.find? (·.name == name)

/-- A class and its ancestors in their linear order. -/
def ancestors (u : Universe) (name : String) : List HostClass :=
  ((u.orders.find? name).getD []).filterMap u.class?

/-- Whether every value of the first type is a value of the second. Truth values are integers. -/
def isSubtype (u : Universe) (t : ValueType) : ValueType → Bool
  | .object => true
  | .int => t == .int || t == .bool
  | .declared base =>
    match t with
    | .declared name => ((u.orders.find? name).getD []).contains base
    | _ => false
  | other => t == other

/-- The type with the given name. -/
def type? (u : Universe) (name : String) : Option ValueType :=
  match ValueType.builtIn.find? (·.name == name) with
  | some t => some t
  | none => (u.class? name).map fun c => .declared c.name

/-- The attribute that instances of a class see in it: that of its nearest ancestor. -/
def attribute? (u : Universe) (className name : String) : Option ClassAttribute :=
  (u.ancestors className).findSome? fun c => c.attributes.find? name

/-- Whether instances of a class can be given attributes that it does not declare. -/
def isOpen (u : Universe) (className : String) : Bool :=
  (u.ancestors className).any (·.slots.isNone)

end Universe

end Formula
