import Formula.Host.Class

set_option autoImplicit false

/-! # Signatures and the arguments they accept

A signature is one callable shape of a method. Only the exact types of arguments matter: whether a
type may stand where a type expression was written, and what a type variable is bound to.

A signature is generic while it has type parameters without type arguments. Instantiating it binds
each type parameter that is annotated directly, or as optional, to the exact type of its argument;
a parameter that receives nothing is bound to the type of all values. -/

namespace Formula

/-! ## Type expressions and types -/

/-- Types that never hold the absent value. -/
def isValueType : ValueType → Bool
  | .bool | .int | .float | .complex => true
  | _ => false

namespace TypeExpr

/-- Whether a type expression admits everything. -/
def isOpen : TypeExpr → Bool
  | missing | any | type .object => true
  | _ => false

/-- Whether a type expression names the absent value, by itself or in a union. -/
def namesNone : TypeExpr → Bool
  | none | type .none => true
  | union as => as.any fun
    | type .none => true
    | _ => false
  | _ => false

mutual

/-- The type variables in a type expression, each once, in order. -/
def typeVariables : TypeExpr → List String
  | parameter name => [name]
  | union as => typeVariablesAll as
  | list a => typeVariables a
  | classVar a => typeVariables a
  | _ => []

/-- The type variables in some type expressions, each once, in order. -/
def typeVariablesAll : List TypeExpr → List String
  | [] => []
  | a :: as =>
    let names := typeVariables a
    names ++ (typeVariablesAll as).filter fun name => !names.contains name

end

/-- The type variable that an argument binds: one by itself, or one that is optional. -/
def direct? : TypeExpr → Option String
  | parameter name => some name
  | union as =>
    match as.filter fun
      | type .none => false
      | _ => true with
    | [parameter name] => some name
    | _ => Option.none
  | _ => Option.none

/-- A type expression with the bound type in place of its type variable, if that is direct. -/
def bind (bindings : Dictionary String ValueType) : TypeExpr → TypeExpr
  | parameter name =>
    match bindings.find? name with
    | some t => type t
    | Option.none => parameter name
  | a =>
    match a.direct?.bind bindings.find? with
    | some t => unionOf [type t, none]
    | Option.none => a

mutual

/-- Whether every value of a type satisfies a type expression, type variables not being checked. -/
def coversType (u : Universe) (t : ValueType) : TypeExpr → Bool
  | type .object => true
  | type s => u.isSubtype t s
  | list _ => u.isSubtype t .list
  | union as => coversTypeAny u t as
  | _ => true

/-- Whether every value of a type satisfies one of some type expressions. -/
def coversTypeAny (u : Universe) (t : ValueType) : List TypeExpr → Bool
  | [] => false
  | a :: as => coversType u t a || coversTypeAny u t as

end

end TypeExpr

/-- Whether a type may be bound to a type variable. -/
def TypeParameter.admits (u : Universe) (t : ValueType) (v : TypeParameter) : Bool :=
  (match v.bound with
    | some bound => bound.coversType u t
    | none => true) &&
  (v.constraints.isEmpty || v.constraints.any (·.asMember.coversType u t))

/-- Whether a type may be bound to the type variable of the given name. -/
def Universe.admits (u : Universe) (name : String) (t : ValueType) : Bool :=
  match u.typeParameter? name with
  | some v => v.admits u t
  | none => true

namespace TypeExpr

/-- Whether the absent value may stand where a type expression was written: it may unless that is a
type that never holds it. -/
def acceptsNone : TypeExpr → Bool
  | type t => !isValueType t
  | _ => true

mutual

/-- Whether a value of the given exact type may stand where a type expression was written. -/
def accepts (u : Universe) (t : ValueType) (a : TypeExpr) : Bool :=
  if a.isOpen then true
  else if t = .none then a.acceptsNone
  else
    match a with
    | parameter name => u.admits name t
    | union as => acceptsAny u t as
    | type s => u.isSubtype t s
    | list _ => u.isSubtype t .list
    | _ => true

/-- Whether a value of the given exact type may stand for one of some type expressions. -/
def acceptsAny (u : Universe) (t : ValueType) : List TypeExpr → Bool
  | [] => false
  | a :: as => accepts u t a || acceptsAny u t as

end

end TypeExpr

/-! ## Signatures -/

/-- One callable shape of a method. -/
structure Signature where
  name : String
  parameters : List TypeExpr
  /-- How many parameters have no default. -/
  required : Nat
  /-- Whether any number of further arguments is accepted. -/
  variadic : Bool
  typeParameters : List String
  typeArguments : List ValueType
  /-- Whether an argument must be given by name, which no call can do. -/
  needsKeyword : Bool
  /-- Whether the shape could be read. -/
  readable : Bool

namespace Signature

/-- The signature of code whose shape cannot be read: it accepts anything. -/
def opaqueShape (name : String) : Signature :=
  { name, parameters := [], required := 0, variadic := true, typeParameters := [],
    typeArguments := [], needsKeyword := false, readable := false }

/-- The names that parameters mention without resolving them. -/
def forwardNames (parameters : List Parameter) : List String :=
  parameters.filterMap fun p =>
    match p.type with
    | .forward name => some name
    | _ => none

/-- What a forward name stands for: a known type, or the absent value. -/
def resolve? (u : Universe) (name : String) : Option TypeExpr :=
  if name = "None" then some .none else (u.type? name).map .type

/-- The parameters with their forward names resolved, if each of those stands for something. -/
def resolveForward (u : Universe) (parameters : List Parameter) : List Parameter :=
  if (forwardNames parameters).all fun name => (resolve? u name).isSome then
    parameters.map fun p =>
      match p.type with
      | .forward name => { p with type := (resolve? u name).getD p.type }
      | _ => p
  else parameters

/-- Parameters of which the first, if an argument can be given to it by position, is left out. -/
def withoutFirst : List Parameter → List Parameter
  | [] => []
  | p :: ps => if p.kind.takesPosition then ps else p :: ps

/-- The signature of code with the given parameters; the first is left out on request, once all
forward names are resolved. -/
def ofParameters (u : Universe) (name : String) (skipFirst : Bool) (parameters : List Parameter) :
    Signature :=
  let resolved := resolveForward u parameters
  let parameters := if skipFirst then withoutFirst resolved else resolved
  let positional := parameters.filter (·.kind.takesPosition)
  { name
    parameters := positional.map (·.type)
    required := (positional.filter (·.default.isNone)).length
    variadic := parameters.any (·.kind == .rest)
    typeParameters := TypeExpr.typeVariablesAll (positional.map (·.type))
    typeArguments := []
    needsKeyword := parameters.any fun p => p.kind == .keywordOnly && p.default.isNone
    readable := true }

/-- The number of parameters that take a position. -/
def count (s : Signature) : Nat := s.parameters.length

/-- Whether type parameters are still to be bound. -/
def isGeneric (s : Signature) : Bool := !s.typeParameters.isEmpty && s.typeArguments.isEmpty

/-! ## Instantiation -/

/-- Binds the type variables of type expressions to the types of the arguments beside them. -/
def bindTypes (u : Universe) (bindings : Dictionary String ValueType) :
    List (TypeExpr × ValueType) → Except BindingFault (Dictionary String ValueType)
  | [] => .ok bindings
  | (a, t) :: rest =>
    match a.direct? with
    | none => bindTypes u bindings rest
    | some v =>
      if t = .none then bindTypes u bindings rest
      else
        match bindings.find? v with
        | some bound =>
          if bound ≠ t then .error (.conflict v bound.name t.name)
          else if !u.admits v t then .error (.unsatisfied t.name v)
          else bindTypes u (bindings.put v t) rest
        | none =>
          if !u.admits v t then .error (.unsatisfied t.name v)
          else bindTypes u (bindings.put v t) rest

/-- The signature with its type parameters bound to the types of the arguments. -/
def instantiate (u : Universe) (s : Signature) (types : List ValueType) :
    Except BindingFault Signature :=
  if s.count < types.length ∧ s.variadic = false then
    .error (.tooMany s.name s.count types.length)
  else do
    let bindings ← bindTypes u .empty (s.parameters.zip types)
    return { s with
      parameters := s.parameters.map (·.bind bindings)
      typeArguments := s.typeParameters.map fun v => (bindings.find? v).getD .object }

/-! ## Matching -/

/-- Whether the number of arguments fits: exactly the number of parameters, or, if defaults and
further arguments are allowed, any number from that of the required ones on. -/
def fitsCount (s : Signature) (loose : Bool) (n : Nat) : Bool :=
  if loose then decide (s.required ≤ n) && (decide (n ≤ s.count) || s.variadic)
  else n == s.count

/-- Whether arguments of the given types can be passed. -/
def matchesTypes (u : Universe) (s : Signature) (types : List ValueType) (loose : Bool) : Bool :=
  !s.needsKeyword && s.fitsCount loose types.length &&
    (types.zip s.parameters).all fun (t, a) => a.accepts u t

end Signature

end Formula
