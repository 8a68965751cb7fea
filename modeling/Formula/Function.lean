import Formula.Function.Standard
import Formula.Function.Summary
import Formula.Host.Run

set_option autoImplicit false

/-! # Functions

A function has a name, something that runs, and an arity: the exact number of arguments it takes, or
none if it takes any number. The rest of a definition documents it. -/

namespace Formula

/-- A parameter as it is documented; a variadic one takes any number of values. -/
structure FunctionParameter where
  name : String
  variadic : Bool
  deriving DecidableEq, Repr

/-- Host code that can be registered as a function. -/
inductive Implementation where
  | standard (f : StandardFunction)
  /-- Code with parameters, a body and perhaps documentation. -/
  | written (parameters : List Parameter) (body : Body) (documentation : Option String)
  /-- The largest, or the smallest, of any number of values; its parameters cannot be read. -/
  | extreme (largest : Bool)

namespace Implementation

/-- The parameters of host code that take arguments by position. -/
def derivedParameters : Implementation → List FunctionParameter
  | standard f => f.parameters.map fun name => ⟨name, f.isVariadic⟩
  | written parameters _ _ =>
    parameters.filterMap fun p =>
      match p.kind with
      | .positional | .positionalOnly => some ⟨p.name, false⟩
      | .rest => some ⟨p.name, true⟩
      | .keywordOnly => none
  | extreme _ => [⟨"args", true⟩]

/-- The documentation of host code. -/
def documentation : Implementation → String
  | standard f => f.description
  | written _ _ text => text.getD ""
  | extreme true =>
    "max(iterable, *[, default=obj, key=func]) -> value\n" ++
      "max(arg1, arg2, *args, *[, key=func]) -> value"
  | extreme false =>
    "min(iterable, *[, default=obj, key=func]) -> value\n" ++
      "min(arg1, arg2, *args, *[, key=func]) -> value"

/-! ## The largest and the smallest -/

/-- The first of the largest, or of the smallest, among a value and the values after it. -/
def extremeOf (largest : Bool) (heap : Heap) : Value → List Value → Except Fault Value
  | best, [] => .ok best
  | best, v :: rest => do
    let better ← heap.isBeyond largest v best
    extremeOf largest heap (if better then v else best) rest

/-- The values that a single argument holds: the items of a row, or the characters of a text. -/
def parts? (heap : Heap) : Value → Option (List Value)
  | .list items | .tuple items => some items
  | .shared id => some (heap.items id)
  | .str s => some (s.toList.map fun c => .str (String.singleton c))
  | _ => none

/-- The largest, or the smallest, of the arguments, or of what a single one holds. -/
def runExtreme (largest : Bool) (heap : Heap) (arguments : List Value) : Except Fault Value :=
  let name := if largest then "max" else "min"
  match arguments with
  | [] => .error (.raised "TypeError" (name ++ " expected at least 1 argument, got 0"))
  | [v] =>
    match parts? heap v with
    | some (item :: items) => extremeOf largest heap item items
    | some [] => .error (.raised "ValueError" (name ++ "() arg is an empty sequence"))
    | none => .error (.raised "TypeError" ("'" ++ v.typeName ++ "' object is not iterable"))
  | v :: rest => extremeOf largest heap v rest

/-! ## Running -/

/-- Runs host code under a name. -/
def run (u : Universe) (name : String) (arguments : List Value) :
    Implementation → HostAction Value
  | standard f => do ofExcept (f.call (← get) arguments)
  | written parameters body _ => callFree u name parameters body arguments
  | extreme largest => do ofExcept (runExtreme largest (← get) arguments)

end Implementation

/-- A function as it is registered. -/
structure FunctionDefinition where
  name : String
  implementation : Implementation
  arity : Option Nat
  description : String
  category : FunctionCategory
  parameters : List FunctionParameter
  examples : List String

namespace FunctionDefinition

/-- The definition of a standard function. -/
def ofStandard (f : StandardFunction) : FunctionDefinition :=
  { name := f.name
    implementation := .standard f
    arity := if f.isVariadic then none else some f.parameters.length
    description := f.description
    category := f.category
    parameters := (Implementation.standard f).derivedParameters
    examples := f.examples }

/-- The definition of host code. Unless it is given, the arity is the number of parameters, or none
if one of them is variadic, and the description is the summary of the documentation. -/
def derive (name : String) (implementation : Implementation) (arity : Option Nat)
    (description : String) (category : FunctionCategory) (examples : List String) :
    FunctionDefinition :=
  let parameters := implementation.derivedParameters
  { name, implementation, category, parameters, examples
    arity :=
      match arity with
      | some n => some n
      | none => if parameters.any (·.variadic) then none else some parameters.length
    description :=
      if description.isEmpty then Documentation.summary implementation.documentation
      else description }

/-- Calls a function. The number of arguments is checked first. -/
def call (u : Universe) (f : FunctionDefinition) (arguments : List Value) : HostAction Value :=
  match f.arity with
  | some expected =>
    if arguments.length = expected then f.implementation.run u f.name arguments
    else throw (.argumentCount expected arguments.length f.name)
  | none => f.implementation.run u f.name arguments

end FunctionDefinition

/-! ## Tables -/

/-- The functions of an interpreter by name, in the order in which the names were first
registered. -/
abbrev FunctionTable := Dictionary String FunctionDefinition

namespace FunctionTable

/-- Registers a function in place of any other of its name. -/
def register (table : FunctionTable) (f : FunctionDefinition) : FunctionTable := table.put f.name f

/-- The table of the standard functions. -/
def standard : FunctionTable :=
  (StandardFunction.all.map FunctionDefinition.ofStandard).foldl register .empty

/-- Calls the function of the given name. -/
def call (u : Universe) (table : FunctionTable) (name : String) (arguments : List Value) :
    HostAction Value :=
  match table.find? name with
  | some f => f.call u arguments
  | none => throw (.unknownFunction name)

/-- The functions of a category, in the order of the table. -/
def ofCategory (table : FunctionTable) (category : FunctionCategory) : List FunctionDefinition :=
  table.values.filter (·.category == category)

/-- The functions in the order of their names. -/
def sorted (table : FunctionTable) : List FunctionDefinition :=
  table.values.mergeSort fun f g => decide (f.name ≤ g.name)

/-- The functions by category. A category comes where its first function stands in the table. -/
def byCategory (table : FunctionTable) : Dictionary FunctionCategory (List FunctionDefinition) :=
  table.values.foldl (fun groups f =>
    groups.put f.category ((groups.find? f.category).getD [] ++ [f])) .empty

end FunctionTable

end Formula
