import Formula.Member.Table

set_option autoImplicit false

/-! # Choosing an overload

A call picks the first overload that takes exactly as many arguments as are given and accepts their
types; if there is none, the first that accepts them with its defaults or further arguments. Generic
overloads are instantiated first, and passed over when they cannot be.

A generic pick is kept under the method and the argument types, unless an argument is absent, and a
kept signature is picked again without a search. -/

namespace Formula

namespace Signature

/-- The signature with its type parameters bound, if it has unbound ones. -/
def concrete (u : Universe) (s : Signature) (types : List ValueType) :
    Except BindingFault Signature :=
  if s.isGeneric then s.instantiate u types else .ok s

end Signature

/-- What one pass over the overloads found, and the generic overloads that it passed over. -/
structure Search where
  found : Option Signature
  skipped : List (String × BindingFault)

namespace Search

/-- Seeks the first overload that accepts arguments of the given types. -/
def first (u : Universe) (types : List ValueType) (loose : Bool) : List Signature → Search
  | [] => ⟨none, []⟩
  | s :: rest =>
    match s.concrete u types with
    | .error fault =>
      let more := first u types loose rest
      ⟨more.found, (s.name, fault) :: more.skipped⟩
    | .ok candidate =>
      if candidate.matchesTypes u types loose then ⟨some candidate, []⟩
      else first u types loose rest

/-- Seeks an overload in two passes, the second one with defaults and further arguments. -/
def run (u : Universe) (types : List ValueType) (overloads : List Signature) : Search :=
  let exact := first u types false overloads
  match exact.found with
  | some s => ⟨some s, exact.skipped⟩
  | none =>
    let loose := first u types true overloads
    ⟨loose.found, exact.skipped ++ loose.skipped⟩

end Search

/-- The outcome of choosing an overload: the pick, the table as it is afterwards, and what is
reported. -/
structure Resolution where
  pick : Option Signature
  table : MemberTable
  events : List Event

namespace MemberTable

/-- Whether picks for arguments of the given types can be kept: the absent value has no type that
says anything about it. -/
def isMemorable (types : List ValueType) : Bool := types.all (· != .none)

/-- Keeps a generic pick. -/
def remember (m : MemberTable) (method : String) (types : List ValueType) (s : Signature) :
    Resolution :=
  if s.typeParameters.isEmpty || !isMemorable types ||
      m.instantiations.contains (method, types) then
    ⟨some s, m, []⟩
  else
    ⟨some s, { m with instantiations := m.instantiations.put (method, types) s },
      [.remembered m.type.name (keyText method types)]⟩

/-- The signature kept for a method and argument types. -/
def remembered? (m : MemberTable) (method : String) (types : List ValueType) : Option Signature :=
  if isMemorable types then m.instantiations.find? (method, types) else none

/-- Chooses the overload of a method that accepts arguments of the given types. -/
def resolve (u : Universe) (m : MemberTable) (method : String) (types : List ValueType) :
    Resolution :=
  match m.remembered? method types with
  | some s => ⟨some s, m, []⟩
  | none =>
    let search := Search.run u types (m.overloads method)
    let skipped := search.skipped.map fun (name, fault) => Event.skipped m.type.name name fault
    match search.found with
    | none => ⟨none, m, skipped⟩
    | some s =>
      let kept := m.remember method types s
      ⟨kept.pick, kept.table, skipped ++ kept.events⟩

end MemberTable

end Formula
