import Formula.Host.Class

set_option autoImplicit false

/-! # The heap of the host

Host objects and the lists that the host handed in live in a heap, so that a change made through one
holder is seen by all. An object keeps the attributes that were set on it; a list keeps its items.
What is not a number is given an identity when an attribute or a list takes it.

A value is frozen by putting the items of lists in place of their identities. -/

namespace Formula

/-- The attributes of objects, by label, the items of lists, and how many values that are not
numbers have an identity. -/
structure Heap where
  objects : Dictionary String (Dictionary String Value)
  lists : List (List Value)
  nans : Nat

namespace Heap

/-- Nothing yet. -/
def empty : Heap := ⟨.empty, [], 0⟩

/-- The attributes set on an object. -/
def attributes (h : Heap) (ref : ObjectRef) : Dictionary String Value :=
  (h.objects.find? ref.label).getD .empty

/-- Sets an attribute of an object. -/
def setAttribute (h : Heap) (ref : ObjectRef) (name : String) (value : Value) : Heap :=
  { h with objects := h.objects.put ref.label ((h.attributes ref).put name value) }

/-- A new list with the given items. -/
def allocate (h : Heap) (items : List Value) : Value × Heap :=
  (.shared h.lists.length, { h with lists := h.lists ++ [items] })

/-- The items of a list. -/
def items (h : Heap) (id : Nat) : List Value := h.lists[id]?.getD []

/-- Adds an item at the end of a list. -/
def append (h : Heap) (id : Nat) (value : Value) : Heap :=
  { h with lists := h.lists.set id (h.items id ++ [value]) }

/-- A list that stands for itself in place of its identity; the items keep theirs. -/
def unshare (h : Heap) : Value → Value
  | .shared id => .list (h.items id)
  | v => v

/-! ## Holding -/

mutual

/-- Gives identities, counted from `next`, to what is not a number and has none; also gives the
number after the last one. -/
def distinguish (next : Nat) : Value → Value × Nat
  | .float .nan => (.nan next, next + 1)
  | .list items =>
    let (items, next) := distinguishAll next items
    (.list items, next)
  | .tuple items =>
    let (items, next) := distinguishAll next items
    (.tuple items, next)
  | v => (v, next)

/-- Gives identities in some values, one after the other. -/
def distinguishAll (next : Nat) : List Value → List Value × Nat
  | [] => ([], next)
  | v :: vs =>
    let (v, next) := distinguish next v
    let (vs, next) := distinguishAll next vs
    (v :: vs, next)

end

/-- The value as something holds it. -/
def hold (h : Heap) (v : Value) : Value × Heap :=
  let (v, nans) := distinguish h.nans v
  (v, { h with nans })

/-! ## Freezing -/

mutual

/-- Replaces the identities of lists, given what becomes of each. -/
def substitute (list : Nat → Value) : Value → Value
  | .shared id => list id
  | .list items => .list (substituteAll list items)
  | .tuple items => .tuple (substituteAll list items)
  | .none => .none
  | .bool b => .bool b
  | .int n => .int n
  | .float x => .float x
  | .nan id => .nan id
  | .str s => .str s
  | .object ref => .object ref
  | .function => .function

/-- Replaces the identities of lists in some values. -/
def substituteAll (list : Nat → Value) : List Value → List Value
  | [] => []
  | v :: vs => substitute list v :: substituteAll list vs

end

/-- Replaces the identities of lists by their items, as deep as the first argument allows; a list
met again inside itself keeps its identity. -/
def freezeWithin (h : Heap) : Nat → List Nat → Value → Value
  | 0, _, v => v
  | depth + 1, path, v =>
    substitute (fun id =>
      if path.contains id then .shared id
      else .list ((h.items id).map (h.freezeWithin depth (id :: path)))) v

/-- The value with the items of all lists in place. -/
def freeze (h : Heap) (v : Value) : Value := h.freezeWithin (h.lists.length + 1) [] v

end Heap

/-- An action of host code: it may fail, and keeps what it did before failing. -/
abbrev HostAction (α : Type) := ExceptT Fault (StateM Heap) α

/-- The value as something holds it from now on. -/
def HostAction.hold (v : Value) : HostAction Value := modifyGet fun heap => heap.hold v

end Formula
