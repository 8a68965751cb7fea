import Formula.Member.Access

set_option autoImplicit false

/-! # The store

What evaluation can change: the heap of the host, the member tables with the signatures they keep,
and the log. A member table is known by its number, which never changes.

An action may fail, and keeps what it did before failing.

Main statements: `Store.table_addTable` and `Store.table_replaceTable` (what a table is after a
change). -/

namespace Formula

/-- The heap, the member tables by number, and the log. -/
structure Store where
  heap : Heap
  tables : List MemberTable
  log : List Event

namespace Store

/-- Nothing yet. -/
def empty : Store := ⟨.empty, [], []⟩

/-- The member table with the given number. -/
def table (s : Store) (id : Nat) : MemberTable := s.tables[id]?.getD default

/-- The store with more events at the end of its log. -/
def report (s : Store) (events : List Event) : Store := { s with log := s.log ++ events }

/-- The store with a new member table, whose number is that of the tables before. -/
def addTable (s : Store) (m : MemberTable) : Store := { s with tables := s.tables ++ [m] }

/-- The store with a member table replaced. -/
def replaceTable (s : Store) (id : Nat) (m : MemberTable) : Store :=
  { s with tables := s.tables.set id m }

theorem table_addTable (s : Store) (m : MemberTable) (id : Nat) :
    (s.addTable m).table id = if id = s.tables.length then m else s.table id := by
  unfold table addTable
  rcases Nat.lt_trichotomy id s.tables.length with h | h | h
  · rw [List.getElem?_append_left h, if_neg (by omega)]
  · rw [if_pos h, h, List.getElem?_concat_length]
    rfl
  · have outside : (s.tables ++ [m]).length ≤ id := by
      rw [List.length_append]
      exact h
    rw [if_neg (by omega), List.getElem?_eq_none outside, List.getElem?_eq_none (Nat.le_of_lt h)]

theorem table_replaceTable (s : Store) (id k : Nat) (m : MemberTable) (h : id < s.tables.length) :
    (s.replaceTable id m).table k = if k = id then m else s.table k := by
  unfold table replaceTable
  by_cases hk : k = id
  · rw [if_pos hk, hk, List.getElem?_set_self h]
    rfl
  · rw [if_neg hk, List.getElem?_set_ne (Ne.symm hk)]

end Store

/-- An action of evaluation. -/
abbrev Action (α : Type) := ExceptT Fault (StateM Store) α

namespace Action

/-- An action of host code, run on the heap. -/
def ofHost {α : Type} (action : HostAction α) : Action α := fun s =>
  let (result, heap) := action s.heap
  (result, { s with heap })

/-- Adds events to the log. -/
def report (events : List Event) : Action Unit := modify fun s => s.report events

/-- Chooses the overload of a method of a member table. -/
def resolve (u : Universe) (id : Nat) (method : String) (types : List ValueType) :
    Action (Option Signature) := do
  let r := ((← get).table id).resolve u method types
  modify fun s => (s.replaceTable id r.table).report r.events
  return r.pick

/-- Chooses the overload of a method and calls it; a failure of the method gives nothing. -/
def tryInvoke (u : Universe) (id : Nat) (v : Value) (method : String) (arguments : List Value) :
    Action (Option Value) := do
  match ← resolve u id method (arguments.map (·.type)) with
  | none => return none
  | some _ =>
    let m := (← get).table id
    tryCatch (some <$> ofHost (m.invoke u v method arguments)) fun fault =>
      match fault with
      | .invocation _ _ _ => do
        report [.failedCall fault]
        return none
      | fault => throw fault

end Action

end Formula
