import Formula.Store

set_option autoImplicit false

/-! # Tables that cannot be told apart

Choosing an overload may keep a signature in the table, yet the same overload is chosen before and
after: the kept signature is the one that a search finds. Two tables that have the same members and
choose the same overloads read and call alike.

Main statements: `MemberTable.alike_resolve` and `Store.alike_resolve`. -/

namespace Formula

namespace MemberTable

/-- Two tables of a type have the same members and choose the same overloads. -/
structure Alike (u : Universe) (m m' : MemberTable) : Prop where
  type : m'.type = m.type
  members : m'.members = m.members
  pick : ∀ method types, (m'.resolve u method types).pick = (m.resolve u method types).pick

variable {u : Universe}

theorem Alike.refl (m : MemberTable) : m.Alike u m := ⟨rfl, rfl, fun _ _ => rfl⟩

theorem Alike.symm {m m' : MemberTable} (h : m.Alike u m') : m'.Alike u m :=
  ⟨h.type.symm, h.members.symm, fun method types => (h.pick method types).symm⟩

theorem Alike.trans {m m' m'' : MemberTable} (h : m.Alike u m') (h' : m'.Alike u m'') :
    m.Alike u m'' :=
  ⟨h'.type.trans h.type, h'.members.trans h.members,
    fun method types => (h'.pick method types).trans (h.pick method types)⟩

/-! ## Overloads -/

theorem remember_pick (m : MemberTable) (method : String) (types : List ValueType) (s : Signature) :
    (m.remember method types s).pick = some s := by
  unfold remember
  split <;> rfl

/-- A new table has nothing to remember. -/
theorem remembered?_ofType (u : Universe) (t : ValueType) (method : String)
    (types : List ValueType) : (ofType u t).remembered? method types = none := by
  unfold remembered?
  split <;> rfl

/-- The chosen overload: the one that is kept, or the one that a search finds. -/
theorem resolve_pick (m : MemberTable) (method : String) (types : List ValueType) :
    (m.resolve u method types).pick =
      (m.remembered? method types).or (Search.run u types (m.overloads method)).found := by
  unfold resolve
  cases m.remembered? method types with
  | some s => rfl
  | none =>
      simp only
      cases (Search.run u types (m.overloads method)).found with
      | none => rfl
      | some s => exact m.remember_pick method types s

/-- The table keeps nothing, or the signature that a search found. -/
theorem resolve_table (m : MemberTable) (method : String) (types : List ValueType) :
    (m.resolve u method types).table = m ∨
      ∃ s, m.remembered? method types = none ∧
        (Search.run u types (m.overloads method)).found = some s ∧
        (m.resolve u method types).table =
          { m with instantiations := m.instantiations.put (method, types) s } := by
  unfold resolve
  cases hkept : m.remembered? method types with
  | some s => exact .inl rfl
  | none =>
      simp only
      cases hfound : (Search.run u types (m.overloads method)).found with
      | none => exact .inl rfl
      | some s =>
          simp only [remember]
          split
          · exact .inl rfl
          · exact .inr ⟨s, trivial, rfl, rfl⟩

/-- Choosing an overload does not change which overloads are chosen. -/
theorem alike_resolve (m : MemberTable) (method : String) (types : List ValueType) :
    m.Alike u (m.resolve u method types).table := by
  rcases m.resolve_table method types with htable | ⟨s, hkept, hfound, htable⟩
  · rw [htable]
    exact .refl m
  · rw [htable]
    refine ⟨rfl, rfl, fun method' types' => ?_⟩
    rw [resolve_pick, resolve_pick]
    by_cases hkey : (method', types') = (method, types)
    · obtain ⟨rfl, rfl⟩ : method' = method ∧ types' = types := by simpa using hkey
      rw [hkept]
      have hsame : overloads { m with instantiations := m.instantiations.put (method', types') s }
          method' = m.overloads method' := rfl
      unfold remembered?
      rw [hsame, hfound, Dictionary.find?_put, if_pos rfl]
      split <;> rfl
    · have hother : remembered? { m with instantiations := m.instantiations.put (method, types) s }
          method' types' = m.remembered? method' types' := by
        unfold remembered?
        rw [Dictionary.find?_put, if_neg hkey]
      rw [hother]
      rfl

/-! ## Reading and calling -/

variable {m m' : MemberTable}

theorem Alike.hasMember (h : m.Alike u m') (name : String) :
    m'.hasMember name = m.hasMember name := by
  unfold MemberTable.hasMember hasField hasProperty
  rw [h.members]

theorem Alike.hasMethod (h : m.Alike u m') (name : String) :
    m'.hasMethod name = m.hasMethod name := by
  unfold MemberTable.hasMethod
  rw [h.members]

theorem Alike.readMember? (h : m.Alike u m') (v : Value) (name : String) :
    m'.readMember? u v name = m.readMember? u v name := by
  unfold MemberTable.readMember? readField? readProperty? readOwn? hasField hasProperty
  rw [h.members, h.hasMethod]

theorem Alike.invoke (h : m.Alike u m') (v : Value) (method : String) (arguments : List Value) :
    m'.invoke u v method arguments = m.invoke u v method arguments := by
  unfold MemberTable.invoke
  rw [h.type]

end MemberTable

/-! ## Stores -/

namespace Store

/-- The tables of two stores cannot be told apart. -/
def Alike (u : Universe) (s t : Store) : Prop := ∀ id, (s.table id).Alike u (t.table id)

variable {u : Universe}

theorem Alike.refl (s : Store) : s.Alike u s := fun _ => .refl _

theorem Alike.symm {s t : Store} (h : s.Alike u t) : t.Alike u s := fun id => (h id).symm

theorem Alike.trans {s t r : Store} (h : s.Alike u t) (h' : t.Alike u r) : s.Alike u r :=
  fun id => (h id).trans (h' id)

theorem alike_report (s : Store) (events : List Event) : s.Alike u (s.report events) := .refl s

theorem alike_withHeap (s : Store) (heap : Heap) : s.Alike u { s with heap } := .refl s

/-- Choosing an overload leads to a store that cannot be told apart by its tables. -/
theorem alike_resolve (s : Store) (id : Nat) (method : String) (types : List ValueType) :
    s.Alike u (s.replaceTable id ((s.table id).resolve u method types).table) := by
  intro k
  by_cases hid : id < s.tables.length
  · rw [table_replaceTable s id k _ hid]
    split
    next hk =>
      subst hk
      exact MemberTable.alike_resolve _ method types
    · exact .refl _
  · have hsame : s.replaceTable id ((s.table id).resolve u method types).table = s := by
      unfold replaceTable
      rw [List.set_eq_of_length_le (Nat.le_of_not_lt hid)]
    rw [hsame]
    exact .refl _

end Store

end Formula
