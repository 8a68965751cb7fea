import Formula.Proofs.Member.Resolution
import Formula.Proofs.Member.Reading

set_option autoImplicit false

/-! # What is hidden

A name that begins with an underscore is no member of any type: every way in which a class or a
built-in type adds a member asks whether the name is public, so that what giving a public name a
member keeps (`Members.IsKept`) holds of the members of every type. Other names are
hidden in an instance if its type declares no field or property of the name and the instance has no
data of its own under it (`MemberTable.Hides`). A read finds nothing under a hidden name, and does
not touch the heap.

Main statements: `Members.IsKept.ofType`, `Members.arePublic_ofType` and
`MemberTable.Hides.run_readMember?`. -/

namespace Formula

namespace Members

variable {u : Universe} {P : Members → Prop} {members : Members} {name : String}

/-! ## How members are added -/

/-- A property of members that stays when a public name is given a member. -/
def IsKept (P : Members → Prop) : Prop :=
  ∀ ms : Members, P ms → ∀ name, isPublic name = true → ∀ member, P (ms.put name member)

namespace IsKept

theorem addFieldType (hkept : IsKept P) (h : P members) (name : String) (a : TypeExpr) :
    P (members.addFieldType name a) := by
  unfold Members.addFieldType
  split
  next hfield => exact hkept members h name (Bool.and_eq_true_iff.1 hfield).1 _
  · exact h

theorem addAttribute (hkept : IsKept P) (h : P members) (name : String) (what : ClassAttribute) :
    P (members.addAttribute u name what) := by
  unfold Members.addAttribute
  split
  next hpublic =>
    split
    · exact hkept members h name hpublic _
    · exact h
  · exact h

/-- First the types of the fields of a class are added, then its attributes. -/
theorem addClass (hkept : IsKept P) (h : P members) (c : HostClass) :
    P (members.addClass u c) := by
  have hfields : P (c.fieldTypes.entries.foldl
      (fun ms e => Members.addFieldType ms e.1 e.2) members) :=
    List.foldlRecOn (motive := P) _ _ h fun _ hms e _ => hkept.addFieldType hms e.1 e.2
  exact List.foldlRecOn (motive := P) _ _ hfields fun _ hms e _ => hkept.addAttribute hms e.1 e.2

theorem ofClass (hkept : IsKept P) (hempty : P .empty) (u : Universe) (className : String) :
    P (Members.ofClass u className) :=
  List.foldlRecOn (motive := P) _ _ hempty fun _ hms c _ => hkept.addClass hms c

end IsKept

theorem isPublic_of_mem_propertyNames {t : ValueType} (h : name ∈ BuiltIn.propertyNames t) :
    isPublic name = true := by
  have hall : ∀ n ∈ BuiltIn.propertyNames t, isPublic n = true := by
    cases t <;> simp [BuiltIn.propertyNames, isPublic]
  exact hall name h

theorem isPublic_of_mem_methodShapes {t : ValueType} {shape : Option (Nat × Nat)}
    (h : (name, shape) ∈ BuiltIn.methodShapes t) : isPublic name = true := by
  have hall : ∀ e ∈ BuiltIn.methodShapes t, isPublic e.1 = true := by
    cases t <;> simp [BuiltIn.methodShapes, isPublic]
  exact hall (name, shape) h

namespace IsKept

theorem ofBuiltIn (hkept : IsKept P) (hempty : P .empty) (t : ValueType) :
    P (Members.ofBuiltIn t) := by
  have hproperties : P ((BuiltIn.propertyNames t).foldl
      (fun ms name => ms.put name .property) .empty) :=
    List.foldlRecOn (motive := P) _ _ hempty fun ms hms n hn =>
      hkept ms hms n (isPublic_of_mem_propertyNames hn) _
  exact List.foldlRecOn (motive := P) _ _ hproperties fun ms hms e he =>
    hkept ms hms e.1 (isPublic_of_mem_methodShapes he) _

/-- A property that is kept, and that a type without members has, is one of the members of every
type. -/
theorem ofType (hkept : IsKept P) (hempty : P .empty) (u : Universe) (t : ValueType) :
    P (Members.ofType u t) := by
  cases t with
  | declared name => exact hkept.ofClass hempty u name
  | _ => exact hkept.ofBuiltIn hempty _

end IsKept

/-! ## Public names -/

/-- Every name that stands for a member may be used in expressions. -/
def ArePublic (members : Members) : Prop :=
  ∀ name member, members.find? name = some member → isPublic name = true

theorem arePublic_empty : ArePublic .empty := by
  intro name member h
  cases h

theorem isKept_arePublic : IsKept ArePublic := by
  intro ms h name hname member k found hfound
  rw [Dictionary.find?_put] at hfound
  by_cases hk : k = name
  · rw [hk]
    exact hname
  · rw [if_neg hk] at hfound
    exact h k found hfound

/-- Whatever the classes of the host are, no type has a member whose name is not public. -/
theorem arePublic_ofType (u : Universe) (t : ValueType) : (ofType u t).ArePublic :=
  isKept_arePublic.ofType arePublic_empty u t

end Members

/-! ## Hidden names -/

namespace MemberTable

variable {u : Universe} {m m' : MemberTable} {heap : Heap} {v : Value} {name : String}

/-- A name is hidden in a value: it is not public, or the type declares no field or property of the
name and what the value has of its own under it is nothing, can be called, or is covered by a
method. -/
def Hides (u : Universe) (m : MemberTable) (heap : Heap) (v : Value) (name : String) : Prop :=
  isPublic name = false ∨
    m.hasMember name = false ∧
      (ownAttribute? u heap v name = none ∨ ownAttribute? u heap v name = some .function ∨
        m.hasMethod name = true)

theorem hasMember_of_not_isPublic (h : m.members.ArePublic) (hname : isPublic name = false) :
    m.hasMember name = false := by
  unfold hasMember hasField hasProperty
  cases hfound : m.members.find? name with
  | none => rfl
  | some member => exact absurd (h name member hfound) (by simp [hname])

theorem hasMethod_of_not_isPublic (h : m.members.ArePublic) (hname : isPublic name = false) :
    m.hasMethod name = false := by
  unfold hasMethod
  cases hfound : m.members.find? name with
  | none => rfl
  | some member => exact absurd (h name member hfound) (by simp [hname])

theorem Hides.hasMember (hides : m.Hides u heap v name) (h : m.members.ArePublic) :
    m.hasMember name = false := by
  rcases hides with hname | ⟨hmember, _⟩
  · exact hasMember_of_not_isPublic h hname
  · exact hmember

/-- A read finds nothing under a hidden name, and leaves the heap as it is. -/
theorem Hides.run_readMember? (hides : m.Hides u heap v name) (h : m.members.ArePublic) :
    m.readMember? u v name heap = (.ok none, heap) := by
  rw [readMember?_of_not_hasMember (hides.hasMember h), run_readOwn?]
  rcases hides with hname | ⟨_, hnone | hfunction | hmethod⟩
  · simp [hname]
  · simp [hnone]
  · simp [hfunction]
  · simp [hmethod]

end MemberTable

/-! ## Stores -/

/-- No table of a store has a member whose name is not public. -/
def Store.ArePublic (σ : Store) : Prop := ∀ id, (σ.table id).members.ArePublic

namespace Store

variable {u : Universe} {σ τ : Store}

theorem ArePublic.alike (h : σ.ArePublic) (halike : σ.Alike u τ) : τ.ArePublic := by
  intro id
  rw [(halike id).members]
  exact h id

theorem arePublic_empty : Store.empty.ArePublic := fun _ => Members.arePublic_empty

/-- A table that is built has public names only. -/
theorem ArePublic.addTable (h : σ.ArePublic) (u : Universe) (t : ValueType) :
    (σ.addTable (.ofType u t)).ArePublic := by
  intro id
  rw [table_addTable]
  split
  · exact Members.arePublic_ofType u t
  · exact h id

end Store

end Formula
