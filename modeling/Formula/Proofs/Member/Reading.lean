import Formula.Member.Access
import Formula.Proofs.Effect

set_option autoImplicit false

/-! # What a read of a member finds

A read finds a declared member, or data that the instance has of its own, and nothing else. What the
type declares is found in every instance, with a value or an error.

Main statements: `MemberTable.hasMember_or_hasOwn` and `MemberTable.readMember?_ne_none`. -/

namespace Formula

/-- Whether an instance has an attribute of its own that is data: what can be called is none. -/
def OwnsData (u : Universe) (heap : Heap) (v : Value) (name : String) : Prop :=
  ∃ x, ownAttribute? u heap v name = some x ∧ x ≠ .function

/-- Only objects have attributes of their own. -/
theorem OwnsData.isNone {u : Universe} {heap : Heap} {v : Value} {name : String}
    (h : OwnsData u heap v name) : v.isNone = false := by
  obtain ⟨x, hx, _⟩ := h
  cases v with
  | object ref => rfl
  | _ => cases hx

namespace MemberTable

variable {u : Universe} {m : MemberTable} {heap : Heap} {v : Value} {name : String}

/-- Whether a read finds data of the instance itself. -/
structure HasOwn (u : Universe) (m : MemberTable) (heap : Heap) (v : Value) (name : String) :
    Prop where
  isPublic : isPublic name = true
  noMethod : m.hasMethod name = false
  data : OwnsData u heap v name

/-- Where the type declares no such member, the instance itself is asked. -/
theorem readMember?_of_not_hasMember (h : m.hasMember name = false) (v : Value) :
    m.readMember? u v name = m.readOwn? u v name := by
  obtain ⟨hfield, hproperty⟩ := Bool.or_eq_false_iff.1 h
  unfold readMember? readField? readProperty?
  rw [hfield, hproperty]
  rfl

theorem run_readOwn? (heap : Heap) :
    m.readOwn? u v name heap = (.ok (if isPublic name && !m.hasMethod name then
      match ownAttribute? u heap v name with
      | some .function => none
      | found => found
    else none), heap) := by
  unfold readOwn?
  split
  · show (match ownAttribute? u heap v name with
      | some .function => return none
      | found => return found : HostAction (Option Value)) heap = _
    cases ownAttribute? u heap v name with
    | none => rfl
    | some x => cases x <;> rfl
  · rfl

/-- A read of the instance itself never fails. -/
theorem exists_readOwn? (u : Universe) (m : MemberTable) (v : Value) (name : String) (heap : Heap) :
    ∃ found, m.readOwn? u v name heap = (.ok found, heap) ∧
      (found.isSome = true ↔ m.HasOwn u heap v name) := by
  refine ⟨_, run_readOwn? heap, ?_⟩
  constructor
  · intro hfound
    split at hfound
    next hown =>
      obtain ⟨hpublic, hmethod⟩ := Bool.and_eq_true_iff.1 hown
      cases hattribute : ownAttribute? u heap v name with
      | none => simp [hattribute] at hfound
      | some x =>
        refine ⟨hpublic, by simpa using hmethod, x, hattribute, ?_⟩
        rintro rfl
        simp [hattribute] at hfound
    · cases hfound
  · rintro ⟨hpublic, hmethod, x, hx, hdata⟩
    rw [if_pos (by simp [hpublic, hmethod]), hx]
    cases x with
    | function => exact absurd rfl hdata
    | _ => rfl

/-- A read that finds something finds a declared member, or data of the instance itself. -/
theorem hasMember_or_hasOwn {x : Value} (h : (m.readMember? u v name heap).1 = .ok (some x)) :
    m.hasMember name = true ∨ m.HasOwn u heap v name := by
  cases hmember : m.hasMember name with
  | true => exact .inl rfl
  | false =>
      obtain ⟨found, hrun, hfound⟩ := exists_readOwn? u m v name heap
      rw [readMember?_of_not_hasMember hmember, hrun] at h
      cases h
      exact .inr (hfound.1 rfl)

/-! ## Declared members -/

theorem run_readField? (hfield : m.hasField name = true) (heap : Heap) :
    m.readField? u v name heap =
      match readAttribute u v name heap with
      | (.ok x, heap') => (.ok (some x), heap')
      | (.error fault, heap') =>
        if fault.isMissingAttribute then (.ok (some .none), heap') else (.error fault, heap') := by
  unfold readField?
  rw [if_pos hfield, ← bind_pure_comp]
  rcases hread : readAttribute u v name heap with ⟨fault | x, heap'⟩
  · rw [run_tryCatch_of_error (run_bind_of_error hread)]
    simp only
    split <;> rfl
  · exact run_tryCatch_of_ok (run_bind_of_ok hread)

theorem run_readField?_of_not_hasField (hfield : m.hasField name = false) (heap : Heap) :
    m.readField? u v name heap = (.ok none, heap) := by
  unfold readField?
  rw [hfield]
  rfl

theorem run_readProperty? (hproperty : m.hasProperty name = true) (heap : Heap) :
    m.readProperty? u v name heap =
      ((readAttribute u v name heap).1.map some, (readAttribute u v name heap).2) := by
  unfold readProperty?
  rw [if_pos hproperty, ← bind_pure_comp]
  rcases hread : readAttribute u v name heap with ⟨fault | x, heap'⟩
  · exact run_bind_of_error hread
  · exact run_bind_of_ok hread

theorem run_readProperty?_of_not_hasProperty (hproperty : m.hasProperty name = false)
    (heap : Heap) : m.readProperty? u v name heap = (.ok none, heap) := by
  unfold readProperty?
  rw [hproperty]
  rfl

/-- A read of a field finds nothing only if the type declares none. -/
theorem readField?_eq_none :
    (m.readField? u v name heap).1 = .ok none ↔ m.hasField name = false := by
  cases hfield : m.hasField name with
  | false => simp [run_readField?_of_not_hasField hfield]
  | true =>
      rw [run_readField? hfield]
      rcases readAttribute u v name heap with ⟨fault | x, heap'⟩
      · simp only
        split <;> simp
      · simp

theorem readProperty?_eq_none :
    (m.readProperty? u v name heap).1 = .ok none ↔ m.hasProperty name = false := by
  cases hproperty : m.hasProperty name with
  | false => simp [run_readProperty?_of_not_hasProperty hproperty]
  | true =>
      rw [run_readProperty? hproperty]
      cases (readAttribute u v name heap).1 <;> simp [Except.map]

/-- A name is not a field and a property at once. -/
theorem hasProperty_of_hasField (hfield : m.hasField name = true) : m.hasProperty name = false := by
  obtain ⟨member, hfound, hmember⟩ := (Option.any_eq_true _ _).1 hfield
  unfold hasProperty
  rw [hfound]
  cases member with
  | field a => rfl
  | _ => cases hmember

/-- A read of a name that is a field reads the field. -/
theorem run_readMember?_of_hasField (hfield : m.hasField name = true) (heap : Heap) :
    m.readMember? u v name heap = m.readField? u v name heap := by
  unfold readMember?
  rcases hread : m.readField? u v name heap with ⟨fault | found, heap'⟩
  · exact run_bind_of_error hread
  · rw [run_bind_of_ok hread]
    cases found with
    | some x => rfl
    | none =>
        have hnone := readField?_eq_none.1 (congrArg Prod.fst hread)
        rw [hfield] at hnone
        cases hnone

/-- A read of a name that is a property reads the property. -/
theorem run_readMember?_of_hasProperty (hproperty : m.hasProperty name = true) (heap : Heap) :
    m.readMember? u v name heap = m.readProperty? u v name heap := by
  have hfield : m.hasField name = false := Bool.eq_false_iff.2 fun hfield => by
    rw [hasProperty_of_hasField hfield] at hproperty
    cases hproperty
  unfold readMember?
  rw [run_bind_of_ok (run_readField?_of_not_hasField hfield heap)]
  simp only
  rcases hread : m.readProperty? u v name heap with ⟨fault | found, heap'⟩
  · exact run_bind_of_error hread
  · rw [run_bind_of_ok hread]
    cases found with
    | some x => rfl
    | none =>
        have hnone := readProperty?_eq_none.1 (congrArg Prod.fst hread)
        rw [hproperty] at hnone
        cases hnone

/-- A declared member, and data of the instance itself, is never found missing. -/
theorem readMember?_ne_none (h : m.hasMember name = true ∨ m.HasOwn u heap v name) :
    (m.readMember? u v name heap).1 ≠ .ok none := by
  cases hmember : m.hasMember name with
  | false =>
      obtain ⟨found, hrun, hfound⟩ := exists_readOwn? u m v name heap
      have hown : found.isSome = true := hfound.2 (h.resolve_left (by simp [hmember]))
      rw [readMember?_of_not_hasMember hmember, hrun]
      rintro hnone
      cases hnone
      cases hown
  | true =>
      rcases Bool.or_eq_true_iff.1 hmember with hfield | hproperty
      · rw [run_readMember?_of_hasField hfield, Ne, readField?_eq_none, hfield]
        exact Bool.noConfusion
      · rw [run_readMember?_of_hasProperty hproperty, Ne, readProperty?_eq_none, hproperty]
        exact Bool.noConfusion

end MemberTable

end Formula
