import Formula.Proofs.Member.Nearest

set_option autoImplicit false

/-! # Reads and calls that report

A member table is asked whether a value has something under a name: a declared member, the value of
a field, of a property or of the instance itself, a method for some arguments, the result of a call.
The answer is what was found, or nothing. Such a question fails in one way only: the attribute is
looked up, and the lookup fails. A method that fails while it runs is reported, but a property that
fails is not, since it runs while it is looked up; neither is one that a field of the same name
covers.

Main statements: `readAttribute_eq_error` (why a lookup fails), `Action.tryInvoke_eq` and
`reports`. -/

namespace Formula

/-- Whether a fault is that of a method while it ran. -/
def Fault.isInvocation : Fault → Bool
  | invocation _ _ _ => true
  | _ => false

/-! ## Looking an attribute up -/

/-- A name leads an instance to a property of its class, whose code runs when the name is read. -/
def ReachesGetter (u : Universe) (v : Value) (name : String) : Prop :=
  ∃ ref body, v = .object ref ∧ (u.attribute? ref.className name = some (.property body) ∨
    u.attribute? ref.className name = some (.cached body))

section Lookup

variable {u : Universe} {ref : ObjectRef} {v : Value} {name : String} {heap : Heap} {fault : Fault}

/-- Without a property, only an attribute that is not there cannot be read. -/
theorem readObject_eq_error (h : (readObject u ref name heap).1 = .error fault) :
    ReachesGetter u (.object ref) name ∨ fault = .noAttribute ref.className name ∧
      (u.attribute? ref.className name = none ∨ u.attribute? ref.className name = some .slot) := by
  unfold readObject getterDepth readWithin at h
  rw [run_bind_of_ok (run_get heap)] at h
  cases hattribute : u.attribute? ref.className name with
  | none =>
    cases hown : (heap.attributes ref).find? name with
    | none =>
      simp only [hattribute, hown] at h
      cases h
      exact .inr ⟨rfl, .inl rfl⟩
    | some x =>
      simp only [hattribute, hown] at h
      cases h
  | some what =>
    cases what with
    | property body => exact .inl ⟨ref, body, rfl, .inl hattribute⟩
    | cached body => exact .inl ⟨ref, body, rfl, .inr hattribute⟩
    | slot =>
      cases hown : (heap.attributes ref).find? name with
      | none =>
        simp only [hattribute, hown] at h
        cases h
        exact .inr ⟨rfl, .inr rfl⟩
      | some x =>
        simp only [hattribute, hown] at h
        cases h
    | _ =>
      cases hown : (heap.attributes ref).find? name <;>
      · simp only [hattribute, hown] at h
        cases h

/-- What can be called in a class is found on its instances, or data of the instance in its
place. -/
theorem run_callAttribute_of_callable {what : ClassAttribute}
    (hwhat : u.attribute? ref.className name = some what)
    (hcallable : (∃ method, what = .method method) ∨ what = .nested ∨ what = .callable)
    (arguments : List Value) (heap : Heap) :
    ∃ run, callAttribute u (.object ref) name arguments heap = (.ok run, heap) := by
  unfold callAttribute
  simp only
  rw [run_bind_of_ok (run_get heap)]
  cases hown : (heap.attributes ref).find? name with
  | none =>
    rcases hcallable with ⟨method, rfl⟩ | rfl | rfl <;>
    · simp only [hwhat]
      exact ⟨_, rfl⟩
  | some x =>
    have hread : readObject u ref name heap = (.ok x, heap) := by
      unfold readObject getterDepth readWithin
      rw [run_bind_of_ok (run_get heap)]
      rcases hcallable with ⟨method, rfl⟩ | rfl | rfl <;>
      · simp only [hwhat, hown]
        rfl
    rcases hcallable with ⟨method, rfl⟩ | rfl | rfl <;>
    · simp only [hwhat]
      rw [run_bind_of_ok hread]
      cases x <;> exact ⟨_, rfl⟩

/-- Of a value that is no object the properties and the methods of its type can be read. -/
theorem run_readAttribute_of_plain (hv : ∀ ref, v ≠ .object ref) (heap : Heap) :
    readAttribute u v name heap =
      (match BuiltIn.property? v name with
        | some x => .ok x
        | none =>
          if (BuiltIn.methodShapes v.type).any (·.1 == name) then .ok .function
          else .error (.noAttribute v.typeName name), heap) := by
  have hread : readAttribute u v name =
      match BuiltIn.property? v name with
      | some x => return x
      | none =>
        if (BuiltIn.methodShapes v.type).any (·.1 == name) then return .function
        else throw (.noAttribute v.typeName name) := by
    cases v with
    | object ref => exact absurd rfl (hv ref)
    | _ => rfl
  rw [hread]
  cases BuiltIn.property? v name with
  | some x => rfl
  | none =>
    simp only
    split <;> rfl

/-- So a lookup fails in a property, or because there is no such attribute. -/
theorem readAttribute_eq_error (h : (readAttribute u v name heap).1 = .error fault) :
    ReachesGetter u v name ∨ fault.isMissingAttribute = true := by
  by_cases hv : ∃ ref, v = .object ref
  · obtain ⟨ref, rfl⟩ := hv
    rcases readObject_eq_error h with hgetter | ⟨rfl, _⟩
    · exact .inl hgetter
    · exact .inr rfl
  · rw [run_readAttribute_of_plain (fun ref href => hv ⟨ref, href⟩)] at h
    simp only at h
    split at h
    · cases h
    · split at h
      · cases h
      · cases h
        exact .inr rfl

end Lookup

/-! ## The attribute behind a member -/

/-- The kind of member that an attribute of a class is. -/
def ClassAttribute.kind : ClassAttribute → MemberKind
  | method _ => .method
  | property _ | cached _ => .property
  | _ => .field

/-- If the nearest class that settles a name makes no field of it, instances find an attribute of
that kind, or one of a nearer class that is no member. -/
theorem exists_nearest_attribute {cs : List HostClass} {name : String} {kind : MemberKind}
    (h : (cs.find? (·.settles name)).map (·.kindOf name) = some kind) (hkind : kind ≠ .field) :
    ∃ what, cs.findSome? (fun c => c.attributes.find? name) = some what ∧
      (what.isMember = true → what.kind = kind) := by
  induction cs with
  | nil => cases h
  | cons c cs ih =>
    cases hown : c.attributes.find? name with
    | some what =>
      refine ⟨what, by simp [hown], fun hmember => ?_⟩
      have hsettles : c.settles name = true := by
        simp [HostClass.settles, hown, hmember]
      have hkindOf : c.kindOf name = kind := by simpa [hsettles] using h
      rw [← hkindOf, HostClass.kindOf, hown]
      cases what <;> rfl
    | none =>
      cases hsettles : c.settles name with
      | true =>
        have hkindOf : c.kindOf name = kind := by simpa [hsettles] using h
        exact absurd (by rw [← hkindOf, HostClass.kindOf, hown]) hkind
      | false =>
        obtain ⟨what, hwhat, hmember⟩ := ih (by simpa [hsettles] using h)
        exact ⟨what, by simpa [hown] using hwhat, hmember⟩

namespace Members

/-- The members of a built-in type are its properties and its methods. -/
theorem find?_ofBuiltIn {t : ValueType} {name : String} {member : Member}
    (h : (ofBuiltIn t).find? name = some member) :
    member.kind = .property ∧ name ∈ BuiltIn.propertyNames t ∨
      member.kind = .method ∧ (BuiltIn.methodShapes t).any (·.1 == name) = true := by
  let P : Members → Prop := fun ms => ∀ member, ms.find? name = some member →
    member.kind = .property ∧ name ∈ BuiltIn.propertyNames t ∨
      member.kind = .method ∧ (BuiltIn.methodShapes t).any (·.1 == name) = true
  have hproperties : P ((BuiltIn.propertyNames t).foldl
      (fun ms name => ms.put name .property) .empty) := by
    refine List.foldlRecOn (motive := P) _ _ (fun _ h => by cases h) fun ms hms n hn member h => ?_
    rw [Dictionary.find?_put] at h
    split at h
    next hname =>
      cases h
      exact .inl ⟨rfl, hname ▸ hn⟩
    · exact hms member h
  refine List.foldlRecOn (motive := P) _ _ hproperties (fun ms hms e he member h => ?_) member h
  rw [Dictionary.find?_put] at h
  split at h
  next hname =>
    cases h
    exact .inr ⟨rfl, List.any_eq_true.2 ⟨e, he, by simp [hname]⟩⟩
  · exact hms member h

end Members

namespace MemberTable

variable {u : Universe} {m : MemberTable} {v : Value} {name : String} {heap : Heap} {fault : Fault}

/-- Behind a property or a method of a class there is an attribute of that kind, or one that is no
member. -/
theorem exists_attribute (className : String) {member : Member}
    (h : (Members.ofClass u className).find? name = some member) (hkind : member.kind ≠ .field) :
    ∃ what, u.attribute? className name = some what ∧
      (what.isMember = true → what.kind = member.kind) := by
  have hname := Members.arePublic_ofType u (.declared className) name member h
  have hnearest := Members.map_kind_find?_ofClass hname u className
  rw [h] at hnearest
  exact exists_nearest_attribute hnearest.symm hkind

theorem exists_member_of_hasProperty (h : m.hasProperty name = true) :
    ∃ member, m.members.find? name = some member ∧ member.kind = .property := by
  obtain ⟨member, hfound, hmember⟩ := (Option.any_eq_true _ _).1 h
  cases member with
  | property => exact ⟨_, hfound, rfl⟩
  | _ => cases hmember

theorem exists_member_of_hasMethod (h : m.hasMethod name = true) :
    ∃ member, m.members.find? name = some member ∧ member.kind = .method := by
  obtain ⟨member, hfound, hmember⟩ := (Option.any_eq_true _ _).1 h
  cases member with
  | method overloads => exact ⟨_, hfound, rfl⟩
  | _ => cases hmember

/-- The members of a value that is no object are those of a built-in type. -/
theorem ofType_of_plain (hv : ∀ ref, v ≠ .object ref) :
    Members.ofType u v.type = .ofBuiltIn v.type := by
  cases v with
  | object ref => exact absurd rfl (hv ref)
  | _ => rfl

theorem isSome_property? (h : name ∈ BuiltIn.propertyNames v.type) :
    (BuiltIn.property? v name).isSome = true := by
  have hall : ∀ n ∈ BuiltIn.propertyNames v.type, (BuiltIn.property? v n).isSome = true := by
    cases v <;> simp [BuiltIn.propertyNames, BuiltIn.property?, BuiltIn.integerProperty?,
      BuiltIn.floatProperty?, Value.type]
  exact hall name h

/-- What a type declares as a property can be read of its instances, unless the property fails. -/
theorem reachesGetter_of_hasProperty (hm : m.members = .ofType u v.type)
    (hproperty : m.hasProperty name = true) (h : (readAttribute u v name heap).1 = .error fault) :
    ReachesGetter u v name := by
  obtain ⟨member, hfound, hkind⟩ := exists_member_of_hasProperty hproperty
  rw [hm] at hfound
  by_cases hv : ∃ ref, v = .object ref
  · obtain ⟨ref, rfl⟩ := hv
    obtain ⟨what, hwhat, hmember⟩ := exists_attribute ref.className hfound (by simp [hkind])
    rcases readObject_eq_error h with hgetter | ⟨_, hnone | hslot⟩
    · exact hgetter
    · rw [hnone] at hwhat
      cases hwhat
    · rw [hslot] at hwhat
      cases hwhat
      have habsurd : MemberKind.field = .property := (hmember rfl).trans hkind
      cases habsurd
  · have hplain : ∀ ref, v ≠ .object ref := fun ref href => hv ⟨ref, href⟩
    rw [ofType_of_plain hplain] at hfound
    rcases Members.find?_ofBuiltIn hfound with ⟨_, hname⟩ | ⟨hmethod, _⟩
    · obtain ⟨x, hx⟩ := Option.isSome_iff_exists.1 (isSome_property? hname)
      rw [run_readAttribute_of_plain hplain, hx] at h
      cases h
    · rw [hkind] at hmethod
      cases hmethod

/-- A method that a type declares is found on every instance. -/
theorem run_callAttribute_of_hasMethod (hm : m.members = .ofType u v.type)
    (hmethod : m.hasMethod name = true) (arguments : List Value) (heap : Heap) :
    ∃ run, callAttribute u v name arguments heap = (.ok run, heap) := by
  obtain ⟨member, hfound, hkind⟩ := exists_member_of_hasMethod hmethod
  rw [hm] at hfound
  by_cases hv : ∃ ref, v = .object ref
  · obtain ⟨ref, rfl⟩ := hv
    obtain ⟨what, hwhat, hmember⟩ := exists_attribute ref.className hfound (by simp [hkind])
    refine run_callAttribute_of_callable hwhat ?_ arguments heap
    rw [hkind] at hmember
    cases what with
    | method method => exact .inl ⟨method, rfl⟩
    | nested => exact .inr (.inl rfl)
    | callable => exact .inr (.inr rfl)
    | _ => cases hmember rfl
  · have hplain : ∀ ref, v ≠ .object ref := fun ref href => hv ⟨ref, href⟩
    rw [ofType_of_plain hplain] at hfound
    rcases Members.find?_ofBuiltIn hfound with ⟨hproperty, _⟩ | ⟨_, hshape⟩
    · rw [hkind] at hproperty
      cases hproperty
    · have hcall : callAttribute u v name arguments = return BuiltIn.call v name arguments := by
        cases v with
        | object ref => exact absurd rfl (hplain ref)
        | _ => exact if_pos hshape
      rw [hcall]
      exact ⟨_, rfl⟩

/-! ## Reads -/

/-- The read of a field fails as the lookup of the attribute does, unless there is none. -/
theorem readField?_eq_error : (m.readField? u v name heap).1 = .error fault ↔
    m.hasField name = true ∧ fault.isMissingAttribute = false ∧
      (readAttribute u v name heap).1 = .error fault := by
  cases hfield : m.hasField name with
  | false => simp [run_readField?_of_not_hasField hfield]
  | true =>
    rw [run_readField? hfield]
    rcases readAttribute u v name heap with ⟨cause | x, heap'⟩
    · simp only [Except.error.injEq, true_and]
      cases hmissing : cause.isMissingAttribute with
      | true =>
        simp only [if_true]
        refine iff_of_false (by simp) ?_
        rintro ⟨hfault, rfl⟩
        simp [hmissing] at hfault
      | false =>
        simp only [Bool.false_eq_true, if_false, Except.error.injEq]
        refine ⟨?_, And.right⟩
        rintro rfl
        exact ⟨hmissing, rfl⟩
    · simp

/-- The read of a property fails as the lookup of the attribute does. -/
theorem readProperty?_eq_error : (m.readProperty? u v name heap).1 = .error fault ↔
    m.hasProperty name = true ∧ (readAttribute u v name heap).1 = .error fault := by
  cases hproperty : m.hasProperty name with
  | false => simp [run_readProperty?_of_not_hasProperty hproperty]
  | true =>
    rw [run_readProperty? hproperty]
    rcases readAttribute u v name heap with ⟨cause | x, heap'⟩
    · simp [Except.map]
    · simp [Except.map]

/-- A read fails if and only if the read of a field, or that of a property, does. -/
theorem readMember?_eq_error : (m.readMember? u v name heap).1 = .error fault ↔
    (m.readField? u v name heap).1 = .error fault ∨
      (m.readProperty? u v name heap).1 = .error fault := by
  cases hfield : m.hasField name with
  | true =>
    rw [run_readMember?_of_hasField hfield,
      run_readProperty?_of_not_hasProperty (hasProperty_of_hasField hfield)]
    simp
  | false =>
    rw [run_readField?_of_not_hasField hfield]
    cases hproperty : m.hasProperty name with
    | true =>
      rw [run_readMember?_of_hasProperty hproperty]
      simp
    | false =>
      rw [readMember?_of_not_hasMember (by simp [hasMember, hfield, hproperty]), run_readOwn?,
        run_readProperty?_of_not_hasProperty hproperty]
      simp

theorem readMember?_eq_none : (m.readMember? u v name heap).1 = .ok none ↔
    m.hasMember name = false ∧ ¬ m.HasOwn u heap v name := by
  constructor
  · intro hnone
    refine ⟨Bool.eq_false_iff.2 fun hmember => ?_, fun hown => ?_⟩
    · exact readMember?_ne_none (.inl hmember) hnone
    · exact readMember?_ne_none (.inr hown) hnone
  · rintro ⟨hmember, hown⟩
    obtain ⟨found, hrun, hfound⟩ := exists_readOwn? u m v name heap
    rw [readMember?_of_not_hasMember hmember, hrun]
    cases found with
    | none => rfl
    | some x => exact absurd (hfound.1 rfl) hown

theorem isSome_member? : (m.member? name).isSome = m.hasMember name := by
  unfold member? hasMember hasField hasProperty
  cases m.members.find? name with
  | none => rfl
  | some member => cases member <;> rfl

/-! ## Calls -/

/-- Only a method is chosen an overload of. -/
theorem hasMethod_of_isSome_pick {t : ValueType} {types : List ValueType}
    (h : ((ofType u t).resolve u name types).pick.isSome = true) :
    (ofType u t).hasMethod name = true := by
  rw [resolve_pick, remembered?_ofType] at h
  unfold overloads at h
  unfold hasMethod
  split at h
  next overloads hfound =>
    rw [hfound]
    rfl
  · cases h

/-- A call fails as the lookup of the method does; any other failure is one of the method. -/
theorem invoke_eq_error {arguments : List Value} :
    (m.invoke u v name arguments heap).1 = .error fault ∧ fault.isInvocation = false ↔
      (callAttribute u v name arguments heap).1 = .error fault ∧ fault.isInvocation = false := by
  refine and_congr_left fun hfault => ?_
  unfold invoke
  rcases hfound : callAttribute u v name arguments heap with ⟨cause | run, heap'⟩
  · rw [run_bind_of_error hfound]
    simp
  · rw [run_bind_of_ok hfound]
    refine iff_of_false (fun h => ?_) (by simp)
    rcases hrun : run heap' with ⟨cause | x, heap''⟩
    · rw [run_tryCatch_of_error hrun] at h
      cases h
      cases hfault
    · rw [run_tryCatch_of_ok hrun] at h
      cases h

end MemberTable

namespace Action

variable {u : Universe} {σ : Store} {id : Nat} {v : Value} {name : String} {arguments : List Value}

theorem run_ofHost {α : Type} {action : HostAction α} {τ : Store} {result : Except Fault α}
    {heap : Heap} (h : action τ.heap = (result, heap)) :
    ofHost action τ = (result, { τ with heap }) := by
  unfold ofHost
  rw [h]

/-- Choosing an overload never fails. -/
theorem run_resolve (u : Universe) (id : Nat) (method : String) (types : List ValueType)
    (σ : Store) :
    resolve u id method types σ =
      (.ok ((σ.table id).resolve u method types).pick,
        (σ.replaceTable id ((σ.table id).resolve u method types).table).report
          ((σ.table id).resolve u method types).events) := rfl

/-- A call that reports its failure gives what the method gives, if an overload was chosen. -/
theorem tryInvoke_eq (u : Universe) (σ : Store) (id : Nat) (v : Value) (name : String)
    (arguments : List Value) :
    (tryInvoke u id v name arguments σ).1 =
      if ((σ.table id).resolve u name (arguments.map (·.type))).pick.isSome then
        match ((σ.table id).invoke u v name arguments σ.heap).1 with
        | .ok x => .ok (some x)
        | .error fault => if fault.isInvocation then .ok none else .error fault
      else .ok none := by
  have halike := σ.alike_resolve (u := u) id name (arguments.map (·.type)) id
  unfold tryInvoke
  rw [run_bind_of_ok (run_resolve u id name (arguments.map (·.type)) σ)]
  cases ((σ.table id).resolve u name (arguments.map (·.type))).pick with
  | none => rfl
  | some s =>
    -- The table that calls has the type of the one that chose, and the heap is still the same.
    let r := (σ.table id).resolve u name (arguments.map (·.type))
    let σ' := (σ.replaceTable id r.table).report r.events
    have hinvoke : (σ'.table id).invoke u v name arguments =
        (σ.table id).invoke u v name arguments := halike.invoke v name arguments
    show ((get >>= fun s => tryCatch (some <$> ofHost ((s.table id).invoke u v name arguments)) _ :
      Action (Option Value)) σ').1 = _
    rw [run_bind_of_ok (run_get σ'), hinvoke,
      ← bind_pure_comp, Option.isSome_some, if_pos rfl]
    rcases hrun : (σ.table id).invoke u v name arguments σ.heap with ⟨fault | x, heap⟩
    · have hcalled : (ofHost ((σ.table id).invoke u v name arguments) >>= fun x => pure (some x))
          σ' = (.error fault, { σ' with heap }) := run_bind_of_error (run_ofHost hrun)
      rw [run_tryCatch_of_error hcalled]
      cases fault <;> rfl
    · have hcalled : (ofHost ((σ.table id).invoke u v name arguments) >>= fun x => pure (some x))
          σ' = (.ok (some x), { σ' with heap }) := run_bind_of_ok (run_ofHost hrun)
      rw [run_tryCatch_of_ok hcalled]

/-- A call gives what the method gives, if an overload was chosen. -/
theorem tryInvoke_eq_some {x : Value} : (tryInvoke u id v name arguments σ).1 = .ok (some x) ↔
    ((σ.table id).resolve u name (arguments.map (·.type))).pick.isSome = true ∧
      ((σ.table id).invoke u v name arguments σ.heap).1 = .ok x := by
  rw [tryInvoke_eq]
  split
  next hpick =>
    rw [hpick]
    cases ((σ.table id).invoke u v name arguments σ.heap).1 with
    | error fault => cases hfault : fault.isInvocation <;> simp [hfault]
    | ok y => simp
  next hpick => simp [hpick]

/-- It fails as the lookup of the method does. -/
theorem tryInvoke_eq_error {fault : Fault} :
    (tryInvoke u id v name arguments σ).1 = .error fault ↔
      ((σ.table id).resolve u name (arguments.map (·.type))).pick.isSome = true ∧
        (callAttribute u v name arguments σ.heap).1 = .error fault ∧
          fault.isInvocation = false := by
  rw [tryInvoke_eq, ← MemberTable.invoke_eq_error]
  split
  next hpick =>
    rw [hpick]
    cases ((σ.table id).invoke u v name arguments σ.heap).1 with
    | error cause =>
      cases hcause : cause.isInvocation with
      | true =>
        simp only [hcause, if_true]
        refine iff_of_false (by simp) ?_
        rintro ⟨_, hsame, hfault⟩
        cases hsame
        simp [hcause] at hfault
      | false =>
        simp only [hcause, Bool.false_eq_true, if_false, Except.error.injEq, true_and]
        refine ⟨?_, And.left⟩
        rintro rfl
        exact ⟨rfl, hcause⟩
    | ok x => simp
  next hpick => simp [hpick]

end Action

/-! ## What is reported -/

/-- What the helpers of a member table make of a name on a value: each reports whether it found
something, or passes on how the lookup of the attribute failed, and nothing else. -/
structure Reports (u : Universe) (σ : Store) (id : Nat) (v : Value) (name : String)
    (arguments : List Value) : Prop where
  /-- Whether there is a member is only looked up in the table. -/
  member : ((σ.table id).member? name).isSome = (σ.table id).hasMember name
  /-- The choice of an overload does not fail. -/
  method : ∃ σ', Action.resolve u id name (arguments.map (·.type)) σ =
    (.ok ((σ.table id).resolve u name (arguments.map (·.type))).pick, σ')
  /-- Neither does the read of data that the instance has of its own. -/
  own : ∃ found, (σ.table id).readOwn? u v name σ.heap = (.ok found, σ.heap) ∧
    (found.isSome = true ↔ (σ.table id).HasOwn u σ.heap v name)
  /-- The read of a field finds nothing only if there is no such field. -/
  field : ((σ.table id).readField? u v name σ.heap).1 = .ok none ↔
    (σ.table id).hasField name = false
  /-- It fails as the lookup does, unless there is no such attribute. -/
  fieldFails : ∀ fault, ((σ.table id).readField? u v name σ.heap).1 = .error fault ↔
    (σ.table id).hasField name = true ∧ fault.isMissingAttribute = false ∧
      (readAttribute u v name σ.heap).1 = .error fault
  property : ((σ.table id).readProperty? u v name σ.heap).1 = .ok none ↔
    (σ.table id).hasProperty name = false
  propertyFails : ∀ fault, ((σ.table id).readProperty? u v name σ.heap).1 = .error fault ↔
    (σ.table id).hasProperty name = true ∧ (readAttribute u v name σ.heap).1 = .error fault
  value : ((σ.table id).readMember? u v name σ.heap).1 = .ok none ↔
    (σ.table id).hasMember name = false ∧ ¬ (σ.table id).HasOwn u σ.heap v name
  valueFails : ∀ fault, ((σ.table id).readMember? u v name σ.heap).1 = .error fault ↔
    ((σ.table id).readField? u v name σ.heap).1 = .error fault ∨
      ((σ.table id).readProperty? u v name σ.heap).1 = .error fault
  /-- A call gives what the method gives, if an overload was chosen. -/
  call : ∀ x, (Action.tryInvoke u id v name arguments σ).1 = .ok (some x) ↔
    ((σ.table id).resolve u name (arguments.map (·.type))).pick.isSome = true ∧
      ((σ.table id).invoke u v name arguments σ.heap).1 = .ok x
  /-- It fails as the lookup of the method does, whatever the method itself raises. -/
  callFails : ∀ fault, (Action.tryInvoke u id v name arguments σ).1 = .error fault ↔
    ((σ.table id).resolve u name (arguments.map (·.type))).pick.isSome = true ∧
      (callAttribute u v name arguments σ.heap).1 = .error fault ∧ fault.isInvocation = false
  /-- With the table of the type of the value, whatever that table was used for before, a call never
  fails, and nothing but a property of the class makes a read fail. -/
  ownType : (MemberTable.ofType u v.type).Alike u (σ.table id) →
    (∃ found, (Action.tryInvoke u id v name arguments σ).1 = .ok found) ∧
      ∀ fault, ((σ.table id).readMember? u v name σ.heap).1 = .error fault →
        ReachesGetter u v name

/-- The helpers report on any value with any table. -/
theorem reports (u : Universe) (σ : Store) (id : Nat) (v : Value) (name : String)
    (arguments : List Value) : Reports u σ id v name arguments where
  member := MemberTable.isSome_member?
  method := ⟨_, Action.run_resolve u id name _ σ⟩
  own := MemberTable.exists_readOwn? u _ v name σ.heap
  field := MemberTable.readField?_eq_none
  fieldFails _ := MemberTable.readField?_eq_error
  property := MemberTable.readProperty?_eq_none
  propertyFails _ := MemberTable.readProperty?_eq_error
  value := MemberTable.readMember?_eq_none
  valueFails _ := MemberTable.readMember?_eq_error
  call _ := Action.tryInvoke_eq_some
  callFails _ := Action.tryInvoke_eq_error
  ownType halike := by
    have hmembers : (σ.table id).members = .ofType u v.type := halike.members
    constructor
    · rcases hrun : (Action.tryInvoke u id v name arguments σ).1 with fault | found
      · obtain ⟨hpick, hlookup, _⟩ := Action.tryInvoke_eq_error.1 hrun
        rw [halike.pick] at hpick
        have hmethod : (σ.table id).hasMethod name = true :=
          (halike.hasMethod name).trans (MemberTable.hasMethod_of_isSome_pick hpick)
        obtain ⟨run, hfound⟩ :=
          MemberTable.run_callAttribute_of_hasMethod hmembers hmethod arguments σ.heap
        rw [hfound] at hlookup
        cases hlookup
      · exact ⟨found, rfl⟩
    · intro fault hread
      rcases MemberTable.readMember?_eq_error.1 hread with hfield | hproperty
      · obtain ⟨_, hmissing, hlookup⟩ := MemberTable.readField?_eq_error.1 hfield
        exact (readAttribute_eq_error hlookup).resolve_right (by simp [hmissing])
      · obtain ⟨hdeclared, hlookup⟩ := MemberTable.readProperty?_eq_error.1 hproperty
        exact MemberTable.reachesGetter_of_hasProperty hmembers hdeclared hlookup

/-- A class with a property that fails and a method, and a class that declares a field over the
property and has a property that fails in place of the method. -/
def stuckDoor : Universe where
  classes :=
    [⟨"Door", [], none, [("state", .other (.property (.raise "ValueError" "stuck"))),
        ("turn", .other (.method ⟨.ofInstance, [], .const (.int 1), []⟩))]⟩,
      ⟨"Hatch", ["Door"], none, [("state", .field (some (.type .int)) none),
        ("turn", .other (.property (.raise "ValueError" "stuck")))]⟩]
  typeParameters := []

/-- Reads do not report that a property fails, also under the type of a field, and a call does not
where a property has taken the place of the method. -/
theorem read_stuckDoor_fails :
    let door := MemberTable.ofType stuckDoor (.declared "Door")
    let hatch := MemberTable.ofType stuckDoor (.declared "Hatch")
    let stuck : Fault := .raised "ValueError" "stuck"
    (door.readProperty? stuckDoor (.object ⟨"Door", "d"⟩) "state" .empty).1 = .error stuck ∧
      (door.readMember? stuckDoor (.object ⟨"Door", "d"⟩) "state" .empty).1 = .error stuck ∧
      (hatch.readField? stuckDoor (.object ⟨"Hatch", "h"⟩) "state" .empty).1 = .error stuck ∧
      (Action.tryInvoke stuckDoor 0 (.object ⟨"Hatch", "h"⟩) "turn" [] ⟨.empty, [door], []⟩).1 =
        .error stuck :=
  ⟨rfl, rfl, rfl, rfl⟩

end Formula
