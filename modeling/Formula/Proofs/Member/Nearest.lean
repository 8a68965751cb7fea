import Formula.Proofs.Member.Visible

set_option autoImplicit false

/-! # The nearest class

The members of a class are gathered from its most distant ancestor to the class itself, first the
types of the fields of each class and then its attributes, and what comes later overwrites what was
there. A class settles a name if it declares a field of the name or has an attribute of it that is
neither a nested class nor another callable; otherwise it leaves the name as its ancestors have it.
So the first class in the linear order that settles a name decides alone what the name is
(`HostClass.kindOf`), whatever the classes behind it make of it.

Main statements: `Members.exists_find?_ofClass`, `Members.map_kind_find?_ofClass` and
`MemberTable.mem_names_nearest`. -/

namespace Formula

/-! ## Kinds of members -/

/-- The tables in which the members of a type are listed. -/
inductive MemberKind where
  | field
  | property
  | method
  deriving DecidableEq, Repr

/-- The table in which a member is listed. -/
def Member.kind : Member → MemberKind
  | field _ => .field
  | property => .property
  | method _ => .method

/-- Whether an attribute of a class is a member; nested classes and other callables are not. -/
def ClassAttribute.isMember : ClassAttribute → Bool
  | nested | callable => false
  | _ => true

/-! ## What a class makes of a name -/

namespace HostClass

variable {u : Universe} {c : HostClass} {name : String} {known : Option Member}

/-- Whether a class decides by itself what a name is: it has the type of a field of that name, which
belongs to its instances, or an attribute of that name which is a member. -/
def settles (c : HostClass) (name : String) : Bool :=
  (c.fieldTypes.find? name).any (!·.isClassVar) ||
    (c.attributes.find? name).any ClassAttribute.isMember

/-- What a name is that a class settles: what its attribute of that name is, or else a field. -/
def kindOf (c : HostClass) (name : String) : MemberKind :=
  match c.attributes.find? name with
  | some (.method _) => .method
  | some (.property _) | some (.cached _) => .property
  | _ => .field

/-- The member that the field types of a class make of a name, given the member it was. -/
def typed? (c : HostClass) (name : String) (known : Option Member) : Option Member :=
  match c.fieldTypes.find? name with
  | some a => if a.isClassVar then known else some (.field a)
  | none => known

/-- The member that a class makes of a name, given the member it was. -/
def member? (u : Universe) (c : HostClass) (name : String) (known : Option Member) :
    Option Member :=
  match c.attributes.find? name with
  | some what => Members.ofAttribute u name (c.typed? name known) what
  | none => c.typed? name known

theorem nodup_keys_fieldTypes (c : HostClass) : c.fieldTypes.keys.Nodup := by
  unfold fieldTypes
  refine List.foldlRecOn (motive := fun d : Dictionary String TypeExpr => d.keys.Nodup) _ _
    List.nodup_nil ?_
  rintro d hd ⟨name, declaration⟩ _
  dsimp only
  split
  · exact Dictionary.nodup_keys_put hd _ _
  · exact hd

theorem nodup_keys_attributes (c : HostClass) : c.attributes.keys.Nodup := by
  unfold attributes
  refine List.foldlRecOn (motive := fun d : Dictionary String ClassAttribute => d.keys.Nodup) _ _
    (List.foldlRecOn (motive := fun d : Dictionary String ClassAttribute => d.keys.Nodup) _ _
      List.nodup_nil ?_) ?_
  · rintro d hd ⟨name, declaration⟩ _
    dsimp only
    split
    · exact Dictionary.nodup_keys_put hd _ _
    · exact hd
    · exact Dictionary.nodup_keys_put hd _ _
  · intro d hd name _
    exact Dictionary.nodup_keys_put hd _ _

/-- A class that does not settle a name leaves it as it was. -/
theorem member?_of_not_settles (h : c.settles name = false) :
    c.member? u name known = known := by
  obtain ⟨htype, hattribute⟩ := Bool.or_eq_false_iff.1 h
  have htyped : c.typed? name known = known := by
    unfold typed?
    cases hfound : c.fieldTypes.find? name with
    | none => rfl
    | some a =>
        have hclass : a.isClassVar = true := by simpa [hfound] using htype
        simp [hclass]
  unfold member?
  cases hfound : c.attributes.find? name with
  | none => exact htyped
  | some what =>
      have hmember : what.isMember = false := by simpa [hfound] using hattribute
      cases what with
      | nested => exact htyped
      | callable => exact htyped
      | _ => cases hmember

/-- A class that settles a name makes a member of its own kind of it, whatever the name was. -/
theorem exists_member?_of_settles (u : Universe) (known : Option Member)
    (h : c.settles name = true) :
    ∃ member, c.member? u name known = some member ∧ member.kind = c.kindOf name := by
  have htyped (hmember : (c.attributes.find? name).any ClassAttribute.isMember = false) :
      ∃ a, c.typed? name known = some (.field a) := by
    unfold typed?
    rw [settles, hmember, Bool.or_false] at h
    obtain ⟨a, ha, hclass⟩ := (Option.any_eq_true _ _).1 h
    have hinstance : a.isClassVar = false := by simpa using hclass
    exact ⟨a, by simp [ha, hinstance]⟩
  unfold member? kindOf
  cases hfound : c.attributes.find? name with
  | none =>
      obtain ⟨a, ha⟩ := htyped (by rw [hfound]; rfl)
      exact ⟨.field a, ha, rfl⟩
  | some what =>
      cases what with
      | method m => exact ⟨_, rfl, rfl⟩
      | property body => exact ⟨_, rfl, rfl⟩
      | cached body => exact ⟨_, rfl, rfl⟩
      | nested =>
          obtain ⟨a, ha⟩ := htyped (by rw [hfound]; rfl)
          exact ⟨.field a, ha, rfl⟩
      | callable =>
          obtain ⟨a, ha⟩ := htyped (by rw [hfound]; rfl)
          exact ⟨.field a, ha, rfl⟩
      | slot =>
          simp only [Members.ofAttribute]
          split
          · exact ⟨_, rfl, rfl⟩
          · exact ⟨_, rfl, rfl⟩
      | value v =>
          simp only [Members.ofAttribute]
          split
          · exact ⟨_, rfl, rfl⟩
          · exact ⟨_, rfl, rfl⟩

end HostClass

/-- What the nearest class that settles a name makes of it. -/
def Universe.kindOf? (u : Universe) (className name : String) : Option MemberKind :=
  ((u.ancestors className).find? (·.settles name)).map (·.kindOf name)

/-! ## What the ancestors make of a name -/

namespace Members

variable {u : Universe} {c : HostClass} {className name : String}

theorem find?_addFieldType (hname : isPublic name = true) (members : Members)
    (e : String × TypeExpr) :
    (members.addFieldType e.1 e.2).find? name =
      if name = e.1 then if e.2.isClassVar then members.find? name else some (.field e.2)
      else members.find? name := by
  unfold addFieldType
  by_cases hkey : name = e.1
  · subst hkey
    cases hclass : e.2.isClassVar with
    | true => simp
    | false => simp [hname, Dictionary.find?_put]
  · rw [if_neg hkey]
    split
    · rw [Dictionary.find?_put, if_neg hkey]
    · rfl

/-- Only a nested class or another callable makes nothing of a name, if it was nothing. -/
theorem ofAttribute_eq_none {known : Option Member} {what : ClassAttribute}
    (h : ofAttribute u name known what = none) : known = none := by
  cases what with
  | nested => exact h
  | callable => exact h
  | slot =>
      simp only [ofAttribute] at h
      split at h <;> cases h
  | value v =>
      simp only [ofAttribute] at h
      split at h <;> cases h
  | _ => cases h

theorem find?_addAttribute (hname : isPublic name = true) (members : Members)
    (e : String × ClassAttribute) :
    (members.addAttribute u e.1 e.2).find? name =
      if name = e.1 then ofAttribute u name (members.find? name) e.2
      else members.find? name := by
  unfold addAttribute
  by_cases hkey : name = e.1
  · subst hkey
    rw [if_pos rfl, if_pos hname]
    cases hmade : ofAttribute u e.1 (members.find? e.1) e.2 with
    | some member => exact (Dictionary.find?_put _ _ _ _).trans (if_pos rfl)
    | none => exact ofAttribute_eq_none hmade
  · rw [if_neg hkey]
    split
    · split
      · rw [Dictionary.find?_put, if_neg hkey]
      · rfl
    · rfl

/-- What a class makes of a public name depends on nothing but what the name was. -/
theorem find?_addClass (hname : isPublic name = true) (members : Members) (c : HostClass) :
    (members.addClass u c).find? name = c.member? u name (members.find? name) := by
  have hfields := Dictionary.find?_foldl (fun ms e => addFieldType ms e.1 e.2)
    (fun a known => if a.isClassVar then known else some (.field a)) (find?_addFieldType hname)
    c.nodup_keys_fieldTypes members
  have hattributes := Dictionary.find?_foldl (fun ms e => addAttribute u ms e.1 e.2)
    (fun what known => ofAttribute u name known what) (find?_addAttribute hname)
    c.nodup_keys_attributes (c.fieldTypes.entries.foldl (fun ms e => addFieldType ms e.1 e.2) members)
  rw [hfields] at hattributes
  unfold HostClass.member? HostClass.typed?
  refine Eq.trans hattributes ?_
  cases c.attributes.find? name <;> cases c.fieldTypes.find? name <;> rfl

/-- A public name is what the ancestors of a class make of it one after the other. -/
theorem find?_ofClass (hname : isPublic name = true) (u : Universe) (className : String) :
    (ofClass u className).find? name =
      (u.ancestors className).foldr (fun c known => c.member? u name known) none := by
  unfold ofClass
  rw [List.foldl_reverse]
  induction u.ancestors className with
  | nil => rfl
  | cons c cs ih =>
      rw [List.foldr_cons, List.foldr_cons, find?_addClass hname, ih]

/-- What a name is, is what the first class that settles it makes of it. -/
theorem exists_foldr_member? {cs : List HostClass} (h : cs.find? (·.settles name) = some c) :
    ∃ known, cs.foldr (fun c known => c.member? u name known) none = c.member? u name known := by
  induction cs with
  | nil => cases h
  | cons d ds ih =>
      rw [List.foldr_cons]
      cases hd : d.settles name with
      | true =>
          obtain rfl : d = c := by simpa [hd] using h
          exact ⟨_, rfl⟩
      | false =>
          rw [HostClass.member?_of_not_settles hd]
          exact ih (by simpa [hd] using h)

/-- A public name is what the nearest class that settles it makes of it. -/
theorem exists_find?_ofClass (hname : isPublic name = true)
    (h : (u.ancestors className).find? (·.settles name) = some c) :
    ∃ known, (ofClass u className).find? name = c.member? u name known := by
  rw [find?_ofClass hname]
  exact exists_foldr_member? h

/-- A public name that no class settles is nothing. -/
theorem find?_ofClass_of_unsettled (hname : isPublic name = true)
    (h : (u.ancestors className).find? (·.settles name) = none) :
    (ofClass u className).find? name = none := by
  rw [find?_ofClass hname]
  refine List.foldrRecOn (motive := (· = none)) _ _ rfl fun known hknown c hc => ?_
  have hsettles : c.settles name = false := by
    simpa using List.find?_eq_none.1 h c hc
  rw [HostClass.member?_of_not_settles hsettles]
  exact hknown

/-- The members of a class are of the kinds that the nearest classes make of their names. -/
theorem map_kind_find?_ofClass (hname : isPublic name = true) (u : Universe) (className : String) :
    ((ofClass u className).find? name).map Member.kind = u.kindOf? className name := by
  unfold Universe.kindOf?
  cases hc : (u.ancestors className).find? (·.settles name) with
  | none => rw [find?_ofClass_of_unsettled hname hc, Option.map_none, Option.map_none]
  | some c =>
      obtain ⟨known, hfound⟩ := exists_find?_ofClass hname hc
      obtain ⟨member, hmember, hkind⟩ := HostClass.exists_member?_of_settles u known
        (by simpa using List.find?_some hc)
      rw [hfound, hmember, Option.map_some, Option.map_some, hkind]

end Members

/-! ## The tables -/

namespace MemberTable

variable {u : Universe} {m : MemberTable} {className name : String} {kind : MemberKind}

/-- The names that one of the three tables lists. -/
def names (m : MemberTable) : MemberKind → List String
  | .field => m.fields.map Prod.fst
  | .property => m.properties
  | .method => m.methods.map Prod.fst

theorem nodup_keys_ofType (u : Universe) (t : ValueType) : (ofType u t).members.keys.Nodup :=
  Members.IsKept.ofType (P := fun ms => ms.keys.Nodup)
    (fun _ h _ _ _ => Dictionary.nodup_keys_put h _ _) List.nodup_nil u t

/-- A table lists the names whose members are of its kind, in their order. -/
theorem names_eq (m : MemberTable) (kind : MemberKind) :
    m.names kind = (m.members.entries.filter (·.2.kind = kind)).map Prod.fst := by
  obtain ⟨type, ⟨entries⟩, instantiations⟩ := m
  induction entries with
  | nil => cases kind <;> rfl
  | cons e rest ih =>
      obtain ⟨name, member⟩ := e
      cases kind with
      | field => cases member <;> simpa [names, fields, Member.kind] using ih
      | property => cases member <;> simpa [names, properties, Member.kind] using ih
      | method => cases member <;> simpa [names, methods, Member.kind] using ih

theorem mem_names_iff (h : m.members.keys.Nodup) :
    name ∈ m.names kind ↔ (m.members.find? name).map Member.kind = some kind := by
  simp [names_eq, Dictionary.mem_entries_iff h]

/-- A class with a method, and a class that inherits it in two ways: on the first it is hidden by
a nested class, which does not count, on the second it is overridden by a property. -/
def diamond : Universe where
  classes :=
    [⟨"Account", [], none, [("total", .other (.method ⟨.ofInstance, [], .const (.int 1), []⟩))]⟩,
      ⟨"Listed", ["Account"], none, [("total", .other .nested)]⟩,
      ⟨"Computed", ["Account"], none, [("total", .other (.property (.const (.int 2))))]⟩,
      ⟨"Shared", ["Listed", "Computed"], none, [("total", .field (some (.classVar .any)) none)]⟩]
  typeParameters := []

end MemberTable

end Formula
