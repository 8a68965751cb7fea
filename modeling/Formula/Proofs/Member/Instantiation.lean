import Formula.Member.Signature
import Mathlib.Data.List.Forall2

set_option autoImplicit false

/-! # Instantiating a generic signature

Arguments bind type variables at the parameters where a variable is written by itself or as optional.
The bindings are gathered from left to right, and any argument can make them fail: what has been
gathered when an argument is reached is what the arguments before it give (`IsBinding`). So in the end
the order does not matter. A signature is refused if and only if there are too many arguments, two of
them give a variable different types, or one gives it a type that it does not admit
(`Signature.Refuses`); otherwise it is instantiated as the arguments say (`Signature.IsInstance`).

Main statements: `Signature.isBinding_of_bindTypes`, `Signature.exists_bindTypes` and
`Signature.instantiate_iff`. -/

namespace Formula

/-! ## Types of a host -/

namespace Universe

variable {u : Universe}

/-- A type that values of a host can have: built in, or a class of the host. -/
def IsKnown (u : Universe) (t : ValueType) : Prop :=
  ∀ name, t = .declared name → ∃ c ∈ u.classes, c.name = name

/-- A class stands in its own linear order. -/
theorem mem_of_find?_orders {name : String} {order : List String}
    (h : u.orders.find? name = some order) : name ∈ order := by
  have hall : ∀ name order, u.orders.find? name = some order → name ∈ order := by
    refine List.foldlRecOn (motive := fun known : Dictionary String (List String) =>
      ∀ name order, known.find? name = some order → name ∈ order) u.classes _ ?_ ?_
    · intro name order h
      cases h
    · intro known hknown c _ name order h
      rw [Dictionary.find?_put] at h
      by_cases hname : name = c.name
      · rw [if_pos hname] at h
        cases h
        rw [hname]
        exact List.mem_cons_self
      · rw [if_neg hname] at h
        exact hknown name order h
  exact hall name order h

/-- Every class of a host has a linear order. -/
theorem exists_find?_orders {c : HostClass} (hc : c ∈ u.classes) :
    ∃ order, u.orders.find? c.name = some order := by
  unfold orders
  obtain ⟨before, after, hclasses⟩ := List.append_of_mem hc
  rw [hclasses, List.foldl_append, List.foldl_cons]
  refine List.foldlRecOn (motive := fun known : Dictionary String (List String) =>
    ∃ order, known.find? c.name = some order) after _ ?_ ?_
  · exact ⟨_, by rw [Dictionary.find?_put, if_pos rfl]⟩
  · intro known hknown d _
    rw [Dictionary.find?_put]
    split
    · exact ⟨_, rfl⟩
    · exact hknown

/-- A type is a subtype of itself. -/
theorem isSubtype_self {t : ValueType} (h : u.IsKnown t) : u.isSubtype t t = true := by
  cases t with
  | declared name =>
      obtain ⟨c, hc, rfl⟩ := h name rfl
      obtain ⟨order, horder⟩ := exists_find?_orders hc
      rw [isSubtype, horder]
      simpa using mem_of_find?_orders horder
  | _ => rfl

end Universe

/-! ## Direct type variables -/

namespace TypeExpr

/-- A type variable is written by itself, or beside nothing but the absent value. -/
inductive IsDirect : TypeExpr → String → Prop
  | alone (v : String) : IsDirect (.parameter v) v
  | optional {before after : List TypeExpr} {v : String} :
      (∀ b ∈ before ++ after, b = .type .none) → IsDirect (.union (before ++ .parameter v :: after)) v

/-- Whether a type expression is another one than the type of the absent value. -/
def isPresent : TypeExpr → Bool
  | type .none => false
  | _ => true

theorem isPresent_eq_false {a : TypeExpr} : a.isPresent = false ↔ a = .type .none := by
  constructor
  · intro h
    unfold isPresent at h
    split at h
    · rfl
    · cases h
  · rintro rfl
    rfl

theorem direct?_union (as : List TypeExpr) : (union as).direct? =
    match as.filter isPresent with
      | [parameter name] => some name
      | _ => Option.none := rfl

theorem direct?_eq_some_iff {a : TypeExpr} {v : String} : a.direct? = some v ↔ a.IsDirect v := by
  constructor
  · intro h
    cases a with
    | parameter name =>
        cases h
        exact .alone v
    | union as =>
        rw [direct?_union] at h
        split at h
        next name hfilter =>
          cases h
          obtain ⟨before, after, rfl, hbefore, _, hafter⟩ := List.filter_eq_cons_iff.1 hfilter
          refine .optional fun b hb => isPresent_eq_false.1 (Bool.eq_false_iff.2 ?_)
          rcases List.mem_append.1 hb with hb | hb
          · exact hbefore b hb
          · exact List.filter_eq_nil_iff.1 hafter b hb
        · cases h
    | _ => cases h
  · intro h
    cases h with
    | alone v => rfl
    | @optional before after v hall =>
        have habsent {as : List TypeExpr} (has : ∀ b ∈ as, b = .type .none) :
            as.filter isPresent = [] := by
          rw [List.filter_eq_nil_iff]
          intro b hb
          rw [isPresent_eq_false.2 (has b hb)]
          exact Bool.false_ne_true
        rw [direct?_union, List.filter_append, List.filter_cons_of_pos rfl,
          habsent fun b hb => hall b (List.mem_append_left _ hb),
          habsent fun b hb => hall b (List.mem_append_right _ hb)]
        rfl

theorem IsDirect.unique {a : TypeExpr} {v v' : String} (h : a.IsDirect v) (h' : a.IsDirect v') :
    v = v' :=
  Option.some.inj ((direct?_eq_some_iff.2 h).symm.trans (direct?_eq_some_iff.2 h'))

/-- What stands in place of a direct variable that is bound: the type, or the type as optional. -/
theorem IsDirect.bind {a : TypeExpr} {v : String} {t : ValueType}
    {bindings : Dictionary String ValueType} (h : a.IsDirect v) (ht : t ≠ .none)
    (hbound : bindings.find? v = some t) :
    a.bind bindings = .type t ∨ a.bind bindings = .union [.type t, .type .none] := by
  have hdirect := direct?_eq_some_iff.2 h
  cases h with
  | alone v =>
      left
      simp only [TypeExpr.bind, hbound]
  | optional hall =>
      right
      have hdistinct : same (.type .none) (.type t) = false := by
        simp only [same, beq_eq_false_iff_ne]
        exact Ne.symm ht
      simp only [TypeExpr.bind, hdirect, Option.bind_some, hbound]
      simp [unionOf, alternatives, asMember, distinct, hdistinct]

/-- A value may stand where its own type was written, also as optional. -/
theorem accepts_of_type {u : Universe} {a : TypeExpr} {t : ValueType} (ht : u.IsKnown t)
    (hpresent : t ≠ .none) (h : a = .type t ∨ a = .union [.type t, .type .none]) :
    a.accepts u t = true := by
  have htype : (type t).accepts u t = true := by
    rw [accepts]
    split
    · rfl
    · exact Universe.isSubtype_self ht
  rcases h with rfl | rfl
  · exact htype
  · simp only [accepts, isOpen, Bool.false_eq_true, if_false, if_neg hpresent]
    rw [acceptsAny, htype, Bool.true_or]

end TypeExpr

theorem Value.type_eq_none_iff {x : Value} : x.type = .none ↔ x = .none := by
  cases x <;> simp [Value.type]

namespace Signature

variable {u : Universe} {s : Signature} {arguments : List Value}

/-! ## Gathering bindings -/

/-- A type variable is given a type that is not the absent one, beside a direct occurrence of it. -/
def Gives (pairs : List (TypeExpr × ValueType)) (v : String) (t : ValueType) : Prop :=
  ∃ a, (a, t) ∈ pairs ∧ a.IsDirect v ∧ t ≠ .none

theorem gives_cons {a : TypeExpr} {t t' : ValueType} {rest : List (TypeExpr × ValueType)}
    {v : String} :
    Gives ((a, t) :: rest) v t' ↔ (a.IsDirect v ∧ t ≠ .none ∧ t' = t) ∨ Gives rest v t' := by
  constructor
  · rintro ⟨b, hb, hdirect, hpresent⟩
    rcases List.mem_cons.1 hb with heq | hb
    · cases heq
      exact .inl ⟨hdirect, hpresent, rfl⟩
    · exact .inr ⟨b, hb, hdirect, hpresent⟩
  · rintro (⟨hdirect, hpresent, rfl⟩ | ⟨b, hb, hdirect, hpresent⟩)
    · exact ⟨a, List.mem_cons_self, hdirect, hpresent⟩
    · exact ⟨b, List.mem_cons_of_mem _ hb, hdirect, hpresent⟩

/-- Bindings with what some arguments give: nothing is bound twice, as a variable has only one
binding in the result, and every type that is given is admitted. -/
structure IsBinding (u : Universe) (bindings : Dictionary String ValueType)
    (pairs : List (TypeExpr × ValueType)) (result : Dictionary String ValueType) : Prop where
  found : ∀ v t, result.find? v = some t ↔ bindings.find? v = some t ∨ Gives pairs v t
  admitted : ∀ v t, Gives pairs v t → u.admits v t = true

/-- What one argument does to the bindings: nothing, if it is absent or there is no direct variable;
otherwise it fails or binds the variable. -/
inductive Adds (u : Universe) (bindings : Dictionary String ValueType) (a : TypeExpr) (t : ValueType) :
    Except BindingFault (Dictionary String ValueType) → Prop
  | passed : (∀ v, a.IsDirect v → t = .none) → Adds u bindings a t (.ok bindings)
  | conflict {v : String} {bound : ValueType} : a.IsDirect v → t ≠ .none →
      bindings.find? v = some bound → bound ≠ t →
      Adds u bindings a t (.error (.conflict v bound.name t.name))
  | unsatisfied {v : String} : a.IsDirect v → t ≠ .none → u.admits v t = false →
      Adds u bindings a t (.error (.unsatisfied t.name v))
  | bound {v : String} : a.IsDirect v → t ≠ .none →
      (∀ bound, bindings.find? v = some bound → bound = t) → u.admits v t = true →
      Adds u bindings a t (.ok (bindings.put v t))

/-- Arguments are gone through one after the other. -/
theorem bindTypes_cons (u : Universe) (bindings : Dictionary String ValueType) (a : TypeExpr)
    (t : ValueType) (rest : List (TypeExpr × ValueType)) :
    ∃ step, Adds u bindings a t step ∧
      bindTypes u bindings ((a, t) :: rest) = step.bind fun more => bindTypes u more rest := by
  rw [bindTypes]
  split
  next hnone =>
    refine ⟨.ok bindings, .passed fun v hv => ?_, rfl⟩
    rw [TypeExpr.direct?_eq_some_iff.2 hv] at hnone
    cases hnone
  next v hv =>
    have hdirect := TypeExpr.direct?_eq_some_iff.1 hv
    by_cases hpresent : t = .none
    · rw [if_pos hpresent]
      exact ⟨.ok bindings, .passed fun _ _ => hpresent, rfl⟩
    · rw [if_neg hpresent]
      split
      next bound hbound =>
        by_cases hsame : bound = t
        · rw [if_neg (not_not_intro hsame)]
          cases hadmits : u.admits v t with
          | false => exact ⟨_, .unsatisfied hdirect hpresent hadmits, rfl⟩
          | true =>
              refine ⟨_, .bound hdirect hpresent (fun other hother => ?_) hadmits, rfl⟩
              rw [hbound] at hother
              cases hother
              exact hsame
        · rw [if_pos hsame]
          exact ⟨_, .conflict hdirect hpresent hbound hsame, rfl⟩
      next hfree =>
        cases hadmits : u.admits v t with
        | false => exact ⟨_, .unsatisfied hdirect hpresent hadmits, rfl⟩
        | true =>
            refine ⟨_, .bound hdirect hpresent (fun other hother => ?_) hadmits, rfl⟩
            rw [hfree] at hother
            cases hother

/-- What is bound after one argument is what was bound before and what the argument gives. -/
theorem Adds.find?_iff {bindings more : Dictionary String ValueType} {a : TypeExpr} {t : ValueType}
    (h : Adds u bindings a t (.ok more)) (v : String) (t' : ValueType) :
    more.find? v = some t' ↔
      bindings.find? v = some t' ∨ a.IsDirect v ∧ t ≠ .none ∧ t' = t := by
  cases h with
  | passed hpassed =>
      refine (or_iff_left ?_).symm
      rintro ⟨hdirect, hpresent, -⟩
      exact hpresent (hpassed v hdirect)
  | @bound bound hdirect hpresent hfree _ =>
      rw [Dictionary.find?_put]
      by_cases hv : v = bound
      · subst hv
        rw [if_pos rfl, Option.some.injEq]
        constructor
        · rintro rfl
          exact .inr ⟨hdirect, hpresent, rfl⟩
        · rintro (hbefore | ⟨-, -, rfl⟩)
          · exact (hfree t' hbefore).symm
          · rfl
      · rw [if_neg hv]
        refine (or_iff_left ?_).symm
        rintro ⟨hother, -⟩
        exact hv (hother.unique hdirect)

/-- An argument that gives a type and was not refused is admitted. -/
theorem Adds.admits {bindings more : Dictionary String ValueType} {a : TypeExpr} {t : ValueType}
    (h : Adds u bindings a t (.ok more)) {v : String} (hdirect : a.IsDirect v) (hpresent : t ≠ .none) :
    u.admits v t = true := by
  cases h with
  | passed hpassed => exact absurd (hpassed v hdirect) hpresent
  | bound hother _ _ hadmits =>
      rw [hdirect.unique hother]
      exact hadmits

/-- What is gathered is what was bound before and what the arguments give. -/
theorem isBinding_of_bindTypes {bindings result : Dictionary String ValueType}
    {pairs : List (TypeExpr × ValueType)} (h : bindTypes u bindings pairs = .ok result) :
    IsBinding u bindings pairs result := by
  induction pairs generalizing bindings with
  | nil =>
      cases h
      have hnothing (v : String) (t : ValueType) : ¬ Gives [] v t := by
        rintro ⟨a, ha, _⟩
        cases ha
      exact ⟨fun v t => by simp [hnothing], fun v t hgives => absurd hgives (hnothing v t)⟩
  | cons pair rest ih =>
      obtain ⟨a, t⟩ := pair
      obtain ⟨step, hadds, hstep⟩ := bindTypes_cons u bindings a t rest
      rw [hstep] at h
      cases step with
      | error fault => cases h
      | ok more =>
          obtain ⟨hfound, hadmitted⟩ := ih h
          constructor
          · intro v t'
            rw [hfound, hadds.find?_iff, gives_cons, or_assoc]
          · intro v t' hgives
            rcases gives_cons.1 hgives with ⟨hdirect, hpresent, rfl⟩ | hgives
            · exact hadds.admits hdirect hpresent
            · exact hadmitted v t' hgives

/-- Bindings can be gathered if every type that is given is admitted, and no variable is given another
type than one that it has already. -/
theorem exists_bindTypes {bindings : Dictionary String ValueType}
    {pairs : List (TypeExpr × ValueType)}
    (hadmitted : ∀ v t, Gives pairs v t → u.admits v t = true)
    (hbound : ∀ v t t', bindings.find? v = some t → Gives pairs v t' → t = t')
    (hgiven : ∀ v t t', Gives pairs v t → Gives pairs v t' → t = t') :
    ∃ result, bindTypes u bindings pairs = .ok result := by
  induction pairs generalizing bindings with
  | nil => exact ⟨bindings, rfl⟩
  | cons pair rest ih =>
      obtain ⟨a, t⟩ := pair
      have hmore {v : String} {t' : ValueType} (h : Gives rest v t') : Gives ((a, t) :: rest) v t' :=
        gives_cons.2 (.inr h)
      have hrest {more : Dictionary String ValueType}
          (hmorebound : ∀ v t t', more.find? v = some t → Gives rest v t' → t = t') :
          ∃ result, bindTypes u more rest = .ok result :=
        ih (fun v t' h => hadmitted v t' (hmore h)) hmorebound
          fun v t' t'' h h' => hgiven v t' t'' (hmore h) (hmore h')
      obtain ⟨step, hadds, hstep⟩ := bindTypes_cons u bindings a t rest
      rw [hstep]
      cases step with
      | ok more =>
          refine hrest fun v t' t'' h h' => ?_
          rcases (hadds.find?_iff v t').1 h with hbefore | hgives
          · exact hbound v t' t'' hbefore (hmore h')
          · exact hgiven v t' t'' (gives_cons.2 (.inl hgives)) (hmore h')
      | error fault =>
          cases hadds with
          | @conflict v bound hdirect hpresent hbefore hdifferent =>
              have hgives : Gives ((a, t) :: rest) v t := gives_cons.2 (.inl ⟨hdirect, hpresent, rfl⟩)
              exact absurd (hbound v bound t hbefore hgives) hdifferent
          | @unsatisfied v hdirect hpresent hrefused =>
              have hgives : Gives ((a, t) :: rest) v t := gives_cons.2 (.inl ⟨hdirect, hpresent, rfl⟩)
              rw [hadmitted v t hgives] at hrefused
              cases hrefused

/-! ## Refused and instantiated signatures -/

/-- A type variable is given the exact type of an argument that is present, at a parameter where it is
direct. -/
def Supplies (s : Signature) (arguments : List Value) (v : String) (t : ValueType) : Prop :=
  ∃ (i : Nat) (a : TypeExpr) (x : Value), s.parameters[i]? = some a ∧ arguments[i]? = some x ∧
    a.IsDirect v ∧ x ≠ .none ∧ x.type = t

theorem gives_zip_iff {v : String} {t : ValueType} :
    Gives (s.parameters.zip (arguments.map (·.type))) v t ↔ s.Supplies arguments v t := by
  constructor
  · rintro ⟨a, hmem, hdirect, hpresent⟩
    obtain ⟨i, hi⟩ := List.mem_iff_getElem?.1 hmem
    obtain ⟨ha, ht⟩ := List.getElem?_zip_eq_some.1 hi
    rw [List.getElem?_map, Option.map_eq_some_iff] at ht
    obtain ⟨x, hx, rfl⟩ := ht
    refine ⟨i, a, x, ha, hx, hdirect, ?_, rfl⟩
    rintro rfl
    exact hpresent rfl
  · rintro ⟨i, a, x, ha, hx, hdirect, hpresent, rfl⟩
    refine ⟨a, ?_, hdirect, fun habsent => hpresent (Value.type_eq_none_iff.1 habsent)⟩
    refine List.mem_of_getElem? (i := i) (List.getElem?_zip_eq_some.2 ⟨ha, ?_⟩)
    rw [List.getElem?_map, hx]
    rfl

/-- Why arguments cannot instantiate a signature. -/
inductive Refuses (u : Universe) (s : Signature) (arguments : List Value) : Prop
  | tooMany : s.count < arguments.length → s.variadic = false → Refuses u s arguments
  | conflict {v : String} {t t' : ValueType} : s.Supplies arguments v t → s.Supplies arguments v t' →
      t ≠ t' → Refuses u s arguments
  | unsatisfied {v : String} {t : ValueType} : s.Supplies arguments v t → u.admits v t = false →
      Refuses u s arguments

/-- What arguments make of a signature: each type parameter is bound to the type that it is given, or
to that of all values, and stands for it at the parameters where it is direct, so that they accept
their arguments. -/
structure IsInstance (u : Universe) (s : Signature) (arguments : List Value) (form : Signature) :
    Prop where
  typeArguments : List.Forall₂ (fun v t => s.Supplies arguments v t ∨
    (∀ t', ¬ s.Supplies arguments v t') ∧ t = .object) s.typeParameters form.typeArguments
  bound : form.isGeneric = false
  accepts : ∀ (i : Nat) (a : TypeExpr) (x : Value) (v : String), s.parameters[i]? = some a →
    arguments[i]? = some x → a.IsDirect v → x ≠ .none → u.IsKnown x.type →
      ∃ a', form.parameters[i]? = some a' ∧
        (a' = .type x.type ∨ a' = .union [.type x.type, .type .none]) ∧ a'.accepts u x.type = true
  kept : form = { s with parameters := form.parameters, typeArguments := form.typeArguments }

/-- Arguments that are not refused instantiate the signature. -/
theorem exists_isInstance (h : ¬ s.Refuses u arguments) :
    ∃ form, s.instantiate u (arguments.map (·.type)) = .ok form ∧ s.IsInstance u arguments form := by
  have hcount : ¬ (s.count < (arguments.map (·.type)).length ∧ s.variadic = false) := by
    rintro ⟨hmany, hfixed⟩
    rw [List.length_map] at hmany
    exact h (.tooMany hmany hfixed)
  have hadmitted (v : String) (t : ValueType)
      (hgives : Gives (s.parameters.zip (arguments.map (·.type))) v t) : u.admits v t = true := by
    by_contra hrefused
    exact h (.unsatisfied (gives_zip_iff.1 hgives) (Bool.eq_false_iff.2 hrefused))
  have hgiven (v : String) (t t' : ValueType)
      (hgives : Gives (s.parameters.zip (arguments.map (·.type))) v t)
      (hgives' : Gives (s.parameters.zip (arguments.map (·.type))) v t') : t = t' := by
    by_contra hdifferent
    exact h (.conflict (gives_zip_iff.1 hgives) (gives_zip_iff.1 hgives') hdifferent)
  obtain ⟨bindings, hbindings⟩ := @exists_bindTypes u .empty _ hadmitted
    (fun v t t' hbefore => by cases hbefore) hgiven
  have hfound (v : String) (t : ValueType) :
      bindings.find? v = some t ↔ s.Supplies arguments v t := by
    rw [(isBinding_of_bindTypes hbindings).found, gives_zip_iff]
    simp
  refine ⟨_, by rw [instantiate, if_neg hcount, hbindings]; rfl, ?_⟩
  constructor
  · refine List.forall₂_map_right_iff.2 (List.forall₂_same.2 fun v _ => ?_)
    cases hv : bindings.find? v with
    | none =>
        refine .inr ⟨fun t ht => ?_, rfl⟩
        rw [(hfound v t).2 ht] at hv
        cases hv
    | some t => exact .inl ((hfound v t).1 hv)
  · -- If there are type parameters there are type arguments now.
    simp [isGeneric]
  · intro i a x v ha hx hdirect hpresent hknown
    have hpresent' : x.type ≠ .none := fun habsent => hpresent (Value.type_eq_none_iff.1 habsent)
    have hbound := (hfound v x.type).2 ⟨i, a, x, ha, hx, hdirect, hpresent, rfl⟩
    have hform := hdirect.bind hpresent' hbound
    refine ⟨a.bind bindings, ?_, hform, TypeExpr.accepts_of_type hknown hpresent' hform⟩
    rw [List.getElem?_map, ha]
    rfl
  · rfl

/-- Refused arguments instantiate nothing. -/
theorem exists_fault_of_refuses (h : s.Refuses u arguments) :
    ∃ fault, s.instantiate u (arguments.map (·.type)) = .error fault := by
  by_cases hcount : s.count < (arguments.map (·.type)).length ∧ s.variadic = false
  · exact ⟨_, by rw [instantiate, if_pos hcount]⟩
  · rw [instantiate, if_neg hcount]
    cases hbindings : bindTypes u .empty (s.parameters.zip (arguments.map (·.type))) with
    | error fault => exact ⟨fault, rfl⟩
    | ok bindings =>
        -- Had the bindings been gathered, no two would be at odds and all would be admitted.
        obtain ⟨hfound, hadmitted⟩ := isBinding_of_bindTypes hbindings
        cases h with
        | tooMany hmany hfixed =>
            rw [List.length_map] at hcount
            exact absurd ⟨hmany, hfixed⟩ hcount
        | @conflict v t t' hgives hgives' hdifferent =>
            have hone := (hfound v t).2 (.inr (gives_zip_iff.2 hgives))
            have hother := (hfound v t').2 (.inr (gives_zip_iff.2 hgives'))
            rw [hone] at hother
            exact absurd (Option.some.inj hother) hdifferent
        | @unsatisfied v t hgives hrefused =>
            rw [hadmitted v t (gives_zip_iff.2 hgives)] at hrefused
            cases hrefused

/-- A generic signature is refused if and only if there are too many arguments, two arguments give a
type variable different types, or an argument gives it a type that it does not admit; otherwise the
arguments instantiate it. -/
theorem instantiate_iff (u : Universe) (s : Signature) (arguments : List Value) :
    ((∃ fault, s.instantiate u (arguments.map (·.type)) = .error fault) ↔ s.Refuses u arguments) ∧
      (¬ s.Refuses u arguments →
        ∃ form, s.instantiate u (arguments.map (·.type)) = .ok form ∧
          s.IsInstance u arguments form) := by
  refine ⟨⟨?_, exists_fault_of_refuses⟩, exists_isInstance⟩
  rintro ⟨fault, hfault⟩
  by_contra h
  obtain ⟨form, hform, _⟩ := exists_isInstance h
  rw [hform] at hfault
  cases hfault

/-- A host with a type variable that stands for texts. -/
def textHost : Universe := ⟨[], [⟨"S", some (.type .str), []⟩]⟩

/-- A method that takes a value of a type variable, and perhaps another one. -/
def joining : Signature := .ofParameters textHost "join" false
  [⟨"first", .parameter "S", none, .positional⟩,
    ⟨"second", .union [.parameter "S", .type .none], some .none, .positional⟩]

/-- A number is refused, by itself and behind a text; an absent value before a text is not. -/
theorem instantiate_joining :
    joining.Refuses textHost [.str "a", .int 1] ∧ joining.Refuses textHost [.int 1] ∧
      ¬ joining.Refuses textHost [.none, .str "b"] ∧
      ∃ form, joining.instantiate textHost [.none, .str] = .ok form ∧
        joining.IsInstance textHost [.none, .str "b"] form := by
  have hinstance : joining.instantiate textHost [.none, .str] =
      .ok { joining with
        parameters := [.type .str, .union [.type .str, .type .none]], typeArguments := [.str] } := by
    rfl
  have haccepted : ¬ joining.Refuses textHost [.none, .str "b"] := by
    intro h
    obtain ⟨fault, hfault⟩ := exists_fault_of_refuses h
    cases hinstance.symm.trans hfault
  refine ⟨?_, ?_, haccepted, ?_⟩
  · exact (instantiate_iff textHost joining [.str "a", .int 1]).1.1 ⟨_, rfl⟩
  · exact (instantiate_iff textHost joining [.int 1]).1.1 ⟨_, rfl⟩
  · exact (instantiate_iff textHost joining [.none, .str "b"]).2 haccepted

end Signature

end Formula
