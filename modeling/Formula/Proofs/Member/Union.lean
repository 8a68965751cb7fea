import Formula.Proofs.Member.Instantiation

set_option autoImplicit false

/-! # What a union accepts

A union is written as a row of alternatives. It is kept flat and without repetitions, and the union of
one alternative is that alternative. For a value that is there this changes nothing: it may stand
where a union was written exactly if it may stand for one of the alternatives. The absent value may
stand for every union, also for one of types that never hold it.

Main statement: `TypeExpr.accepts_unionOf`. -/

namespace Formula

namespace TypeExpr

variable {u : Universe} {t : ValueType}

/-! ## Alternatives -/

theorem acceptsAny_iff {as : List TypeExpr} :
    acceptsAny u t as = true ↔ ∃ a ∈ as, a.accepts u t = true := by
  induction as with
  | nil => simp [acceptsAny]
  | cons a rest ih => simp [acceptsAny, ih]

/-- A value that is there may stand for a union if it may stand for one of its alternatives. -/
theorem accepts_union (ht : t ≠ .none) (as : List TypeExpr) :
    (union as).accepts u t = acceptsAny u t as := by
  rw [accepts, if_neg (by simp [isOpen]), if_neg ht]

theorem accepts_union_none (as : List TypeExpr) : (union as).accepts u .none = true := rfl

/-- The absent value may stand where nothing is asked, or no type that never holds it. -/
theorem accepts_none_iff {a : TypeExpr} :
    a.accepts u .none = true ↔
      a.isOpen = true ∨ a.namesNone = true ∨ ∀ t, a = type t → isValueType t = false := by
  cases a with
  | type t => cases t <;> simp [accepts, acceptsNone, isOpen, namesNone, isValueType]
  | _ => simp [accepts, acceptsNone]

/-! ## Repetitions -/

mutual

/-- Equal type expressions accept the same. -/
theorem accepts_of_same {a b : TypeExpr} (hsame : same a b = true) (h : a.accepts u t = true) :
    b.accepts u t = true := by
  cases a with
  | union as =>
      cases b with
      | union bs =>
          by_cases ht : t = .none
          · subst ht
            exact accepts_union_none bs
          · rw [same, Bool.and_eq_true] at hsame
            rw [accepts_union ht] at h ⊢
            exact acceptsAny_of_areAmong hsame.2 h
      | _ => cases hsame
  | type s =>
      cases b with
      | type s' =>
          obtain rfl : s = s' := by simpa [same] using hsame
          exact h
      | _ => cases hsame
  | parameter v =>
      cases b with
      | parameter v' =>
          obtain rfl : v = v' := by simpa [same] using hsame
          exact h
      | _ => cases hsame
  | _ =>
      -- What else is equal is of one kind, and all of this kind accept the same.
      cases b with
      | _ => first | exact h | cases hsame

/-- If each of some type expressions is among others, these accept whatever one of them does. -/
theorem acceptsAny_of_areAmong {as bs : List TypeExpr} (hamong : areAmong as bs = true)
    (h : acceptsAny u t as = true) : acceptsAny u t bs = true := by
  cases as with
  | nil => cases h
  | cons a rest =>
      rw [areAmong, Bool.and_eq_true] at hamong
      rw [acceptsAny, Bool.or_eq_true] at h
      rcases h with ha | hrest
      · obtain ⟨b, hb, hsame⟩ := List.any_eq_true.1 hamong.1
        exact acceptsAny_iff.2 ⟨b, hb, accepts_of_same hsame ha⟩
      · exact acceptsAny_of_areAmong hamong.2 hrest

end

/-- Of some type expressions, added to others one by one without repetitions, one accepts a value if
one of all of them does. -/
theorem acceptsAny_foldl_distinct (as kept : List TypeExpr) :
    acceptsAny u t (as.foldl (fun kept a => if kept.any a.same then kept else kept ++ [a]) kept) =
        true ↔
      acceptsAny u t kept = true ∨ acceptsAny u t as = true := by
  induction as generalizing kept with
  | nil => simp [acceptsAny]
  | cons a rest ih =>
      rw [List.foldl_cons, ih]
      simp only [acceptsAny_iff, List.mem_cons, exists_eq_or_imp]
      split
      next hknown =>
        -- What is left out equals one that is kept.
        obtain ⟨b, hb, hsame⟩ := List.any_eq_true.1 hknown
        have hkept (ha : a.accepts u t = true) : ∃ b ∈ kept, b.accepts u t = true :=
          ⟨b, hb, accepts_of_same hsame ha⟩
        rw [← or_assoc, or_iff_left_of_imp hkept]
      next =>
        simp only [List.mem_append, List.mem_singleton, or_and_right, exists_or, exists_eq_left]
        exact or_assoc

/-- Leaving out repetitions changes nothing about what is accepted. -/
theorem acceptsAny_distinct (as : List TypeExpr) :
    acceptsAny u t (distinct as) = true ↔ acceptsAny u t as = true := by
  rw [distinct, acceptsAny_foldl_distinct]
  simp [acceptsAny]

/-- Some type expressions accept a value that is there if the alternatives that they contribute do. -/
theorem acceptsAny_alternatives (ht : t ≠ .none) (as : List TypeExpr) :
    acceptsAny u t (as.flatMap alternatives) = true ↔
      ∃ a ∈ as, a.asMember.accepts u t = true := by
  have hone (a : TypeExpr) : acceptsAny u t a.alternatives = a.asMember.accepts u t := by
    cases a with
    | union bs => exact (accepts_union ht bs).symm
    | _ => simp [alternatives, acceptsAny]
  rw [acceptsAny_iff]
  simp only [List.mem_flatMap, ← hone, acceptsAny_iff]
  grind

/-- The union of some type expressions is that of their alternatives, or the only one of them. -/
theorem unionOf_cases (as : List TypeExpr) :
    unionOf as = union (distinct (as.flatMap alternatives)) ∨
      distinct (as.flatMap alternatives) = [unionOf as] := by
  unfold unionOf
  split
  next h => exact .inl (by rw [h])
  next h => exact .inr h
  next => exact .inl rfl

/-! ## Unions -/

/-- A union accepts a value that is there exactly if one of its alternatives does. But each union of
more than one alternative accepts the absent value, also where no alternative does; only where all are
the same one, so that no union is left, this one decides. By itself, what names the absent value
accepts it, and so does what is open, and whatever is no type that never holds it. -/
theorem accepts_unionOf (u : Universe) (as : List TypeExpr) :
    (∀ v : Value, v ≠ .none →
      ((unionOf as).accepts u v.type = true ↔ ∃ a ∈ as, a.asMember.accepts u v.type = true)) ∧
    ((unionOf as).accepts u Value.none.type = true ↔
      (∃ a ∈ as.flatMap alternatives, a.accepts u Value.none.type = true) ∨
        ∃ bs, unionOf as = union bs) ∧
    ∀ a : TypeExpr, a.accepts u Value.none.type = true ↔
      a.isOpen = true ∨ a.namesNone = true ∨ ∀ t, a = type t → isValueType t = false := by
  refine ⟨fun v hv => ?_, ?_, fun a => accepts_none_iff⟩
  · have ht : v.type ≠ .none := fun h => hv (Value.type_eq_none_iff.1 h)
    rw [← acceptsAny_alternatives ht, ← acceptsAny_distinct]
    rcases unionOf_cases as with hunion | hsingle
    · rw [hunion, accepts_union ht]
    · rw [hsingle, acceptsAny, acceptsAny, Bool.or_false]
  · by_cases hunion : ∃ bs, unionOf as = union bs
    · obtain ⟨bs, hbs⟩ := hunion
      rw [hbs]
      exact iff_of_true (accepts_union_none bs) (.inr ⟨bs, rfl⟩)
    · have hsingle := (unionOf_cases as).resolve_left fun h => hunion ⟨_, h⟩
      rw [or_iff_left hunion, ← acceptsAny_iff, ← acceptsAny_distinct, hsingle, acceptsAny,
        acceptsAny, Bool.or_false]

/-- A union of two number types accepts the absent value, although neither of them does. -/
theorem accepts_unionOf_numbers :
    (unionOf [type .int, type .float]).accepts ⟨[], []⟩ Value.none.type = true ∧
      ¬ ∃ a ∈ [type .int, type .float], a.asMember.accepts ⟨[], []⟩ Value.none.type = true := by
  constructor
  · rfl
  · simp [asMember, accepts, acceptsNone, isOpen, isValueType, Value.type]

end TypeExpr

end Formula
