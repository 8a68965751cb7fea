import Formula.Proofs.Member.Resolution

set_option autoImplicit false

/-! # Which overload is chosen

Two passes over the overloads decide what a call of a method means. `Signature.Accepts` says when an
overload takes arguments, and in which form; `Signature.IsChosen` says which form the two passes
give. The choice depends on nothing but the overloads and the types of the arguments.

A table keeps generic choices. `MemberTable.Records` says what it keeps after some calls: what was
chosen for them, each under its own key, and nothing else.

Main statements: `Search.isChosen_found` and `MemberTable.Records.resolve`. -/

namespace Formula

/-! ## What an overload accepts -/

namespace Signature

variable {u : Universe} {types : List ValueType} {loose : Bool} {overloads : List Signature}

/-- A signature takes arguments of the given types in a form in which its type parameters are bound:
one argument for each parameter or, loosely, with its defaults and further arguments. -/
structure Accepts (u : Universe) (s : Signature) (types : List ValueType) (loose : Bool)
    (form : Signature) : Prop where
  bound : s.concrete u types = .ok form
  noKeyword : form.needsKeyword = false
  count : if loose then form.required ≤ types.length ∧
      (types.length ≤ form.count ∨ form.variadic = true) else types.length = form.count
  types : ∀ p ∈ types.zip form.parameters, p.2.accepts u p.1 = true

/-- The form of the first overload, in the order of their declaration, that takes the arguments. -/
def IsFirst (u : Universe) (types : List ValueType) (loose : Bool) (overloads : List Signature)
    (form : Signature) : Prop :=
  ∃ before s after, overloads = before ++ s :: after ∧ s.Accepts u types loose form ∧
    ∀ r ∈ before, ∀ f, ¬ r.Accepts u types loose f

/-- None of the overloads takes the arguments. -/
def NoneAccepts (u : Universe) (types : List ValueType) (loose : Bool)
    (overloads : List Signature) : Prop :=
  ∀ s ∈ overloads, ∀ form, ¬ s.Accepts u types loose form

/-- What a call means: the first overload that takes exactly the arguments, else the first one that
takes them loosely, else none. -/
inductive IsChosen (u : Universe) (types : List ValueType) (overloads : List Signature) :
    Option Signature → Prop
  | exact {form : Signature} : IsFirst u types false overloads form →
      IsChosen u types overloads (some form)
  | loose {form : Signature} : NoneAccepts u types false overloads →
      IsFirst u types true overloads form → IsChosen u types overloads (some form)
  | missing : NoneAccepts u types false overloads → NoneAccepts u types true overloads →
      IsChosen u types overloads none

/-- A form that can be had and whose parameters match is accepted, and no other. -/
theorem accepts_iff {s form : Signature} : s.Accepts u types loose form ↔
    s.concrete u types = .ok form ∧ form.matchesTypes u types loose = true := by
  have hcount : (form.fitsCount loose types.length = true) ↔
      if loose then form.required ≤ types.length ∧
        (types.length ≤ form.count ∨ form.variadic = true) else types.length = form.count := by
    unfold fitsCount
    cases loose with
    | true => simp
    | false => simp
  unfold matchesTypes
  rw [Bool.and_eq_true, Bool.and_eq_true, hcount, List.all_eq_true]
  constructor
  · intro h
    exact ⟨h.bound, ⟨by simp [h.noKeyword], h.count⟩, h.types⟩
  · rintro ⟨hbound, ⟨hkeyword, hfits⟩, htypes⟩
    exact ⟨hbound, by simpa using hkeyword, hfits, htypes⟩

theorem isFirst_cons_of_accepts {s form : Signature} (h : s.Accepts u types loose form) :
    IsFirst u types loose (s :: overloads) form :=
  ⟨[], s, overloads, rfl, h, fun _ hr => by cases hr⟩

theorem isFirst_cons {s form : Signature} (hs : ∀ f, ¬ s.Accepts u types loose f)
    (h : IsFirst u types loose overloads form) : IsFirst u types loose (s :: overloads) form := by
  obtain ⟨before, r, after, rfl, hr, hbefore⟩ := h
  refine ⟨s :: before, r, after, rfl, hr, ?_⟩
  intro q hq
  rcases List.mem_cons.1 hq with rfl | hq
  · exact hs
  · exact hbefore q hq

/-- The first overload that takes the arguments takes them, so it is not true that none does. -/
theorem IsFirst.not_noneAccepts {form : Signature} (h : IsFirst u types loose overloads form) :
    ¬ NoneAccepts u types loose overloads := by
  obtain ⟨before, s, after, rfl, hs, _⟩ := h
  intro hnone
  exact hnone s (by simp) form hs

/-- There is only one first overload, and it has only one form. -/
theorem IsFirst.unique {form form' : Signature} (h : IsFirst u types loose overloads form)
    (h' : IsFirst u types loose overloads form') : form = form' := by
  obtain ⟨before, s, after, rfl, hs, hbefore⟩ := h
  induction before with
  | nil =>
      obtain ⟨before', s', after', heq, hs', hbefore'⟩ := h'
      cases before' with
      | nil =>
          cases heq
          exact Except.ok.inj (hs.bound.symm.trans hs'.bound)
      | cons r before' =>
          cases heq
          exact absurd hs (hbefore' s List.mem_cons_self form)
  | cons r before ih =>
      obtain ⟨before', s', after', heq, hs', hbefore'⟩ := h'
      cases before' with
      | nil =>
          cases heq
          exact absurd hs' (hbefore r List.mem_cons_self form')
      | cons r' before' =>
          obtain ⟨rfl, htail⟩ := List.cons.inj heq
          refine ih ?_ fun q hq => hbefore q (List.mem_cons_of_mem _ hq)
          exact ⟨before', s', after', htail, hs', fun q hq => hbefore' q (List.mem_cons_of_mem _ hq)⟩

/-- Arguments of given types mean one thing only. -/
theorem IsChosen.unique {pick pick' : Option Signature} (h : IsChosen u types overloads pick)
    (h' : IsChosen u types overloads pick') : pick = pick' := by
  cases h with
  | exact hfirst =>
      cases h' with
      | exact hfirst' => rw [hfirst.unique hfirst']
      | loose hnone _ => exact absurd hnone hfirst.not_noneAccepts
      | missing hnone _ => exact absurd hnone hfirst.not_noneAccepts
  | loose hnone hfirst =>
      cases h' with
      | exact hfirst' => exact absurd hnone hfirst'.not_noneAccepts
      | loose _ hfirst' => rw [hfirst.unique hfirst']
      | missing _ hnone' => exact absurd hnone' hfirst.not_noneAccepts
  | missing hnone hnone' =>
      cases h' with
      | exact hfirst' => exact absurd hnone hfirst'.not_noneAccepts
      | loose _ hfirst' => exact absurd hnone' hfirst'.not_noneAccepts
      | missing _ _ => rfl

/-- A call means something if and only if some overload takes its arguments. -/
theorem IsChosen.isSome_iff {pick : Option Signature} (h : IsChosen u types overloads pick) :
    pick.isSome = true ↔ ∃ s ∈ overloads, ∃ loose form, s.Accepts u types loose form := by
  have hsome {loose : Bool} {form : Signature} (hfirst : IsFirst u types loose overloads form) :
      ∃ s ∈ overloads, ∃ loose form, s.Accepts u types loose form := by
    obtain ⟨before, s, after, rfl, hs, _⟩ := hfirst
    exact ⟨s, by simp, loose, form, hs⟩
  cases h with
  | exact hfirst => exact ⟨fun _ => hsome hfirst, fun _ => rfl⟩
  | loose _ hfirst => exact ⟨fun _ => hsome hfirst, fun _ => rfl⟩
  | missing hexact hloose =>
      refine ⟨fun h => absurd h (by simp), ?_⟩
      rintro ⟨s, hs, loose, form, haccepts⟩
      cases loose with
      | false => exact absurd haccepts (hexact s hs form)
      | true => exact absurd haccepts (hloose s hs form)

end Signature

/-! ## What a search finds -/

namespace Search

open Signature

variable {u : Universe} {types : List ValueType} {loose : Bool}

/-- A pass finds the first overload that takes the arguments, or none does. -/
theorem isFirst_or_noneAccepts (overloads : List Signature) :
    (∃ form, (first u types loose overloads).found = some form ∧
        IsFirst u types loose overloads form) ∨
      (first u types loose overloads).found = none ∧ NoneAccepts u types loose overloads := by
  induction overloads with
  | nil => exact .inr ⟨rfl, fun _ h => by cases h⟩
  | cons s rest ih =>
      -- An overload that is passed over leaves the rest to decide.
      have hpassed (hs : ∀ f, ¬ s.Accepts u types loose f)
          (hfound : (first u types loose (s :: rest)).found = (first u types loose rest).found) :
          (∃ form, (first u types loose (s :: rest)).found = some form ∧
              IsFirst u types loose (s :: rest) form) ∨
            (first u types loose (s :: rest)).found = none ∧
              NoneAccepts u types loose (s :: rest) := by
        rw [hfound]
        rcases ih with ⟨form, hform, hfirst⟩ | ⟨hnone, hrest⟩
        · exact .inl ⟨form, hform, isFirst_cons hs hfirst⟩
        · exact .inr ⟨hnone, List.forall_mem_cons.2 ⟨hs, hrest⟩⟩
      cases hconcrete : s.concrete u types with
      | error fault =>
          refine hpassed ?_ (by simp [first, hconcrete])
          intro f hf
          rw [hf.bound] at hconcrete
          cases hconcrete
      | ok form =>
          by_cases hmatches : form.matchesTypes u types loose = true
          · refine .inl ⟨form, by simp [first, hconcrete, hmatches], ?_⟩
            exact isFirst_cons_of_accepts (accepts_iff.2 ⟨hconcrete, hmatches⟩)
          · refine hpassed ?_ (by simp [first, hconcrete, hmatches])
            intro f hf
            obtain ⟨hbound, htypes⟩ := accepts_iff.1 hf
            rw [hconcrete] at hbound
            cases hbound
            exact hmatches htypes

/-- A search finds what the call means. -/
theorem isChosen_found (u : Universe) (types : List ValueType) (overloads : List Signature) :
    IsChosen u types overloads (run u types overloads).found := by
  unfold run
  rcases @isFirst_or_noneAccepts u types false overloads with
    ⟨form, hfound, hfirst⟩ | ⟨hfound, hnone⟩
  · simp only [hfound]
    exact .exact hfirst
  · simp only [hfound]
    rcases @isFirst_or_noneAccepts u types true overloads with
      ⟨form, hloose, hfirst⟩ | ⟨hloose, hnone'⟩
    · simp only [hloose]
      exact .loose hnone hfirst
    · simp only [hloose]
      exact .missing hnone hnone'

end Search

/-! ## What a table keeps -/

namespace MemberTable

variable {u : Universe} {fresh m : MemberTable} {past : List (String × List ValueType)}

/-- Choosing an overload keeps a choice that is generic, for arguments that are all present, unless
one is kept for them already; otherwise the table stays as it is. -/
theorem resolve_table_eq (m : MemberTable) (method : String) (types : List ValueType) :
    (m.resolve u method types).table =
      match (m.resolve u method types).pick with
      | some s =>
        if s.typeParameters.isEmpty || !isMemorable types ||
            m.instantiations.contains (method, types) then m
        else { m with instantiations := m.instantiations.put (method, types) s }
      | none => m := by
  unfold resolve
  cases hkept : m.remembered? method types with
  | some s =>
      have hcontains : m.instantiations.contains (method, types) = true := by
        unfold remembered? at hkept
        split at hkept
        · rw [Dictionary.contains, hkept]
          rfl
        · cases hkept
      simp [hcontains]
  | none =>
      simp only
      cases (Search.run u types (m.overloads method)).found with
      | none => rfl
      | some s =>
          simp only [remember_pick]
          unfold remember
          split
          · rfl
          · rfl

/-- What a table keeps after some calls: under each method with argument types the form that was
chosen for it, if such a call was made, no argument was absent and the form has type parameters. -/
structure Records (u : Universe) (fresh m : MemberTable) (past : List (String × List ValueType)) :
    Prop where
  alike : fresh.Alike u m
  distinct : m.instantiations.keys.Nodup
  kept : ∀ key form, m.instantiations.find? key = some form ↔
    key ∈ past ∧ isMemorable key.2 = true ∧ (fresh.resolve u key.1 key.2).pick = some form ∧
      form.typeParameters ≠ []

/-- A new table keeps nothing. -/
theorem records_ofType (u : Universe) (t : ValueType) : Records u (ofType u t) (ofType u t) [] where
  alike := .refl _
  distinct := List.nodup_nil
  kept key form := by
    constructor
    · intro h
      cases h
    · rintro ⟨h, _⟩
      cases h

/-- A call adds nothing whose key was there, or whose choice is not to be kept. -/
theorem Records.of_known (h : Records u fresh m past) {key : String × List ValueType}
    (hknown : ∀ form, isMemorable key.2 = true → (fresh.resolve u key.1 key.2).pick = some form →
      form.typeParameters ≠ [] → key ∈ past) : Records u fresh m (past ++ [key]) := by
  refine ⟨h.alike, h.distinct, ?_⟩
  intro key' form
  rw [h.kept key' form]
  constructor
  · rintro ⟨hpast, hrest⟩
    exact ⟨List.mem_append_left _ hpast, hrest⟩
  · rintro ⟨hpast, hmemorable, hchosen, hgeneric⟩
    refine ⟨?_, hmemorable, hchosen, hgeneric⟩
    rcases List.mem_append.1 hpast with hpast | hlast
    · exact hpast
    · obtain rfl : key' = key := List.mem_singleton.1 hlast
      exact hknown form hmemorable hchosen hgeneric

/-- A generic choice is kept under its key. -/
theorem Records.put (h : Records u fresh m past) {key : String × List ValueType} {s : Signature}
    (halike : fresh.Alike u { m with instantiations := m.instantiations.put key s })
    (hmemorable : isMemorable key.2 = true)
    (hchosen : (fresh.resolve u key.1 key.2).pick = some s) (hgeneric : s.typeParameters ≠ []) :
    Records u fresh { m with instantiations := m.instantiations.put key s } (past ++ [key]) := by
  refine ⟨halike, Dictionary.nodup_keys_put h.distinct key s, ?_⟩
  intro key' form
  show (m.instantiations.put key s).find? key' = some form ↔ _
  rw [Dictionary.find?_put]
  by_cases hkey : key' = key
  · subst hkey
    rw [if_pos rfl, hchosen]
    constructor
    · intro hform
      cases hform
      exact ⟨by simp, hmemorable, rfl, hgeneric⟩
    · rintro ⟨_, _, hform, _⟩
      exact hform
  · rw [if_neg hkey, h.kept key' form]
    simp [hkey]

/-- One more call is recorded. -/
theorem Records.resolve (h : Records u fresh m past) (method : String) (types : List ValueType) :
    Records u fresh (m.resolve u method types).table (past ++ [(method, types)]) := by
  have halike : fresh.Alike u (m.resolve u method types).table :=
    h.alike.trans (m.alike_resolve method types)
  have hpick : (m.resolve u method types).pick = (fresh.resolve u method types).pick :=
    h.alike.pick method types
  rw [resolve_table_eq] at halike ⊢
  cases hchosen : (m.resolve u method types).pick with
  | none =>
      refine h.of_known ?_
      intro form _ hform _
      rw [← hpick, hchosen] at hform
      cases hform
  | some s =>
      rw [hchosen] at halike
      simp only at halike ⊢
      by_cases hkeep : (s.typeParameters.isEmpty || !isMemorable types ||
          m.instantiations.contains (method, types)) = true
      · rw [if_pos hkeep]
        refine h.of_known ?_
        intro form hmemorable hform hgeneric
        rw [← hpick, hchosen] at hform
        cases hform
        have hcontains : m.instantiations.contains (method, types) = true := by
          simpa [hmemorable, hgeneric] using hkeep
        obtain ⟨kept, hkept⟩ := Option.isSome_iff_exists.1 hcontains
        exact ((h.kept _ kept).1 hkept).1
      · obtain ⟨⟨hgeneric, hmemorable⟩, _⟩ : (s.typeParameters ≠ [] ∧ isMemorable types = true) ∧
            m.instantiations.contains (method, types) = false := by
          simpa using hkeep
        rw [if_neg hkeep] at halike ⊢
        exact h.put halike hmemorable (hpick.symm.trans hchosen) hgeneric

end MemberTable

end Formula
