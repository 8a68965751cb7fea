import Formula.Proofs.Scope.Mapped

set_option autoImplicit false

/-! # Which scopes a binding reaches

A scope sees what another one binds to a name if that one stands in its chain and no scope before it
binds the name (`World.Sees`). A variable that is declared or given a value is found from all scopes
that see the scope in which it is bound, and from nowhere else is anything found to have changed. An
assignment that fails changes nothing, and several assignments keep what was done before the one that
fails.

Main statement: `WorldAction.binding_reaches`. -/

namespace Formula

namespace World

variable {w w' : World} {id : Nat} {name : String} {x : Variable}

/-- The first scope sees what the second one binds to a name: this one is the first scope itself or
one of its ancestors, and none of the scopes before it in the chain binds the name. -/
def Sees (w : World) (k id : Nat) (name : String) : Prop :=
  ∃ nearer further, w.chain k = nearer ++ id :: further ∧
    ∀ j ∈ nearer, (w.scope j).bindings.contains name = false

/-- A scope binds a variable to a name; nothing else that names depend on changes. -/
structure Rebinds (id : Nat) (name : String) (x : Variable) (w w' : World) : Prop
    extends OnlyBinds id w w' where
  others : ∀ k, k ≠ name → (w'.scope id).bindings.find? k = (w.scope id).bindings.find? k
  bound : id < w.scopes.length → w'.own? id name = some x

theorem rebinds_bind (honly : OnlyBinds id w w')
    (hbindings : (w'.scope id).bindings = (w.scope id).bindings) (name : String) (b : Binding) :
    Rebinds id name b.toVariable w (w'.bind id name b) where
  toOnlyBinds := honly.trans (onlyBinds_bind w' id name b)
  others k hk := by
    rw [bind, scope_replaceScope]
    split
    · rw [Dictionary.find?_put, if_neg hk, hbindings]
    · rw [hbindings]
  bound hid := by
    rw [own?, find?_bind (honly.count ▸ hid), if_pos rfl]
    rfl

/-! ## Looking along a chain -/

section Chain

variable {α : Type} {f g : Nat → Option α} {owner : Nat}

/-- A search finds the same if only one place has changed, and this is not in the row or comes after
a place where something is found. -/
theorem findSome?_eq_of_hidden (owner : Nat) {ids : List Nat}
    (hsame : ∀ j, j ≠ owner → g j = f j)
    (hhidden : ¬ ∃ nearer further, ids = nearer ++ owner :: further ∧ ∀ j ∈ nearer, f j = none) :
    ids.findSome? g = ids.findSome? f := by
  induction ids with
  | nil => rfl
  | cons j rest ih =>
      have hj : j ≠ owner := by
        rintro rfl
        exact hhidden ⟨[], rest, rfl, fun _ h => absurd h List.not_mem_nil⟩
      rw [List.findSome?_cons, List.findSome?_cons, hsame j hj]
      cases hfound : f j with
      | some a => rfl
      | none =>
          -- Nothing is found here, so the place is hidden from the rest of the row as well.
          refine ih fun hseen => hhidden ?_
          obtain ⟨nearer, further, hrest, hnone⟩ := hseen
          refine ⟨j :: nearer, further, by rw [hrest]; rfl, fun m hm => ?_⟩
          rcases List.mem_cons.1 hm with rfl | hm
          · exact hfound
          · exact hnone m hm

/-- A search finds what has been put in a place if nothing is found before this place. -/
theorem findSome?_eq_of_seen {nearer further : List Nat} {a : α}
    (hsame : ∀ j, j ≠ owner → g j = f j) (howner : g owner = some a)
    (hnone : ∀ j ∈ nearer, f j = none) :
    (nearer ++ owner :: further).findSome? g = some a := by
  induction nearer with
  | nil => rw [List.nil_append, List.findSome?_cons, howner]
  | cons j rest ih =>
      rw [List.cons_append, List.findSome?_cons]
      by_cases hj : j = owner
      · rw [hj, howner]
      · rw [hsame j hj, hnone j List.mem_cons_self]
        exact ih fun m hm => hnone m (List.mem_cons_of_mem _ hm)

end Chain

namespace Rebinds

theorem find?_eq (h : Rebinds id name x w w') {j : Nat} {other : String}
    (hother : j ≠ id ∨ other ≠ name) :
    (w'.scope j).bindings.find? other = (w.scope j).bindings.find? other := by
  by_cases hj : j = id
  · subst hj
    exact h.others other (hother.resolve_left fun hne => hne rfl)
  · rw [h.elsewhere j hj]

/-- A scope that does not see the binding finds what it found before. -/
theorem lookup_of_not_sees (h : Rebinds id name x w w') {k : Nat} {other : String}
    (hunseen : ¬ (other = name ∧ w.Sees k id name)) : w'.lookup k other = w.lookup k other := by
  unfold lookup
  rw [chain_congr fun j _ => h.parent j]
  by_cases hother : other = name
  · subst hother
    refine findSome?_eq_of_hidden id (fun j hj => h.find?_eq (.inl hj)) ?_
    rintro ⟨nearer, further, hchain, hnone⟩
    refine hunseen ⟨rfl, nearer, further, hchain, fun j hj => ?_⟩
    rw [Dictionary.contains, hnone j hj]
    rfl
  · exact findSome?_congr fun j _ => h.find?_eq (.inr hother)

/-- A scope that sees the binding finds the new variable. -/
theorem lookup_of_sees (h : Rebinds id name x w w') (hid : id < w.scopes.length) {k : Nat}
    (hseen : w.Sees k id name) : (w'.lookup k name).map (·.toVariable) = some x := by
  obtain ⟨nearer, further, hchain, hnone⟩ := hseen
  obtain ⟨b, hb, hx⟩ := Option.map_eq_some_iff.1 (h.bound hid)
  have hfound : w'.lookup k name = some b := by
    unfold lookup
    rw [chain_congr fun j _ => h.parent j, hchain]
    refine findSome?_eq_of_seen (fun j hj => h.find?_eq (.inl hj)) hb fun j hj => ?_
    simpa [Dictionary.contains] using hnone j hj
  rw [hfound]
  exact congrArg some hx

end Rebinds

end World

/-! ## Declaring and assigning -/

namespace WorldAction

open World

variable (u : Universe) (w : World) (id : Nat) (name : String)

/-- Declaring a variable binds it, without a value. -/
theorem rebinds_declare (t : ValueType) :
    ∃ w', declare u id name t w = (.ok (), w') ∧ Rebinds id name (.declare t) w w' := by
  obtain ⟨members, w₁, hrun, honly, _, hbindings⟩ := run_tableFor u id t w
  refine ⟨_, ?_, rebinds_bind honly hbindings name { Variable.declare t with members }⟩
  unfold declare
  rw [run_bind_of_ok hrun]
  rfl

/-- An assignment binds the variable with its new value, or fails and changes nothing. -/
theorem rebinds_assign (v : Value) :
    match Variable.assignIn name v (w.own? id name) with
    | .error fault => assign u id name v w = (.error fault, w)
    | .ok x => ∃ w', assign u id name v w = (.ok (), w') ∧ Rebinds id name x w w' := by
  have hcases := cases_assign u id name v w
  cases hx : Variable.assignIn name v (w.own? id name) with
  | error fault =>
      rw [hx] at hcases
      exact hcases
  | ok x =>
      rw [hx] at hcases
      obtain ⟨members, w₁, hassign, hrun | ⟨rfl, _⟩⟩ := hcases
      · obtain ⟨_, _, hrun', honly, _, hbindings⟩ := run_tableFor u id x.type w
        rw [hrun] at hrun'
        cases hrun'
        exact ⟨_, hassign, rebinds_bind honly hbindings name { x with members }⟩
      · exact ⟨_, hassign, rebinds_bind (.refl id w₁) rfl name { x with members }⟩

/-- A scope finds under a name what it found before, unless it sees where the name was declared. -/
theorem sees_of_declare {t : ValueType} {k : Nat} {other : String}
    (h : ((declare u id name t w).2.lookup k other).map (·.toVariable) ≠
      (w.lookup k other).map (·.toVariable)) : other = name ∧ w.Sees k id name := by
  obtain ⟨w', hrun, hrebinds⟩ := rebinds_declare u w id name t
  rw [hrun] at h
  refine Classical.byContradiction fun hunseen => h ?_
  exact congrArg _ (hrebinds.lookup_of_not_sees hunseen)

/-- An assignment that fails changes nothing. -/
theorem eq_of_assign_eq_error {v : Value} {fault : Fault} {w' : World}
    (h : assign u id name v w = (.error fault, w')) : w' = w := by
  have hrun := rebinds_assign u w id name v
  cases hx : Variable.assignIn name v (w.own? id name) with
  | error _ =>
      rw [hx, h] at hrun
      exact congrArg Prod.snd hrun
  | ok x =>
      rw [hx, h] at hrun
      obtain ⟨_, hassign, _⟩ := hrun
      cases hassign

/-- An assignment that does not fail binds the variable with its new value. -/
theorem rebinds_of_assign_eq_ok {v : Value} {w' : World}
    (h : assign u id name v w = (.ok (), w')) :
    ∃ x, Variable.assignIn name v (w.own? id name) = .ok x ∧ Rebinds id name x w w' := by
  have hrun := rebinds_assign u w id name v
  cases hx : Variable.assignIn name v (w.own? id name) with
  | error _ =>
      rw [hx, h] at hrun
      cases hrun
  | ok x =>
      rw [hx, h] at hrun
      obtain ⟨_, hassign, hrebinds⟩ := hrun
      cases hassign
      exact ⟨x, rfl, hrebinds⟩

/-- A scope finds under a name what it found before, unless it sees where the name was assigned to.
It does not matter whether the assignment succeeds. -/
theorem sees_of_assign {v : Value} {k : Nat} {other : String}
    (h : ((assign u id name v w).2.lookup k other).map (·.toVariable) ≠
      (w.lookup k other).map (·.toVariable)) : other = name ∧ w.Sees k id name := by
  refine Classical.byContradiction fun hunseen => h ?_
  rcases hrun : assign u id name v w with ⟨fault | done, w'⟩
  · rw [eq_of_assign_eq_error u w id name hrun]
  · obtain ⟨x, _, hrebinds⟩ := rebinds_of_assign_eq_ok u w id name hrun
    exact congrArg _ (hrebinds.lookup_of_not_sees hunseen)

/-- Several assignments that fail stop at the first one that fails, and keep what the ones before it
did. -/
theorem exists_prefix_of_assignAll {entries : List (String × Value)} {fault : Fault} {w w' : World}
    (h : assignAll u id entries w = (.error fault, w')) :
    ∃ before n v after, entries = before ++ (n, v) :: after ∧
      assignAll u id before w = (.ok (), w') ∧ assign u id n v w' = (.error fault, w') := by
  induction entries generalizing w with
  | nil => cases h
  | cons entry rest ih =>
      obtain ⟨n, v⟩ := entry
      rw [assignAll] at h
      rcases hfirst : assign u id n v w with ⟨failed | done, w₁⟩
      · -- The first assignment fails: nothing was done before it, and it changes nothing.
        rw [run_bind_of_error hfirst] at h
        cases h
        obtain rfl := eq_of_assign_eq_error u w id n hfirst
        exact ⟨[], n, v, rest, rfl, rfl, hfirst⟩
      · rw [run_bind_of_ok hfirst] at h
        obtain ⟨before, n', v', after, rfl, hbefore, hfailed⟩ := ih h
        refine ⟨(n, v) :: before, n', v', after, rfl, ?_, hfailed⟩
        rw [assignAll, run_bind_of_ok hfirst]
        exact hbefore

/-- A binding reaches exactly the scopes that see it, and a failed one reaches none. When a scope
declares a variable or gives it a value, a lookup in any scope finds another variable than before (it
is found where it was not, or has another type or another value) only if it is of this name and the
scope sees where the name is bound. An assignment that fails changes nothing, and assignments that
fail leave exactly what those before the first that fails did. All scopes that do see a scope that
was made find the variable that it declares, or the one that has the value. -/
theorem binding_reaches :
    (∀ t k other, ((declare u id name t w).2.lookup k other).map (·.toVariable) ≠
        (w.lookup k other).map (·.toVariable) → other = name ∧ w.Sees k id name) ∧
      (∀ v k other, ((assign u id name v w).2.lookup k other).map (·.toVariable) ≠
        (w.lookup k other).map (·.toVariable) → other = name ∧ w.Sees k id name) ∧
      (∀ v fault w', assign u id name v w = (.error fault, w') → w' = w) ∧
      (∀ entries fault w', assignAll u id entries w = (.error fault, w') →
        ∃ before n v after, entries = before ++ (n, v) :: after ∧
          assignAll u id before w = (.ok (), w') ∧ assign u id n v w' = (.error fault, w')) ∧
      ∀ k, id < w.scopes.length → w.Sees k id name →
        (∀ t, ∃ w', declare u id name t w = (.ok (), w') ∧
          (w'.lookup k name).map (·.toVariable) = some (.declare t)) ∧
        ∀ v w', assign u id name v w = (.ok (), w') →
          ∃ x, Variable.assignIn name v (w.own? id name) = .ok x ∧
            (w'.lookup k name).map (·.toVariable) = some x := by
  refine ⟨fun _ _ _ => sees_of_declare u w id name, fun _ _ _ => sees_of_assign u w id name,
    fun _ _ _ => eq_of_assign_eq_error u w id name, fun _ _ _ => exists_prefix_of_assignAll u id,
    fun k hid hseen => ⟨fun t => ?_, fun v w' hassign => ?_⟩⟩
  · obtain ⟨w', hrun, hrebinds⟩ := rebinds_declare u w id name t
    exact ⟨w', hrun, hrebinds.lookup_of_sees hid hseen⟩
  · obtain ⟨x, hx, hrebinds⟩ := rebinds_of_assign_eq_ok u w id name hassign
    exact ⟨x, hx, hrebinds.lookup_of_sees hid hseen⟩

end WorldAction

end Formula
