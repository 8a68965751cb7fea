import Formula.Proofs.Effect
import Formula.Scope

set_option autoImplicit false

/-! # What names mean

What a name means in a scope depends on this scope and those before it, and there on nothing but
parents and bindings. So scopes that are made later do not matter, nor does a scope without bindings
between a scope and its child.

Main statements: `World.lookup_congr`, `World.lookup_of_append` and `World.lookup_child`. -/

namespace Formula

namespace World

variable {w w' : World} {id : Nat}

/-- Two worlds agree on a scope and those before it. -/
def AgreesUpTo (id : Nat) (w w' : World) : Prop :=
  ∀ k, k ≤ id → (w'.scope k).parent = (w.scope k).parent ∧
    (w'.scope k).bindings = (w.scope k).bindings

/-- The chain of a scope depends on nothing but parents. -/
theorem chain_congr (h : ∀ k, k ≤ id → (w'.scope k).parent = (w.scope k).parent) :
    w'.chain id = w.chain id := by
  induction id using Nat.strongRecOn with
  | ind id ih =>
      rw [chain, chain, h id (Nat.le_refl id)]
      cases (w.scope id).parent with
      | none => rfl
      | some parent =>
          simp only
          split
          next hlt => rw [ih parent hlt fun k hk => h k (Nat.le_trans hk (Nat.le_of_lt hlt))]
          · rfl

theorem le_of_mem_chain {k : Nat} (h : k ∈ w.chain id) : k ≤ id := by
  induction id using Nat.strongRecOn with
  | ind id ih =>
      rw [chain] at h
      cases hparent : (w.scope id).parent with
      | none =>
          rw [hparent] at h
          exact Nat.le_of_eq (List.mem_singleton.1 h)
      | some parent =>
          rw [hparent] at h
          simp only at h
          split at h
          next hlt =>
            rcases List.mem_cons.1 h with rfl | h
            · exact Nat.le_refl _
            · exact Nat.le_trans (ih parent hlt h) (Nat.le_of_lt hlt)
          · exact Nat.le_of_eq (List.mem_singleton.1 h)

theorem findSome?_congr {α β : Type} {f g : α → Option β} {as : List α}
    (h : ∀ a ∈ as, f a = g a) : as.findSome? f = as.findSome? g := by
  induction as with
  | nil => rfl
  | cons a as ih =>
      rw [List.findSome?_cons, List.findSome?_cons, h a List.mem_cons_self,
        ih fun b hb => h b (List.mem_cons_of_mem _ hb)]

/-- Worlds that agree on a scope and those before it agree on what names mean there. -/
theorem lookup_congr (h : AgreesUpTo id w w') (name : String) :
    w'.lookup id name = w.lookup id name := by
  unfold lookup
  rw [chain_congr fun k hk => (h k hk).1]
  exact findSome?_congr fun k hk => by rw [(h k (le_of_mem_chain hk)).2]

/-! ## New scopes -/

/-- Scopes that are made stay as they are when others are made. -/
theorem scope_of_append {more : List Scope} (h : w'.scopes = w.scopes ++ more)
    (hid : id < w.scopes.length) : w'.scope id = w.scope id := by
  unfold scope
  rw [h, List.getElem?_append_left hid]

/-- New scopes do not change what names mean in the scopes before. -/
theorem lookup_of_append {more : List Scope} (h : w'.scopes = w.scopes ++ more)
    (hid : id < w.scopes.length) (name : String) : w'.lookup id name = w.lookup id name := by
  refine lookup_congr (fun k hk => ?_) name
  rw [scope_of_append h (Nat.lt_of_le_of_lt hk hid)]
  exact ⟨rfl, rfl⟩

/-- A name means its own binding in a scope, and otherwise what it means in the parent. -/
theorem lookup_eq (w : World) (id : Nat) (name : String) :
    w.lookup id name = ((w.scope id).bindings.find? name).or
      ((w.scope id).parent.bind fun parent =>
        if parent < id then w.lookup parent name else none) := by
  unfold lookup
  rw [chain]
  cases (w.scope id).parent with
  | none => cases h : (w.scope id).bindings.find? name <;> simp [h]
  | some parent =>
      by_cases hlt : parent < id
      · cases h : (w.scope id).bindings.find? name <;> simp [h, hlt]
      · cases h : (w.scope id).bindings.find? name <;> simp [h, hlt]

theorem scope_addScope (w : World) (parent : Option Nat) :
    (w.addScope parent).scope w.scopes.length = .child parent := by
  unfold scope addScope
  rw [List.getElem?_concat_length]
  rfl

theorem scope_addScope_of_ne (parent : Option Nat) (h : id ≠ w.scopes.length) :
    (w.addScope parent).scope id = w.scope id := by
  rcases Nat.lt_or_gt_of_ne h with hlt | hgt
  · exact scope_of_append rfl hlt
  · have hout : (w.addScope parent).scopes.length ≤ id := by
      rw [addScope, List.length_append]
      exact hgt
    unfold scope
    rw [List.getElem?_eq_none hout, List.getElem?_eq_none (Nat.le_of_lt hgt)]

/-- A scope that was not made has no parent, no bindings and no tables. -/
theorem scope_of_length_le (h : w.scopes.length ≤ id) : w.scope id = default := by
  unfold scope
  rw [List.getElem?_eq_none h]
  rfl

/-- A new scope binds nothing. -/
theorem bindings_addScope (w : World) (parent : Option Nat) (id : Nat) :
    ((w.addScope parent).scope id).bindings = (w.scope id).bindings := by
  by_cases hnew : id = w.scopes.length
  · rw [hnew, scope_addScope, scope_of_length_le (Nat.le_refl _)]
    rfl
  · rw [scope_addScope_of_ne parent hnew]

/-- A new scope has no tables. -/
theorem tables_addScope (w : World) (parent : Option Nat) (id : Nat) :
    ((w.addScope parent).scope id).tables = (w.scope id).tables := by
  by_cases hnew : id = w.scopes.length
  · rw [hnew, scope_addScope, scope_of_length_le (Nat.le_refl _)]
    rfl
  · rw [scope_addScope_of_ne parent hnew]

/-- A new scope has a number of its own. -/
theorem lt_length_addScope (w : World) (parent : Option Nat) :
    w.scopes.length < (w.addScope parent).scopes.length := by
  rw [addScope, List.length_append]
  exact Nat.lt_succ_self _

/-- In a new scope names mean what they mean in its parent. -/
theorem lookup_child (w : World) (h : id < w.scopes.length) (name : String) :
    (w.addScope (some id)).lookup w.scopes.length name = w.lookup id name := by
  rw [lookup_eq, scope_addScope]
  have hparent : (w.addScope (some id)).lookup id name = w.lookup id name :=
    lookup_of_append rfl h name
  simpa [Scope.child, h] using hparent

end World

end Formula
