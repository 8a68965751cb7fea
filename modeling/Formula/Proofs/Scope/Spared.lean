import Formula.Proofs.Evaluation.Access
import Formula.Proofs.Member.Choice
import Formula.Proofs.Scope.Binding

set_option autoImplicit false

/-! # What is left alone

A store grows (`Store.Grows`): member tables and events are added, the tables there were keep their
types and members, and what was kept in them stays. A world spares its scopes (`World.Spares`): those
there were keep their parents and bindings, and at most one of them, a root, has more tables than
before. So it is when variables are declared in a new scope.

Main statements: `Store.isStable_grows` and `WorldAction.keeps_spares_declareAll`. -/

namespace Formula

/-! ## Stores -/

/-- A member table of the same type with the same members, in which all that was kept still is. -/
structure MemberTable.Grows (m m' : MemberTable) : Prop where
  type : m'.type = m.type
  members : m'.members = m.members
  kept : ∀ {key s}, m.instantiations.find? key = some s → m'.instantiations.find? key = some s

namespace MemberTable

theorem Grows.refl (m : MemberTable) : m.Grows m := ⟨rfl, rfl, fun h => h⟩

theorem Grows.trans {m m' m'' : MemberTable} (h : m.Grows m') (h' : m'.Grows m'') : m.Grows m'' :=
  ⟨h'.type.trans h.type, h'.members.trans h.members, fun hkey => h'.kept (h.kept hkey)⟩

/-- A signature is kept only where none was. -/
theorem grows_resolve (u : Universe) (m : MemberTable) (method : String) (types : List ValueType) :
    m.Grows (m.resolve u method types).table := by
  rw [resolve_table_eq]
  cases (m.resolve u method types).pick with
  | none => exact .refl m
  | some s =>
      simp only
      split
      · exact .refl m
      next hnew =>
        refine ⟨rfl, rfl, ?_⟩
        intro key kept hkey
        have hother : key ≠ (method, types) := by
          rintro rfl
          exact hnew (by simp [Dictionary.contains, hkey])
        rw [Dictionary.find?_put, if_neg hother]
        exact hkey

end MemberTable

/-- A store with more tables and events, in which the tables there were have grown. The heap is that
of the host. -/
structure Store.Grows (σ τ : Store) : Prop where
  count : σ.tables.length ≤ τ.tables.length
  tables : ∀ id < σ.tables.length, (σ.table id).Grows (τ.table id)
  log : σ.log <+: τ.log

namespace Store

theorem Grows.refl (σ : Store) : σ.Grows σ :=
  ⟨Nat.le_refl _, fun _ _ => .refl _, List.prefix_refl _⟩

theorem Grows.trans {σ τ υ : Store} (h : σ.Grows τ) (h' : τ.Grows υ) : σ.Grows υ where
  count := Nat.le_trans h.count h'.count
  tables id hid := (h.tables id hid).trans (h'.tables id (Nat.lt_of_lt_of_le hid h.count))
  log := h.log.trans h'.log

theorem grows_report (σ : Store) (events : List Event) : σ.Grows (σ.report events) :=
  ⟨Nat.le_refl _, fun _ _ => .refl _, List.prefix_append _ _⟩

theorem grows_addTable (σ : Store) (m : MemberTable) : σ.Grows (σ.addTable m) where
  count := by
    rw [addTable, List.length_append]
    exact Nat.le_add_right _ _
  tables id hid := by
    rw [table_addTable, if_neg (Nat.ne_of_lt hid)]
    exact .refl _
  log := List.prefix_refl _

theorem grows_replaceTable (σ : Store) {id : Nat} {m : MemberTable} (h : (σ.table id).Grows m) :
    σ.Grows (σ.replaceTable id m) where
  count := Nat.le_of_eq List.length_set.symm
  tables k hk := by
    by_cases hid : id < σ.tables.length
    · rw [table_replaceTable σ id k m hid]
      split
      next hsame => exact hsame ▸ h
      · exact .refl _
    · rw [replaceTable, List.set_eq_of_length_le (Nat.le_of_not_lt hid)]
      exact .refl _
  log := List.prefix_refl _

/-- Whatever the host code does, an evaluation only lets the store grow. -/
theorem isStable_grows (u : Universe) (origin : Store) : IsStable u origin.Grows where
  heap _ h := ⟨h.count, h.tables, h.log⟩
  report events h := h.trans (grows_report _ events)
  resolve _ method types h :=
    h.trans (grows_replaceTable _ (MemberTable.grows_resolve u _ method types))

end Store

/-! ## Roots -/

namespace World

variable {w w' x : World} {id r : Nat}

theorem chain_ne_nil (w : World) (id : Nat) : w.chain id ≠ [] := by
  rw [chain]
  split
  · exact List.cons_ne_nil _ _
  · split <;> exact List.cons_ne_nil _ _

theorem root_eq_getLast (w : World) (id : Nat) :
    w.root id = (w.chain id).getLast (w.chain_ne_nil id) := by
  rw [root, List.getLast?_eq_some_getLast (w.chain_ne_nil id)]
  rfl

/-- The root of a scope is the root of its parent, or the scope itself. -/
theorem root_eq (w : World) (id : Nat) :
    w.root id =
      match (w.scope id).parent with
      | none => id
      | some parent => if parent < id then w.root parent else id := by
  rw [root, chain]
  cases (w.scope id).parent with
  | none => rfl
  | some parent =>
      by_cases hlt : parent < id
      · simp only [if_pos hlt]
        rw [List.getLast?_cons, List.getLast?_eq_some_getLast (w.chain_ne_nil parent),
          root_eq_getLast]
        rfl
      · simp only [if_neg hlt]
        rfl

theorem root_congr (h : ∀ k, k ≤ id → (w'.scope k).parent = (w.scope k).parent) :
    w'.root id = w.root id := by
  unfold root
  rw [chain_congr h]

theorem root_le (w : World) (id : Nat) : w.root id ≤ id := by
  rw [root_eq_getLast]
  exact le_of_mem_chain (List.getLast_mem _)

/-! ## Worlds -/

theorem grows_buildTable (u : Universe) (w : World) (t : ValueType) :
    w.store.Grows (w.buildTable u t).store :=
  (w.store.grows_addTable (.ofType u t)).trans (Store.grows_report _ _)

/-- The scopes there were are as they were, up to tables that were registered in a scope. -/
structure Spares (r : Nat) (w w' : World) : Prop where
  store : w.store.Grows w'.store
  count : w.scopes.length ≤ w'.scopes.length
  parent : ∀ k < w.scopes.length, (w'.scope k).parent = (w.scope k).parent
  bindings : ∀ k < w.scopes.length, (w'.scope k).bindings = (w.scope k).bindings
  tables : ∀ k < w.scopes.length, k ≠ r → (w'.scope k).tables = (w.scope k).tables
  registered : ∀ k < w.scopes.length, ∀ {t table}, (w.scope k).tables.find? t = some table →
    (w'.scope k).tables.find? t = some table

namespace Spares

theorem refl (r : Nat) (w : World) : Spares r w w :=
  ⟨.refl _, Nat.le_refl _, fun _ _ => rfl, fun _ _ => rfl, fun _ _ _ => rfl, fun _ _ _ _ h => h⟩

theorem withStore (h : Spares r w x) {store : Store} (hgrows : x.store.Grows store) :
    Spares r w { x with store } :=
  { h with store := h.store.trans hgrows }

/-- A new scope leaves those before it alone. -/
theorem addScope (h : Spares r w x) (parent : Option Nat) : Spares r w (x.addScope parent) where
  store := h.store
  count := Nat.le_trans h.count (Nat.le_of_lt (x.lt_length_addScope parent))
  parent k hk := by
    rw [scope_of_append rfl (Nat.lt_of_lt_of_le hk h.count)]
    exact h.parent k hk
  bindings k hk := (x.bindings_addScope parent k).trans (h.bindings k hk)
  tables k hk hroot := (x.tables_addScope parent k).trans (h.tables k hk hroot)
  registered k hk t table htable := by
    rw [tables_addScope]
    exact h.registered k hk htable

/-- Binding a name in a new scope. -/
theorem bind (h : Spares r w x) (hid : w.scopes.length ≤ id) (name : String) (b : Binding) :
    Spares r w (x.bind id name b) where
  store := h.store
  count := by
    rw [(onlyBinds_bind x id name b).count]
    exact h.count
  parent k hk := ((onlyBinds_bind x id name b).parent k).trans (h.parent k hk)
  bindings k hk := by
    have hother : k ≠ id := Nat.ne_of_lt (Nat.lt_of_lt_of_le hk hid)
    exact ((onlyBinds_bind x id name b).elsewhere k hother).trans (h.bindings k hk)
  tables k hk hroot := (x.tables_bind id name b k).trans (h.tables k hk hroot)
  registered k hk t table htable := by
    rw [tables_bind]
    exact h.registered k hk htable

/-- Registering a table at the root, or in a new scope. -/
theorem register (h : Spares r w x) (hroot : x.root id = r ∨ w.scopes.length ≤ x.root id)
    (t : ValueType) (table : Nat) : Spares r w (x.register id t table) where
  store := by
    rw [(x.onlyBinds_register id id t table).2.1]
    exact h.store
  count := by
    rw [(x.onlyBinds_register id id t table).1.count]
    exact h.count
  parent k hk := ((x.onlyBinds_register id k t table).1.parent k).trans (h.parent k hk)
  bindings k hk := (x.onlyBinds_register id k t table).2.2.trans (h.bindings k hk)
  tables k hk hne := by
    -- Where the table is registered is the given root, or is not one of the scopes there were.
    have hother : k ≠ x.root id := by
      rintro rfl
      rcases hroot with hsame | hnew
      · exact hne hsame
      · exact Nat.not_lt.2 hnew hk
    rw [x.tables_register_of_ne t table hother]
    exact h.tables k hk hne
  registered k hk t' n htable := find?_register (h.registered k hk htable) id t table

end Spares

/-- The scopes there were are spared, and a scope has the root for its own, or a new one. -/
def SparesFrom (r id : Nat) (w w' : World) : Prop :=
  Spares r w w' ∧ (w'.root id = r ∨ w.scopes.length ≤ w'.root id)

end World

/-! ## Declarations in a new scope -/

namespace WorldAction

open World

variable {u : Universe} {w : World} {id r : Nat} {E : Fault → Prop}

theorem root_of_onlyBinds {x x' : World} (h : OnlyBinds id x x') (k : Nat) :
    x'.root k = x.root k :=
  root_congr fun j _ => h.parent j

theorem keeps_spares_tableFor (t : ValueType) :
    Keeps (SparesFrom r id w) E (tableFor u id t) := by
  rintro x ⟨hspares, hroot⟩
  have hroot' {x' : World} (h : OnlyBinds id x x') :
      x'.root id = r ∨ w.scopes.length ≤ x'.root id := by
    rwa [root_of_onlyBinds h]
  cases hregistered : x.registered? id t with
  | some table =>
      rw [run_tableFor_of_some u hregistered]
      exact ⟨⟨hspares, hroot⟩, fun _ h => by cases h⟩
  | none =>
      rw [run_tableFor_of_none u hregistered]
      have hbuilt : OnlyBinds id x (x.buildTable u t) := ⟨rfl, fun _ => rfl, fun _ _ => rfl⟩
      have hmore := ((x.buildTable u t).onlyBinds_register id id t x.store.tables.length).1
      have hspared := (hspares.withStore (grows_buildTable u x t)).register (hroot' hbuilt) t
        x.store.tables.length
      exact ⟨⟨hspared, hroot' (hbuilt.trans hmore)⟩, fun _ h => by cases h⟩

/-- Declaring variables in a new scope leaves the others alone. -/
theorem keeps_spares_declareAll (hid : w.scopes.length ≤ id) (entries : List (String × ValueType)) :
    Keeps (SparesFrom r id w) E (declareAll u id entries) := by
  refine keeps_declareAll_of keeps_spares_tableFor (fun name b => ?_) entries
  refine .modify fun x ⟨hspares, hroot⟩ => ⟨hspares.bind hid _ _, ?_⟩
  rwa [root_of_onlyBinds (onlyBinds_bind x id _ _)]

end WorldAction

end Formula
