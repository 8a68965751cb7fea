import Formula.Proofs.Member.Resolution
import Formula.Proofs.Scope.Binding

set_option autoImplicit false

/-! # The member tables of variables

A variable is bound together with the number of a member table. This table is the one of its type, up
to what was kept in it (`World.IsMapped`): a table is registered for the type it was built for, tables
are never removed, and what is kept in them cannot be told apart. So which number a variable has does
not matter.

Main statements: `WorldAction.sets_declare` and `WorldAction.run_assign`. -/

namespace Formula

/-! ## Stores -/

namespace Store

/-- A store has the table of a type under a number, up to what was kept in it. -/
structure HasTable (u : Universe) (σ : Store) (id : Nat) (t : ValueType) : Prop where
  lt : id < σ.tables.length
  alike : (MemberTable.ofType u t).Alike u (σ.table id)

/-- All tables of a store are still there in another one, up to what was kept in them. -/
structure Extends (u : Universe) (σ τ : Store) : Prop where
  count : σ.tables.length ≤ τ.tables.length
  tables : ∀ id < σ.tables.length, (σ.table id).Alike u (τ.table id)

variable {u : Universe} {σ τ υ : Store}

theorem Extends.trans (h : Extends u σ τ) (h' : Extends u τ υ) : Extends u σ υ where
  count := Nat.le_trans h.count h'.count
  tables id hid := (h.tables id hid).trans (h'.tables id (Nat.lt_of_lt_of_le hid h.count))

theorem HasTable.mono {id : Nat} {t : ValueType} (h : HasTable u σ id t) (hextends : Extends u σ τ) :
    HasTable u τ id t :=
  ⟨Nat.lt_of_lt_of_le h.lt hextends.count, h.alike.trans (hextends.tables id h.lt)⟩

/-- Stores with as many tables that cannot be told apart. -/
theorem Alike.extends (h : σ.Alike u τ) (hcount : τ.tables.length = σ.tables.length) :
    Extends u σ τ :=
  ⟨Nat.le_of_eq hcount.symm, fun id _ => h id⟩

theorem extends_report (u : Universe) (σ : Store) (events : List Event) :
    Extends u σ (σ.report events) :=
  ⟨Nat.le_refl _, fun _ _ => .refl _⟩

theorem extends_addTable (u : Universe) (σ : Store) (m : MemberTable) :
    Extends u σ (σ.addTable m) where
  count := by
    rw [addTable, List.length_append]
    exact Nat.le_add_right _ _
  tables id hid := by
    rw [table_addTable, if_neg (Nat.ne_of_lt hid)]
    exact .refl _

/-- A newly built table has the number of the tables before. -/
theorem hasTable_addTable (u : Universe) (σ : Store) (t : ValueType) :
    HasTable u (σ.addTable (.ofType u t)) σ.tables.length t where
  lt := by
    rw [addTable, List.length_append]
    exact Nat.lt_succ_self _
  alike := by
    rw [table_addTable, if_pos rfl]
    exact .refl _

end Store

/-! ## Worlds -/

namespace World

/-- The numbers that variables are bound with, and those that types are registered with, are those of
tables of the types. -/
structure IsMapped (u : Universe) (w : World) : Prop where
  bound : ∀ {k name b}, (w.scope k).bindings.find? name = some b →
    w.store.HasTable u b.members b.type
  registered : ∀ {k t table}, (w.scope k).tables.find? t = some table → w.store.HasTable u table t

/-- Building a table changes none of the others. -/
theorem extends_buildTable (u : Universe) (w : World) (t : ValueType) :
    w.store.Extends u (w.buildTable u t).store :=
  (w.store.extends_addTable u (.ofType u t)).trans (Store.extends_report u _ _)

/-- A newly built table is that of its type. -/
theorem hasTable_buildTable (w : World) (u : Universe) (t : ValueType) :
    (w.buildTable u t).store.HasTable u w.store.tables.length t :=
  (w.store.hasTable_addTable u t).mono (Store.extends_report u _ _)

namespace IsMapped

variable {u : Universe} {w : World}

theorem lookup (h : w.IsMapped u) {id : Nat} {name : String} {b : Binding}
    (hb : w.lookup id name = some b) : w.store.HasTable u b.members b.type := by
  obtain ⟨k, _, hk⟩ := List.exists_of_findSome?_eq_some hb
  exact h.bound hk

theorem withStore (h : w.IsMapped u) {store : Store} (hextends : w.store.Extends u store) :
    IsMapped u { w with store } :=
  ⟨fun hb => (h.bound hb).mono hextends, fun ht => (h.registered ht).mono hextends⟩

theorem replaceScope (h : w.IsMapped u) {id : Nat} {s : Scope}
    (hbound : ∀ {name b}, s.bindings.find? name = some b → w.store.HasTable u b.members b.type)
    (hregistered : ∀ {t table}, s.tables.find? t = some table → w.store.HasTable u table t) :
    (w.replaceScope id s).IsMapped u where
  bound {k name b} hb := by
    rw [scope_replaceScope] at hb
    split at hb
    · exact hbound hb
    · exact h.bound hb
  registered {k t table} ht := by
    rw [scope_replaceScope] at ht
    split at ht
    · exact hregistered ht
    · exact h.registered ht

theorem bind (h : w.IsMapped u) {b : Binding} (hb : w.store.HasTable u b.members b.type) (id : Nat)
    (name : String) : (w.bind id name b).IsMapped u := by
  refine h.replaceScope ?_ h.registered
  intro k c hc
  rw [Dictionary.find?_put] at hc
  by_cases hk : k = name
  · rw [if_pos hk] at hc
    cases hc
    exact hb
  · rw [if_neg hk] at hc
    exact h.bound hc

theorem register (h : w.IsMapped u) {t : ValueType} {table : Nat}
    (ht : w.store.HasTable u table t) (id : Nat) : (w.register id t table).IsMapped u := by
  unfold World.register
  split
  · exact h
  · refine h.replaceScope h.bound ?_
    intro t' table' htable
    rw [Dictionary.find?_put] at htable
    by_cases hsame : t' = t
    · rw [if_pos hsame] at htable
      cases htable
      exact hsame ▸ ht
    · rw [if_neg hsame] at htable
      exact h.registered htable

theorem addScope (h : w.IsMapped u) (parent : Option Nat) : (w.addScope parent).IsMapped u := by
  constructor
  · intro k name b hb
    rw [bindings_addScope] at hb
    exact h.bound hb
  · intro k t table ht
    rw [tables_addScope] at ht
    exact h.registered ht

theorem empty (u : Universe) : World.empty.IsMapped u where
  bound hb := by cases hb
  registered ht := by cases ht

/-- A table that is looked for is one of the type, whether it was registered or is built now. -/
theorem tableFor (h : w.IsMapped u) {id table : Nat} {t : ValueType} {w' : World}
    (hrun : WorldAction.tableFor u id t w = (.ok table, w')) :
    w'.IsMapped u ∧ w'.store.HasTable u table t := by
  cases hregistered : w.registered? id t with
  | some known =>
      rw [WorldAction.run_tableFor_of_some u hregistered] at hrun
      cases hrun
      exact ⟨h, h.registered hregistered⟩
  | none =>
      rw [WorldAction.run_tableFor_of_none u hregistered] at hrun
      cases hrun
      have hbuilt : (w.buildTable u t).IsMapped u := h.withStore (w.extends_buildTable u t)
      have hnew := w.hasTable_buildTable u t
      refine ⟨hbuilt.register hnew id, ?_⟩
      rw [(World.onlyBinds_register _ id id t _).2.1]
      exact hnew

end IsMapped

/-! ## Variables -/

/-- The variable that a scope itself binds to a name. -/
def own? (w : World) (id : Nat) (name : String) : Option Variable :=
  ((w.scope id).bindings.find? name).map (·.toVariable)

/-- A scope binds a variable to a name; apart from tables nothing else changes. -/
structure Sets (u : Universe) (id : Nat) (name : String) (x : Variable) (w w' : World) : Prop
    extends OnlyBinds id w w' where
  heap : w'.store.heap = w.store.heap
  mapped : w'.IsMapped u
  found : ∀ k, w'.own? id k = if k = name then some x else w.own? id k

theorem sets_bind {u : Universe} {w w' : World} {id : Nat} (hid : id < w.scopes.length)
    (honly : OnlyBinds id w w') (hheap : w'.store.heap = w.store.heap)
    (hbindings : (w'.scope id).bindings = (w.scope id).bindings) (hmapped : w'.IsMapped u)
    {b : Binding} (hb : w'.store.HasTable u b.members b.type) (name : String) :
    Sets u id name b.toVariable w (w'.bind id name b) := by
  refine ⟨honly.trans (onlyBinds_bind w' id name b), hheap, hmapped.bind hb id name, ?_⟩
  intro k
  rw [own?, find?_bind (honly.count ▸ hid), hbindings]
  by_cases hk : k = name
  · rw [if_pos hk, if_pos hk]
    rfl
  · rw [if_neg hk, if_neg hk]
    rfl

end World

namespace Variable

/-- The variable under a name after it is given a value: one that is there keeps its type, and a new
one takes that of the value. -/
def assignIn (name : String) (v : Value) : Option Variable → Except Fault Variable
  | some x => x.assign v
  | none => if v.isNone then .error (.untypedBinding name) else .ok ⟨v.type, v⟩

theorem type_of_assign {x y : Variable} {v : Value} (h : x.assign v = .ok y) : y.type = x.type := by
  unfold assign at h
  split at h
  · cases h
    rfl
  · cases h

end Variable

namespace WorldAction

open World

variable {u : Universe} {w : World} {id : Nat}

/-- Declaring a variable binds it, without a value. -/
theorem sets_declare (h : w.IsMapped u) (hid : id < w.scopes.length) (name : String)
    (t : ValueType) :
    ∃ w', declare u id name t w = (.ok (), w') ∧ Sets u id name (.declare t) w w' := by
  obtain ⟨members, w₁, hrun, honly, hheap, hbindings⟩ := run_tableFor u id t w
  obtain ⟨hmapped, htable⟩ := h.tableFor hrun
  have hsets := sets_bind hid honly hheap hbindings hmapped
    (b := { Variable.declare t with members }) htable name
  refine ⟨_, ?_, hsets⟩
  unfold declare
  rw [run_bind_of_ok hrun]
  rfl

/-- All that an assignment can do: it fails and changes nothing, or it binds the variable with its new
value. The variable keeps the table that it was bound with, and a new one has the table that is looked
for. -/
theorem cases_assign (u : Universe) (id : Nat) (name : String) (v : Value) (w : World) :
    match Variable.assignIn name v (w.own? id name) with
    | .error fault => assign u id name v w = (.error fault, w)
    | .ok x => ∃ members w₁,
        assign u id name v w = (.ok (), w₁.bind id name { x with members }) ∧
          (tableFor u id x.type w = (.ok members, w₁) ∨
            w₁ = w ∧ ∃ b, (w.scope id).bindings.find? name = some b ∧ b.type = x.type ∧
              b.members = members) := by
  cases hfound : (w.scope id).bindings.find? name with
  | some b =>
      rw [run_assign_of_some hfound, own?, hfound]
      show match b.toVariable.assign v with | .error _ => _ | .ok _ => _
      cases hassign : b.toVariable.assign v with
      | error fault => rfl
      | ok x =>
          have htype := Variable.type_of_assign hassign
          exact ⟨b.members, w, rfl, .inr ⟨rfl, b, rfl, htype.symm, rfl⟩⟩
  | none =>
      rw [run_assign_of_none hfound, own?, hfound]
      show match (if v.isNone then .error (.untypedBinding name) else .ok ⟨v.type, v⟩ :
        Except Fault Variable) with | .error _ => _ | .ok _ => _
      by_cases hnone : v.isNone = true
      · rw [if_pos hnone, if_pos hnone]
        rfl
      · rw [if_neg hnone, if_neg hnone]
        obtain ⟨members, w₁, hrun, _⟩ := run_tableFor u id v.type w
        rw [run_bind_of_ok hrun]
        exact ⟨members, w₁, rfl, .inl hrun⟩

/-- An assignment depends on the variable under the name only. It binds a variable or fails, and then
nothing is changed. -/
theorem run_assign (h : w.IsMapped u) (hid : id < w.scopes.length) (name : String) (v : Value) :
    match Variable.assignIn name v (w.own? id name) with
    | .error fault => assign u id name v w = (.error fault, w)
    | .ok x => ∃ w', assign u id name v w = (.ok (), w') ∧ Sets u id name x w w' := by
  have hcases := cases_assign u id name v w
  cases hx : Variable.assignIn name v (w.own? id name) with
  | error fault =>
      rw [hx] at hcases
      exact hcases
  | ok x =>
      rw [hx] at hcases
      obtain ⟨members, w₁, hassign, hrun | ⟨rfl, b, hb, htype, rfl⟩⟩ := hcases
      · obtain ⟨_, _, hrun', honly, hheap, hbindings⟩ := run_tableFor u id x.type w
        rw [hrun] at hrun'
        cases hrun'
        obtain ⟨hmapped, htable⟩ := h.tableFor hrun
        exact ⟨_, hassign, sets_bind hid honly hheap hbindings hmapped
          (b := { x with members }) htable name⟩
      · have htable : w₁.store.HasTable u b.members x.type := htype ▸ h.bound hb
        exact ⟨_, hassign, sets_bind hid (.refl id w₁) rfl rfl h
          (b := { x with members := b.members }) htable name⟩

/-- Assignments keep the tables where they belong. -/
theorem keeps_isMapped_assignAll (entries : List (String × Value)) :
    Keeps (fun w => w.IsMapped u ∧ id < w.scopes.length) (fun _ => True)
      (assignAll u id entries) := by
  refine keeps_assignAll_of (fun name v => ?_) entries
  rintro w ⟨h, hid⟩
  refine ⟨?_, fun _ _ => trivial⟩
  have hrun := run_assign h hid name v
  cases hx : Variable.assignIn name v (w.own? id name) with
  | error fault =>
      rw [hx] at hrun
      rw [hrun]
      exact ⟨h, hid⟩
  | ok x =>
      rw [hx] at hrun
      obtain ⟨w', hassign, hsets⟩ := hrun
      rw [hassign]
      exact ⟨hsets.mapped, hsets.count ▸ hid⟩

end WorldAction

end Formula
