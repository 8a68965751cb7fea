import Formula.Proofs.Scope.Mapped
import Formula.Proofs.Scope.Spared

set_option autoImplicit false

/-! # Consistent worlds

In a consistent world (`World.IsConsistent`) a variable holds nothing or a value whose exact type is
the declared one, its member table is the one registered for this type at the root of its chain, and
only roots have tables. From then on (`World.Evolves`) names stay bound, a registered table stays
where it is, and the declared type of a variable changes by a declaration only. Whatever is done to
the variables of a scope keeps a world consistent, also if it fails.

Main statements: `WorldAction.keeps_consistent_declareAll` and
`WorldAction.keeps_consistent_assignAll`. -/

namespace Formula

theorem Value.isNone_iff {v : Value} : v.isNone = true ↔ v = .none := by
  cases v <;> simp [isNone]

/-- What a variable is given is nothing, or of its type. -/
theorem Variable.holds_of_assign {x y : Variable} {v : Value} (h : x.assign v = .ok y) :
    y.value = .none ∨ y.value.type = y.type := by
  unfold assign at h
  split at h
  next hfits =>
    cases h
    exact hfits.imp_left Value.isNone_iff.1
  · cases h

namespace World

variable {w w' x : World} {id : Nat} {D : Nat → String → ValueType → Prop}

/-- Variables hold values of their types and have the tables registered for these at the root. -/
structure IsConsistent (w : World) : Prop where
  ordered : ∀ {k parent}, (w.scope k).parent = some parent → parent < k
  typed : ∀ {k name b}, (w.scope k).bindings.find? name = some b →
    b.value = .none ∨ b.value.type = b.type
  mapped : ∀ {k name b}, (w.scope k).bindings.find? name = some b →
    w.registered? k b.type = some b.members
  rooted : ∀ {k t table}, (w.scope k).tables.find? t = some table → (w.scope k).parent = none
  built : ∀ {k t table}, (w.scope k).tables.find? t = some table → table < w.store.tables.length

/-- A later world: what was made is there, registered tables are not replaced, and a variable that
was bound is bound still, with the same type or one that was declared. -/
structure Evolves (D : Nat → String → ValueType → Prop) (w w' : World) : Prop where
  store : w.store.Grows w'.store
  count : w.scopes.length ≤ w'.scopes.length
  parent : ∀ k < w.scopes.length, (w'.scope k).parent = (w.scope k).parent
  registered : ∀ {k t table}, (w.scope k).tables.find? t = some table →
    (w'.scope k).tables.find? t = some table
  declared : ∀ {k name b}, (w.scope k).bindings.find? name = some b →
    ∃ b', (w'.scope k).bindings.find? name = some b' ∧ (b'.type = b.type ∨ D k name b'.type)

theorem lt_of_find?_bindings {k : Nat} {name : String} {b : Binding}
    (h : (w.scope k).bindings.find? name = some b) : k < w.scopes.length := by
  refine Nat.lt_of_not_le fun hle => ?_
  rw [scope_of_length_le hle] at h
  cases h

theorem lt_of_find?_tables {k : Nat} {t : ValueType} {table : Nat}
    (h : (w.scope k).tables.find? t = some table) : k < w.scopes.length := by
  refine Nat.lt_of_not_le fun hle => ?_
  rw [scope_of_length_le hle] at h
  cases h

/-! ## Later worlds -/

namespace Evolves

theorem refl (D : Nat → String → ValueType → Prop) (w : World) : Evolves D w w :=
  ⟨.refl _, Nat.le_refl _, fun _ _ => rfl, fun h => h, fun h => ⟨_, h, .inl rfl⟩⟩

theorem mono {D' : Nat → String → ValueType → Prop} (h : Evolves D w w')
    (himp : ∀ k name t, D k name t → D' k name t) : Evolves D' w w' :=
  { h with
    declared := fun hb =>
      let ⟨b', hb', htype⟩ := h.declared hb
      ⟨b', hb', htype.imp_right (himp _ _ _)⟩ }

theorem trans {w'' : World} (h : Evolves D w w') (h' : Evolves D w' w'') : Evolves D w w'' where
  store := h.store.trans h'.store
  count := Nat.le_trans h.count h'.count
  parent k hk := (h'.parent k (Nat.lt_of_lt_of_le hk h.count)).trans (h.parent k hk)
  registered ht := h'.registered (h.registered ht)
  declared hb := by
    obtain ⟨b₁, hb₁, htype₁⟩ := h.declared hb
    obtain ⟨b₂, hb₂, htype₂⟩ := h'.declared hb₁
    refine ⟨b₂, hb₂, ?_⟩
    -- The last declaration counts; without one the type is that of the first part.
    rcases htype₂ with hsame | hdeclared
    · rwa [hsame]
    · exact .inr hdeclared

theorem withStore (h : Evolves D w x) {store : Store} (hgrows : x.store.Grows store) :
    Evolves D w { x with store } :=
  { h with store := h.store.trans hgrows }

/-- What spares all scopes declares nothing in them. -/
theorem of_spares {r : Nat} (h : Spares r w w') : Evolves D w w' := by
  refine ⟨h.store, h.count, h.parent, ?_, ?_⟩
  · intro k t table ht
    exact h.registered k (lt_of_find?_tables ht) ht
  · intro k name b hb
    refine ⟨b, ?_, .inl rfl⟩
    rw [h.bindings k (lt_of_find?_bindings hb)]
    exact hb

theorem addScope (h : Evolves D w x) (parent : Option Nat) : Evolves D w (x.addScope parent) :=
  h.trans (of_spares ((Spares.refl 0 x).addScope parent))

/-- A binding keeps the type of the one before, or was declared. -/
theorem bind (h : Evolves D w x) {name : String} {b : Binding}
    (hb : ∀ {old}, (x.scope id).bindings.find? name = some old →
      b.type = old.type ∨ D id name b.type) : Evolves D w (x.bind id name b) := by
  have honly := onlyBinds_bind x id name b
  have hbound {k : Nat} {n : String} {old : Binding} (hold : (x.scope k).bindings.find? n = some old) :
      ∃ b', ((x.bind id name b).scope k).bindings.find? n = some b' ∧
        (b'.type = old.type ∨ D k n b'.type) := by
    -- Only the binding of this name in this scope is a new one.
    by_cases hk : k = id
    · subst hk
      rw [find?_bind (lt_of_find?_bindings hold)]
      by_cases hn : n = name
      · subst hn
        exact ⟨b, if_pos rfl, hb hold⟩
      · exact ⟨old, by rw [if_neg hn, hold], .inl rfl⟩
    · rw [honly.elsewhere k hk]
      exact ⟨old, hold, .inl rfl⟩
  refine h.trans ⟨.refl _, Nat.le_of_eq honly.count.symm, fun k _ => honly.parent k, ?_, hbound⟩
  intro k t table ht
  rw [tables_bind]
  exact ht

theorem register (h : Evolves D w x) (id : Nat) (t : ValueType) (table : Nat) :
    Evolves D w (x.register id t table) :=
  h.trans (of_spares ((Spares.refl (x.root id) x).register (.inl rfl) t table))

end Evolves

/-! ## What keeps a world consistent -/

/-- What is registered at the root of a scope is known below it. -/
theorem registered?_of_root (hparent : ∀ k ≤ id, (w'.scope k).parent = (w.scope k).parent)
    {t : ValueType} {table : Nat} (h : w.registered? id t = some table)
    (hkept : (w.scope (w.root id)).tables.find? t = some table →
      (w'.scope (w.root id)).tables.find? t = some table) : w'.registered? id t = some table := by
  unfold registered?
  rw [root_congr hparent]
  exact hkept h

theorem registered?_withStore (w : World) (store : Store) (id : Nat) (t : ValueType) :
    ({ w with store } : World).registered? id t = w.registered? id t := by
  have hroot : ({ w with store } : World).root id = w.root id := root_congr fun _ _ => rfl
  unfold registered?
  rw [hroot]
  rfl

/-- A table that is registered for a new type is found. -/
theorem registered?_register (hid : id < w.scopes.length) {t : ValueType}
    (hnew : w.registered? id t = none) (table : Nat) :
    (w.register id t table).registered? id t = some table := by
  have hmade : w.root id < w.scopes.length := Nat.lt_of_le_of_lt (w.root_le id) hid
  have hroot : (w.register id t table).root id = w.root id :=
    root_congr fun k _ => (w.onlyBinds_register id id t table).1.parent k
  rw [registered?, hroot, register, if_neg (by rw [hnew]; decide), scope_replaceScope,
    if_pos ⟨rfl, hmade⟩, Dictionary.find?_put, if_pos rfl]

namespace IsConsistent

theorem empty : World.empty.IsConsistent where
  ordered h := by cases h
  typed h := by cases h
  mapped h := by cases h
  rooted h := by cases h
  built h := by cases h

/-- The root of a chain has no parent. -/
theorem parent_root (h : w.IsConsistent) (id : Nat) : (w.scope (w.root id)).parent = none := by
  induction id using Nat.strongRecOn with
  | ind id ih =>
      rw [root_eq]
      cases hparent : (w.scope id).parent with
      | none => exact hparent
      | some parent =>
          have hlt := h.ordered hparent
          simp only [if_pos hlt]
          exact ih parent hlt

theorem withStore (h : w.IsConsistent) {store : Store} (hgrows : w.store.Grows store) :
    IsConsistent { w with store } where
  ordered := h.ordered
  typed := h.typed
  mapped hb := (w.registered?_withStore store _ _).trans (h.mapped hb)
  rooted := h.rooted
  built ht := Nat.lt_of_lt_of_le (h.built ht) hgrows.count

theorem addScope (h : w.IsConsistent) {parent : Option Nat}
    (hparent : ∀ {k}, parent = some k → k < w.scopes.length) :
    (w.addScope parent).IsConsistent where
  ordered {k p} hp := by
    by_cases hnew : k = w.scopes.length
    · rw [hnew, scope_addScope] at hp
      exact hnew ▸ hparent hp
    · rw [scope_addScope_of_ne parent hnew] at hp
      exact h.ordered hp
  typed hb := by
    rw [bindings_addScope] at hb
    exact h.typed hb
  mapped {k name b} hb := by
    rw [bindings_addScope] at hb
    -- A scope that binds something was made before, and so was all of its chain.
    have hmade := lt_of_find?_bindings hb
    refine registered?_of_root (fun j hj => ?_) (h.mapped hb) ?_
    · rw [scope_of_append rfl (Nat.lt_of_le_of_lt hj hmade)]
    · rw [tables_addScope]
      exact fun ht => ht
  rooted ht := by
    rw [tables_addScope] at ht
    rw [scope_of_append rfl (lt_of_find?_tables ht)]
    exact h.rooted ht
  built ht := by
    rw [tables_addScope] at ht
    exact h.built ht

/-- A table of the store is registered. -/
theorem register (h : w.IsConsistent) {table : Nat} (htable : table < w.store.tables.length)
    (id : Nat) (t : ValueType) : (w.register id t table).IsConsistent where
  ordered {k p} hp := by
    rw [(w.onlyBinds_register id k t table).1.parent] at hp
    exact h.ordered hp
  typed {k name b} hb := by
    rw [(w.onlyBinds_register id k t table).2.2] at hb
    exact h.typed hb
  mapped {k name b} hb := by
    rw [(w.onlyBinds_register id k t table).2.2] at hb
    refine registered?_of_root (fun j _ => ?_) (h.mapped hb) fun ht => find?_register ht id t table
    exact (w.onlyBinds_register id j t table).1.parent j
  rooted {k t' n} ht := by
    rw [(w.onlyBinds_register id k t table).1.parent]
    rcases of_find?_register ht with hbefore | ⟨rfl, _⟩
    · exact h.rooted hbefore
    · exact h.parent_root id
  built {k t' n} ht := by
    rw [(w.onlyBinds_register id k t table).2.1]
    rcases of_find?_register ht with hbefore | ⟨_, _, rfl⟩
    · exact h.built hbefore
    · exact htable

/-- A variable is bound with the table registered for its type. -/
theorem bind (h : w.IsConsistent) {b : Binding} (hvalue : b.value = .none ∨ b.value.type = b.type)
    (hmembers : w.registered? id b.type = some b.members) (name : String) :
    (w.bind id name b).IsConsistent := by
  have honly := onlyBinds_bind w id name b
  have hfound {k : Nat} {n : String} {c : Binding}
      (hc : ((w.bind id name b).scope k).bindings.find? n = some c) :
      (k = id ∧ c = b) ∨ (w.scope k).bindings.find? n = some c := by
    by_cases hk : k = id
    · subst hk
      rw [find?_bind (honly.count ▸ lt_of_find?_bindings hc)] at hc
      split at hc
      · exact .inl ⟨rfl, (Option.some.inj hc).symm⟩
      · exact .inr hc
    · rw [honly.elsewhere k hk] at hc
      exact .inr hc
  have hregistered {k : Nat} {t : ValueType} {n : Nat} (ht : w.registered? k t = some n) :
      (w.bind id name b).registered? k t = some n := by
    refine registered?_of_root (fun j _ => honly.parent j) ht ?_
    rw [tables_bind]
    exact fun ht => ht
  constructor
  · intro k p hp
    rw [honly.parent] at hp
    exact h.ordered hp
  · intro k n c hc
    rcases hfound hc with ⟨_, rfl⟩ | hbefore
    · exact hvalue
    · exact h.typed hbefore
  · intro k n c hc
    rcases hfound hc with ⟨rfl, rfl⟩ | hbefore
    · exact hregistered hmembers
    · exact hregistered (h.mapped hbefore)
  · intro k t n ht
    rw [tables_bind] at ht
    rw [honly.parent]
    exact h.rooted ht
  · intro k t n ht
    rw [tables_bind] at ht
    exact h.built ht

end IsConsistent

/-! ## Actions on the variables of a scope -/

/-- A consistent world that is later than another one. -/
structure LeadsTo (D : Nat → String → ValueType → Prop) (w w' : World) : Prop extends
    Evolves D w w' where
  consistent : w'.IsConsistent

namespace LeadsTo

theorem refl (h : w.IsConsistent) : LeadsTo D w w := ⟨.refl D w, h⟩

theorem withStore (h : LeadsTo D w x) {store : Store} (hgrows : x.store.Grows store) :
    LeadsTo D w { x with store } :=
  ⟨h.toEvolves.withStore hgrows, h.consistent.withStore hgrows⟩

theorem addScope (h : LeadsTo D w x) {parent : Option Nat}
    (hparent : ∀ {k}, parent = some k → k < x.scopes.length) : LeadsTo D w (x.addScope parent) :=
  ⟨h.toEvolves.addScope parent, h.consistent.addScope hparent⟩

/-- A newly built table is registered, unless the type has one. -/
theorem registerBuilt (h : LeadsTo D w x) (u : Universe) (id : Nat) (t : ValueType) :
    LeadsTo D w ((x.buildTable u t).register id t x.store.tables.length) := by
  have hbuilt := h.withStore (grows_buildTable u x t)
  have hnew : x.store.tables.length < (x.buildTable u t).store.tables.length := by
    show _ < (x.store.tables ++ [_]).length
    rw [List.length_append]
    exact Nat.lt_succ_self _
  exact ⟨hbuilt.toEvolves.register id t _, hbuilt.consistent.register hnew id t⟩

end LeadsTo

end World

namespace WorldAction

open World

variable {u : Universe} {w : World} {id : Nat} {D : Nat → String → ValueType → Prop}
  {E : Fault → Prop}

/-- The table that is found or built is the registered one. -/
theorem leadsTo_tableFor {x : World} (h : LeadsTo D w x) (hid : id < x.scopes.length)
    (t : ValueType) :
    ∃ table x', tableFor u id t x = (.ok table, x') ∧ LeadsTo D w x' ∧ OnlyBinds id x x' ∧
      (x'.scope id).bindings = (x.scope id).bindings ∧ x'.registered? id t = some table := by
  cases hregistered : x.registered? id t with
  | some table =>
      exact ⟨table, x, run_tableFor_of_some u hregistered, h, .refl id x, rfl, hregistered⟩
  | none =>
      have hnone : (x.buildTable u t).registered? id t = none :=
        (x.registered?_withStore _ id t).trans hregistered
      obtain ⟨honly, _, hbindings⟩ :=
        (x.buildTable u t).onlyBinds_register id id t x.store.tables.length
      refine ⟨_, _, run_tableFor_of_none u hregistered, h.registerBuilt u id t,
        ⟨honly.count, honly.parent, honly.elsewhere⟩, hbindings, ?_⟩
      exact registered?_register (show id < (x.buildTable u t).scopes.length from hid) hnone _

/-- Declaring a variable. -/
theorem keeps_consistent_declare (hid : id < w.scopes.length) {name : String} {t : ValueType}
    (hD : D id name t) : Keeps (LeadsTo D w) E (declare u id name t) := by
  intro x h
  obtain ⟨members, x', hrun, hleads, honly, _, hregistered⟩ :=
    leadsTo_tableFor (u := u) h (Nat.lt_of_lt_of_le hid h.count) t
  unfold declare
  rw [run_bind_of_ok hrun]
  refine ⟨⟨hleads.toEvolves.bind fun _ => .inr hD, ?_⟩, fun _ h => by cases h⟩
  exact hleads.consistent.bind (.inl rfl) hregistered name

theorem keeps_consistent_declareAll (hid : id < w.scopes.length)
    {entries : List (String × ValueType)} (hD : ∀ e ∈ entries, D id e.1 e.2) :
    Keeps (LeadsTo D w) E (declareAll u id entries) := by
  induction entries with
  | nil => exact .pure _
  | cons entry rest ih =>
      have hfirst := hD entry List.mem_cons_self
      refine .bind (keeps_consistent_declare hid hfirst) fun _ => ?_
      exact ih fun e he => hD e (List.mem_cons_of_mem _ he)

/-- An assignment keeps the type of a variable that is bound. -/
theorem keeps_consistent_assign (name : String) (v : Value) :
    Keeps (fun x => LeadsTo D w x ∧ id < x.scopes.length) (fun _ => True) (assign u id name v) := by
  rintro x ⟨h, hid⟩
  refine ⟨?_, fun _ _ => trivial⟩
  cases hfound : (x.scope id).bindings.find? name with
  | some b =>
      -- The variable keeps its type, so the table that is registered for it stays the right one.
      rw [run_assign_of_some hfound]
      cases hassign : b.toVariable.assign v with
      | error fault => exact ⟨h, hid⟩
      | ok y =>
          have htype := Variable.type_of_assign hassign
          have hmembers : x.registered? id y.type = some b.members := by
            rw [htype]
            exact h.consistent.mapped hfound
          refine ⟨⟨h.toEvolves.bind fun hold => ?_, ?_⟩, (onlyBinds_bind x id _ _).count ▸ hid⟩
          · rw [hfound] at hold
            cases hold
            exact .inl htype
          · exact h.consistent.bind (Variable.holds_of_assign hassign) hmembers name
  | none =>
      rw [run_assign_of_none hfound]
      split
      · exact ⟨h, hid⟩
      · obtain ⟨members, x', hrun, hleads, honly, hbindings, hregistered⟩ :=
          leadsTo_tableFor (u := u) h hid v.type
        rw [run_bind_of_ok hrun]
        refine ⟨⟨hleads.toEvolves.bind fun hold => ?_, ?_⟩, ?_⟩
        · -- The name was not bound, and looking for the table binds none.
          rw [hbindings, hfound] at hold
          cases hold
        · exact hleads.consistent.bind (.inr rfl) hregistered name
        · exact (honly.trans (onlyBinds_bind x' id _ _)).count ▸ hid

theorem keeps_consistent_assignAll (entries : List (String × Value)) :
    Keeps (fun x => LeadsTo D w x ∧ id < x.scopes.length) (fun _ => True)
      (assignAll u id entries) :=
  keeps_assignAll_of keeps_consistent_assign entries

/-- The scope that binds a name was made. -/
theorem lt_of_owner?_eq_some {x : World} {name : String} {owner : Nat}
    (h : x.owner? id name = some owner) : owner < x.scopes.length := by
  unfold owner? at h
  have hcontains := List.find?_some h
  obtain ⟨b, hb⟩ := Option.isSome_iff_exists.1 hcontains
  exact lt_of_find?_bindings hb

theorem keeps_consistent_assignNearest (name : String) (v : Value) :
    Keeps (LeadsTo D w) (fun _ => True) (assignNearest u id name v) := by
  intro x h
  refine ⟨?_, fun _ _ => trivial⟩
  unfold assignNearest
  rw [run_bind_of_ok (run_get x)]
  cases howner : x.owner? id name with
  | none => exact h
  | some owner => exact (keeps_consistent_assign name v x ⟨h, lt_of_owner?_eq_some howner⟩).1.1

end WorldAction

end Formula
