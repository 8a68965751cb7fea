import Formula.Proofs.Scope.Lookup

set_option autoImplicit false

/-! # What binding changes

Declaring and assigning variables of a scope changes the bindings of this scope and nothing else that
names depend on (`World.OnlyBinds`). A declared variable has no value; an assignment to a variable
that the scope binds keeps its table.

Main statements: `WorldAction.run_declareAll` and `WorldAction.of_assign_eq_ok`. -/

namespace Formula

namespace World

variable {w w' w'' : World} {id : Nat}

/-- Two worlds have the same scopes as far as names go, up to the bindings of one scope. -/
structure OnlyBinds (id : Nat) (w w' : World) : Prop where
  count : w'.scopes.length = w.scopes.length
  parent : ∀ k, (w'.scope k).parent = (w.scope k).parent
  elsewhere : ∀ k, k ≠ id → (w'.scope k).bindings = (w.scope k).bindings

namespace OnlyBinds

theorem refl (id : Nat) (w : World) : OnlyBinds id w w := ⟨rfl, fun _ => rfl, fun _ _ => rfl⟩

theorem trans (h : OnlyBinds id w w') (h' : OnlyBinds id w' w'') : OnlyBinds id w w'' where
  count := h'.count.trans h.count
  parent k := (h'.parent k).trans (h.parent k)
  elsewhere k hk := (h'.elsewhere k hk).trans (h.elsewhere k hk)

/-- What names mean in the scopes before does not change. -/
theorem lookup_before (h : OnlyBinds id w w') {k : Nat} (hk : k < id) (name : String) :
    w'.lookup k name = w.lookup k name :=
  lookup_congr (fun j hj => ⟨h.parent j, h.elsewhere j (by omega)⟩) name

end OnlyBinds

theorem scope_replaceScope (w : World) (id k : Nat) (s : Scope) :
    (w.replaceScope id s).scope k = if k = id ∧ id < w.scopes.length then s else w.scope k := by
  unfold scope replaceScope
  by_cases hk : k = id
  · subst hk
    by_cases hlt : k < w.scopes.length
    · rw [if_pos ⟨rfl, hlt⟩, List.getElem?_set_self hlt]
      rfl
    · rw [if_neg fun h => hlt h.2, List.set_eq_of_length_le (Nat.le_of_not_lt hlt)]
  · rw [if_neg fun h => hk h.1, List.getElem?_set_ne (Ne.symm hk)]

/-- A scope replaced by one with the same parent. -/
theorem onlyBinds_replaceScope {s : Scope} (h : s.parent = (w.scope id).parent) :
    OnlyBinds id w (w.replaceScope id s) where
  count := List.length_set
  parent k := by
    rw [scope_replaceScope]
    split
    next hk => rw [h, hk.1]
    · rfl
  elsewhere k hk := by rw [scope_replaceScope, if_neg fun h => hk h.1]

theorem onlyBinds_bind (w : World) (id : Nat) (name : String) (b : Binding) :
    OnlyBinds id w (w.bind id name b) := onlyBinds_replaceScope rfl

/-- What a scope binds after one more binding. -/
theorem find?_bind (h : id < w.scopes.length) (name k : String) (b : Binding) :
    ((w.bind id name b).scope id).bindings.find? k =
      if k = name then some b else (w.scope id).bindings.find? k := by
  rw [bind, scope_replaceScope, if_pos ⟨rfl, h⟩, Dictionary.find?_put]

theorem tables_bind (w : World) (id : Nat) (name : String) (b : Binding) (k : Nat) :
    ((w.bind id name b).scope k).tables = (w.scope k).tables := by
  rw [bind, scope_replaceScope]
  split
  next hk => rw [hk.1]
  · rfl

/-- Registering a table changes no bindings. -/
theorem onlyBinds_register (w : World) (id k : Nat) (t : ValueType) (table : Nat) :
    OnlyBinds k w (w.register id t table) ∧
      (w.register id t table).store = w.store ∧
      ((w.register id t table).scope k).bindings = (w.scope k).bindings := by
  unfold register
  split
  · exact ⟨.refl k w, rfl, rfl⟩
  · have hbindings (j : Nat) : ((w.replaceScope (w.root id) { w.scope (w.root id) with
        tables := (w.scope (w.root id)).tables.put t table }).scope j).bindings =
          (w.scope j).bindings := by
      rw [scope_replaceScope]
      split
      next hj => rw [hj.1]
      · rfl
    have honly : OnlyBinds (w.root id) w (w.replaceScope (w.root id) { w.scope (w.root id) with
        tables := (w.scope (w.root id)).tables.put t table }) := onlyBinds_replaceScope rfl
    exact ⟨⟨honly.count, honly.parent, fun j _ => hbindings j⟩, rfl, hbindings k⟩

/-- A table is registered at the root of the chain. -/
theorem tables_register_of_ne (w : World) {id k : Nat} (t : ValueType) (table : Nat)
    (h : k ≠ w.root id) : ((w.register id t table).scope k).tables = (w.scope k).tables := by
  unfold register
  split
  · rfl
  · rw [scope_replaceScope, if_neg fun hk => h hk.1]

/-- What is registered already stays registered. -/
theorem find?_register {k : Nat} {t' : ValueType} {n : Nat}
    (h : (w.scope k).tables.find? t' = some n) (id : Nat) (t : ValueType) (table : Nat) :
    ((w.register id t table).scope k).tables.find? t' = some n := by
  unfold register
  split
  · exact h
  next hnew =>
    rw [scope_replaceScope]
    split
    next hk =>
      have hother : t' ≠ t := by
        rintro rfl
        exact hnew (by rw [registered?, ← hk.1, h]; rfl)
      rw [Dictionary.find?_put, if_neg hother, ← hk.1]
      exact h
    · exact h

/-- What is registered was registered before, or is the new table of the type, at the root. -/
theorem of_find?_register {id k : Nat} {t t' : ValueType} {table n : Nat}
    (h : ((w.register id t table).scope k).tables.find? t' = some n) :
    (w.scope k).tables.find? t' = some n ∨ k = w.root id ∧ t' = t ∧ n = table := by
  unfold register at h
  split at h
  · exact .inl h
  · rw [scope_replaceScope] at h
    split at h
    next hk =>
      rw [Dictionary.find?_put] at h
      split at h
      next ht => exact .inr ⟨hk.1, ht, (Option.some.inj h).symm⟩
      · rw [← hk.1] at h
        exact .inl h
    · exact .inl h

end World

namespace WorldAction

open World (OnlyBinds)

theorem run_tableFor_of_some (u : Universe) {id table : Nat} {t : ValueType} {w : World}
    (hregistered : w.registered? id t = some table) : tableFor u id t w = (.ok table, w) := by
  unfold tableFor
  rw [run_bind_of_ok (run_get w), hregistered]
  rfl

theorem run_tableFor_of_none (u : Universe) {id : Nat} {t : ValueType} {w : World}
    (hregistered : w.registered? id t = none) : tableFor u id t w =
      (.ok w.store.tables.length, (w.buildTable u t).register id t w.store.tables.length) := by
  unfold tableFor
  rw [run_bind_of_ok (run_get w), hregistered]
  rfl

/-- Looking for the table of a type, which may build one, changes no bindings. -/
theorem run_tableFor (u : Universe) (id : Nat) (t : ValueType) (w : World) :
    ∃ table w', tableFor u id t w = (.ok table, w') ∧ OnlyBinds id w w' ∧
      w'.store.heap = w.store.heap ∧ (w'.scope id).bindings = (w.scope id).bindings := by
  cases hregistered : w.registered? id t with
  | some table =>
      exact ⟨table, w, run_tableFor_of_some u hregistered, .refl id w, rfl, rfl⟩
  | none =>
      obtain ⟨honly, hstore, hbindings⟩ :=
        (w.buildTable u t).onlyBinds_register id id t w.store.tables.length
      exact ⟨w.store.tables.length, _, run_tableFor_of_none u hregistered,
        ⟨honly.count, honly.parent, honly.elsewhere⟩, (congrArg Store.heap hstore).trans rfl,
        hbindings⟩

/-- What declaring variables of a scope does: it binds them all, and without values. -/
structure Declares (id : Nat) (names : List String) (w w' : World) : Prop
    extends OnlyBinds id w w' where
  heap : w'.store.heap = w.store.heap
  bound : ∀ name ∈ names, ((w'.scope id).bindings.find? name).isSome = true
  still : ∀ name, ((w.scope id).bindings.find? name).isSome = true →
    ((w'.scope id).bindings.find? name).isSome = true
  unset : ∀ {name b}, (w'.scope id).bindings.find? name = some b →
    b.value = .none ∨ (w.scope id).bindings.find? name = some b

theorem run_declare (u : Universe) {id : Nat} (name : String) (t : ValueType) {w : World}
    (h : id < w.scopes.length) :
    ∃ w', declare u id name t w = (.ok (), w') ∧ Declares id [name] w w' := by
  obtain ⟨members, w₁, hrun, honly, hheap, hbindings⟩ := run_tableFor u id t w
  have hfind (k : String) : ((w₁.bind id name { Variable.declare t with members }).scope
      id).bindings.find? k = if k = name then some { Variable.declare t with members }
        else (w.scope id).bindings.find? k := by
    rw [World.find?_bind (honly.count ▸ h), hbindings]
  refine ⟨w₁.bind id name { Variable.declare t with members }, ?_,
    honly.trans (World.onlyBinds_bind _ _ _ _), hheap, ?_, ?_, ?_⟩
  · unfold declare
    rw [run_bind_of_ok hrun]
    rfl
  · intro k hk
    rw [hfind, if_pos (List.mem_singleton.1 hk)]
    rfl
  · intro k hk
    rw [hfind]
    split
    · rfl
    · exact hk
  · intro k b hb
    rw [hfind] at hb
    split at hb
    · cases hb
      exact .inl rfl
    · exact .inr hb

/-- Declaring variables always succeeds. -/
theorem run_declareAll (u : Universe) {id : Nat} (entries : List (String × ValueType)) {w : World}
    (h : id < w.scopes.length) :
    ∃ w', declareAll u id entries w = (.ok (), w') ∧
      Declares id (entries.map Prod.fst) w w' := by
  induction entries generalizing w with
  | nil =>
      exact ⟨w, rfl, .refl id w, rfl, fun _ h => (by cases h), fun _ h => h, fun h => .inr h⟩
  | cons entry rest ih =>
      obtain ⟨name, t⟩ := entry
      obtain ⟨w₁, hfirst, hone⟩ := run_declare u name t h
      obtain ⟨w₂, hrest, hmore⟩ := ih (hone.count ▸ h)
      refine ⟨w₂, ?_, hone.trans hmore.toOnlyBinds, hmore.heap.trans hone.heap, ?_, ?_, ?_⟩
      · rw [declareAll, run_bind_of_ok hfirst]
        exact hrest
      · intro k hk
        rcases List.mem_cons.1 hk with rfl | hk
        · exact hmore.still _ (hone.bound _ (List.mem_singleton.2 rfl))
        · exact hmore.bound k hk
      · exact fun k hk => hmore.still k (hone.still k hk)
      · intro k b hb
        rcases hmore.unset hb with hnone | hb
        · exact .inl hnone
        · exact hone.unset hb

/-- Names that are not declared keep their bindings. -/
theorem find?_declareAll (u : Universe) {id : Nat} {entries : List (String × ValueType)} {w : World}
    (h : id < w.scopes.length) {name : String} (hname : name ∉ entries.map Prod.fst) :
    ((declareAll u id entries w).2.scope id).bindings.find? name =
      (w.scope id).bindings.find? name := by
  induction entries generalizing w with
  | nil => rfl
  | cons entry rest ih =>
      obtain ⟨k, t⟩ := entry
      obtain ⟨hne, hrest⟩ : name ≠ k ∧ name ∉ rest.map Prod.fst := by simpa using hname
      obtain ⟨members, w₁, hrun, honly, _, hbindings⟩ := run_tableFor u id t w
      have hdeclare : declare u id k t w =
          (.ok (), w₁.bind id k { Variable.declare t with members }) := by
        unfold declare
        rw [run_bind_of_ok hrun]
        rfl
      have hcount : id < (w₁.bind id k { Variable.declare t with members }).scopes.length := by
        rw [(World.onlyBinds_bind _ _ _ _).count, honly.count]
        exact h
      rw [declareAll, run_bind_of_ok hdeclare, ih hcount hrest,
        World.find?_bind (honly.count ▸ h), if_neg hne, hbindings]

theorem run_assign_of_some {u : Universe} {id : Nat} {name : String} {v : Value} {w : World}
    {b : Binding} (hb : (w.scope id).bindings.find? name = some b) :
    assign u id name v w = (ofExcept (b.toVariable.assign v) >>= fun x =>
      modify fun w => w.bind id name { x with members := b.members } : WorldAction Unit) w := by
  unfold assign
  rw [run_bind_of_ok (run_get w), hb]

theorem run_assign_of_none {u : Universe} {id : Nat} {name : String} {v : Value} {w : World}
    (hb : (w.scope id).bindings.find? name = none) :
    assign u id name v w = (if v.isNone then throw (.untypedBinding name)
      else tableFor u id v.type >>= fun members =>
        modify fun w => w.bind id name ⟨⟨v.type, v⟩, members⟩ : WorldAction Unit) w := by
  unfold assign
  rw [run_bind_of_ok (run_get w), hb]

/-- A variable that a scope binds takes its new value, or is left as it is. -/
theorem of_assign_eq_ok {u : Universe} {id : Nat} {name : String} {v : Value} {w w' : World}
    {b : Binding} (hb : (w.scope id).bindings.find? name = some b)
    (h : assign u id name v w = (.ok (), w')) :
    ∃ x : Variable, w' = w.bind id name { x with members := b.members } := by
  rw [run_assign_of_some hb] at h
  obtain ⟨x, w₁, hvariable, hbind⟩ := of_run_bind_eq_ok h
  refine ⟨x, ?_⟩
  cases hx : b.toVariable.assign v with
  | error fault =>
      rw [hx] at hvariable
      cases hvariable
  | ok y =>
      rw [hx] at hvariable
      cases hvariable
      cases hbind
      rfl

/-! ## Actions on one scope -/

section Parts

variable {u : Universe} {id : Nat} {I : World → Prop} {E : Fault → Prop}

/-- What looking for a table and binding a name keep, all declarations keep. -/
theorem keeps_declareAll_of (htable : ∀ t, Keeps I E (tableFor u id t))
    (hbind : ∀ name b, Keeps I E (modify fun w => w.bind id name b : WorldAction Unit))
    (entries : List (String × ValueType)) : Keeps I E (declareAll u id entries) := by
  induction entries with
  | nil => exact .pure _
  | cons entry rest ih => exact .bind (.bind (htable _) fun _ => hbind _ _) fun _ => ih

/-- And so does an assignment, if it may fail. -/
theorem keeps_assign_of (htable : ∀ t, Keeps I (fun _ => True) (tableFor u id t))
    (hbind : ∀ name b, Keeps I (fun _ => True) (modify fun w => w.bind id name b : WorldAction Unit))
    (name : String) (v : Value) : Keeps I (fun _ => True) (assign u id name v) := by
  unfold assign
  refine .bind .get fun w => ?_
  cases (w.scope id).bindings.find? name with
  | some b =>
      refine .bind ?_ fun x => hbind _ _
      cases b.toVariable.assign v with
      | error fault => exact .throw trivial
      | ok x => exact .pure x
  | none =>
      simp only
      split
      · exact .throw trivial
      · exact .bind (htable _) fun _ => hbind _ _

/-- What each assignment keeps, all of them keep. -/
theorem keeps_assignAll_of (hassign : ∀ name v, Keeps I E (assign u id name v))
    (entries : List (String × Value)) : Keeps I E (assignAll u id entries) := by
  induction entries with
  | nil => exact .pure _
  | cons entry rest ih => exact .bind (hassign _ _) fun _ => ih

end Parts

section Keeps

variable {u : Universe} {id : Nat} {w : World} {E : Fault → Prop}

theorem keeps_tableFor (t : ValueType) : Keeps (OnlyBinds id w) E (tableFor u id t) := by
  intro w' honly
  obtain ⟨table, w₁, hrun, hmore, _⟩ := run_tableFor u id t w'
  rw [hrun]
  exact ⟨honly.trans hmore, fun _ h => by cases h⟩

theorem keeps_bind (name : String) (b : Binding) :
    Keeps (OnlyBinds id w) E (modify fun w => w.bind id name b : WorldAction Unit) :=
  .modify fun w' honly => honly.trans (World.onlyBinds_bind w' id name b)

theorem keeps_declareAll (entries : List (String × ValueType)) :
    Keeps (OnlyBinds id w) E (declareAll u id entries) :=
  keeps_declareAll_of keeps_tableFor keeps_bind entries

theorem keeps_assign (name : String) (v : Value) :
    Keeps (OnlyBinds id w) (fun _ => True) (assign u id name v) :=
  keeps_assign_of keeps_tableFor keeps_bind name v

theorem keeps_assignAll (entries : List (String × Value)) :
    Keeps (OnlyBinds id w) (fun _ => True) (assignAll u id entries) :=
  keeps_assignAll_of keeps_assign entries

/-- Evaluation binds nothing. -/
theorem keeps_ofAction {α : Type} (a : Action α) :
    Keeps (OnlyBinds id w) (fun _ => True) (ofAction a) :=
  fun _ honly => ⟨⟨honly.count, honly.parent, honly.elsewhere⟩, fun _ _ => trivial⟩

end Keeps

end WorldAction

end Formula
