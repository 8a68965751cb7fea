import Formula.Proofs.Session.Consistency

set_option autoImplicit false

/-! # What lasts

All that is ever done to a world is made of a few changes: the heap is changed, events are reported,
an overload is chosen, a scope is made, a table is built, a table is registered, a name is bound. An
invariant that none of them breaks (`World.IsLasting`) survives every call, whether it fails or not.
Only the registration of a table that was built for another type is left out, which a host may do or
not.

One such invariant is that every table is registered for the type it was built for
(`World.HasOwnTables`).

Main statement: `Call.keeps_lasting`. -/

namespace Formula

/-- An invariant that holds after each change of a world. A table is registered for the type that it
was built for. -/
structure World.IsLasting (u : Universe) (I : World → Prop) : Prop where
  store : ∀ w : World, Store.IsStable u fun store => I { w with store }
  addScope : ∀ {w : World} (parent : Option Nat), I w → I (w.addScope parent)
  build : ∀ {w : World} (t : ValueType), I w → I (w.buildTable u t)
  register : ∀ {w : World} {t : ValueType} {table : Nat} (id : Nat), w.store.HasTable u table t →
    I w → I (w.register id t table)
  bind : ∀ {w : World} (id : Nat) (name : String) (b : Binding), I w → I (w.bind id name b)

/-- What outlasts all else outlasts evaluation. -/
theorem World.IsLasting.outlasts {u : Universe} {I : World → Prop} (h : IsLasting u I) :
    Outlasts u I :=
  ⟨h.store, fun _ hw => h.addScope _ hw⟩

/-- An invariant of the store that has nothing to do with scopes. -/
theorem World.isLasting_ofStore {u : Universe} {J : Store → Prop} (hJ : Store.IsStable u J)
    (hbuild : ∀ σ t, J σ → J (σ.addTable (.ofType u t))) : IsLasting u fun w => J w.store where
  store _ := hJ
  addScope _ hw := hw
  build t hw := hJ.report _ (hbuild _ t hw)
  register id _ hw := by
    rw [(onlyBinds_register _ id id _ _).2.1]
    exact hw
  bind _ _ _ hw := hw

/-! ## Actions on the variables of a scope -/

namespace WorldAction

variable {u : Universe} {I : World → Prop} {id : Nat}

theorem keeps_lasting_tableFor (hI : World.IsLasting u I) (t : ValueType) :
    Keeps I (fun _ => True) (tableFor u id t) := by
  intro w hw
  cases hregistered : w.registered? id t with
  | some table =>
      rw [run_tableFor_of_some u hregistered]
      exact ⟨hw, fun _ _ => trivial⟩
  | none =>
      rw [run_tableFor_of_none u hregistered]
      exact ⟨hI.register id (w.hasTable_buildTable u t) (hI.build t hw), fun _ _ => trivial⟩

theorem keeps_lasting_offerTable (hI : World.IsLasting u I) (t : ValueType) :
    Keeps I (fun _ => True) (offerTable u id t) :=
  fun w hw =>
    ⟨hI.register id (w.hasTable_buildTable u t) (hI.build t hw), fun _ _ => trivial⟩

theorem keeps_lasting_bind (hI : World.IsLasting u I) (name : String) (b : Binding) :
    Keeps I (fun _ => True) (modify fun w => w.bind id name b : WorldAction Unit) :=
  .modify fun _ hw => hI.bind id name b hw

theorem keeps_lasting_declareAll (hI : World.IsLasting u I) (entries : List (String × ValueType)) :
    Keeps I (fun _ => True) (declareAll u id entries) :=
  keeps_declareAll_of (keeps_lasting_tableFor hI) (keeps_lasting_bind hI) entries

theorem keeps_lasting_assign (hI : World.IsLasting u I) (name : String) (v : Value) :
    Keeps I (fun _ => True) (assign u id name v) :=
  keeps_assign_of (keeps_lasting_tableFor hI) (keeps_lasting_bind hI) name v

theorem keeps_lasting_assignNearest (hI : World.IsLasting u I) (name : String) (v : Value) :
    Keeps I (fun _ => True) (assignNearest u id name v) := by
  unfold assignNearest
  refine .bind .get fun w => ?_
  cases w.owner? id name with
  | some owner => exact keeps_lasting_assign hI name v
  | none => exact .throw trivial

end WorldAction

/-! ## Calls -/

/-- All interpreters of a session work for the same host. -/
def Session.WorksFor (host : Universe) (s : Session) : Prop :=
  ∀ {number : Nat} {i : Interpreter}, s.interpreters[number]? = some i → i.host = host

namespace Call

variable {host : Universe} {s : Session} {c : Call}

/-- A new interpreter works for the host, and no interpreter changes hosts. -/
theorem worksFor_run (hs : s.WorksFor host) (c : Call) : (c.run host s).2.WorksFor host := by
  intro number i hi
  rcases of_getElem?_interpreters hi with ⟨old, hold, hhost, _⟩ | ⟨hhost, _⟩
  · rw [hhost]
    exact hs hold
  · exact hhost

/-- A lasting invariant of the world survives a call. A table that the call itself registers is
looked at on its own. -/
theorem keeps_lasting {I : World → Prop} (hI : World.IsLasting host I) (hs : s.IsConsistent)
    (hhost : s.WorksFor host) (hw : I s.world)
    (hregister : ∀ {scope t table}, c = register scope t table →
      I (s.world.register scope t table)) : I (c.run host s).2.world := by
  -- Interpreters change the world with the classes of their own host, which is the same one.
  have hmake {number : Nat} {i : Interpreter} (hi : s.interpreters[number]? = some i) :
      World.IsLasting i.host I := hhost hi ▸ hI
  cases c with
  | makeInterpreter config => exact hI.addScope none hw
  | registerFunction number f => exact hw
  | makeExpression number text =>
      refine SessionAction.world_ofInterpreter hw fun i hi => ?_
      rw [run_bind_pure]
      exact (Expression.keeps_ofText_of_outlasts (hmake hi).outlasts text s.world
        ⟨hw, hs.globals hi⟩).1.1
  | makeScope parent => exact hI.addScope _ hw
  | buildTable t => exact hI.build t hw
  | register scope t table => exact hregister rfl
  | offerTable scope t => exact (WorldAction.keeps_lasting_offerTable hI t s.world hw).1
  | tableFor scope t =>
      show I ((WorldAction.tableFor host scope t >>= fun _ => pure ()) s.world).2
      rw [run_bind_pure]
      exact (WorldAction.keeps_lasting_tableFor hI t s.world hw).1
  | declare scope name t =>
      have hkeeps : Keeps I (fun _ => True) (WorldAction.declare host scope name t) :=
        .bind (WorldAction.keeps_lasting_tableFor hI t) fun _ => WorldAction.keeps_lasting_bind hI _ _
      exact (hkeeps s.world hw).1
  | declareAll scope types =>
      exact (WorldAction.keeps_lasting_declareAll hI types.entries s.world hw).1
  | assign scope name v => exact (WorldAction.keeps_lasting_assign hI name v s.world hw).1
  | assignAll scope values =>
      have hkeeps : Keeps I (fun _ => True) (WorldAction.assignAll host scope values.entries) :=
        WorldAction.keeps_assignAll_of (WorldAction.keeps_lasting_assign hI) values.entries
      exact (hkeeps s.world hw).1
  | assignNearest scope name v =>
      exact (WorldAction.keeps_lasting_assignNearest hI name v s.world hw).1
  | ask number q =>
      -- Validation declares variables in a scope of its own, which is one more change of the kind.
      refine SessionAction.world_ofInterpreter hw fun i hi => ?_
      refine Query.of_outlasts (hmake hi).outlasts hw (fun types x _ _ hx => ?_) q
      exact (WorldAction.keeps_lasting_declareAll (hmake hi) types.entries _
        ((hmake hi).addScope _ hx)).1

end Call

/-! ## Tables of their own types -/

/-- Every table is the one of its type, up to what was kept in it, and a type is registered with a
table of its own. -/
structure World.HasOwnTables (u : Universe) (w : World) : Prop where
  built : ∀ id < w.store.tables.length, w.store.HasTable u id (w.store.table id).type
  registered : ∀ {k t table}, (w.scope k).tables.find? t = some table → w.store.HasTable u table t

namespace World.HasOwnTables

variable {u : Universe} {w : World}

theorem empty (u : Universe) : World.empty.HasOwnTables u where
  built _ hid := by cases hid
  registered ht := by cases ht

theorem withAlike (h : w.HasOwnTables u) {store : Store} (halike : w.store.Alike u store)
    (hcount : store.tables.length = w.store.tables.length) :
    HasOwnTables u { w with store } := by
  have hextends : w.store.Extends u store := halike.extends hcount
  constructor
  · intro id hid
    have htable := (h.built id (hcount ▸ hid)).mono hextends
    show store.HasTable u id (store.table id).type
    rwa [(halike id).type]
  · intro k t table ht
    exact (h.registered ht).mono hextends

theorem register (h : w.HasOwnTables u) {t : ValueType} {table : Nat}
    (htable : w.store.HasTable u table t) (id : Nat) : (w.register id t table).HasOwnTables u := by
  have hstore := (w.onlyBinds_register id id t table).2.1
  constructor
  · rw [hstore]
    exact h.built
  · intro k t' n ht
    rw [hstore]
    rcases of_find?_register ht with hbefore | ⟨_, rfl, rfl⟩
    · exact h.registered hbefore
    · exact htable

/-- The tables there were stay those of their types when one more is built. -/
theorem buildTable (h : w.HasOwnTables u) (t : ValueType) : (w.buildTable u t).HasOwnTables u := by
  have hextends := w.extends_buildTable u t
  have htable (id : Nat) : (w.buildTable u t).store.table id =
      if id = w.store.tables.length then .ofType u t else w.store.table id :=
    w.store.table_addTable (.ofType u t) id
  constructor
  · intro id hid
    rw [htable]
    -- The table that was added has the next number; the others are what they were.
    by_cases hnew : id = w.store.tables.length
    · rw [if_pos hnew, hnew]
      exact w.hasTable_buildTable u t
    · rw [if_neg hnew]
      have hcount : (w.buildTable u t).store.tables.length = w.store.tables.length + 1 :=
        List.length_append
      exact (h.built id (by omega)).mono hextends
  · intro k t' table ht
    exact (h.registered ht).mono hextends

end World.HasOwnTables

namespace World

variable {u : Universe} {w : World}

theorem isLasting_hasOwnTables (u : Universe) : IsLasting u (HasOwnTables u) where
  store w :=
    { heap := fun {σ} heap h => h.withAlike (σ.alike_withHeap heap) rfl
      report := fun {σ} events h => h.withAlike (σ.alike_report events) rfl
      resolve := fun {σ} id method types h =>
        h.withAlike (σ.alike_resolve id method types) List.length_set }
  addScope parent h := by
    refine ⟨h.built, fun {k t table} ht => ?_⟩
    rw [tables_addScope] at ht
    exact h.registered ht
  build t h := h.buildTable t
  register id htable h := h.register htable id
  bind id name b h := by
    refine ⟨h.built, fun {k t table} ht => ?_⟩
    rw [tables_bind] at ht
    exact h.registered ht

/-- Where types are registered with their own tables, variables have those of their types. -/
theorem IsConsistent.isMapped (h : w.IsConsistent) (htables : w.HasOwnTables u) : w.IsMapped u where
  bound hb := htables.registered (h.mapped hb)
  registered := htables.registered

end World

end Formula
