import Formula.Proofs.Evaluation.Unset
import Formula.Proofs.Session.Step
import Formula.Proofs.Validation.Coverage

set_option autoImplicit false

/-! # Declared variables and their values

An expression whose variables are declared by their types, and the same expression whose variables
are given values of exactly these types: the scopes bind the same names to variables of the same
types, and apart from tables nothing else in the two worlds differs (`World.Fills`).

Main statements: `World.Fills.assignAll` and `Interpreter.unsets_checking`. -/

namespace Formula

/-- Values for declared variables, in their order: each of exactly the declared type, none of them
absent. -/
inductive Fits : List (String × ValueType) → List (String × Value) → Prop
  | nil : Fits [] []
  | cons {name : String} {t : ValueType} {v : Value} {types : List (String × ValueType)}
      {values : List (String × Value)} (type : v.type = t) (value : v.isNone = false)
      (rest : Fits types values) : Fits ((name, t) :: types) ((name, v) :: values)

/-- Where each type has a value of some kind, so do the variables together. -/
theorem Fits.exists_of {P : Value → Prop} {types : List (String × ValueType)}
    (h : ∀ entry ∈ types, ∃ v : Value, v.type = entry.2 ∧ v.isNone = false ∧ P v) :
    ∃ values : Dictionary String Value,
      Fits types values.entries ∧ ∀ entry ∈ values.entries, P entry.2 := by
  induction types with
  | nil => exact ⟨.empty, .nil, fun _ hentry => by cases hentry⟩
  | cons entry rest ih =>
      obtain ⟨v, htype, hvalue, hv⟩ := h entry List.mem_cons_self
      obtain ⟨values, hfits, hall⟩ := ih fun e he => h e (List.mem_cons_of_mem _ he)
      exact ⟨⟨(entry.1, v) :: values.entries⟩, .cons htype hvalue hfits,
        List.forall_mem_cons.2 ⟨hv, hall⟩⟩

/-! ## Values without data of their own -/

/-- Some label is not that of an object to which anything was set. -/
theorem Heap.exists_fresh (heap : Heap) : ∃ label, heap.objects.find? label = none := by
  -- A label that is longer than all others is a new one.
  have hlonger (labels : List String) : ∃ n, ∀ label ∈ labels, label.length < n := by
    induction labels with
    | nil => exact ⟨0, fun _ h => by cases h⟩
    | cons label labels ih =>
        obtain ⟨n, hn⟩ := ih
        refine ⟨max (label.length + 1) n, List.forall_mem_cons.2 ⟨by omega, fun other h => ?_⟩⟩
        have hother := hn other h
        omega
  obtain ⟨n, hn⟩ := hlonger heap.objects.keys
  refine ⟨String.ofList (List.replicate n 'x'), Option.not_isSome_iff_eq_none.1 fun hfound => ?_⟩
  have hlength := hn _ ((heap.objects.mem_keys _).2 hfound)
  rw [String.length_ofList, List.length_replicate] at hlength
  exact Nat.lt_irrefl n hlength

/-- A type that has a value has one without data of its own. -/
theorem exists_bare (u : Universe) (heap : Heap) {t : ValueType}
    (h : ∃ v : Value, v.type = t ∧ v.isNone = false) :
    ∃ v : Value, v.type = t ∧ v.isNone = false ∧ IsBare u heap v := by
  obtain ⟨v, htype, hvalue⟩ := h
  cases v with
  | object ref =>
      obtain ⟨label, hfresh⟩ := heap.exists_fresh
      refine ⟨.object ⟨ref.className, label⟩, htype, rfl, fun name hdata => ?_⟩
      obtain ⟨x, hx, _⟩ := hdata
      have hnone : (heap.attributes ⟨ref.className, label⟩).find? name = none := by
        rw [Heap.attributes, hfresh]
        rfl
      unfold ownAttribute? at hx
      simp only at hx
      rw [hnone] at hx
      split at hx
      · split at hx <;> cases hx
      · cases hx
  | _ =>
      refine ⟨_, htype, hvalue, fun name hdata => ?_⟩
      obtain ⟨x, hx, _⟩ := hdata
      cases hx

/-! ## Two worlds -/

/-- A variable that is given a value is one of the type of the value. -/
theorem Variable.eq_of_assignIn {name : String} {v : Value} {found : Option Variable} {x : Variable}
    (h : Variable.assignIn name v found = .ok x) (hvalue : v.isNone = false) : x = ⟨v.type, v⟩ := by
  cases found with
  | none =>
      rw [assignIn, if_neg (by simp [hvalue])] at h
      cases h
      rfl
  | some y =>
      rw [assignIn, assign] at h
      split at h
      next hcase =>
        cases h
        rw [hcase.resolve_left (by simp [hvalue])]
      · cases h

namespace World

theorem OnlyBinds.symm {k : Nat} {w w' : World} (h : OnlyBinds k w w') : OnlyBinds k w' w where
  count := h.count.symm
  parent j := (h.parent j).symm
  elsewhere j hj := (h.elsewhere j hj).symm

/-- One scope binds the same names in two worlds: in the first to variables without values, in the
second to variables of the same types with values of some kind. -/
structure Fills (u : Universe) (k : Nat) (P : Value → Prop) (w w' : World) : Prop
    extends OnlyBinds k w w' where
  left : w.IsMapped u
  right : w'.IsMapped u
  heap : w'.store.heap = w.store.heap
  own : ∀ name, (w.own? k name = none ∧ w'.own? k name = none) ∨
    ∃ v, P v ∧ w.own? k name = some (.declare v.type) ∧ w'.own? k name = some ⟨v.type, v⟩

namespace Fills

variable {u : Universe} {k : Nat} {P : Value → Prop} {w w' w₁ w₁' : World}

theorem of_empty (h : w.IsMapped u) (hempty : ∀ name, w.own? k name = none) : Fills u k P w w :=
  ⟨.refl k w, h, h, rfl, fun name => .inl ⟨hempty name, hempty name⟩⟩

theorem sets (h : Fills u k P w w') {name : String} {v : Value} (hv : P v)
    (hsets : Sets u k name (.declare v.type) w w₁) (hsets' : Sets u k name ⟨v.type, v⟩ w' w₁') :
    Fills u k P w₁ w₁' where
  toOnlyBinds := (hsets.toOnlyBinds.symm.trans h.toOnlyBinds).trans hsets'.toOnlyBinds
  left := hsets.mapped
  right := hsets'.mapped
  heap := by rw [hsets'.heap, hsets.heap, h.heap]
  own other := by
    rw [hsets.found, hsets'.found]
    by_cases hother : other = name
    · rw [if_pos hother, if_pos hother]
      exact .inr ⟨v, hv, rfl, rfl⟩
    · rw [if_neg hother, if_neg hother]
      exact h.own other

/-- Declaring variables in one world and giving them values of these types in the other. -/
theorem assignAll (h : Fills u k P w w') (hk : k < w.scopes.length)
    {types : List (String × ValueType)} {values : List (String × Value)} (hfits : Fits types values)
    (hvalues : ∀ entry ∈ values, P entry.2)
    (hassign : WorldAction.assignAll u k values w' = (.ok (), w₁')) :
    ∃ w₁, WorldAction.declareAll u k types w = (.ok (), w₁) ∧ Fills u k P w₁ w₁' := by
  induction hfits generalizing w w' with
  | nil =>
      cases hassign
      exact ⟨w, rfl, h⟩
  | @cons name t v types values htype hvalue hfits ih =>
      obtain ⟨hv, hrest⟩ := List.forall_mem_cons.1 hvalues
      obtain ⟨_, w₂', hfirst, hmore⟩ := of_run_bind_eq_ok hassign
      obtain ⟨w₂, hdeclare, hsets⟩ := WorldAction.sets_declare h.left hk name t
      have hrun := WorldAction.run_assign h.right (h.count ▸ hk) name v
      cases hx : Variable.assignIn name v (w'.own? k name) with
      | error fault =>
          rw [hx, hfirst] at hrun
          cases hrun
      | ok x =>
          rw [hx, hfirst] at hrun
          obtain ⟨_, heq, hsets'⟩ := hrun
          cases heq
          rw [Variable.eq_of_assignIn hx hvalue] at hsets'
          rw [← htype] at hsets
          obtain ⟨w₁, hdeclareAll, hfills⟩ := ih (h.sets hv hsets hsets') (hsets.count ▸ hk) hrest
            hmore
          refine ⟨w₁, ?_, hfills⟩
          rw [WorldAction.declareAll, run_bind_of_ok hdeclare]
          exact hdeclareAll

/-- A name that the scope does not bind means the same in both worlds. -/
theorem lookup_of_none (h : Fills u k P w w') {name : String} (hnone : w.own? k name = none) :
    w'.lookup k name = w.lookup k name := by
  have hnone' : w'.own? k name = none := by
    rcases h.own name with ⟨_, hnone'⟩ | ⟨v, _, hsome, _⟩
    · exact hnone'
    · rw [hnone] at hsome
      cases hsome
  rw [lookup_eq, lookup_eq, Option.map_eq_none_iff.1 hnone, Option.map_eq_none_iff.1 hnone',
    h.parent]
  cases (w.scope k).parent with
  | none => rfl
  | some parent =>
      show (if parent < k then w'.lookup parent name else none) =
        if parent < k then w.lookup parent name else none
      by_cases hparent : parent < k
      · rw [if_pos hparent, if_pos hparent, h.lookup_before hparent]
      · rw [if_neg hparent, if_neg hparent]

/-- A name that the scope binds means in the first world a variable without a value, and in the
second one with a value. -/
theorem lookup_of_some (h : Fills u k P w w') {name : String} {x : Variable}
    (hx : w.own? k name = some x) : ∃ b b' v, P v ∧ w.lookup k name = some b ∧
      w'.lookup k name = some b' ∧ b.toVariable = .declare v.type ∧ b'.toVariable = ⟨v.type, v⟩ := by
  rcases h.own name with ⟨hnone, _⟩ | ⟨v, hv, hown, hown'⟩
  · rw [hnone] at hx
    cases hx
  · obtain ⟨b, hb, hvariable⟩ := Option.map_eq_some_iff.1 hown
    obtain ⟨b', hb', hvariable'⟩ := Option.map_eq_some_iff.1 hown'
    refine ⟨b, b', v, hv, ?_, ?_, hvariable, hvariable'⟩
    · rw [lookup_eq, hb]
      rfl
    · rw [lookup_eq, hb']
      rfl

theorem value_of_lookup (h : Fills u k P w w') {name : String}
    (hname : (w.own? k name).isSome = true) {b : Binding} (hb : w'.lookup k name = some b) :
    P b.value := by
  obtain ⟨x, hx⟩ := Option.isSome_iff_exists.1 hname
  obtain ⟨_, b', v, hv, _, hb', _, hvariable⟩ := h.lookup_of_some hx
  rw [hb] at hb'
  cases hb'
  rw [hvariable]
  exact hv

/-- What evaluation sees in the two worlds: in the first the variables of the scope are unset. -/
theorem unsets (h : Fills u k P w w') {s s' : Setting} (hs : s.host = u) (hs' : s'.host = s.host)
    (hfunctions : s'.functions = s.functions) (hlookup : s.lookup = w.lookup k)
    (hlookup' : s'.lookup = w'.lookup k) {names : List String}
    (hnames : ∀ name, name ∈ names ↔ (w.own? k name).isSome = true) :
    s.Unsets s' w.store w'.store names where
  host := hs'
  functions := hfunctions
  unset name hname := by
    obtain ⟨x, hx⟩ := Option.isSome_iff_exists.1 ((hnames name).1 hname)
    obtain ⟨b, b', v, _, hb, hb', hvariable, hvariable'⟩ := h.lookup_of_some hx
    have htype : b'.type = b.type := by rw [hvariable, hvariable']; rfl
    have htable' := (h.right.lookup hb').alike
    rw [htype] at htable'
    rw [hlookup, hlookup', hs]
    exact ⟨b, b', hb, hb', by rw [hvariable]; rfl, (h.left.lookup hb).alike.symm.trans htable'⟩
  other name hname := by
    have hnone : w.own? k name = none :=
      Option.not_isSome_iff_eq_none.1 fun hsome => hname ((hnames name).2 hsome)
    have hsame := h.lookup_of_none hnone
    rw [hlookup, hlookup', hs]
    refine Binding.same_of_hasTable (by rw [hsame]) (fun _ => h.left.lookup) fun b hb => ?_
    exact h.right.lookup hb

end Fills

end World

/-! ## The variables of a text -/

namespace Interpreter

/-- Reads a text and gives its variables their values. -/
def assigning (i : Interpreter) (text : String) (values : Dictionary String Value) :
    WorldAction Expression := do
  let e ← Expression.ofText i text
  e.assignAll i values
  return e

variable {i : Interpreter} {text : String} {types : Dictionary String ValueType}
  {values : Dictionary String Value} {e : Expression} {w w' : World} {tree : Node}

theorem run_ofText (w : World) (htext : readText i.config.strict text = .ok tree) :
    Expression.ofText i text w = (.ok ⟨tree, w.scopes.length, false, i.config.debug⟩,
      (i.reading text w).addScope (some i.globals)) := by
  have hread := Validation.run_read i text w
  rw [htext] at hread
  unfold Expression.ofText
  rw [run_bind_of_ok hread]
  rfl

/-- The names that the scope of a text binds are the declared ones. -/
theorem isSome_own_declaring (i : Interpreter) (types : Dictionary String ValueType) (w : World)
    (name : String) :
    name ∈ types.keys ↔ ((i.declaring types w).own? w.scopes.length name).isSome = true := by
  rw [World.own?, Option.isSome_map]
  by_cases hname : name ∈ types.keys
  · exact ⟨fun _ => (i.declares_declaring types w).bound name hname, fun _ => hname⟩
  · rw [i.find?_declaring w hname]
    exact ⟨fun h => absurd h hname, fun h => by cases h⟩

theorem heap_declaring (i : Interpreter) (types : Dictionary String ValueType) (w : World) :
    (i.declaring types w).store.heap = w.store.heap :=
  (i.declares_declaring types w).heap

/-- The variables of a text, once declared to be checked and once given values of their types. -/
theorem fills_declaring {P : Value → Prop} (htext : readText i.config.strict text = .ok tree)
    (hmapped : w.IsMapped i.host) (hfits : Fits types.entries values.entries)
    (hvalues : ∀ entry ∈ values.entries, P entry.2)
    (hrun : i.assigning text values w = (.ok e, w')) :
    e.tree = tree ∧ e.scope = w.scopes.length ∧ e.checking = false ∧
      World.Fills i.host w.scopes.length P (i.declaring types (i.reading text w)) w' := by
  unfold assigning at hrun
  rw [run_bind_of_ok (run_ofText w htext)] at hrun
  obtain ⟨_, w₂, hassign, hend⟩ := of_run_bind_eq_ok hrun
  obtain ⟨rfl, rfl⟩ := of_run_pure_eq_ok hend
  have hreading : (i.reading text w).IsMapped i.host :=
    hmapped.withStore (w.store.extends_report i.host _)
  have hempty (name : String) :
      ((i.reading text w).addScope (some i.globals)).own? w.scopes.length name = none := by
    have hscope := (i.reading text w).scope_addScope (some i.globals)
    rw [World.own?, show w.scopes.length = (i.reading text w).scopes.length from rfl, hscope]
    rfl
  have hfresh : World.Fills i.host w.scopes.length P
      ((i.reading text w).addScope (some i.globals)) _ := .of_empty (hreading.addScope _) hempty
  obtain ⟨w₃, hdeclare, hfills⟩ := hfresh.assignAll
    ((i.reading text w).lt_length_addScope (some i.globals)) hfits hvalues hassign
  refine ⟨rfl, rfl, rfl, ?_⟩
  have hdeclaring : i.declaring types (i.reading text w) = w₃ := congrArg Prod.snd hdeclare
  rw [hdeclaring]
  exact hfills

/-- When a text is checked its variables are unset; otherwise it is as with values for them. -/
theorem unsets_checking {P : Value → Prop}
    (hfills : World.Fills i.host w.scopes.length P (i.declaring types (i.reading text w)) w')
    (hscope : e.scope = w.scopes.length) (checking : Bool) :
    (i.checking types (i.reading text w)).Unsets (e.setting i checking w')
      (i.declaring types (i.reading text w)).store w'.store types.keys := by
  have hlookup : (e.setting i checking w').lookup = w'.lookup w.scopes.length := by
    rw [← hscope]
    rfl
  have hnames := i.isSome_own_declaring types (i.reading text w)
  refine World.Fills.unsets (s := i.checking types (i.reading text w)) hfills ?_ ?_ ?_ ?_ hlookup
    hnames
  · rfl
  · rfl
  · rfl
  · rfl

end Interpreter

end Formula
