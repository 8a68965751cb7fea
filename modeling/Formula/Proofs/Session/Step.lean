import Formula.Proofs.Evaluation.Access
import Formula.Proofs.Evaluation.Expression
import Formula.Proofs.Evaluation.Purity
import Formula.Proofs.Scope.Mapped

set_option autoImplicit false

/-! # Steps of an expression

What is done with an expression once it is made: its variables are given values or declared, it is
evaluated, its references are checked. What comes out of a step depends on the variables of the
expression and on the globals, and on nothing else in the world: not on the numbers of the member
tables, nor on the signatures kept in them. A step changes no variables but those of its expression.

Main statements: `Expression.Step.run_same` and `Expression.Step.onlyBinds_run`. -/

namespace Formula

namespace Expression

/-- What can be done with an expression. -/
inductive Step where
  | assign (name : String) (v : Value)
  | assignAll (values : Dictionary String Value)
  | declareAll (types : Dictionary String ValueType)
  | evaluate
  | evaluateAs (t : ValueType)
  /-- The references are checked, after variables were declared. -/
  | check (types : Dictionary String ValueType)

/-- What a step gives that does not fail. -/
inductive Outcome where
  | done
  | value (v : Value)
  | faults (found : List Fault)

namespace Step

/-- Takes a step. -/
def run (i : Interpreter) (e : Expression) : Step → WorldAction Outcome
  | assign name v => do
    e.assign i name v
    return .done
  | assignAll values => do
    e.assignAll i values
    return .done
  | declareAll types => do
    e.declareAll i types
    return .done
  | evaluate => return .value (← e.evaluate i)
  | evaluateAs t => return .value (← e.evaluateAs i t)
  | check types => do
    e.declareAll i types
    return .faults (← e.checkReferences i)

/-- The host code that the step may run is pure. -/
def IsPure (i : Interpreter) (J : Heap → Prop) (e : Expression) (w : World) : Step → Prop
  | evaluate | evaluateAs _ =>
    (e.setting i false w).HostCode w.store e.tree (HostAction.IsPure J)
  | check types =>
    (e.setting i false (e.declareAll i types w).2).HostCode (e.declareAll i types w).2.store e.tree
      (HostAction.IsPure J)
  | assign _ _ | assignAll _ | declareAll _ => True

end Step

end Expression

/-- Equal variables have equal types, so their tables are alike. -/
theorem Binding.same_of_hasTable {u : Universe} {σ τ : Store} {found found' : Option Binding}
    (heq : found'.map (·.toVariable) = found.map (·.toVariable))
    (hfound : ∀ b, found = some b → σ.HasTable u b.members b.type)
    (hfound' : ∀ b, found' = some b → τ.HasTable u b.members b.type) :
    Same u σ τ found found' := by
  cases found with
  | none =>
      obtain rfl : found' = none := by simpa using heq
      exact .none
  | some b =>
      obtain ⟨b', rfl, hb'⟩ := Option.map_eq_some_iff.1 heq
      have htable' := (hfound' b' rfl).alike
      rw [hb'] at htable'
      exact .some hb' ((hfound b rfl).alike.symm.trans htable')

/-! ## Worlds in which an expression cannot notice a difference -/

/-- A scope is that of an expression of the interpreter: it stands in the scope of the globals, which
is an earlier one. Member tables are where they belong, and the heap has a property. -/
structure World.Seats (i : Interpreter) (J : Heap → Prop) (k : Nat) (w : World) : Prop where
  scope : k < w.scopes.length
  parent : (w.scope k).parent = some i.globals
  above : i.globals < k
  mapped : w.IsMapped i.host
  heap : J w.store.heap

/-- In two worlds a scope has the same variables, and so have the globals. -/
structure World.SameFor (i : Interpreter) (J : Heap → Prop) (k : Nat) (w w' : World) : Prop where
  left : w.Seats i J k
  right : w'.Seats i J k
  own : ∀ name, w'.own? k name = w.own? k name
  globals : ∀ name, (w'.lookup i.globals name).map (·.toVariable) =
    (w.lookup i.globals name).map (·.toVariable)

namespace World

variable {i : Interpreter} {J : Heap → Prop} {k : Nat} {w w' w₁ w₁' : World}

theorem SameFor.refl (h : w.Seats i J k) : SameFor i J k w w := ⟨h, h, fun _ => rfl, fun _ => rfl⟩

/-- What names mean does not depend on the store. -/
theorem lookup_withStore (w : World) (store : Store) (id : Nat) :
    ({ w with store } : World).lookup id = w.lookup id := by
  have hsame : AgreesUpTo id w { w with store } := fun _ _ => ⟨rfl, rfl⟩
  exact funext fun name => lookup_congr hsame name

theorem Seats.onlyBinds (h : w.Seats i J k) {id : Nat} (honly : OnlyBinds id w w₁)
    (hmapped : w₁.IsMapped i.host) (hheap : J w₁.store.heap) : w₁.Seats i J k :=
  ⟨honly.count ▸ h.scope, (honly.parent k).trans h.parent, h.above, hmapped, hheap⟩

theorem Seats.sets (h : w.Seats i J k) {name : String} {x : Variable}
    (hsets : Sets i.host k name x w w₁) : w₁.Seats i J k :=
  h.onlyBinds hsets.toOnlyBinds hsets.mapped (hsets.heap ▸ h.heap)

/-- Equal changes of the variables lead to worlds that are still the same for the scope. -/
theorem SameFor.sets (h : SameFor i J k w w') {name : String} {x : Variable}
    (hsets : Sets i.host k name x w w₁) (hsets' : Sets i.host k name x w' w₁') :
    SameFor i J k w₁ w₁' where
  left := h.left.sets hsets
  right := h.right.sets hsets'
  own name' := by rw [hsets.found, hsets'.found, h.own]
  globals name' := by
    rw [hsets.lookup_before h.left.above, hsets'.lookup_before h.left.above, h.globals]

/-- A change of the variables of another scope goes unnoticed. -/
theorem SameFor.elsewhere (h : SameFor i J k w w') {id : Nat} (hid : k ≠ id)
    (hglobals : i.globals < id) (honly : OnlyBinds id w w₁) (hmapped : w₁.IsMapped i.host)
    (hheap : J w₁.store.heap) : SameFor i J k w₁ w' where
  left := h.left.onlyBinds honly hmapped hheap
  right := h.right
  own name := by rw [h.own, own?, own?, honly.elsewhere k hid]
  globals name := by rw [h.globals, honly.lookup_before hglobals]

/-- A name is bound to the same in both worlds. -/
theorem SameFor.binding (h : SameFor i J k w w') (name : String) :
    Binding.Same i.host w.store w'.store (w.lookup k name) (w'.lookup k name) := by
  refine Binding.same_of_hasTable ?_ (fun _ => h.left.mapped.lookup) fun _ => h.right.mapped.lookup
  rw [lookup_eq, lookup_eq, h.left.parent, h.right.parent]
  show ((_ : Option Binding).or (if i.globals < k then _ else none)).map _ =
    ((_ : Option Binding).or (if i.globals < k then _ else none)).map _
  rw [if_pos h.left.above, if_pos h.left.above]
  have hown := h.own name
  unfold own? at hown
  cases hfound : (w.scope k).bindings.find? name with
  | none =>
      rw [hfound] at hown
      obtain hnone : (w'.scope k).bindings.find? name = none := by simpa using hown
      rw [hnone]
      exact h.globals name
  | some b =>
      rw [hfound] at hown
      obtain ⟨b', hb', hvariable⟩ := Option.map_eq_some_iff.1 hown
      rw [hb']
      exact congrArg some hvariable

/-- An evaluation with pure host code gives the same in both worlds, and they stay the same for the
scope. -/
theorem SameFor.ofAction {α : Type} {a a' : Action α} (h : SameFor i J k w w')
    (hsimulates : Simulates (Store.IsPaired i.host J w.store w'.store) a a')
    (hcount : ∀ count, Keeps (fun σ => σ.tables.length = count) (fun _ => True) a)
    (hcount' : ∀ count, Keeps (fun σ => σ.tables.length = count) (fun _ => True) a') :
    (WorldAction.ofAction a w).1 = (WorldAction.ofAction a' w').1 ∧
      SameFor i J k (WorldAction.ofAction a w).2 (WorldAction.ofAction a' w').2 := by
  obtain ⟨hresult, hleft, hright⟩ := hsimulates w.store w'.store
    ⟨⟨h.left.heap, .refl _⟩, h.right.heap, .refl _⟩
  have hextends := hleft.tables.extends (hcount _ w.store rfl).1
  have hextends' := hright.tables.extends (hcount' _ w'.store rfl).1
  refine ⟨hresult, ?_, ?_, h.own, ?_⟩
  · exact ⟨h.left.scope, h.left.parent, h.left.above, h.left.mapped.withStore hextends, hleft.heap⟩
  · exact ⟨h.right.scope, h.right.parent, h.right.above, h.right.mapped.withStore hextends',
      hright.heap⟩
  · intro name
    show (World.lookup { w' with store := _ } i.globals name).map _ =
      (World.lookup { w with store := _ } i.globals name).map _
    rw [lookup_withStore w', lookup_withStore w]
    exact h.globals name

end World

/-! ## Variables -/

namespace WorldAction

open World

variable {i : Interpreter} {J : Heap → Prop} {k : Nat}

theorem simulates_assign (name : String) (v : Value) :
    Simulates (SameFor i J k) (assign i.host k name v) (assign i.host k name v) := by
  intro w w' h
  have hrun := run_assign h.left.mapped h.left.scope name v
  have hrun' := run_assign h.right.mapped h.right.scope name v
  rw [h.own] at hrun'
  cases hx : Variable.assignIn name v (w.own? k name) with
  | error fault =>
      rw [hx] at hrun hrun'
      rw [hrun, hrun']
      exact ⟨rfl, h⟩
  | ok x =>
      rw [hx] at hrun hrun'
      obtain ⟨w₁, hassign, hsets⟩ := hrun
      obtain ⟨w₁', hassign', hsets'⟩ := hrun'
      rw [hassign, hassign']
      exact ⟨rfl, h.sets hsets hsets'⟩

theorem simulates_assignAll (entries : List (String × Value)) :
    Simulates (SameFor i J k) (assignAll i.host k entries) (assignAll i.host k entries) := by
  induction entries with
  | nil => exact .pure _
  | cons entry rest ih => exact .bind (simulates_assign _ _) fun _ => ih

theorem simulates_declareAll (entries : List (String × ValueType)) :
    Simulates (SameFor i J k) (declareAll i.host k entries) (declareAll i.host k entries) := by
  induction entries with
  | nil => exact .pure _
  | cons entry rest ih =>
      refine .bind ?_ fun _ => ih
      intro w w' h
      obtain ⟨w₁, hrun, hsets⟩ := sets_declare h.left.mapped h.left.scope entry.1 entry.2
      obtain ⟨w₁', hrun', hsets'⟩ := sets_declare h.right.mapped h.right.scope entry.1 entry.2
      rw [hrun, hrun']
      exact ⟨rfl, h.sets hsets hsets'⟩

end WorldAction

/-! ## Evaluation -/

namespace Expression

open World

variable {i : Interpreter} {J : Heap → Prop} {e : Expression} {w w' : World}

/-- An expression sees the same variables in both worlds. -/
theorem matches_of_same (h : SameFor i J e.scope w w') (checking : Bool) (tree : Node) :
    (e.setting i checking w).Matches (e.setting i checking w') w.store w'.store tree where
  host := rfl
  functions := rfl
  lookup _ _ name _ := h.binding name

theorem simulates_faultsOf {s s' : Setting} {R : Store → Store → Prop} {nodes : List Node}
    (h : ∀ n ∈ nodes, Simulates R (s.evaluate n) (s'.evaluate n)) :
    Simulates R (faultsOf s nodes) (faultsOf s' nodes) := by
  induction nodes with
  | nil => exact .pure _
  | cons node nodes ih =>
      have hrest := ih fun n hn => h n (List.mem_cons_of_mem _ hn)
      exact .bind (h node List.mem_cons_self).caught fun _ => .bind hrest fun _ => .pure _

theorem keeps_faultsOf {s : Setting} {I : Store → Prop} {nodes : List Node}
    (h : ∀ n ∈ nodes, Keeps I (fun _ => True) (s.evaluate n)) :
    Keeps I (fun _ => True) (faultsOf s nodes) := by
  induction nodes with
  | nil => exact .pure _
  | cons node nodes ih =>
      have hrest := ih fun n hn => h n (List.mem_cons_of_mem _ hn)
      exact .bind (h node List.mem_cons_self).caught fun _ => .bind hrest fun _ => .pure _

theorem evaluate_same (h : SameFor i J e.scope w w')
    (hpure : (e.setting i false w).HostCode w.store e.tree (HostAction.IsPure J)) :
    (e.evaluate i w).1 = (e.evaluate i w').1 ∧
      SameFor i J e.scope (e.evaluate i w).2 (e.evaluate i w').2 := by
  have hkeeps (w : World) (count : Nat) :
      Keeps (fun σ => σ.tables.length = count) (fun _ => True) (do
        (e.setting i e.checking w).trace fun _ => .evaluating e.tree.text
        (e.setting i e.checking w).evaluate e.tree) := by
    have hstable := Store.isStable_count i.host count
    exact .bind (Setting.keeps_trace_of_isStable hstable _) fun _ =>
      Setting.keeps_evaluate_of_isStable hstable e.tree
  have hcode : (e.setting i e.checking w).HostCode w.store e.tree (HostAction.IsPure J) :=
    ⟨hpure.function, hpure.member, hpure.method⟩
  have htrace : Simulates (Store.IsPaired i.host J w.store w'.store)
      ((e.setting i e.checking w).trace fun _ => .evaluating e.tree.text)
      ((e.setting i e.checking w').trace fun _ => .evaluating e.tree.text) :=
    Setting.simulates_trace (s := e.setting i e.checking w) _ _
  have htree := Setting.simulates_of_isPure (matches_of_same h e.checking e.tree) hcode
  exact h.ofAction (htrace.bind fun _ => htree) (hkeeps w) (hkeeps w')

theorem evaluateAs_same (h : SameFor i J e.scope w w') (t : ValueType)
    (hpure : (e.setting i false w).HostCode w.store e.tree (HostAction.IsPure J)) :
    (e.evaluateAs i t w).1 = (e.evaluateAs i t w').1 ∧
      SameFor i J e.scope (e.evaluateAs i t w).2 (e.evaluateAs i t w').2 := by
  refine Simulates.run_bind (evaluate_same h hpure) fun v w₁ w₁' _ hworlds => ?_
  by_cases htype : i.host.isSubtype v.type t = true
  · rw [if_pos htype]
    exact ⟨rfl, hworlds⟩
  · rw [if_neg htype]
    exact ⟨rfl, hworlds⟩

theorem checkReferences_same (h : SameFor i J e.scope w w')
    (hpure : (e.setting i false w).HostCode w.store e.tree (HostAction.IsPure J)) :
    (e.checkReferences i w).1 = (e.checkReferences i w').1 ∧
      SameFor i J e.scope (e.checkReferences i w).2 (e.checkReferences i w').2 := by
  have hpart {n : Node} (hn : n ∈ e.tree.find references true true) :
      ∀ k ∈ n.walk, k ∈ e.tree.walk := fun k hk => Node.walk_subset (Node.mem_find.1 hn).1 hk
  have hcode : (e.setting i true w).HostCode w.store e.tree (HostAction.IsPure J) :=
    ⟨hpure.function, hpure.member, hpure.method⟩
  refine h.ofAction (simulates_faultsOf fun n hn => ?_) ?_ ?_
  · exact Setting.simulates_of_isPure (matches_of_same h true n) (hcode.part (hpart hn))
  · exact fun count => keeps_faultsOf fun n _ =>
      Setting.keeps_evaluate_of_isStable (Store.isStable_count i.host count) n
  · exact fun count => keeps_faultsOf fun n _ =>
      Setting.keeps_evaluate_of_isStable (Store.isStable_count i.host count) n

/-! ## Steps -/

namespace Step

/-- In worlds that are the same for an expression a step has the same outcome, and they stay the
same for it. -/
theorem run_same (h : SameFor i J e.scope w w') {step : Step} (hpure : step.IsPure i J e w) :
    (step.run i e w).1 = (step.run i e w').1 ∧
      SameFor i J e.scope (step.run i e w).2 (step.run i e w').2 := by
  cases step with
  | assign name v =>
      exact (WorldAction.simulates_assign name v).bind (fun _ => .pure Outcome.done) w w' h
  | assignAll values =>
      exact (WorldAction.simulates_assignAll values.entries).bind (fun _ => .pure Outcome.done) w w' h
  | declareAll types =>
      exact (WorldAction.simulates_declareAll types.entries).bind (fun _ => .pure Outcome.done) w w' h
  | evaluate => exact Simulates.run_bind (evaluate_same h hpure) fun _ _ _ _ h => ⟨rfl, h⟩
  | evaluateAs t => exact Simulates.run_bind (evaluateAs_same h t hpure) fun _ _ _ _ h => ⟨rfl, h⟩
  | check types =>
      refine Simulates.run_bind (WorldAction.simulates_declareAll types.entries w w' h) ?_
      intro _ w₁ w₁' hdeclare hworlds
      have hcode : (e.setting i false w₁).HostCode w₁.store e.tree (HostAction.IsPure J) := by
        have hsecond : (e.declareAll i types w).2 = w₁ := congrArg Prod.snd hdeclare
        rw [← hsecond]
        exact hpure
      exact Simulates.run_bind (checkReferences_same hworlds hcode) fun _ _ _ _ h => ⟨rfl, h⟩

/-- A step changes bindings in the scope of its expression only. -/
theorem onlyBinds_run (i : Interpreter) (e : Expression) (step : Step) (w : World) :
    OnlyBinds e.scope w (step.run i e w).2 := by
  have hevaluate : Keeps (OnlyBinds e.scope w) (fun _ => True) (e.evaluate i) :=
    .bind .get fun _ => WorldAction.keeps_ofAction _
  have hkeeps : Keeps (OnlyBinds e.scope w) (fun _ => True) (step.run i e) := by
    cases step with
    | assign name v => exact .bind (WorldAction.keeps_assign name v) fun _ => .pure _
    | assignAll values => exact .bind (WorldAction.keeps_assignAll values.entries) fun _ => .pure _
    | declareAll types => exact .bind (WorldAction.keeps_declareAll types.entries) fun _ => .pure _
    | evaluate => exact .bind hevaluate fun _ => .pure _
    | evaluateAs t =>
        refine .bind (.bind hevaluate fun v => ?_) fun _ => .pure _
        split
        · exact .pure _
        · exact .throw trivial
    | check types =>
        refine .bind (WorldAction.keeps_declareAll types.entries) fun _ => ?_
        exact .bind (.bind .get fun _ => WorldAction.keeps_ofAction _) fun _ => .pure _
  exact (hkeeps w (.refl _ _)).1

end Step

end Expression

end Formula
