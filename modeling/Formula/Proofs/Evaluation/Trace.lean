import Formula.Proofs.Evaluation.Expression
import Formula.Proofs.Evaluation.Reach
import Formula.Proofs.Validation.Checks

set_option autoImplicit false

/-! # What a traced evaluation reports

Whether an evaluation is traced makes no difference to what it gives and leaves, except for its log.
The values that it reports are told by the evaluation that is not traced: those of the nodes that have
one, each after its parts (`Setting.completed`). `Traces` says this of two actions, and is closed under
doing one after the other.

Main statements: `Setting.traces_evaluate`, `Setting.mem_completed_iff` and, for expressions,
`Expression.evaluate_withDebugging`. -/

namespace Formula

/-! ## Events -/

namespace Event

/-- Events of the evaluator. -/
def isOfEvaluator (e : Event) : Bool := e.source == "plainexpr.expressions.evaluator"

/-- The node and the value that are reported when the node is done. -/
def evaluated? : Event → Option (Node × Value)
  | evaluated node value => some (node, value)
  | _ => none

end Event

namespace Store

/-- The stores differ in nothing but their logs. -/
def Beside (σ τ : Store) : Prop := σ.heap = τ.heap ∧ σ.tables = τ.tables

theorem table_of_beside {σ τ : Store} (h : σ.Beside τ) (id : Nat) : σ.table id = τ.table id := by
  rw [table, table, h.2]

/-- What was reported since an earlier store has not been reported by the evaluator. -/
def SilentSince (origin σ : Store) : Prop :=
  ∃ events, σ.log = origin.log ++ events ∧ ∀ event ∈ events, event.isOfEvaluator = false

theorem SilentSince.trans {σ τ υ : Store} (h : σ.SilentSince τ) (h' : τ.SilentSince υ) :
    σ.SilentSince υ := by
  obtain ⟨events, hlog, hevents⟩ := h
  obtain ⟨more, hmore, hmoreEvents⟩ := h'
  refine ⟨events ++ more, ?_, fun event hmem => ?_⟩
  · rw [hmore, hlog, List.append_assoc]
  · exact (List.mem_append.1 hmem).elim (hevents event) (hmoreEvents event)

end Store

/-! ## Two runs -/

namespace Action

variable {α β : Type} {step : Action α} {next : α → Store → List β} {σ τ : Store}

/-- What comes after a step, provided that it has a value. -/
def afterwards (step : Action α) (next : α → Store → List β) (σ : Store) : List β :=
  match step σ with
  | (.ok x, τ) => next x τ
  | (.error _, _) => []

theorem afterwards_of_ok {x : α} (h : step σ = (.ok x, τ)) : step.afterwards next σ = next x τ := by
  rw [afterwards, h]

theorem afterwards_of_error {fault : Fault} (h : step σ = (.error fault, τ)) :
    step.afterwards next σ = [] := by
  rw [afterwards, h]

@[simp] theorem afterwards_nil : step.afterwards (fun _ _ => ([] : List β)) σ = [] := by
  unfold afterwards
  split <;> rfl

theorem mem_afterwards {x : β} :
    x ∈ step.afterwards next σ ↔ ∃ y τ, step σ = (.ok y, τ) ∧ x ∈ next y τ := by
  rcases hrun : step σ with ⟨fault | y, τ⟩
  · rw [afterwards_of_error hrun]
    constructor
    · exact fun h => absurd h List.not_mem_nil
    · rintro ⟨_, _, ⟨⟩, _⟩
  · rw [afterwards_of_ok hrun]
    constructor
    · exact fun h => ⟨y, τ, rfl, h⟩
    · rintro ⟨_, _, ⟨⟩, h⟩
      exact h

end Action

/-- Two actions, one of them traced, do the same on stores that differ in their logs only. The traced
one reports what the other one does and besides events of the evaluator, with the given values
among them. -/
def Traces {α : Type} (traced untraced : Action α) (values : Store → List (Node × Value)) : Prop :=
  ∀ σ τ, σ.Beside τ →
    (traced σ).1 = (untraced τ).1 ∧ (traced σ).2.Beside (untraced τ).2 ∧
      ∃ events, (traced σ).2.log = σ.log ++ events ∧
        (untraced τ).2.log = τ.log ++ events.filter (!·.isOfEvaluator) ∧
        events.filterMap Event.evaluated? = values τ

namespace Traces

variable {α β : Type} {a b : Action α} {f g : α → Action β}

/-- What the evaluator does not report is reported by both. -/
theorem of_silent (h : ∀ σ τ, σ.Beside τ →
    (a σ).1 = (b τ).1 ∧ (a σ).2.Beside (b τ).2 ∧
      ∃ events, (a σ).2.log = σ.log ++ events ∧ (b τ).2.log = τ.log ++ events ∧
        ∀ event ∈ events, event.isOfEvaluator = false) :
    Traces a b fun _ => [] := by
  intro σ τ hστ
  obtain ⟨hresult, hstore, events, hlog, hlog', hevents⟩ := h σ τ hστ
  have hfilter : events.filter (!·.isOfEvaluator) = events :=
    List.filter_eq_self.2 fun event hmem => by simp [hevents event hmem]
  refine ⟨hresult, hstore, events, hlog, by rw [hfilter, hlog'], ?_⟩
  refine List.filterMap_eq_nil_iff.2 fun event hmem => ?_
  have hother := hevents event hmem
  cases event with
  | evaluated node value => cases hother
  | _ => rfl

theorem pure (x : α) : Traces (pure x) (pure x) fun _ => [] :=
  of_silent fun _ _ h => ⟨rfl, h, [], (List.append_nil _).symm, (List.append_nil _).symm, by simp⟩

theorem throw (fault : Fault) : Traces (α := α) (throw fault) (throw fault) fun _ => [] :=
  of_silent fun _ _ h => ⟨rfl, h, [], (List.append_nil _).symm, (List.append_nil _).symm, by simp⟩

theorem ofExcept (x : Except Fault α) :
    Traces (Action.ofExcept x) (Action.ofExcept x) fun _ => [] := by
  cases x with
  | error fault => exact .throw fault
  | ok a => exact .pure a

theorem ofHost (a : HostAction α) : Traces (Action.ofHost a) (Action.ofHost a) fun _ => [] := by
  refine of_silent fun σ τ hστ => ?_
  have hresult : (a σ.heap).1 = (a τ.heap).1 := by rw [hστ.1]
  have hheap : (a σ.heap).2 = (a τ.heap).2 := by rw [hστ.1]
  exact ⟨hresult, ⟨hheap, hστ.2⟩, [], (List.append_nil _).symm, (List.append_nil _).symm, by simp⟩

theorem congr {values values' : Store → List (Node × Value)} (h : Traces a b values)
    (heq : ∀ σ, values σ = values' σ) : Traces a b values' :=
  funext heq ▸ h

theorem get_bind {f g : Store → Action α} {values : Store → List (Node × Value)}
    (h : ∀ σ τ, σ.Beside τ → Traces (f σ) (g τ) values) :
    Traces (MonadState.get >>= f) (MonadState.get >>= g) values :=
  fun σ τ hστ => h σ τ hστ σ τ hστ

/-- The values of the second step come after those of the first. -/
theorem bind {first : Store → List (Node × Value)} {next : α → Store → List (Node × Value)}
    (ha : Traces a b first) (hf : ∀ x, Traces (f x) (g x) (next x)) :
    Traces (a >>= f) (b >>= g) fun τ => first τ ++ Action.afterwards b next τ := by
  intro σ τ hστ
  obtain ⟨hsame, hστ', events, hlog, hlog', hvalues⟩ := ha σ τ hστ
  rcases hrun : a σ with ⟨fault | x, σ'⟩ <;> rcases hrun' : b τ with ⟨fault' | y, τ'⟩ <;>
    rw [hrun, hrun'] at hsame hστ' <;> rw [hrun] at hlog <;> rw [hrun'] at hlog' <;> cases hsame
  · rw [run_bind_of_error hrun, run_bind_of_error hrun']
    refine ⟨rfl, hστ', events, hlog, hlog', ?_⟩
    simp only
    rw [Action.afterwards_of_error hrun', hvalues, List.append_nil]
  · obtain ⟨hsame, hστ'', more, hmore, hmore', hnext⟩ := hf x σ' τ' hστ'
    rw [run_bind_of_ok hrun, run_bind_of_ok hrun']
    refine ⟨hsame, hστ'', events ++ more, ?_, ?_, ?_⟩
    · rw [hmore, hlog, List.append_assoc]
    · rw [hmore', hlog', List.filter_append, List.append_assoc]
    · simp only
      rw [Action.afterwards_of_ok hrun', List.filterMap_append, hvalues, hnext]

/-- Where neither step reports a value, nor do both. -/
theorem bind_silent (ha : Traces a b fun _ => []) (hf : ∀ x, Traces (f x) (g x) fun _ => []) :
    Traces (a >>= f) (b >>= g) fun _ => [] := by
  simpa only [List.nil_append, Action.afterwards_nil] using ha.bind hf

end Traces

/-! ## Steps -/

/-- Choosing an overload reports nothing of the evaluator. -/
theorem MemberTable.isOfEvaluator_of_resolve {u : Universe} {m : MemberTable} {method : String}
    {types : List ValueType} {event : Event} (h : event ∈ (m.resolve u method types).events) :
    event.isOfEvaluator = false := by
  unfold resolve at h
  split at h
  · simp at h
  · simp only at h
    split at h
    · obtain ⟨skipped, -, rfl⟩ := List.mem_map.1 h
      rfl
    · rcases List.mem_append.1 h with h | h
      · obtain ⟨skipped, -, rfl⟩ := List.mem_map.1 h
        rfl
      · unfold remember at h
        split at h
        · simp at h
        · cases List.mem_singleton.1 h
          rfl

theorem Traces.resolve (u : Universe) (id : Nat) (method : String) (types : List ValueType) :
    Traces (Action.resolve u id method types) (Action.resolve u id method types) fun _ => [] := by
  refine of_silent fun σ τ hστ => ?_
  have htable := Store.table_of_beside hστ id
  refine ⟨?_, ⟨hστ.1, ?_⟩, ((τ.table id).resolve u method types).events, ?_, rfl, ?_⟩
  · exact congrArg (fun m => Except.ok (m.resolve u method types).pick) htable
  · show σ.tables.set id ((σ.table id).resolve u method types).table =
      τ.tables.set id ((τ.table id).resolve u method types).table
    rw [htable, hστ.2]
  · show σ.log ++ ((σ.table id).resolve u method types).events = _
    rw [htable]
  · exact fun event hmem => MemberTable.isOfEvaluator_of_resolve hmem

namespace Setting

/-- The setting in which the evaluation is traced, or is not. -/
def withTrace (s : Setting) (traced : Bool) : Setting := { s with traced }

@[simp] theorem functions_withTrace (s : Setting) (traced : Bool) :
    (s.withTrace traced).functions = s.functions := rfl

@[simp] theorem lookup_withTrace (s : Setting) (traced : Bool) :
    (s.withTrace traced).lookup = s.lookup := rfl

/-- The record of a node that is done, if it has a value. -/
def record (s : Setting) (node : Node) : Store → List (Node × Value) :=
  Action.afterwards (s.evaluate node) fun v σ => [(node, σ.heap.freeze v)]

mutual

/-- The nodes of a tree that are done, with their values as they are then: each after its parts, the
parts from left to right as far as they are evaluated. -/
def completed (s : Setting) : Node → Store → List (Node × Value)
  | .literal value, σ => s.record (.literal value) σ
  | .list items, σ => s.record (.list items) σ
  | .name n, σ => s.record (.name n) σ
  | .member parent n, σ => s.record (.member parent n) σ
  | .call parent n arguments, σ =>
    s.completedAll arguments σ ++ s.record (.call parent n arguments) σ
  | .binary op left right, σ =>
    s.completed left σ ++
      Action.afterwards (s.evaluate left)
        (fun _ => if right.items?.isSome then fun _ => [] else s.completed right) σ ++
      s.record (.binary op left right) σ
  | .conditional condition truthy falsy, σ =>
    s.completed condition σ ++
      Action.afterwards (s.evaluate condition)
        (fun v => Action.afterwards (Action.ofExcept (holds v)) fun b =>
          if b then s.completed truthy else s.completed falsy) σ ++
      s.record (.conditional condition truthy falsy) σ

/-- The nodes of some trees that are done, one tree after the other. -/
def completedAll (s : Setting) : List Node → Store → List (Node × Value)
  | [], _ => []
  | node :: nodes, σ =>
    s.completed node σ ++ Action.afterwards (s.evaluate node) (fun _ => s.completedAll nodes) σ

end

/-! ## Steps of both settings -/

variable {s : Setting}

/-- What the evaluator reports besides values is not reported when the evaluation is not traced. -/
theorem traces_trace (event : Heap → Event) (hevent : ∀ heap, (event heap).isOfEvaluator = true)
    (hvalue : ∀ heap, (event heap).evaluated? = none) :
    Traces ((s.withTrace true).trace event) ((s.withTrace false).trace event) fun _ => [] := by
  intro σ τ hστ
  rw [run_trace, run_trace]
  refine ⟨rfl, hστ, [event σ.heap], rfl, ?_, ?_⟩
  · have hnone : [event σ.heap].filter (!·.isOfEvaluator) = [] := by simp [hevent]
    rw [hnone, List.append_nil]
    rfl
  · simp [hvalue]

theorem traces_readName (n : String) :
    Traces ((s.withTrace true).readName n) ((s.withTrace false).readName n) fun _ => [] := by
  show Traces (s.readName n) (s.readName n) _
  unfold readName
  split
  · exact .pure _
  · exact .throw _

theorem traces_readMember (parent n : String) :
    Traces ((s.withTrace true).readMember parent n) ((s.withTrace false).readMember parent n)
      fun _ => [] := by
  show Traces (s.readMember parent n) (s.readMember parent n) _
  unfold readMember
  split
  · exact .throw _
  next b _ =>
    refine .get_bind fun σ τ hστ => ?_
    rw [Store.table_of_beside hστ]
    simp only
    split
    · split
      · exact .pure _
      · exact .throw _
    · refine .bind_silent (.ofHost _) fun found => ?_
      cases found with
      | some v => exact .pure _
      | none => exact .throw _

theorem traces_callFunction (name : String) (arguments : List Value) :
    Traces ((s.withTrace true).callFunction name arguments)
      ((s.withTrace false).callFunction name arguments) fun _ => [] := by
  unfold callFunction
  simp only [functions_withTrace]
  cases s.functions.find? name with
  | none => exact .throw _
  | some f =>
      exact .bind_silent (traces_trace _ (fun _ => rfl) fun _ => rfl) fun _ => .ofHost _

theorem traces_callMethod (parent name : String) (arguments : List Value) :
    Traces ((s.withTrace true).callMethod parent name arguments)
      ((s.withTrace false).callMethod parent name arguments) fun _ => [] := by
  unfold callMethod
  simp only [lookup_withTrace]
  cases s.lookup parent with
  | none => exact .throw _
  | some b =>
      refine .get_bind fun σ τ hστ => ?_
      rw [Store.table_of_beside hστ]
      split
      · refine .bind_silent (.resolve _ _ _ _) fun pick => ?_
        cases pick with
        | none => exact .throw _
        | some signature =>
            simp only
            split
            · exact .pure _
            · refine .bind_silent (traces_trace _ (fun _ => rfl) fun _ => rfl) fun _ => ?_
              refine .get_bind fun σ τ hστ => ?_
              rw [Store.table_of_beside hστ]
              exact .ofHost _
      · exact .throw _

theorem traces_call (parent : Option String) (name : String) (arguments : List Value) :
    Traces ((s.withTrace true).call parent name arguments)
      ((s.withTrace false).call parent name arguments) fun _ => [] := by
  cases parent with
  | none => exact traces_callFunction name arguments
  | some parent => exact traces_callMethod parent name arguments

theorem traces_complete {a b : Action Value} {values : Store → List (Node × Value)}
    (h : Traces a b values) (node : Node) :
    Traces ((s.withTrace true).complete node a) ((s.withTrace false).complete node b) fun σ =>
      values σ ++ Action.afterwards ((s.withTrace false).complete node b)
        (fun v τ => [(node, τ.heap.freeze v)]) σ := by
  intro σ τ hστ
  obtain ⟨hsame, hστ', events, hlog, hlog', hvalues⟩ := h σ τ hστ
  rcases hrun : a σ with ⟨fault | v, σ'⟩ <;> rcases hrun' : b τ with ⟨fault' | v', τ'⟩ <;>
    rw [hrun, hrun'] at hsame hστ' <;> rw [hrun] at hlog <;> rw [hrun'] at hlog' <;> cases hsame
  · have hdone : (s.withTrace true).complete node a σ = _ := complete_of_error hrun
    have hdone' : (s.withTrace false).complete node b τ = _ := complete_of_error hrun'
    rw [hdone, hdone']
    refine ⟨rfl, hστ', events, hlog, hlog', ?_⟩
    simp only
    rw [Action.afterwards_of_error hdone', hvalues, List.append_nil]
  · have hdone : (s.withTrace true).complete node a σ = _ := run_complete_of_ok hrun
    have hdone' : (s.withTrace false).complete node b τ = _ := run_complete_of_ok hrun'
    have hvalue : σ'.heap.freeze v = τ'.heap.freeze v := by rw [hστ'.1]
    rw [hdone, hdone']
    refine ⟨rfl, hστ', events ++ [.evaluated node (σ'.heap.freeze v)], ?_, ?_, ?_⟩
    · show σ'.log ++ _ = _
      rw [hlog, List.append_assoc]
    · show τ'.log = _
      have hown : [Event.evaluated node (σ'.heap.freeze v)].filter (!·.isOfEvaluator) = [] := rfl
      rw [hlog', List.filter_append, hown, List.append_nil]
    · simp only
      rw [Action.afterwards_of_ok hdone', List.filterMap_append, hvalues, hvalue]
      rfl

theorem traces_evaluateAll {nodes : List Node}
    (h : ∀ n ∈ nodes, Traces ((s.withTrace true).evaluate n) ((s.withTrace false).evaluate n)
      ((s.withTrace false).completed n)) :
    Traces ((s.withTrace true).evaluateAll nodes) ((s.withTrace false).evaluateAll nodes)
      ((s.withTrace false).completedAll nodes) := by
  induction nodes with
  | nil =>
      rw [evaluateAll, evaluateAll]
      exact .pure _
  | cons node nodes ih =>
      have hnode := h node List.mem_cons_self
      have hnodes := ih fun n hn => h n (List.mem_cons_of_mem _ hn)
      rw [evaluateAll, evaluateAll]
      refine (hnode.bind fun v => hnodes.bind fun vs => .pure (v :: vs)).congr fun σ => ?_
      simp only [Action.afterwards_nil, List.append_nil]
      rw [completedAll]

/-- A node adds its own record to those of its parts. -/
theorem traces_node {n : Node} {a b : Action Value} {values : Store → List (Node × Value)}
    (h : Traces a b values) (hon : (s.withTrace true).evaluate n = (s.withTrace true).complete n a)
    (hoff : (s.withTrace false).evaluate n = (s.withTrace false).complete n b) :
    Traces ((s.withTrace true).evaluate n) ((s.withTrace false).evaluate n) fun σ =>
      values σ ++ (s.withTrace false).record n σ := by
  have hcomplete := traces_complete (s := s) h n
  rw [← hon, ← hoff] at hcomplete
  exact hcomplete

theorem evaluate_binary_of_some {op : Operator} {left right : Node} {items : Items}
    (h : right.items? = some items) :
    s.evaluate (.binary op left right) = s.complete (.binary op left right) (do
      let a ← s.evaluate left
      Action.ofExcept (op.applyToItems a items)) := by
  rw [evaluate]
  simp only [h]

theorem evaluate_binary_of_none {op : Operator} {left right : Node} (h : right.items? = none) :
    s.evaluate (.binary op left right) = s.complete (.binary op left right) (do
      let a ← s.evaluate left
      let b ← s.evaluate right
      Action.ofExcept (op.apply a b)) := by
  rw [evaluate]
  simp only [h]

/-- The values that a traced evaluation reports are those of the nodes that the evaluation completes
when it is not traced. Neither the result nor the store depends on it, except for the log, in which
the events of the evaluator are missing then. -/
theorem traces_evaluate (s : Setting) (n : Node) :
    Traces ((s.withTrace true).evaluate n) ((s.withTrace false).evaluate n)
      ((s.withTrace false).completed n) := by
  induction n using Node.parts with
  | literal value =>
      refine (traces_node (.pure _) (by rw [evaluate]) (by rw [evaluate])).congr fun σ => ?_
      rw [completed, List.nil_append]
  | list items =>
      refine (traces_node (.pure _) (by rw [evaluate]) (by rw [evaluate])).congr fun σ => ?_
      rw [completed, List.nil_append]
  | name n =>
      refine (traces_node (traces_readName n) (by rw [evaluate]) (by rw [evaluate])).congr ?_
      intro σ
      rw [completed, List.nil_append]
  | member parent n =>
      refine (traces_node (traces_readMember parent n) (by rw [evaluate]) (by rw [evaluate])).congr ?_
      intro σ
      rw [completed, List.nil_append]
  | call parent n arguments ih =>
      have hcall := (traces_evaluateAll ih).bind fun values => traces_call (s := s) parent n values
      refine (traces_node hcall (by rw [evaluate]) (by rw [evaluate])).congr fun σ => ?_
      rw [completed, Action.afterwards_nil, List.append_nil]
  | binary op left right ihl ihr =>
      cases hitems : right.items? with
      | some items =>
          have hboth := ihl.bind fun a => .ofExcept (op.applyToItems a items)
          refine (traces_node hboth (evaluate_binary_of_some hitems)
            (evaluate_binary_of_some hitems)).congr fun σ => ?_
          simp [completed, hitems]
      | none =>
          have hboth := ihl.bind fun a => ihr.bind fun b => .ofExcept (op.apply a b)
          refine (traces_node hboth (evaluate_binary_of_none hitems)
            (evaluate_binary_of_none hitems)).congr fun σ => ?_
          simp [completed, hitems]
  | conditional condition truthy falsy ihc iht ihf =>
      have hbranch (b : Bool) :
          Traces (if b then (s.withTrace true).evaluate truthy else (s.withTrace true).evaluate falsy)
            (if b then (s.withTrace false).evaluate truthy else (s.withTrace false).evaluate falsy)
            (if b then (s.withTrace false).completed truthy
              else (s.withTrace false).completed falsy) := by
        cases b with
        | true => exact iht
        | false => exact ihf
      have hrest (v : Value) := (Traces.ofExcept (holds v)).bind hbranch
      refine (traces_node (ihc.bind hrest) (by rw [evaluate]) (by rw [evaluate])).congr fun σ => ?_
      rw [completed]
      rfl

/-! ## What is completed -/

theorem mem_record {n m : Node} {σ : Store} {x : Value} :
    (m, x) ∈ s.record n σ ↔
      m = n ∧ ∃ v τ, s.evaluate n σ = (.ok v, τ) ∧ x = τ.heap.freeze v := by
  simp only [record, Action.mem_afterwards, List.mem_singleton, Prod.mk.injEq]
  constructor
  · rintro ⟨v, τ, hrun, rfl, rfl⟩
    exact ⟨rfl, v, τ, hrun, rfl⟩
  · rintro ⟨rfl, v, τ, hrun, rfl⟩
    exact ⟨v, τ, hrun, rfl, rfl⟩

theorem mem_completedAll {nodes : List Node} {σ : Store} {r : Node × Value} :
    r ∈ s.completedAll nodes σ ↔
      ∃ before argument after values τ, nodes = before ++ argument :: after ∧
        s.evaluateAll before σ = (.ok values, τ) ∧ r ∈ s.completed argument τ := by
  induction nodes generalizing σ with
  | nil => simp [completedAll]
  | cons node nodes ih =>
      rw [completedAll, List.mem_append, Action.mem_afterwards]
      constructor
      · rintro (h | ⟨v, τ, hv, h⟩)
        · refine ⟨[], node, nodes, [], σ, rfl, ?_, h⟩
          rw [evaluateAll]
          rfl
        · obtain ⟨before, argument, after, values, υ, rfl, hbefore, hr⟩ := ih.1 h
          refine ⟨node :: before, argument, after, v :: values, υ, rfl, ?_, hr⟩
          rw [evaluateAll, run_bind_of_ok hv, run_bind_of_ok hbefore]
          rfl
      · rintro ⟨_ | ⟨first, before⟩, argument, after, values, τ, hnodes, hbefore, hr⟩
        · cases hnodes
          rw [evaluateAll] at hbefore
          cases hbefore
          exact .inl hr
        · cases hnodes
          rw [evaluateAll] at hbefore
          obtain ⟨v, υ, hv, hrest⟩ := of_run_bind_eq_ok hbefore
          obtain ⟨vs, ω, hvs, hdone⟩ := of_run_bind_eq_ok hrest
          cases hdone
          exact .inr ⟨v, υ, hv, ih.2 ⟨before, argument, after, vs, τ, rfl, hvs, hr⟩⟩

/-- A node that is done is the tree itself or is done in a part that is started. -/
theorem mem_completed {n : Node} {σ : Store} {r : Node × Value} :
    r ∈ s.completed n σ ↔
      (∃ τ k, s.Starts σ n τ k ∧ r ∈ s.completed k τ) ∨ r ∈ s.record n σ := by
  cases n with
  | literal value | list items | name n | member parent n =>
      rw [completed]
      constructor
      · exact .inr
      · rintro (⟨τ, k, ⟨⟩, -⟩ | h)
        exact h
  | call parent n arguments =>
      rw [completed, List.mem_append, mem_completedAll]
      refine or_congr_left ⟨?_, ?_⟩
      · rintro ⟨before, argument, after, values, τ, rfl, hbefore, h⟩
        exact ⟨τ, argument, .argument hbefore, h⟩
      · rintro ⟨τ, k, hstarts, h⟩
        cases hstarts with
        | argument hbefore => exact ⟨_, _, _, _, _, rfl, hbefore, h⟩
  | binary op left right =>
      rw [completed, List.mem_append, List.mem_append, Action.mem_afterwards]
      refine or_congr_left ⟨?_, ?_⟩
      · rintro (h | ⟨a, τ, ha, h⟩)
        · exact ⟨σ, left, .left, h⟩
        · cases hitems : right.items? with
          | some items => simp [hitems] at h
          | none =>
              rw [hitems] at h
              exact ⟨τ, right, .right ha hitems, h⟩
      · rintro ⟨τ, k, hstarts, h⟩
        cases hstarts with
        | left => exact .inl h
        | right ha hitems => exact .inr ⟨_, _, ha, by rw [hitems]; exact h⟩
  | conditional condition truthy falsy =>
      rw [completed, List.mem_append, List.mem_append, Action.mem_afterwards]
      refine or_congr_left ⟨?_, ?_⟩
      · rintro (h | ⟨v, τ, hv, h⟩)
        · exact ⟨σ, condition, .condition, h⟩
        · obtain ⟨b, υ, hb, h⟩ := Action.mem_afterwards.1 h
          rw [run_ofExcept] at hb
          obtain ⟨hholds, rfl⟩ := Prod.mk.inj hb
          refine ⟨τ, if b then truthy else falsy, .branch hv hholds, ?_⟩
          cases b with
          | true => exact h
          | false => exact h
      · rintro ⟨τ, k, hstarts, h⟩
        cases hstarts with
        | condition => exact .inl h
        | @branch _ _ _ _ v b hv hb =>
            refine .inr ⟨v, τ, hv, Action.mem_afterwards.2 ⟨b, τ, ?_, ?_⟩⟩
            · rw [run_ofExcept, hb]
            · cases b with
              | true => exact h
              | false => exact h

/-- What holds of a tree if it holds of all parts that its evaluation may start holds of every
tree. -/
theorem starts_induction {motive : Node → Prop}
    (h : ∀ n, (∀ σ τ k, s.Starts σ n τ k → motive k) → motive n) (n : Node) : motive n := by
  induction n using Node.parts with
  | literal value | list items | name n | member parent n => exact h _ fun _ _ _ hk => by cases hk
  | call parent n arguments ih =>
      refine h _ fun σ τ k hk => ?_
      cases hk with
      | argument _ => exact ih _ (by simp)
  | binary op left right ihl ihr =>
      refine h _ fun σ τ k hk => ?_
      cases hk with
      | left => exact ihl
      | right _ _ => exact ihr
  | conditional condition truthy falsy ihc iht ihf =>
      refine h _ fun σ τ k hk => ?_
      cases hk with
      | condition => exact ihc
      | @branch _ _ _ _ _ b _ _ =>
          cases b with
          | true => exact iht
          | false => exact ihf

/-- The values that are reported are those of the parts to which the evaluation comes and which have
a value there. -/
theorem mem_completed_iff {n m : Node} {σ : Store} {x : Value} :
    (m, x) ∈ s.completed n σ ↔
      ∃ τ υ v, s.Reaches σ n τ m ∧ s.evaluate m τ = (.ok v, υ) ∧ x = υ.heap.freeze v := by
  constructor
  · intro h
    induction n using starts_induction (s := s) generalizing σ with
    | h n ih =>
        rcases mem_completed.1 h with ⟨τ, k, hstarts, hk⟩ | hown
        · obtain ⟨υ, ω, v, hreaches, hv⟩ := ih σ τ k hstarts hk
          exact ⟨υ, ω, v, .part hstarts hreaches, hv⟩
        · obtain ⟨rfl, v, τ, hv⟩ := mem_record.1 hown
          exact ⟨σ, τ, v, .here, hv⟩
  · rintro ⟨τ, υ, v, hreaches, hv⟩
    induction hreaches with
    | here => exact mem_completed.2 (.inr (mem_record.2 ⟨rfl, v, υ, hv⟩))
    | part hstarts _ ih => exact mem_completed.2 (.inl ⟨_, _, hstarts, ih hv⟩)

/-- A node that has a value is the last one to be done. -/
theorem completed_of_ok {n : Node} {σ τ : Store} {v : Value} (h : s.evaluate n σ = (.ok v, τ)) :
    ∃ before, s.completed n σ = before ++ [(n, τ.heap.freeze v)] := by
  have hrecord : s.record n σ = [(n, τ.heap.freeze v)] := by
    rw [record, Action.afterwards_of_ok h]
  cases n <;> rw [completed, hrecord]
  case literal => exact ⟨[], rfl⟩
  case list => exact ⟨[], rfl⟩
  case name => exact ⟨[], rfl⟩
  case member => exact ⟨[], rfl⟩
  case call => exact ⟨_, rfl⟩
  case binary => exact ⟨_, rfl⟩
  case conditional => exact ⟨_, rfl⟩

/-! ## Silence -/

theorem withTrace_of_quiet (h : s.traced = false) : s.withTrace false = s := by
  rw [withTrace, ← h]

/-- An evaluation that is not traced reports nothing of the evaluator. -/
theorem silentSince_evaluate (h : s.traced = false) (n : Node) (σ : Store) :
    σ.SilentSince (s.evaluate n σ).2 := by
  have htraces := traces_evaluate s n
  rw [withTrace_of_quiet h] at htraces
  obtain ⟨-, -, events, -, hlog, -⟩ := htraces σ σ ⟨rfl, rfl⟩
  refine ⟨_, hlog, fun event hmem => ?_⟩
  simpa using (List.mem_filter.1 hmem).2

end Setting

namespace Expression

variable {i : Interpreter} {e : Expression} {w : World}

theorem keeps_faultsOf_silent {s : Setting} (h : s.traced = false) (origin : Store)
    (nodes : List Node) : Keeps origin.SilentSince (fun _ => True) (faultsOf s nodes) := by
  induction nodes with
  | nil => exact .pure _
  | cons node nodes ih =>
      have hnode : Keeps origin.SilentSince (fun _ => True) (s.evaluate node) :=
        fun σ hσ => ⟨hσ.trans (s.silentSince_evaluate h node σ), fun _ _ => trivial⟩
      exact .bind hnode.caught fun _ => .bind ih fun _ => .pure _

/-! ## Expressions -/

/-- The expression with debugging on or off. -/
def withDebugging (e : Expression) (enable : Bool) : Expression := { e with debug := enable }

theorem traced_setting_true (i : Interpreter) (e : Expression) (w : World) :
    (e.setting i true w).traced = false :=
  Bool.and_false _

theorem run_evaluate_quiet (h : e.debug = false ∨ e.checking = true) :
    e.evaluate i w = (((e.setting i true w).evaluate e.tree w.store).1,
      { w with store := ((e.setting i true w).evaluate e.tree w.store).2 }) := by
  have hsetting : e.setting i e.checking w = e.setting i true w := by
    rcases h with h | h <;> simp [setting, h]
  have hentered : entered i e w = w.store := by
    rw [entered, hsetting, traced_setting_true]
    rfl
  rw [run_evaluate, hentered, hsetting]

theorem setting_withDebugging (i : Interpreter) (e : Expression) (enable : Bool) (w : World) :
    (e.withDebugging enable).setting i true w = e.setting i true w := by
  simp [setting, withDebugging]

theorem run_evaluate_withDebugging_false (i : Interpreter) (e : Expression) (w : World) :
    (e.withDebugging false).evaluate i w = (((e.setting i true w).evaluate e.tree w.store).1,
      { w with store := ((e.setting i true w).evaluate e.tree w.store).2 }) := by
  have hrun := run_evaluate_quiet (i := i) (e := e.withDebugging false) (w := w) (.inl rfl)
  rw [setting_withDebugging] at hrun
  exact hrun

/-- With debugging the evaluation is traced, after it was reported that it begins. -/
theorem run_evaluate_withDebugging_true (h : e.checking = false) :
    (e.withDebugging true).evaluate i w =
      ((((e.setting i true w).withTrace true).evaluate e.tree
          (w.store.report [.evaluating e.tree.text])).1,
        { w with store := (((e.setting i true w).withTrace true).evaluate e.tree
          (w.store.report [.evaluating e.tree.text])).2 }) := by
  have hsetting : (e.withDebugging true).setting i (e.withDebugging true).checking w =
      (e.setting i true w).withTrace true := by
    simp [setting, Setting.withTrace, withDebugging, h]
  have hentered : entered i (e.withDebugging true) w =
      w.store.report [.evaluating e.tree.text] := by
    rw [entered, hsetting]
    rfl
  rw [run_evaluate, hentered, hsetting]
  rfl

/-- Debugging changes nothing but the log of an evaluation. It adds that the evaluation begins, and
events of the evaluator, among which are the values of just those nodes to which the evaluation comes
and which have one, in the order in which they are done; the tree itself is the last one, if it has a
value. Without debugging, and while an expression is only checked, the evaluator reports nothing at
all. -/
theorem evaluate_withDebugging (i : Interpreter) (e : Expression) (w : World) :
    (e.checking = false →
      let quiet := (e.withDebugging false).evaluate i w
      let traced := (e.withDebugging true).evaluate i w
      let s := e.setting i true w
      let completed := s.completed e.tree w.store
      traced.1 = quiet.1 ∧
      traced.2 = { quiet.2 with store := { quiet.2.store with log := traced.2.store.log } } ∧
      (∃ events, traced.2.store.log = w.store.log ++ .evaluating e.tree.text :: events ∧
        quiet.2.store.log = w.store.log ++ events.filter (!·.isOfEvaluator) ∧
        events.filterMap Event.evaluated? = completed) ∧
      (∀ m x, (m, x) ∈ completed ↔ ∃ σ τ v, s.Reaches w.store e.tree σ m ∧
        s.evaluate m σ = (.ok v, τ) ∧ x = τ.heap.freeze v) ∧
      ∀ v, quiet.1 = .ok v →
        ∃ before, completed = before ++ [(e.tree, quiet.2.store.heap.freeze v)]) ∧
    (e.debug = false ∨ e.checking = true → w.store.SilentSince (e.evaluate i w).2.store) ∧
    w.store.SilentSince (e.checkReferences i w).2.store := by
  have hquiet := e.traced_setting_true i w
  refine ⟨fun hchecking => ?_, fun hsilent => ?_, ?_⟩
  · have htraces := (e.setting i true w).traces_evaluate e.tree
    rw [Setting.withTrace_of_quiet hquiet] at htraces
    obtain ⟨hresult, ⟨hheap, htables⟩, events, hlog, hlog', hvalues⟩ :=
      htraces (w.store.report [.evaluating e.tree.text]) w.store ⟨rfl, rfl⟩
    rw [run_evaluate_withDebugging_false, run_evaluate_withDebugging_true hchecking]
    refine ⟨hresult, ?_, ⟨events, ?_, hlog', hvalues⟩, ?_, fun v hv => ?_⟩
    · simp only
      rw [← hheap, ← htables]
    · rw [hlog]
      exact List.append_assoc _ _ _
    · exact fun m x => Setting.mem_completed_iff
    · exact Setting.completed_of_ok (Prod.ext hv rfl)
  · rw [run_evaluate_quiet hsilent]
    exact Setting.silentSince_evaluate hquiet _ _
  · exact (keeps_faultsOf_silent hquiet w.store _ w.store ⟨[], (List.append_nil _).symm, by simp⟩).1

/-- The condition `"a" in ["a"]`. -/
def listed : Node := .binary .member (.literal (.string "a")) (.list (.strings ["a"]))

/-- The expression `1 if "a" in ["a"] else x`, where `x` is bound to nothing. -/
def guarded : Expression := ⟨.conditional listed (.literal (.int 1)) (.name "x"), 0, false, false⟩

/-- The list has no record of its own, and neither has the branch that is not taken. -/
theorem evaluate_withDebugging_guarded :
    guarded.checking = false ∧ guarded.debug = false ∧
      ∃ events,
        ((guarded.withDebugging true).evaluate .echoing .empty).2.store.log =
          .evaluating guarded.tree.text :: events ∧
        events.filterMap Event.evaluated? =
          [(.literal (.string "a"), .str "a"), (listed, .bool true), (.literal (.int 1), .int 1),
            (guarded.tree, .int 1)] ∧
        World.empty.store.SilentSince (guarded.evaluate .echoing .empty).2.store := by
  obtain ⟨htraced, hquiet, -⟩ := evaluate_withDebugging .echoing guarded .empty
  obtain ⟨-, -, ⟨events, hlog, -, hvalues⟩, -, -⟩ := htraced rfl
  have hcompleted : (guarded.setting .echoing true .empty).completed guarded.tree .empty =
      [(.literal (.string "a"), .str "a"), (listed, .bool true), (.literal (.int 1), .int 1),
        (guarded.tree, .int 1)] := by rfl
  exact ⟨rfl, rfl, events, hlog, hvalues.trans hcompleted, hquiet (.inl rfl)⟩

end Expression

end Formula
