import Formula.Proofs.Effect
import Formula.Proofs.Tree.Walk
import Formula.Evaluation

set_option autoImplicit false

/-! # Where an evaluation fails

A failed evaluation fails in one node of the tree: the parts of this node that come before were
evaluated, and then its own step failed. `Setting.FailsIn` says which node it is and which nodes
stand above it. The fault names that node.

Main statements: `Setting.exists_failsIn` (a failed evaluation fails somewhere) and
`Setting.evaluate_of_failsIn` (and is over then). -/

namespace Formula

theorem Fault.isEvaluation_within (fault : Fault) (part : String) :
    (fault.within part).isEvaluation = true := by
  unfold within
  split
  · assumption
  · rfl

/-- The innermost part is named. -/
theorem Fault.within_within (fault : Fault) (part whole : String) :
    (fault.within part).within whole = fault.within part := by
  rw [within, if_pos (fault.isEvaluation_within part)]

namespace Setting

variable {s : Setting}

/-! ## Nodes that are done -/

theorem run_complete_of_ok {node : Node} {action : Action Value} {σ σ' : Store} {v : Value}
    (h : action σ = (.ok v, σ')) :
    s.complete node action σ =
      (.ok v, if s.traced then σ'.report [.evaluated node (σ'.heap.freeze v)] else σ') := by
  have hcaught := run_tryCatch_of_ok (f := fun fault => throw (fault.within node.text)) h
  unfold complete
  rw [run_bind_of_ok hcaught, run_bind_of_ok (run_trace _ _ _)]
  rfl

theorem complete_of_ok {node : Node} {action : Action Value} {σ σ' : Store} {v : Value}
    (h : action σ = (.ok v, σ')) : ∃ σ'', s.complete node action σ = (.ok v, σ'') :=
  ⟨_, run_complete_of_ok h⟩

theorem complete_eq_ok {node : Node} {action : Action Value} {σ σ' : Store} {v : Value}
    (h : action σ = (.ok v, σ')) : (s.complete node action σ).1 = .ok v := by
  obtain ⟨σ'', hdone⟩ := @complete_of_ok s node action σ σ' v h
  rw [hdone]

theorem complete_of_error {node : Node} {action : Action Value} {σ σ' : Store} {fault : Fault}
    (h : action σ = (.error fault, σ')) :
    s.complete node action σ = (.error (fault.within node.text), σ') := by
  have hcaught := run_tryCatch_of_error (f := fun fault => throw (fault.within node.text)) h
  unfold complete
  rw [run_bind_of_error (hcaught.trans rfl)]

/-- The outcome of a node is the outcome of what it is made of, except that a fault names the node
unless it names a part already. -/
theorem complete_eq (node : Node) (action : Action Value) (σ : Store) :
    (s.complete node action σ).1 = (action σ).1.mapError (·.within node.text) := by
  rcases hrun : action σ with ⟨fault | v, σ'⟩
  · rw [complete_of_error hrun]
    rfl
  · rw [complete_eq_ok hrun]
    rfl

/-- A node that has a value was done without a fault. -/
theorem of_complete_eq_ok {node : Node} {action : Action Value} {σ : Store} {v : Value}
    (h : (s.complete node action σ).1 = .ok v) : ∃ σ', action σ = (.ok v, σ') := by
  rcases hrun : action σ with ⟨fault | x, σ'⟩
  · rw [complete_of_error hrun] at h
    cases h
  · obtain ⟨σ'', hdone⟩ := @complete_of_ok s node action σ σ' x hrun
    rw [hdone] at h
    cases h
    exact ⟨σ', rfl⟩

/-- The evaluation of a node fails if and only if what it is made of fails. -/
theorem complete_eq_error {node : Node} {action : Action Value} {σ : Store} {fault : Fault} :
    (s.complete node action σ).1 = .error fault ↔
      ∃ cause, (action σ).1 = .error cause ∧ fault = cause.within node.text := by
  rcases hrun : action σ with ⟨cause | v, σ'⟩
  · rw [complete_of_error hrun]
    simp [eq_comm]
  · obtain ⟨σ'', hdone⟩ := @complete_of_ok s node action σ σ' v hrun
    rw [hdone]
    simp

/-- Every fault of an evaluation names an expression part. -/
theorem isEvaluation_of_evaluate {node : Node} {σ : Store} {fault : Fault}
    (h : (s.evaluate node σ).1 = .error fault) : fault.isEvaluation = true := by
  have hnode {node : Node} {action : Action Value} (h : (s.complete node action σ).1 = .error fault) :
      fault.isEvaluation = true := by
    obtain ⟨cause, -, rfl⟩ := complete_eq_error.1 h
    exact cause.isEvaluation_within node.text
  cases node <;> (rw [evaluate] at h; exact hnode h)

/-! ## Places -/

/-- The evaluation of a tree fails in a node below the given ones, the outermost first. -/
inductive FailsIn (s : Setting) : Store → Node → List Node → Node → Fault → Prop
  | name {σ : Store} {n : String} {cause : Fault} :
      (s.readName n σ).1 = .error cause → FailsIn s σ (.name n) [] (.name n) cause
  | member {σ : Store} {parent n : String} {cause : Fault} :
      (s.readMember parent n σ).1 = .error cause →
      FailsIn s σ (.member parent n) [] (.member parent n) cause
  | argument {σ σ' : Store} {parent : Option String} {n : String} {before after above : List Node}
      {argument m : Node} {values : List Value} {cause : Fault} :
      s.evaluateAll before σ = (.ok values, σ') → FailsIn s σ' argument above m cause →
      FailsIn s σ (.call parent n (before ++ argument :: after))
        (.call parent n (before ++ argument :: after) :: above) m cause
  | call {σ σ' : Store} {parent : Option String} {n : String} {arguments : List Node}
      {values : List Value} {cause : Fault} :
      s.evaluateAll arguments σ = (.ok values, σ') → (s.call parent n values σ').1 = .error cause →
      FailsIn s σ (.call parent n arguments) [] (.call parent n arguments) cause
  | left {σ : Store} {op : Operator} {left right m : Node} {above : List Node} {cause : Fault} :
      FailsIn s σ left above m cause →
      FailsIn s σ (.binary op left right) (.binary op left right :: above) m cause
  | right {σ σ' : Store} {op : Operator} {left right m : Node} {above : List Node} {a : Value}
      {cause : Fault} :
      s.evaluate left σ = (.ok a, σ') → right.items? = none → FailsIn s σ' right above m cause →
      FailsIn s σ (.binary op left right) (.binary op left right :: above) m cause
  | apply {σ σ' σ'' : Store} {op : Operator} {left right : Node} {a b : Value} {cause : Fault} :
      s.evaluate left σ = (.ok a, σ') → right.items? = none →
      s.evaluate right σ' = (.ok b, σ'') → op.apply a b = .error cause →
      FailsIn s σ (.binary op left right) [] (.binary op left right) cause
  | applyToItems {σ σ' : Store} {op : Operator} {left right : Node} {a : Value} {items : Items}
      {cause : Fault} :
      s.evaluate left σ = (.ok a, σ') → right.items? = some items →
      op.applyToItems a items = .error cause →
      FailsIn s σ (.binary op left right) [] (.binary op left right) cause
  | condition {σ : Store} {condition truthy falsy m : Node} {above : List Node} {cause : Fault} :
      FailsIn s σ condition above m cause →
      FailsIn s σ (.conditional condition truthy falsy)
        (.conditional condition truthy falsy :: above) m cause
  | holds {σ σ' : Store} {condition truthy falsy : Node} {v : Value} {cause : Fault} :
      s.evaluate condition σ = (.ok v, σ') → Setting.holds v = .error cause →
      FailsIn s σ (.conditional condition truthy falsy) [] (.conditional condition truthy falsy)
        cause
  | branch {σ σ' : Store} {condition truthy falsy m : Node} {above : List Node} {v : Value}
      {b : Bool} {cause : Fault} :
      s.evaluate condition σ = (.ok v, σ') → Setting.holds v = .ok b →
      FailsIn s σ' (if b then truthy else falsy) above m cause →
      FailsIn s σ (.conditional condition truthy falsy)
        (.conditional condition truthy falsy :: above) m cause

/-- The arguments before the first that fails have values. -/
theorem exists_argument_of_evaluateAll {nodes : List Node} {σ : Store} {fault : Fault}
    (h : (s.evaluateAll nodes σ).1 = .error fault) :
    ∃ before argument after values σ', nodes = before ++ argument :: after ∧
      s.evaluateAll before σ = (.ok values, σ') ∧ (s.evaluate argument σ').1 = .error fault := by
  induction nodes generalizing σ with
  | nil =>
      rw [evaluateAll] at h
      cases h
  | cons node nodes ih =>
      rw [evaluateAll] at h
      rcases of_run_bind_eq_error h with hnode | ⟨v, σ₁, hv, h⟩
      · refine ⟨[], node, nodes, [], σ, rfl, ?_, hnode⟩
        rw [evaluateAll]
        rfl
      · rcases of_run_bind_eq_error h with hnodes | ⟨vs, σ₂, hvs, h⟩
        · obtain ⟨before, argument, after, values, σ', rfl, hbefore, hargument⟩ := ih hnodes
          refine ⟨node :: before, argument, after, v :: values, σ', rfl, ?_, hargument⟩
          rw [evaluateAll, run_bind_of_ok hv, run_bind_of_ok hbefore]
          rfl
        · cases h

theorem run_ofExcept {α : Type} (x : Except Fault α) (σ : Store) :
    Action.ofExcept x σ = (x, σ) := by
  cases x <;> rfl

theorem ofExcept_eq_error {α : Type} {x : Except Fault α} {σ : Store} {cause : Fault}
    (h : (Action.ofExcept x σ).1 = .error cause) : x = .error cause := by
  rwa [run_ofExcept] at h

theorem ofExcept_eq_ok {α : Type} {x : Except Fault α} {σ σ' : Store} {a : α}
    (h : Action.ofExcept x σ = (.ok a, σ')) : x = .ok a := by
  rw [run_ofExcept] at h
  exact congrArg Prod.fst h

/-- A condition is refused only because of its type. -/
theorem holds_eq_error {v : Value} {cause : Fault} (h : Setting.holds v = .error cause) :
    cause = .conditionType := by
  unfold Setting.holds at h
  split at h
  · cases h
  · cases h
  · cases h
    rfl

/-- A failed evaluation fails in some node, and its fault names this node. -/
theorem exists_failsIn {n : Node} {σ : Store} {fault : Fault}
    (h : (s.evaluate n σ).1 = .error fault) :
    ∃ above m cause, s.FailsIn σ n above m cause ∧ fault = cause.within m.text := by
  induction n using Node.parts generalizing σ fault with
  | literal value =>
      rw [evaluate, complete_eq_error] at h
      obtain ⟨cause, hcause, _⟩ := h
      cases hcause
  | list items =>
      rw [evaluate, complete_eq_error] at h
      obtain ⟨cause, hcause, _⟩ := h
      cases hcause
  | name n =>
      rw [evaluate, complete_eq_error] at h
      obtain ⟨cause, hcause, rfl⟩ := h
      exact ⟨[], _, cause, .name hcause, rfl⟩
  | member parent n =>
      rw [evaluate, complete_eq_error] at h
      obtain ⟨cause, hcause, rfl⟩ := h
      exact ⟨[], _, cause, .member hcause, rfl⟩
  | call parent n arguments ih =>
      rw [evaluate, complete_eq_error] at h
      obtain ⟨cause, hcause, rfl⟩ := h
      rcases of_run_bind_eq_error hcause with harguments | ⟨values, σ', hvalues, hcall⟩
      · obtain ⟨before, argument, after, values, σ', rfl, hbefore, hargument⟩ :=
          exists_argument_of_evaluateAll harguments
        obtain ⟨above, m, cause, hfails, rfl⟩ := ih argument (by simp) hargument
        exact ⟨_, m, cause, .argument hbefore hfails, Fault.within_within _ _ _⟩
      · exact ⟨[], _, cause, .call hvalues hcall, rfl⟩
  | binary op left right ihl ihr =>
      rw [evaluate, complete_eq_error] at h
      obtain ⟨cause, hcause, rfl⟩ := h
      rcases of_run_bind_eq_error hcause with hleft | ⟨a, σ', ha, hcause⟩
      · obtain ⟨above, m, cause, hfails, rfl⟩ := ihl hleft
        exact ⟨_, m, cause, .left hfails, Fault.within_within _ _ _⟩
      · cases hitems : right.items? with
        | some items =>
            rw [hitems] at hcause
            exact ⟨[], _, cause, .applyToItems ha hitems (ofExcept_eq_error hcause), rfl⟩
        | none =>
            rw [hitems] at hcause
            rcases of_run_bind_eq_error hcause with hright | ⟨b, σ'', hb, hcause⟩
            · obtain ⟨above, m, cause, hfails, rfl⟩ := ihr hright
              exact ⟨_, m, cause, .right ha hitems hfails, Fault.within_within _ _ _⟩
            · exact ⟨[], _, cause, .apply ha hitems hb (ofExcept_eq_error hcause), rfl⟩
  | conditional condition truthy falsy ihc iht ihf =>
      rw [evaluate, complete_eq_error] at h
      obtain ⟨cause, hcause, rfl⟩ := h
      rcases of_run_bind_eq_error hcause with hcondition | ⟨v, σ', hv, hcause⟩
      · obtain ⟨above, m, cause, hfails, rfl⟩ := ihc hcondition
        exact ⟨_, m, cause, .condition hfails, Fault.within_within _ _ _⟩
      · rcases of_run_bind_eq_error hcause with hholds | ⟨b, σ'', hb, hcause⟩
        · exact ⟨[], _, cause, .holds hv (ofExcept_eq_error hholds), rfl⟩
        · obtain ⟨hholds, rfl⟩ : Setting.holds v = .ok b ∧ σ' = σ'' := by
            rw [run_ofExcept] at hb
            exact Prod.mk.inj hb
          have hfails : ∃ above m root, s.FailsIn σ' (if b then truthy else falsy) above m root ∧
              cause = root.within m.text := by
            cases b with
            | true => exact iht hcause
            | false => exact ihf hcause
          obtain ⟨above, m, root, hfails, rfl⟩ := hfails
          exact ⟨_, m, root, .branch hv hholds hfails, Fault.within_within _ _ _⟩

/-- Arguments are not evaluated further than to the first that fails. -/
theorem evaluateAll_of_argument {before after : List Node} {argument : Node} {σ σ' : Store}
    {values : List Value} {fault : Fault} (hbefore : s.evaluateAll before σ = (.ok values, σ'))
    (h : (s.evaluate argument σ').1 = .error fault) :
    (s.evaluateAll (before ++ argument :: after) σ).1 = .error fault := by
  induction before generalizing σ values with
  | nil =>
      rw [evaluateAll] at hbefore
      cases hbefore
      rw [List.nil_append, evaluateAll]
      exact run_bind_eq_error h
  | cons node before ih =>
      rw [evaluateAll] at hbefore
      obtain ⟨v, σ₁, hv, hbefore⟩ := of_run_bind_eq_ok hbefore
      obtain ⟨vs, σ₂, hvs, hbefore⟩ := of_run_bind_eq_ok hbefore
      cases hbefore
      rw [List.cons_append, evaluateAll, run_bind_of_ok hv]
      exact run_bind_eq_error (ih hvs)

/-- Where a node fails, the evaluation is over with the fault of this node. -/
theorem evaluate_of_failsIn {n m : Node} {σ : Store} {above : List Node} {cause : Fault}
    (h : s.FailsIn σ n above m cause) : (s.evaluate n σ).1 = .error (cause.within m.text) := by
  -- A node that fails with the fault of another one does not name itself.
  have hpassed {node part : Node} {action : Action Value} {σ : Store} {cause : Fault}
      (h : (action σ).1 = .error (cause.within part.text)) :
      (s.complete node action σ).1 = .error (cause.within part.text) :=
    complete_eq_error.2 ⟨_, h, (Fault.within_within _ _ _).symm⟩
  have hown {node : Node} {action : Action Value} {σ : Store} {cause : Fault}
      (h : (action σ).1 = .error cause) :
      (s.complete node action σ).1 = .error (cause.within node.text) :=
    complete_eq_error.2 ⟨_, h, rfl⟩
  induction h with
  | name h =>
      rw [evaluate]
      exact hown h
  | member h =>
      rw [evaluate]
      exact hown h
  | argument hbefore _ ih =>
      rw [evaluate]
      exact hpassed (run_bind_eq_error (evaluateAll_of_argument hbefore ih))
  | call hvalues h =>
      rw [evaluate]
      refine hown ?_
      rw [run_bind_of_ok hvalues]
      exact h
  | left _ ih =>
      rw [evaluate]
      exact hpassed (run_bind_eq_error ih)
  | right ha hitems _ ih =>
      rw [evaluate]
      refine hpassed ?_
      rw [run_bind_of_ok ha, hitems]
      exact run_bind_eq_error ih
  | apply ha hitems hb h =>
      rw [evaluate]
      refine hown ?_
      rw [run_bind_of_ok ha, hitems]
      simp only
      rw [run_bind_of_ok hb, h]
      rfl
  | applyToItems ha hitems h =>
      rw [evaluate]
      refine hown ?_
      rw [run_bind_of_ok ha, hitems]
      simp only
      rw [h]
      rfl
  | condition _ ih =>
      rw [evaluate]
      exact hpassed (run_bind_eq_error ih)
  | holds hv h =>
      rw [evaluate]
      refine hown ?_
      rw [run_bind_of_ok hv, h]
      rfl
  | @branch _ _ _ _ _ _ _ _ b _ hv hb _ ih =>
      rw [evaluate]
      refine hpassed ?_
      rw [run_bind_of_ok hv, hb]
      cases b with
      | true => exact ih
      | false => exact ih

end Setting

end Formula
