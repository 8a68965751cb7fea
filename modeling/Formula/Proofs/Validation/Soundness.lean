import Formula.Proofs.Evaluation.Purity
import Formula.Proofs.Host.Faults
import Formula.Proofs.Validation.Checks

set_option autoImplicit false

/-! # Validated expressions fail in operations only

Where the host code is pure, a validated expression that is evaluated with the bindings it was
validated with has a value, or an operation fails in it that stands below operations only. Every
other node that could fail was evaluated during the validation, with the same outcome: a reference by
itself, and a conditional in a scope of its own.

Main statement: `Interpreter.validate_sound`. -/

namespace Formula

/-! ## Trees whose references and conditionals have values -/

namespace Setting

variable {s : Setting} {I : Store → Prop}

/-- All references and conditionals of a tree have values in all stores with an invariant, and the
evaluation of any part keeps it. -/
structure HasReferences (s : Setting) (I : Store → Prop) (n : Node) : Prop where
  keeps : ∀ m ∈ n.walk, ∀ σ, I σ → I (s.evaluate m σ).2
  value : ∀ m ∈ n.walk, (∃ c ∈ .conditional :: Expression.references, m.isA c = true) →
    ∀ σ, I σ → ∃ v, (s.evaluate m σ).1 = .ok v

theorem HasReferences.part {m n : Node} (h : s.HasReferences I n) (hm : m ∈ n.walk) :
    s.HasReferences I m where
  keeps k hk := h.keeps k (Node.walk_subset hm hk)
  value k hk := h.value k (Node.walk_subset hm hk)

theorem HasReferences.not_failsIn {σ : Store} {n m : Node} {above : List Node} {cause : Fault}
    (h : s.HasReferences I n) (hσ : I σ) {c : Node.Class}
    (hc : c ∈ .conditional :: Expression.references) (hisA : n.isA c = true) :
    ¬ s.FailsIn σ n above m cause := by
  intro hfails
  obtain ⟨v, hv⟩ := h.value n (Node.mem_walk_self n) ⟨c, hc, hisA⟩ σ hσ
  rw [evaluate_of_failsIn hfails] at hv
  cases hv

/-- Where all references and conditionals of a tree have values, its evaluation can only fail in an
operation below operations, and because of the operator. -/
theorem HasReferences.of_failsIn {σ : Store} {n m : Node} {above : List Node} {cause : Fault}
    (h : s.HasReferences I n) (hσ : I σ) (hfails : s.FailsIn σ n above m cause) :
    (∀ k ∈ m :: above, k.isA .binary = true) ∧ cause.isEvaluation = false := by
  induction n using Node.parts generalizing σ above with
  | literal value => cases hfails
  | list items => cases hfails
  | name n => exact absurd hfails (h.not_failsIn hσ (c := .name) (by decide) rfl)
  | member parent n => exact absurd hfails (h.not_failsIn hσ (c := .member) (by decide) rfl)
  | call parent n arguments _ => exact absurd hfails (h.not_failsIn hσ (c := .call) (by decide) rfl)
  | conditional condition truthy falsy _ _ _ =>
      exact absurd hfails (h.not_failsIn hσ (c := .conditional) (by decide) rfl)
  | binary op left right ihl ihr =>
      have hleft : left ∈ (Node.binary op left right).walk :=
        Node.mem_walk_binary.2 (.inr (.inl (Node.mem_walk_self left)))
      have hright : right ∈ (Node.binary op left right).walk :=
        Node.mem_walk_binary.2 (.inr (.inr (Node.mem_walk_self right)))
      have hown : ∀ k ∈ [Node.binary op left right], k.isA .binary = true :=
        List.forall_mem_singleton.2 rfl
      -- The operation itself stands above what failed in an operand.
      have habove {above : List Node} (hbelow : ∀ k ∈ m :: above, k.isA .binary = true) :
          ∀ k ∈ m :: .binary op left right :: above, k.isA .binary = true := by
        rw [List.forall_mem_cons] at hbelow
        exact List.forall_mem_cons.2 ⟨hbelow.1, List.forall_mem_cons.2 ⟨rfl, hbelow.2⟩⟩
      cases hfails with
      | left hfails =>
          obtain ⟨hbelow, hcause⟩ := ihl (h.part hleft) hσ hfails
          exact ⟨habove hbelow, hcause⟩
      | right ha _ hfails =>
          have hσ' := h.keeps left hleft σ hσ
          rw [ha] at hσ'
          obtain ⟨hbelow, hcause⟩ := ihr (h.part hright) hσ' hfails
          exact ⟨habove hbelow, hcause⟩
      | apply _ _ _ hfault => exact ⟨hown, (op.apply_foreign _ _ _ hfault).isEvaluation⟩
      | applyToItems _ _ hfault =>
          exact ⟨hown, (op.applyToItems_foreign _ _ _ hfault).isEvaluation⟩

end Setting

/-! ## Validated expressions -/

namespace Validation.Passed

variable {i : Interpreter} {types : Dictionary String ValueType} {e : Expression}
  {read declared last : World} {checked : Store} {J : Heap → Prop}

/-- The stores in which evaluation with pure host code gives what it gave during the validation. -/
theorem isNear_of_isPure (h : Passed i types e read declared checked last)
    (hheap : J read.store.heap)
    (hpure : (e.setting i false last).HostCode last.store e.tree (HostAction.IsPure J)) :
    (e.setting i false last).HasReferences (Store.IsNear i.host J last.store) e.tree ∧
      Store.IsNear i.host J last.store last.store := by
  have hagrees {n : Node} (hn : n ∈ e.tree.walk) : Agrees (Store.IsNear i.host J last.store)
      ((e.setting i false last).evaluate n) ((e.setting i true last).evaluate n) := by
    rw [Expression.setting_checking]
    exact Setting.agrees_of_isPure (hpure.part fun k hk => Node.walk_subset hn hk) false
  have hdeclared : Store.IsNear i.host J last.store declared.store :=
    ⟨h.isDeclared.1.heap ▸ hheap, h.alike.symm⟩
  -- Time passes from such stores to such stores.
  let Rel (σ τ : Store) : Prop :=
    Store.IsNear i.host J last.store σ → Store.IsNear i.host J last.store τ
  have hprogress : Store.IsProgress Rel := ⟨fun _ => id, fun h h' => h' ∘ h⟩
  obtain ⟨hlast, hvalue⟩ := h.hadValue hprogress fun n hn σ hσ => (hagrees hn σ σ hσ hσ).2.2
  refine ⟨⟨fun n hn σ hσ => (hagrees hn σ σ hσ hσ).2.1, fun n hn hclass σ hσ => ?_⟩,
    hlast hdeclared⟩
  obtain ⟨τ, v, hτ, hv, _⟩ := hvalue n hn hclass
  exact ⟨v, (hagrees hn σ τ hσ (hτ hdeclared)).1.trans hv⟩

end Validation.Passed

namespace Interpreter

/-- An expression that was found valid, evaluated at once and with pure host code, has a value, or it
fails in an operation that stands below operations only. -/
theorem validate_sound {i : Interpreter} {text : String} {types : Dictionary String ValueType}
    {w w' : World} {report : Report} {J : Heap → Prop}
    (hvalidate : i.validate text types w = (.ok report, w')) (hvalid : report.isValid = true)
    (hheap : J w.store.heap)
    (hpure : ∀ e, report.expression = some e →
      (e.setting i false w').HostCode w'.store e.tree (HostAction.IsPure J)) :
    ∃ e, report.expression = some e ∧
      ((∃ v, (e.evaluate i w').1 = .ok v) ∨
        ∃ above m cause, e.FailsIn i w' above m cause ∧
          (e.evaluate i w').1 = .error (.evaluation m.text cause)) ∧
      ∀ above m cause, e.FailsIn i w' above m cause → ∀ n ∈ m :: above, n.isA .binary = true := by
  rcases Validation.of_validate_eq_ok hvalidate with hrefused | ⟨e, _, _, rfl, _, hpassed⟩
  · rw [hrefused.isValid] at hvalid
    cases hvalid
  obtain ⟨hreferences, hnear⟩ := hpassed.isNear_of_isPure hheap (hpure e rfl)
  rw [← hpassed.checking] at hreferences
  have hentered : Store.IsNear i.host J w'.store (e.entered i w') := by
    unfold Expression.entered
    split
    · exact ⟨hnear.heap, hnear.tables⟩
    · exact hnear
  refine ⟨e, rfl, ?_, fun above m cause hfails => (hreferences.of_failsIn hentered hfails).1⟩
  rcases hresult : (e.evaluate i w').1 with fault | v
  · obtain ⟨above, m, cause, hfails, rfl⟩ := Expression.exists_failsIn hresult
    have hcause := (hreferences.of_failsIn hentered hfails).2
    refine .inr ⟨above, m, cause, hfails, ?_⟩
    rw [Fault.within, if_neg (by simp [hcause])]
  · exact .inl ⟨v, rfl⟩

theorem validate_sound_echo :
    ∃ report w', echoing.validate "1 / 0 + echo(n)" ⟨[("n", .int)]⟩ .single = (.ok report, w') ∧
      ∃ e, report.expression = some e ∧
        ((∃ v, (e.evaluate echoing w').1 = .ok v) ∨
          ∃ above m cause, e.FailsIn echoing w' above m cause ∧
            (e.evaluate echoing w').1 = .error (.evaluation m.text cause)) ∧
        ∀ above m cause, e.FailsIn echoing w' above m cause →
          ∀ n ∈ m :: above, n.isA .binary = true := by
  refine ⟨_, _, validate_echo,
    validate_sound (J := (· = World.single.store.heap)) validate_echo rfl rfl ?_⟩
  rintro e ⟨⟩
  exact hostCode_echo rfl fun h => HostAction.isPure_of_unchanged h _

end Interpreter

end Formula
