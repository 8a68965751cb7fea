import Formula.Proofs.Evaluation.Names
import Formula.Proofs.Evaluation.Plain
import Formula.Proofs.Evaluation.Purity
import Formula.Proofs.Evaluation.Reach

set_option autoImplicit false

/-! # The parts of an evaluated tree

A tree without conditionals is evaluated as a whole, so where it has a value all its parts have one.
The node in which an evaluation fails is a part that fails by itself, in a store that the evaluation
reaches. With pure host code what a reference finds once it finds always.

Main statements: `Setting.exists_value_of_part`, `Setting.FailsIn.exists_own` and
`Setting.finds_of_isPure`. -/

namespace Formula

namespace Setting

variable {s : Setting} {I : Store → Prop}

/-! ## Parts with values -/

/-- Trees that have values together have values one by one. -/
theorem exists_value_of_evaluateAll {nodes : List Node}
    (hkeeps : ∀ n ∈ nodes, ∀ σ, I σ → I (s.evaluate n σ).2) {σ σ' : Store} {values : List Value}
    (hσ : I σ) (h : s.evaluateAll nodes σ = (.ok values, σ')) :
    ∀ n ∈ nodes, ∃ τ v, I τ ∧ (s.evaluate n τ).1 = .ok v := by
  induction nodes generalizing σ values with
  | nil => exact fun n hn => by cases hn
  | cons node nodes ih =>
      rw [evaluateAll] at h
      obtain ⟨v, σ₁, hv, hmore⟩ := of_run_bind_eq_ok h
      obtain ⟨vs, σ₂, hvs, _⟩ := of_run_bind_eq_ok hmore
      have hσ₁ : I σ₁ := by
        have hkept := hkeeps node List.mem_cons_self σ hσ
        rw [hv] at hkept
        exact hkept
      intro n hn
      rcases List.mem_cons.1 hn with rfl | hn
      · exact ⟨σ, v, hσ, by rw [hv]⟩
      · obtain rfl : σ₂ = σ' := by
          rw [run_bind_of_ok hv, run_bind_of_ok hvs] at h
          cases h
          rfl
        exact ih (fun n hn => hkeeps n (List.mem_cons_of_mem _ hn)) hσ₁ hvs n hn

/-- Where a tree without conditionals has a value, every part has one when it is reached. -/
theorem exists_value_of_part {n m : Node} (hkeeps : ∀ k ∈ n.walk, ∀ σ, I σ → I (s.evaluate k σ).2)
    (hflat : ∀ k ∈ n.walk, k.isA .conditional = false) {σ : Store} {v : Value} (hσ : I σ)
    (h : (s.evaluate n σ).1 = .ok v) (hm : m ∈ n.walk) :
    ∃ τ x, I τ ∧ (s.evaluate m τ).1 = .ok x := by
  induction n using Node.parts generalizing σ v with
  | literal value =>
      rw [Node.mem_walk_literal] at hm
      exact ⟨σ, v, hσ, hm ▸ h⟩
  | list items =>
      rw [Node.mem_walk_list] at hm
      exact ⟨σ, v, hσ, hm ▸ h⟩
  | name n =>
      rw [Node.mem_walk_name] at hm
      exact ⟨σ, v, hσ, hm ▸ h⟩
  | member parent n =>
      rw [Node.mem_walk_member] at hm
      exact ⟨σ, v, hσ, hm ▸ h⟩
  | call parent n arguments ih =>
      rcases Node.mem_walk_call.1 hm with rfl | ⟨argument, hargument, hm⟩
      · exact ⟨σ, v, hσ, h⟩
      · have hpart {k : Node} (hk : k ∈ argument.walk) : k ∈ (Node.call parent n arguments).walk :=
          Node.mem_walk_call.2 (.inr ⟨argument, hargument, hk⟩)
        rw [evaluate] at h
        obtain ⟨σ', hdone⟩ := of_complete_eq_ok h
        obtain ⟨values, σ₁, hvalues, _⟩ := of_run_bind_eq_ok hdone
        obtain ⟨τ, x, hτ, hx⟩ := exists_value_of_evaluateAll (fun k hk => hkeeps k
          (Node.mem_walk_call.2 (.inr ⟨k, hk, Node.mem_walk_self k⟩))) hσ hvalues argument hargument
        exact ih argument hargument (fun k hk => hkeeps k (hpart hk))
          (fun k hk => hflat k (hpart hk)) hτ hx hm
  | binary op left right ihl ihr =>
      have hl {k : Node} (hk : k ∈ left.walk) : k ∈ (Node.binary op left right).walk :=
        Node.mem_walk_binary.2 (.inr (.inl hk))
      have hr {k : Node} (hk : k ∈ right.walk) : k ∈ (Node.binary op left right).walk :=
        Node.mem_walk_binary.2 (.inr (.inr hk))
      rcases Node.mem_walk_binary.1 hm with rfl | hm | hm
      · exact ⟨σ, v, hσ, h⟩
      · rw [evaluate] at h
        obtain ⟨σ', hdone⟩ := of_complete_eq_ok h
        obtain ⟨a, σ₁, ha, _⟩ := of_run_bind_eq_ok hdone
        exact ihl (fun k hk => hkeeps k (hl hk)) (fun k hk => hflat k (hl hk)) hσ (by rw [ha]) hm
      · rw [evaluate] at h
        obtain ⟨σ', hdone⟩ := of_complete_eq_ok h
        obtain ⟨a, σ₁, ha, hmore⟩ := of_run_bind_eq_ok hdone
        cases hitems : right.items? with
        | some items =>
            -- A list on the right is no operand of its own, but it would have a value.
            obtain rfl := Node.eq_list_of_items? hitems
            obtain rfl := Node.mem_walk_list.1 hm
            exact ⟨σ, .list items.values, hσ, evaluate_list items σ⟩
        | none =>
            rw [hitems] at hmore
            simp only at hmore
            obtain ⟨b, σ₂, hb, _⟩ := of_run_bind_eq_ok hmore
            have hσ₁ : I σ₁ := by
              have hkept := hkeeps left (hl (Node.mem_walk_self left)) σ hσ
              rw [ha] at hkept
              exact hkept
            exact ihr (fun k hk => hkeeps k (hr hk)) (fun k hk => hflat k (hr hk)) hσ₁
              (by rw [hb]) hm
  | conditional condition truthy falsy _ _ _ =>
      have hnone := hflat _ (Node.mem_walk_self _)
      cases hnone

/-! ## Parts that fail -/

section Causes

variable {σ : Store} {cause : Fault}

/-- A step fails with no fault of a part, as long as the host code in it does. -/
theorem isEvaluation_of_keeps {action : Action Value}
    (h : Keeps (Store.IsNear s.host (fun _ => True) σ) (fun fault => fault.isEvaluation = false)
      action) (hcause : (action σ).1 = .error cause) : cause.isEvaluation = false :=
  (h σ ⟨trivial, .refl σ⟩).2 cause hcause

theorem isEvaluation_of_readMember {parent n : String}
    (h : (s.readMember parent n σ).1 = .error cause) : cause.isEvaluation = false := by
  refine isEvaluation_of_keeps (keeps_readMember ?_ ?_ ?_ ?_) h
  · exact fun _ => rfl
  · exact fun _ _ _ _ _ _ => rfl
  · exact fun _ _ _ _ _ _ => rfl
  · intro b _ _
    exact (MemberTable.readMember?_foreign _ _ _ _).mono fun _ hfault => hfault.isEvaluation

theorem isEvaluation_of_call {parent : Option String} {n : String} {values : List Value}
    (h : (s.call parent n values σ).1 = .error cause) : cause.isEvaluation = false := by
  cases parent with
  | none =>
      refine isEvaluation_of_keeps (keeps_callFunction ?_ ?_) h
      · intro _
        split
        · rfl
        · rfl
      · intro f _
        have hrun := (f.implementation.run_foreign s.host f.name values).mono
          fun _ hfault => hfault.isEvaluation
        unfold FunctionDefinition.call
        split
        next expected _ =>
          by_cases hlength : values.length = expected
          · rw [if_pos hlength]
            exact hrun
          · rw [if_neg hlength]
            exact .throw rfl
        · exact hrun
  | some parent =>
      refine isEvaluation_of_keeps (keeps_callMethod ?_ ?_ ?_ ?_) h
      · exact fun _ => rfl
      · exact fun _ _ _ => rfl
      · exact fun _ => rfl
      · intro b _ _
        exact (MemberTable.invoke_foreign _ _ _ _ _).mono fun _ hfault => hfault.isEvaluation

/-- What a node fails with by itself names no part. -/
theorem FailsIn.isEvaluation {n m : Node} {above : List Node} (h : s.FailsIn σ n above m cause) :
    cause.isEvaluation = false := by
  induction h with
  | name h => exact isEvaluation_of_keeps (s := s) (keeps_readName fun _ => rfl) h
  | member h => exact isEvaluation_of_readMember h
  | call _ h => exact isEvaluation_of_call h
  | apply _ _ _ h => exact (Operator.apply_foreign _ _ _ _ h).isEvaluation
  | applyToItems _ _ h => exact (Operator.applyToItems_foreign _ _ _ _ h).isEvaluation
  | holds _ h =>
      rw [holds_eq_error h]
      rfl
  | argument _ _ ih => exact ih
  | left _ ih => exact ih
  | right _ _ _ ih => exact ih
  | condition _ ih => exact ih
  | branch _ _ _ ih => exact ih

end Causes

/-- The node in which an evaluation fails is a part, and fails by itself when it is reached. -/
theorem FailsIn.exists_own {n m : Node} {σ : Store} {above : List Node} {cause : Fault}
    (h : s.FailsIn σ n above m cause) (hkeeps : ∀ k ∈ n.walk, ∀ σ, I σ → I (s.evaluate k σ).2)
    (hσ : I σ) : m ∈ n.walk ∧ ∃ τ, I τ ∧ s.FailsIn τ m [] m cause := by
  obtain ⟨τ, hreaches, hown⟩ := h.exists_reaches
  exact ⟨hreaches.mem_walk, τ, hreaches.keeps hkeeps hσ, hown⟩

/-! ## References -/

variable {J : Heap → Prop} {origin τ : Store}

/-- With pure host code a member that was read once is found in every heap. -/
theorem finds_of_readMember {parent n : String} {σ' : Store} {v : Value}
    (hpure : ∀ b, s.lookup parent = some b → b.value.isNone = false →
      HostAction.IsPure J ((origin.table b.members).readMember? s.host b.value n))
    (hτ : Store.IsNear s.host J origin τ) (h : s.readMember parent n τ = (.ok v, σ')) :
    s.Finds origin J (.member parent n) := by
  obtain ⟨b, hlookup, hmember⟩ := cases_of_readMember h
  have halike := hτ.tables b.members
  rw [halike.hasMember, halike.readMember?] at hmember
  refine ⟨b, hlookup, ?_⟩
  by_cases hown : (origin.table b.members).hasMember n = true
  · exact .inl hown
  · obtain ⟨hnone, x, hhost⟩ := hmember.resolve_left hown
    -- What was found in one heap is found in the other.
    refine .inr fun heap hheap => ?_
    have hsame := (hpure b hlookup hnone τ.heap heap hτ.heap hheap).1
    rw [hhost] at hsame
    exact (MemberTable.hasMember_or_hasOwn hsame.symm).resolve_left hown

/-- With pure host code a reference that had a value once finds always what it names. -/
theorem finds_of_isPure {n : Node} {v : Value} (hpure : s.HostCode origin n (HostAction.IsPure J))
    (hτ : Store.IsNear s.host J origin τ) (h : (s.evaluate n τ).1 = .ok v) :
    s.Finds origin J n := by
  have hfinds := finds_of_evaluate h
  cases n with
  | literal value => trivial
  | list items => trivial
  | binary op left right => trivial
  | conditional condition truthy falsy => trivial
  | name n => exact hfinds
  | member parent n =>
      rw [evaluate] at h
      obtain ⟨σ', hread⟩ := of_complete_eq_ok h
      exact finds_of_readMember (fun b => hpure.member (Node.mem_walk_self _)) hτ hread
  | call parent n arguments =>
      cases parent with
      | none => exact hfinds
      | some parent =>
          obtain ⟨b, hb, hmethod⟩ := hfinds
          exact ⟨b, hb, ((hτ.tables b.members).hasMethod n).symm.trans hmethod⟩

end Setting

end Formula
