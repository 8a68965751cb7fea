import Formula.Proofs.Evaluation.Access
import Formula.Proofs.Evaluation.Failure
import Formula.Proofs.Host.Faults
import Formula.Proofs.Member.Reading

set_option autoImplicit false

/-! # Names that are there

A reference that had a value found what it names: the variable, the member or the method, or a
function that takes as many arguments (`Setting.Finds`). Where all references of a tree find what
they name, its evaluation does not fail because of a name, whatever the values are.

Main statements: `Setting.finds_of_evaluate` and `Setting.keeps_evaluate_of_finds`. -/

namespace Formula

namespace Setting

variable {s : Setting}

/-- A reference finds what it names, as long as the tables cannot be told apart from those of a given
store and the heap has a property. -/
def Finds (s : Setting) (origin : Store) (J : Heap → Prop) : Node → Prop
  | .name n => ∃ b, s.lookup n = some b
  | .member parent n => ∃ b, s.lookup parent = some b ∧
      ((origin.table b.members).hasMember n = true ∨
        ∀ heap, J heap → (origin.table b.members).HasOwn s.host heap b.value n)
  | .call none n arguments => ∃ f, s.functions.find? n = some f ∧
      ∀ expected ∈ f.arity, arguments.length = expected
  | .call (some parent) n _ => ∃ b, s.lookup parent = some b ∧
      (origin.table b.members).hasMethod n = true
  | .literal _ | .list _ | .binary _ _ _ | .conditional _ _ _ => True

/-! ## What was found -/

theorem lookup_of_readName {n : String} {σ σ' : Store} {v : Value}
    (h : s.readName n σ = (.ok v, σ')) : ∃ b, s.lookup n = some b := by
  unfold readName at h
  cases hlookup : s.lookup n with
  | none =>
      rw [hlookup] at h
      cases h
  | some b => exact ⟨b, rfl⟩

/-- A member that was read was there, of a variable without a value by its name alone and of another
as the host gave it. -/
theorem cases_of_readMember {parent n : String} {σ σ' : Store} {v : Value}
    (h : s.readMember parent n σ = (.ok v, σ')) : ∃ b, s.lookup parent = some b ∧
      ((σ.table b.members).hasMember n = true ∨ b.value.isNone = false ∧ ∃ x,
        ((σ.table b.members).readMember? s.host b.value n σ.heap).1 = .ok (some x)) := by
  unfold readMember at h
  cases hlookup : s.lookup parent with
  | none =>
      rw [hlookup] at h
      cases h
  | some b =>
      rw [hlookup] at h
      refine ⟨b, rfl, ?_⟩
      obtain ⟨_, _, hget, hread⟩ := of_run_bind_eq_ok h
      cases hget
      cases hnone : b.value.isNone with
      | true =>
          rw [if_pos hnone] at hread
          split at hread
          next hmember => exact .inl hmember
          · cases hread
      | false =>
          rw [if_neg (by simp [hnone])] at hread
          obtain ⟨found, σ₁, hfound, hend⟩ := of_run_bind_eq_ok hread
          cases found with
          | none => cases hend
          | some x => exact .inr ⟨rfl, x, congrArg Prod.fst hfound⟩

theorem hasMember_of_readMember {parent n : String} {σ σ' : Store} {v : Value}
    (h : s.readMember parent n σ = (.ok v, σ')) : ∃ b, s.lookup parent = some b ∧
      ((σ.table b.members).hasMember n = true ∨
        (σ.table b.members).HasOwn s.host σ.heap b.value n) := by
  obtain ⟨b, hlookup, hmember | ⟨-, x, hhost⟩⟩ := cases_of_readMember h
  · exact ⟨b, hlookup, .inl hmember⟩
  · exact ⟨b, hlookup, MemberTable.hasMember_or_hasOwn hhost⟩

theorem arity_of_callFunction {n : String} {values : List Value} {σ σ' : Store} {v : Value}
    (h : s.callFunction n values σ = (.ok v, σ')) :
    ∃ f, s.functions.find? n = some f ∧ ∀ expected ∈ f.arity, values.length = expected := by
  unfold callFunction at h
  cases hfind : s.functions.find? n with
  | none =>
      rw [hfind] at h
      cases h
  | some f =>
      rw [hfind] at h
      refine ⟨f, rfl, fun expected harity => ?_⟩
      obtain ⟨_, σ₁, _, hcall⟩ := of_run_bind_eq_ok h
      have hhost : (f.call s.host values σ₁.heap).1 = .ok v := congrArg Prod.fst hcall
      unfold FunctionDefinition.call at hhost
      rw [Option.mem_def.1 harity] at hhost
      by_cases hlength : values.length = expected
      · exact hlength
      · simp only at hhost
        rw [if_neg hlength] at hhost
        cases hhost

/-- A method that was called was there, and took the types of the arguments. -/
theorem pick_of_callMethod {parent n : String} {values : List Value} {σ σ' : Store} {v : Value}
    (h : s.callMethod parent n values σ = (.ok v, σ')) : ∃ b, s.lookup parent = some b ∧
      (σ.table b.members).hasMethod n = true ∧ ∃ signature,
        ((σ.table b.members).resolve s.host n (values.map (·.type))).pick = some signature := by
  unfold callMethod at h
  cases hlookup : s.lookup parent with
  | none =>
      rw [hlookup] at h
      cases h
  | some b =>
      rw [hlookup] at h
      obtain ⟨_, _, hget, hcall⟩ := of_run_bind_eq_ok h
      cases hget
      split at hcall
      next hmethod =>
        obtain ⟨pick, σ₁, hresolve, hrest⟩ := of_run_bind_eq_ok hcall
        cases pick with
        | none => cases hrest
        | some signature =>
            have hpick := Except.ok.inj (congrArg Prod.fst hresolve)
            exact ⟨b, rfl, hmethod, signature, hpick⟩
      · cases hcall

/-- A reference that had a value in a store found there what it names. -/
theorem finds_of_evaluate {n : Node} {σ : Store} {v : Value} (h : (s.evaluate n σ).1 = .ok v) :
    s.Finds σ (· = σ.heap) n := by
  cases n with
  | literal value => trivial
  | list items => trivial
  | binary op left right => trivial
  | conditional condition truthy falsy => trivial
  | name n =>
      rw [evaluate] at h
      obtain ⟨σ', hread⟩ := of_complete_eq_ok h
      exact lookup_of_readName hread
  | member parent n =>
      rw [evaluate] at h
      obtain ⟨σ', hread⟩ := of_complete_eq_ok h
      obtain ⟨b, hlookup, hmember⟩ := hasMember_of_readMember hread
      refine ⟨b, hlookup, hmember.imp_right fun hown heap hheap => ?_⟩
      rw [hheap]
      exact hown
  | call parent n arguments =>
      rw [evaluate] at h
      obtain ⟨σ', hdone⟩ := of_complete_eq_ok h
      obtain ⟨values, σ₁, hvalues, hcall⟩ := of_run_bind_eq_ok hdone
      cases parent with
      | none =>
          obtain ⟨f, hfind, harity⟩ := arity_of_callFunction hcall
          have hlength := length_of_evaluateAll hvalues
          exact ⟨f, hfind, fun expected h => hlength.symm.trans (harity expected h)⟩
      | some parent =>
          obtain ⟨b, hlookup, hmethod, -⟩ := pick_of_callMethod hcall
          -- The arguments may have had signatures kept, but no members changed.
          have hkeeps : Keeps (σ.Alike s.host) (fun _ => True) (s.evaluateAll arguments) :=
            keeps_evaluateAll fun argument _ => keeps_evaluate_tables s σ argument
          have halike := (hkeeps σ (.refl σ)).1
          rw [hvalues] at halike
          exact ⟨b, hlookup, by rw [← (halike b.members).hasMethod]; exact hmethod⟩

/-! ## Evaluation without missing names -/

variable {J : Heap → Prop} {origin : Store} {tree : Node}

/-- Reading a member that is found does not fail because of a name. -/
theorem keeps_readMember_of_finds {parent n : String} (hfinds : s.Finds origin J (.member parent n))
    (hmem : .member parent n ∈ tree.walk) (hhost : s.HostCode origin tree (Keeps J fun _ => True)) :
    Keeps (Store.IsNear s.host J origin) (fun fault => fault.root.isNaming = false)
      (s.readMember parent n) := by
  obtain ⟨b, hlookup, hmember⟩ := hfinds
  refine keeps_readMember ?_ ?_ ?_ ?_
  · intro hunbound
    rw [hunbound] at hlookup
    cases hlookup
  · intro b' heap hlookup' hnone hheap hmissing
    obtain rfl : b' = b := Option.some.inj (hlookup'.symm.trans hlookup)
    have hown := hmember.resolve_left (by simp [hmissing]) heap hheap
    rw [hown.data.isNone] at hnone
    cases hnone
  · intro b' heap hlookup' _ hheap habsent
    obtain rfl : b' = b := Option.some.inj (hlookup'.symm.trans hlookup)
    exact absurd habsent (MemberTable.readMember?_ne_none (hmember.imp_right fun h => h heap hheap))
  · intro b' hlookup' hvalue
    refine (hhost.member hmem hlookup' hvalue).and_fault ?_
    exact (MemberTable.readMember?_foreign _ _ _ _).mono fun _ h => h.root

/-- Calling a function that is found does not fail because of a name. -/
theorem keeps_callFunction_of_finds {n : String} {arguments : List Node} {values : List Value}
    (hfinds : s.Finds origin J (.call none n arguments)) (hmem : .call none n arguments ∈ tree.walk)
    (hlength : values.length = arguments.length)
    (hhost : s.HostCode origin tree (Keeps J fun _ => True)) :
    Keeps (Store.IsNear s.host J origin) (fun fault => fault.root.isNaming = false)
      (s.callFunction n values) := by
  obtain ⟨f, hfind, harity⟩ := hfinds
  refine keeps_callFunction ?_ ?_
  · intro hmissing
    rw [hmissing] at hfind
    cases hfind
  · intro f' hfind'
    obtain rfl : f' = f := Option.some.inj (hfind'.symm.trans hfind)
    refine (hhost.function hmem hfind' values).and_fault ?_
    exact (FunctionDefinition.call_foreign _ fun expected h =>
      hlength.trans (harity expected h)).mono fun _ h => h.root

/-- Calling a method that is found does not fail because of a name. -/
theorem keeps_callMethod_of_finds {parent n : String} {arguments : List Node}
    (hfinds : s.Finds origin J (.call (some parent) n arguments))
    (hmem : .call (some parent) n arguments ∈ tree.walk)
    (hhost : s.HostCode origin tree (Keeps J fun _ => True)) (values : List Value) :
    Keeps (Store.IsNear s.host J origin) (fun fault => fault.root.isNaming = false)
      (s.callMethod parent n values) := by
  obtain ⟨b, hlookup, hmethod⟩ := hfinds
  refine keeps_callMethod ?_ ?_ (fun _ => rfl) ?_
  · intro hunbound
    rw [hunbound] at hlookup
    cases hlookup
  · intro b' hlookup' hmissing
    obtain rfl : b' = b := Option.some.inj (hlookup'.symm.trans hlookup)
    rw [hmethod] at hmissing
    cases hmissing
  · intro b' hlookup' hvalue
    refine (hhost.method hmem hlookup' hvalue values).and_fault ?_
    exact (MemberTable.invoke_foreign _ _ _ _ _).mono fun _ h => h.root

/-- The steps of a tree whose references find what they name do not fail because of a name. -/
theorem stepsKeep_of_finds (hfinds : ∀ n ∈ tree.walk, s.Finds origin J n)
    (hhost : s.HostCode origin tree (Keeps J fun _ => True)) :
    s.StepsKeep (Store.IsNear s.host J origin) (fun fault => fault.root.isNaming = false) tree where
  trace := keeps_trace
  within fault part h := by
    unfold Fault.within
    split
    · exact h
    · exact h
  name hmem := keeps_readName fun hunbound => by
    obtain ⟨b, hlookup⟩ := hfinds _ hmem
    rw [hunbound] at hlookup
    cases hlookup
  member hmem := keeps_readMember_of_finds (hfinds _ hmem) hmem hhost
  call := by
    intro parent n arguments hmem values hlength
    cases parent with
    | none => exact keeps_callFunction_of_finds (hfinds _ hmem) hmem hlength hhost
    | some parent => exact keeps_callMethod_of_finds (hfinds _ hmem) hmem hhost values
  apply h := (Operator.apply_foreign _ _ _ _ h).root
  applyToItems h := (Operator.applyToItems_foreign _ _ _ _ h).root
  holds := by
    intro v fault h
    rw [holds_eq_error h]
    rfl

/-- Where all references of a tree find what they name, its evaluation does not fail because of a
name. -/
theorem keeps_evaluate_of_finds (hfinds : ∀ n ∈ tree.walk, s.Finds origin J n)
    (hhost : s.HostCode origin tree (Keeps J fun _ => True)) :
    Keeps (Store.IsNear s.host J origin) (fun fault => fault.root.isNaming = false)
      (s.evaluate tree) :=
  keeps_evaluate (stepsKeep_of_finds hfinds hhost)

end Setting

end Formula
