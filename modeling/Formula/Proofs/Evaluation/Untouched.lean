import Formula.Proofs.Evaluation.Access
import Formula.Proofs.Evaluation.Failure

set_option autoImplicit false

/-! # Evaluation that leaves the host alone

As long as the variables that a tree names have no values, it makes no difference to its evaluation
what reading a member of an object and calling a method of one would do: neither is ever done,
whatever the functions give.

Main statements: `Setting.evaluateVia_congr`, `Setting.evaluateVia_member` and
`Setting.evaluateVia_method`. -/

namespace Formula

/-- The variables that a tree names have no values, where they are bound. -/
def Node.IsUnset (lookup : String → Option Binding) (tree : Node) : Prop :=
  ∀ m ∈ tree.walk, ∀ name ∈ m.subject?, ∀ b, lookup name = some b → b.value = .none

theorem Node.IsUnset.part {lookup : String → Option Binding} {m tree : Node}
    (h : tree.IsUnset lookup) (hm : m ∈ tree.walk) : m.IsUnset lookup :=
  fun n hn => h n (Node.walk_subset hm hn)

namespace Setting

variable {s : Setting} {a a' : Access}

/-! ## Variables without values -/

theorem readMemberVia_congr {parent : String}
    (h : ∀ b, s.lookup parent = some b → b.value = .none) (name : String) :
    s.readMemberVia a parent name = s.readMemberVia a' parent name := by
  unfold readMemberVia
  cases hb : s.lookup parent with
  | none => rfl
  | some b =>
      have hnone : b.value.isNone = true := by rw [h b hb]; rfl
      simp only [hnone, if_true]

theorem callMethodVia_congr {parent : String}
    (h : ∀ b, s.lookup parent = some b → b.value = .none) (name : String) (values : List Value) :
    s.callMethodVia a parent name values = s.callMethodVia a' parent name values := by
  unfold callMethodVia
  cases hb : s.lookup parent with
  | none => rfl
  | some b =>
      have hnone : b.value.isNone = true := by rw [h b hb]; rfl
      simp only [hnone, if_true]

/-- Where the variables that a tree names have no values, no member of an object is read and no method
of one is called, whatever functions do: anything else could be done instead. -/
theorem evaluateVia_congr (hcall : a.call = a'.call) {tree : Node} (h : tree.IsUnset s.lookup) :
    s.evaluateVia a tree = s.evaluateVia a' tree := by
  induction tree using Node.parts with
  | literal value => rw [evaluateVia, evaluateVia]
  | list items => rw [evaluateVia, evaluateVia]
  | name n => rw [evaluateVia, evaluateVia]
  | member parent n =>
      have hread : s.readMemberVia a parent n = s.readMemberVia a' parent n :=
        readMemberVia_congr (h (.member parent n) (Node.mem_walk_self _) parent rfl) n
      rw [evaluateVia, evaluateVia, hread]
  | call parent n arguments ih =>
      have harguments := evaluateAllVia_congr fun m hm => ih m hm
        (h.part (Node.mem_walk_call.2 (.inr ⟨m, hm, Node.mem_walk_self m⟩)))
      have hstep (values : List Value) : s.callVia a parent n values = s.callVia a' parent n values := by
        cases parent with
        | none =>
            show s.callFunctionVia a n values = s.callFunctionVia a' n values
            unfold callFunctionVia
            rw [hcall]
        | some parent =>
            exact callMethodVia_congr
              (h (.call (some parent) n arguments) (Node.mem_walk_self _) parent rfl) n values
      rw [evaluateVia, evaluateVia, harguments]
      simp only [hstep]
  | binary op left right ihl ihr =>
      have hl := ihl (h.part (Node.mem_walk_binary.2 (.inr (.inl (Node.mem_walk_self _)))))
      have hr := ihr (h.part (Node.mem_walk_binary.2 (.inr (.inr (Node.mem_walk_self _)))))
      rw [evaluateVia, evaluateVia, hl, hr]
  | conditional condition truthy falsy ihc iht ihf =>
      have hpart {m : Node} (hm : m = condition ∨ m = truthy ∨ m = falsy) : m.IsUnset s.lookup := by
        refine h.part (Node.mem_walk_conditional.2 (.inr ?_))
        rcases hm with rfl | rfl | rfl
        · exact .inl (Node.mem_walk_self _)
        · exact .inr (.inl (Node.mem_walk_self _))
        · exact .inr (.inr (Node.mem_walk_self _))
      have hc := ihc (hpart (.inl rfl))
      have ht := iht (hpart (.inr (.inl rfl)))
      have hf := ihf (hpart (.inr (.inr rfl)))
      rw [evaluateVia, evaluateVia, hc, ht, hf]

/-! ## What references to unset variables give -/

section References

variable {b : Binding} {m : MemberTable} {σ : Store} {parent : String}

/-- A member of a variable without a value is absent if the type of the variable has it, and
otherwise it is not found. -/
theorem evaluateVia_member (hb : s.lookup parent = some b) (hnone : b.value = .none)
    (hm : m.Alike s.host (σ.table b.members)) (a : Access) (n : String) :
    (s.evaluateVia a (.member parent n) σ).1 =
      if m.hasMember n then .ok .none
      else .error (.evaluation (Node.member parent n).text (.noMember n parent)) := by
  have hget : (get : Action Store) σ = (.ok σ, σ) := rfl
  rw [evaluateVia, complete_eq]
  unfold readMemberVia
  rw [hb]
  simp only
  rw [run_bind_of_ok hget, if_pos (by rw [hnone]; rfl), hm.hasMember]
  split
  · rfl
  · rfl

/-- A method of a variable without a value is not called. It is only asked whether the type has the
method and an overload takes the types of the arguments. -/
theorem run_callMethodVia (hb : s.lookup parent = some b) (hnone : b.value = .none)
    (hm : m.Alike s.host (σ.table b.members)) (a : Access) (n : String) (values : List Value) :
    (s.callMethodVia a parent n values σ).1 =
      if m.hasMethod n then
        if (m.resolve s.host n (values.map (·.type))).pick.isSome then .ok .none
        else .error (.noOverload n parent (values.map (·.typeName)))
      else .error (.noMethod n parent) := by
  have hget : (get : Action Store) σ = (.ok σ, σ) := rfl
  unfold callMethodVia
  rw [hb]
  simp only
  rw [run_bind_of_ok hget, hm.hasMethod]
  split
  · have hresolve : Action.resolve s.host b.members n (values.map (·.type)) σ =
        (.ok (m.resolve s.host n (values.map (·.type))).pick, _) :=
      Prod.ext (congrArg Except.ok (hm.pick n (values.map (·.type)))) rfl
    rw [run_bind_of_ok hresolve]
    cases (m.resolve s.host n (values.map (·.type))).pick with
    | none =>
        rw [List.map_map]
        rfl
    | some signature =>
        simp only
        rw [if_pos (by rw [hnone]; rfl)]
        rfl
  · rfl

/-- So a method call whose arguments have values is absent, or the method is not found, or no
overload is. -/
theorem evaluateVia_method (hb : s.lookup parent = some b) (hnone : b.value = .none)
    (hm : m.Alike s.host (σ.table b.members)) {arguments : List Node} {values : List Value}
    (hvalues : (s.evaluateAllVia a arguments σ).1 = .ok values) (n : String) :
    (s.evaluateVia a (.call (some parent) n arguments) σ).1 =
      if m.hasMethod n then
        if (m.resolve s.host n (values.map (·.type))).pick.isSome then .ok .none
        else .error (.evaluation (Node.call (some parent) n arguments).text
          (.noOverload n parent (values.map (·.typeName))))
      else .error (.evaluation (Node.call (some parent) n arguments).text (.noMethod n parent)) := by
  rcases harguments : s.evaluateAllVia a arguments σ with ⟨result, τ⟩
  obtain rfl : result = .ok values := by simpa [harguments] using hvalues
  -- The arguments may leave signatures in the table, which make no difference.
  have hkeeps : Keeps (σ.Alike s.host) (fun _ => True) (s.evaluateAllVia a arguments) :=
    keeps_evaluateAllVia fun argument _ => keeps_evaluateVia (Store.isStable_alike s.host σ) argument
  have hafter := (hkeeps σ (.refl σ)).1 b.members
  rw [harguments] at hafter
  have hcall := run_callMethodVia hb hnone (hm.trans hafter) a n values
  rw [evaluateVia, complete_eq, run_bind_of_ok harguments]
  show (s.callMethodVia a parent n values τ).1.mapError _ = _
  rw [hcall]
  split
  · split
    · rfl
    · rfl
  · rfl

end References

end Setting

end Formula
