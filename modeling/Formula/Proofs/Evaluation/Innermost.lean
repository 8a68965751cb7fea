import Formula.Proofs.Evaluation.Parts

set_option autoImplicit false

/-! # Failures name the innermost node

However deep in a tree an evaluation fails, the fault that comes out names one node and has the cause
of that node's own failure: the nodes above pass it on as it is. That the cause is not such a fault
itself is up to the host code, which can raise errors of any family.

Main statement: `Setting.evaluate_fails_innermost`. -/

namespace Formula

/-- The family of the faults that name an expression part. -/
theorem Fault.kind_of_isEvaluation {fault : Fault} (h : fault.isEvaluation = true) :
    fault.kind = "EvaluationError" := by
  cases fault with
  | evaluation part cause => rfl
  | _ => cases h

theorem Fault.root_of_isEvaluation {fault : Fault} (h : fault.isEvaluation = false) :
    fault.root = fault := by
  cases fault with
  | evaluation part cause => cases h
  | _ => rfl

@[simp] theorem Fault.root_within (fault : Fault) (part : String) :
    (fault.within part).root = fault.root := by
  unfold within
  split
  · rfl
  · rfl

/-- That something is not there under its name is no failure of an expression part. -/
theorem Fault.kind_root_of_isNaming {fault : Fault} (h : fault.isNaming = true) :
    fault.root.kind ≠ "EvaluationError" := by
  cases fault with
  | unboundName | unboundParent | noMember | noMethod | notRegistered | conditionalForm
  | argumentCount => simp [root, kind]
  | _ => cases h

namespace Setting

variable {s : Setting} {σ : Store} {n : Node}

/-- No step of a tree fails with a fault of the evaluation family that names no part, unless host
code does. -/
theorem HostCode.stepsKeep_kind (h : s.HostCode σ n
    (Keeps (fun _ => True) fun fault => fault.kind ≠ "EvaluationError")) :
    s.StepsKeep (Store.IsNear s.host (fun _ => True) σ)
      (fun fault => fault.root.kind ≠ "EvaluationError") n := by
  -- Host code fails with no fault of a part, so each of its faults is its own root.
  have hhost {α : Type} {a : HostAction α}
      (ha : Keeps (fun _ => True) (fun fault => fault.kind ≠ "EvaluationError") a) :
      Keeps (fun _ => True) (fun fault => fault.root.kind ≠ "EvaluationError") a := by
    refine ha.mono fun fault hkind => ?_
    rwa [Fault.root_of_isEvaluation]
    exact Bool.eq_false_iff.2 fun hnamed => hkind (Fault.kind_of_isEvaluation hnamed)
  exact {
    trace := keeps_trace
    within := by simp
    name := fun _ => keeps_readName fun _ => Fault.kind_root_of_isNaming rfl
    member := by
      intro parent name hmem
      refine keeps_readMember ?_ ?_ ?_ fun _ hlookup hvalue => hhost (h.member hmem hlookup hvalue)
      · exact fun _ => Fault.kind_root_of_isNaming rfl
      · exact fun _ _ _ _ _ _ => Fault.kind_root_of_isNaming rfl
      · exact fun _ _ _ _ _ _ => Fault.kind_root_of_isNaming rfl
    call := by
      intro parent name arguments hmem values _
      cases parent with
      | none =>
          refine keeps_callFunction ?_ fun f hfind => hhost (h.function hmem hfind values)
          intro _
          split
          · exact Fault.kind_root_of_isNaming rfl
          · exact Fault.kind_root_of_isNaming rfl
      | some parent =>
          refine keeps_callMethod ?_ ?_ ?_ fun _ hlookup hvalue =>
            hhost (h.method hmem hlookup hvalue values)
          · exact fun _ => Fault.kind_root_of_isNaming rfl
          · exact fun _ _ _ => Fault.kind_root_of_isNaming rfl
          · simp [Fault.root, Fault.kind]
    apply := by
      intro op a b fault herror
      have harithmetic := Operator.isArithmetic_of_apply herror
      rw [Fault.root_of_isEvaluation (Fault.isForeign_of_isArithmetic harithmetic).isEvaluation]
      rcases Fault.kind_of_isArithmetic harithmetic with hkind | hkind
      · simp [hkind]
      · simp [hkind]
    applyToItems := by
      intro op a items fault herror
      simp [Operator.applyToItems_eq_error herror, Fault.root, Fault.kind]
    holds := by
      intro v fault herror
      simp [holds_eq_error herror, Fault.root, Fault.kind] }

/-- A function that refuses every argument. -/
def refusing : Setting where
  host := ⟨[], []⟩
  functions := FunctionTable.register .empty (.derive "refuse"
    (.written [⟨"x", .any, none, .positional⟩] (.raise "ValueError" "refused") none) none "" .custom
    [])
  lookup := fun _ => none
  traced := false

/-- The tree of `1 + refuse(refuse(2))`. -/
def refusedTree : Node :=
  .binary .plus (.literal (.int 1)) (.call none "refuse" [.call none "refuse" [.literal (.int 2)]])

theorem hostCode_refusing : refusing.HostCode .empty refusedTree
    (Keeps (fun _ => True) fun fault => fault.kind ≠ "EvaluationError") where
  function := by
    intro name arguments f hmem hfind values
    have hname : name = "refuse" := by
      have hcalls : (name = "refuse" ∧ arguments = [.call none "refuse" [.literal (.int 2)]]) ∨
          (name = "refuse" ∧ arguments = [.literal (.int 2)]) := by simpa [refusedTree] using hmem
      exact hcalls.elim And.left And.left
    rw [hname] at hfind
    cases hfind
    rcases values with _ | ⟨v, _ | ⟨v', values⟩⟩
    · exact .throw (by simp [Fault.kind])
    · exact .throw (by simp [Fault.kind])
    · exact .throw (by simp [Fault.kind])
  member hmem := by simp [refusedTree] at hmem
  method hmem := by simp [refusedTree] at hmem

end Setting

end Formula
