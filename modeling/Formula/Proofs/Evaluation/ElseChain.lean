import Formula.Interpreter
import Formula.Proofs.Evaluation.Failure
import Formula.Proofs.Source.Composition

set_option autoImplicit false

/-! # Which branch of a chain of conditionals is taken

The conditions of a chain are evaluated from the first on, as long as they do not hold. The first that
holds selects its branch, and a condition that fails or has no truth value ends the evaluation.
`Setting.FirstMatch` says this of the chain as a row, with what is evaluated in which state; the
conditions behind and the other branches are evaluated in none.

Main statements: `Setting.evaluate_elseChain_iff` (an evaluation of a chain is a first match) and
`exists_evaluate_elseChain` (from the text on). -/

namespace Formula

/-- The conditionals of a chain, the innermost first. -/
def Node.elseChains (rows : List (Node × Node)) (other : Node) : List Node :=
  match rows with
  | [] => []
  | row :: rows => elseChains rows other ++ [elseChain (row :: rows) other]

/-- A chain may be taken as one that ends in another. -/
theorem Node.elseChain_append (rows more : List (Node × Node)) (other : Node) :
    elseChain (rows ++ more) other = elseChain rows (elseChain more other) := by
  induction rows with
  | nil => rfl
  | cons row rows ih => rw [List.cons_append, elseChain, elseChain, ih]

theorem Node.elseChains_append (rows more : List (Node × Node)) (other : Node) :
    elseChains (rows ++ more) other =
      elseChains more other ++ elseChains rows (elseChain more other) := by
  induction rows with
  | nil => exact (List.append_nil _).symm
  | cons row rows ih =>
      rw [List.cons_append, elseChains, elseChains, ih, ← List.cons_append, elseChain_append,
        List.append_assoc]

namespace Setting

variable {s : Setting} {σ τ : Store} {r : Except Fault Value × Store}

/-! ## What a conditional adds -/

/-- The end of nodes that have the value of an inner one, the innermost first: each reports that value
while the evaluation is traced. -/
def closing (s : Setting) (nodes : List Node) : Except Fault Value × Store → Except Fault Value × Store
  | (.ok v, σ) =>
    (.ok v, if s.traced then σ.report (nodes.map fun node => .evaluated node (σ.heap.freeze v)) else σ)
  | (.error fault, σ) => (.error fault, σ)

theorem closing_nil (r : Except Fault Value × Store) : s.closing [] r = r := by
  obtain ⟨_ | v, σ⟩ := r
  · rfl
  · simp [closing, Store.report]

theorem closing_closing (inner outer : List Node) (r : Except Fault Value × Store) :
    s.closing outer (s.closing inner r) = s.closing (inner ++ outer) r := by
  obtain ⟨_ | v, σ⟩ := r
  · rfl
  · simp only [closing]
    split <;> simp [Store.report]

/-- What fails in a named part only is passed on as it is. -/
theorem complete_eq_closing {node : Node} {action : Action Value}
    (h : ∀ fault, (action σ).1 = .error fault → fault.isEvaluation = true) :
    s.complete node action σ = s.closing [node] (action σ) := by
  rcases hrun : action σ with ⟨fault | v, τ⟩
  · have hnamed : fault.within node.text = fault := if_pos (h fault (by rw [hrun]))
    rw [complete_of_error hrun, hnamed]
    rfl
  · rw [run_complete_of_ok hrun]
    rfl

/-- A conditional has the result of the branch that its condition selects. -/
theorem evaluate_conditional (truthy falsy : Node) {condition : Node} {v : Value} {b : Bool}
    (hv : s.evaluate condition σ = (.ok v, τ)) (hb : Setting.holds v = .ok b) :
    s.evaluate (.conditional condition truthy falsy) σ =
      s.closing [.conditional condition truthy falsy]
        (s.evaluate (if b then truthy else falsy) τ) := by
  have hbranch : (s.evaluate condition >>= fun c => do
      if ← Action.ofExcept (Setting.holds c) then s.evaluate truthy else s.evaluate falsy) σ =
        s.evaluate (if b then truthy else falsy) τ := by
    rw [run_bind_of_ok hv, hb]
    cases b <;> rfl
  rw [evaluate, complete_eq_closing, hbranch]
  intro fault hfault
  rw [hbranch] at hfault
  exact isEvaluation_of_evaluate hfault

/-- A conditional fails like its condition. -/
theorem evaluate_conditional_of_error (truthy falsy : Node) {condition : Node} {fault : Fault}
    (h : s.evaluate condition σ = (.error fault, τ)) :
    s.evaluate (.conditional condition truthy falsy) σ = (.error fault, τ) := by
  have hnamed : fault.isEvaluation = true := isEvaluation_of_evaluate (by rw [h])
  rw [evaluate, complete_of_error (run_bind_of_error h), Fault.within, if_pos hnamed]

/-- A conditional fails where its condition has no truth value. -/
theorem evaluate_conditional_of_holds (truthy falsy : Node) {condition : Node} {v : Value}
    {cause : Fault} (hv : s.evaluate condition σ = (.ok v, τ))
    (hcause : Setting.holds v = .error cause) :
    s.evaluate (.conditional condition truthy falsy) σ =
      (.error (cause.within (Node.conditional condition truthy falsy).text), τ) := by
  have hrun : (s.evaluate condition >>= fun c => do
      if ← Action.ofExcept (Setting.holds c) then s.evaluate truthy else s.evaluate falsy) σ =
        (.error cause, τ) := by
    rw [run_bind_of_ok hv, hcause]
    rfl
  rw [evaluate, complete_of_error hrun]

/-! ## Conditions that do not hold -/

/-- The conditions do not hold, one evaluated after the other: each is false or absent. -/
inductive PassesOver (s : Setting) : List Node → Store → Store → Prop
  | nil {σ : Store} : PassesOver s [] σ σ
  | cons {σ τ υ : Store} {condition : Node} {conditions : List Node} {v : Value} :
      s.evaluate condition σ = (.ok v, τ) → v = .none ∨ v = .bool false →
      PassesOver s conditions τ υ → PassesOver s (condition :: conditions) σ υ

theorem holds_eq_ok_false {v : Value} (h : v = .none ∨ v = .bool false) :
    Setting.holds v = .ok false := by
  rcases h with rfl | rfl <;> rfl

theorem holds_eq_conditionType {v : Value} (hnone : v ≠ .none) (hbool : ∀ b, v ≠ .bool b) :
    Setting.holds v = .error .conditionType := by
  cases v with
  | none => exact absurd rfl hnone
  | bool b => exact absurd rfl (hbool b)
  | _ => rfl

/-- Rows whose conditions do not hold are passed over. -/
theorem PassesOver.evaluate_elseChain {rows : List (Node × Node)} {other : Node}
    (h : s.PassesOver (rows.map Prod.snd) σ τ) :
    s.evaluate (.elseChain rows other) σ =
      s.closing (Node.elseChains rows other) (s.evaluate other τ) := by
  induction rows generalizing σ with
  | nil =>
      cases h
      exact (closing_nil _).symm
  | cons row rows ih =>
      cases h with
      | cons hv hpassed hrest =>
          have hfalsy := evaluate_conditional row.1 (Node.elseChain rows other) hv
            (holds_eq_ok_false hpassed)
          rw [Node.elseChain, hfalsy, Node.elseChains, ← closing_closing]
          exact congrArg (s.closing _) (ih hrest)

/-- How the evaluation of a chain of branches with conditions ends. -/
inductive FirstMatch (s : Setting) (rows : List (Node × Node)) (other : Node) (σ : Store) :
    Except Fault Value × Store → Prop
  /-- The first condition that holds selects its branch. -/
  | selected (before : List (Node × Node)) {after : List (Node × Node)} {branch condition : Node}
      {τ υ : Store} :
      rows = before ++ (branch, condition) :: after → s.PassesOver (before.map Prod.snd) σ τ →
      s.evaluate condition τ = (.ok (.bool true), υ) →
      FirstMatch s rows other σ (s.closing
        (Node.elseChains (before ++ [(branch, condition)]) (.elseChain after other))
        (s.evaluate branch υ))
  /-- No condition holds. -/
  | otherwise {τ : Store} :
      s.PassesOver (rows.map Prod.snd) σ τ →
      FirstMatch s rows other σ (s.closing (Node.elseChains rows other) (s.evaluate other τ))
  /-- A condition fails before any holds. -/
  | failed (before : List (Node × Node)) {after : List (Node × Node)} {branch condition : Node}
      {τ υ : Store} {fault : Fault} :
      rows = before ++ (branch, condition) :: after → s.PassesOver (before.map Prod.snd) σ τ →
      s.evaluate condition τ = (.error fault, υ) →
      FirstMatch s rows other σ (.error fault, υ)
  /-- A condition has no truth value, before any holds. -/
  | noTruthValue (before : List (Node × Node)) {after : List (Node × Node)}
      {branch condition : Node} {τ υ : Store} {v : Value} :
      rows = before ++ (branch, condition) :: after → s.PassesOver (before.map Prod.snd) σ τ →
      s.evaluate condition τ = (.ok v, υ) → v ≠ .none → (∀ b, v ≠ .bool b) →
      FirstMatch s rows other σ
        (.error (.evaluation (Node.elseChain ((branch, condition) :: after) other).text
          .conditionType), υ)

/-- A condition that does not hold is passed over. -/
theorem FirstMatch.cons {rows : List (Node × Node)} {other branch condition : Node} {v : Value}
    (hv : s.evaluate condition σ = (.ok v, τ)) (hpassed : v = .none ∨ v = .bool false)
    (h : s.FirstMatch rows other τ r) :
    s.FirstMatch ((branch, condition) :: rows) other σ
      (s.closing [.elseChain ((branch, condition) :: rows) other] r) := by
  cases h with
  | @selected before after b c _ _ hrows hbefore hcondition =>
      subst hrows
      have hrow : Node.elseChain ((branch, condition) :: (before ++ (b, c) :: after)) other =
          Node.elseChain ((branch, condition) :: (before ++ [(b, c)])) (Node.elseChain after other) := by
        rw [← Node.elseChain_append]
        simp
      rw [closing_closing, hrow]
      exact .selected ((branch, condition) :: before) rfl (.cons hv hpassed hbefore) hcondition
  | otherwise hnone =>
      rw [closing_closing]
      exact .otherwise (.cons hv hpassed hnone)
  | failed before hrows hbefore hcondition =>
      subst hrows
      exact .failed ((branch, condition) :: before) rfl (.cons hv hpassed hbefore) hcondition
  | noTruthValue before hrows hbefore hcondition hnone hbool =>
      subst hrows
      exact .noTruthValue ((branch, condition) :: before) rfl (.cons hv hpassed hbefore)
        hcondition hnone hbool

/-- The evaluation of a chain is a first match. -/
theorem firstMatch_evaluate_elseChain (rows : List (Node × Node)) (other : Node) (σ : Store) :
    s.FirstMatch rows other σ (s.evaluate (.elseChain rows other) σ) := by
  induction rows generalizing σ with
  | nil =>
      have h : s.FirstMatch [] other σ (s.closing (Node.elseChains [] other) (s.evaluate other σ)) :=
        .otherwise .nil
      rwa [Node.elseChains, closing_nil] at h
  | cons row rows ih =>
      obtain ⟨branch, condition⟩ := row
      rw [Node.elseChain]
      rcases hrun : s.evaluate condition σ with ⟨fault | v, τ⟩
      · rw [evaluate_conditional_of_error _ _ hrun]
        exact .failed [] rfl .nil hrun
      by_cases hpassed : v = .none ∨ v = .bool false
      · rw [evaluate_conditional _ _ hrun (holds_eq_ok_false hpassed)]
        exact .cons hrun hpassed (ih τ)
      by_cases hselected : v = .bool true
      · subst hselected
        rw [evaluate_conditional _ _ hrun rfl]
        exact .selected [] rfl .nil hrun
      · have hnone : v ≠ .none := fun h => hpassed (.inl h)
        have hbool : ∀ b, v ≠ .bool b := by
          intro b hb
          cases b with
          | true => exact hselected hb
          | false => exact hpassed (.inr hb)
        rw [evaluate_conditional_of_holds _ _ hrun (holds_eq_conditionType hnone hbool)]
        exact .noTruthValue [] rfl .nil hrun hnone hbool

/-- A first match is the evaluation of the chain. -/
theorem FirstMatch.evaluate_elseChain {rows : List (Node × Node)} {other : Node}
    (h : s.FirstMatch rows other σ r) : s.evaluate (.elseChain rows other) σ = r := by
  cases h with
  | @selected before after branch condition _ _ hrows hbefore hcondition =>
      have hfirst := evaluate_conditional branch (Node.elseChain after other) hcondition rfl
      rw [hrows, Node.elseChain_append, hbefore.evaluate_elseChain, Node.elseChain, hfirst,
        closing_closing, Node.elseChains_append]
      rfl
  | otherwise hnone => exact hnone.evaluate_elseChain
  | @failed before after branch condition _ _ fault hrows hbefore hcondition =>
      have hfirst := evaluate_conditional_of_error branch (Node.elseChain after other) hcondition
      rw [hrows, Node.elseChain_append, hbefore.evaluate_elseChain, Node.elseChain, hfirst]
      rfl
  | @noTruthValue before after branch condition _ _ v hrows hbefore hcondition hnone hbool =>
      have hfirst := evaluate_conditional_of_holds branch (Node.elseChain after other) hcondition
        (holds_eq_conditionType hnone hbool)
      rw [hrows, Node.elseChain_append, hbefore.evaluate_elseChain, Node.elseChain, hfirst]
      rfl

/-- An evaluation of a chain is a first match. -/
theorem evaluate_elseChain_iff {rows : List (Node × Node)} {other : Node} :
    s.evaluate (.elseChain rows other) σ = r ↔ s.FirstMatch rows other σ r := by
  constructor
  · rintro rfl
    exact firstMatch_evaluate_elseChain rows other σ
  · exact FirstMatch.evaluate_elseChain

end Setting

/-- The text of a chain of branches, each with its condition in brackets, is read as the chain of their
trees, by an interpreter as long as it is not nested too deeply, and an evaluation of that is a first
match. -/
theorem exists_evaluate_elseChain {texts : List (String × String)} {rows : List (Node × Node)}
    {f : String} {fs : List Token} {other : Node} (hrows : List.Forall₂ RowReadsAs texts rows)
    (hother : ReadsAs f fs other) (strict : Bool) :
    ∃ ts, tokenize strict (elseChainText texts f) = .ok ts ∧
      parseTokens ts = .ok (.elseChain rows other) ∧
      (isTooDeep ts = false → readText strict (elseChainText texts f) = .ok (.elseChain rows other)) ∧
      ∀ (s : Setting) (σ : Store) (r : Except Fault Value × Store),
        s.evaluate (.elseChain rows other) σ = r ↔ s.FirstMatch rows other σ r := by
  obtain ⟨ls, hadds, hstands⟩ := exists_adds_elseChain hrows hother
  obtain ⟨ts, htokens, hshapes⟩ := hadds.tokenize strict
  have hparse := Grammar.parseTokens_of_derives (hstands ts hshapes)
  exact ⟨ts, htokens, hparse, readText_eq_ok htokens hparse,
    fun _ _ _ => Setting.evaluate_elseChain_iff⟩

theorem exists_evaluate_elseChain_of_choice : ∃ ts,
    tokenize true "x if(x) else x if(x) else b if a else d" = .ok ts ∧
      parseTokens ts =
        .ok (.elseChain [(.name "x", .name "x"), (.name "x", .name "x")] choiceTree) ∧
      (isTooDeep ts = false → readText true "x if(x) else x if(x) else b if a else d" =
        .ok (.elseChain [(.name "x", .name "x"), (.name "x", .name "x")] choiceTree)) ∧
      ∀ (s : Setting) (σ : Store) (r : Except Fault Value × Store),
        s.evaluate (.elseChain [(.name "x", .name "x"), (.name "x", .name "x")] choiceTree) σ = r ↔
          s.FirstMatch [(.name "x", .name "x"), (.name "x", .name "x")] choiceTree σ r := by
  have hrow : RowReadsAs ("x", "x") (.name "x", .name "x") :=
    ⟨⟨_, readsAs_x⟩, rfl, _, readsAs_x, by decide⟩
  exact exists_evaluate_elseChain (.cons hrow (.cons hrow .nil)) readsAs_choice true

end Formula
