import Formula.Interpreter.Validation
import Formula.Proofs.Scope.Lookup

set_option autoImplicit false

/-! # What a validation runs

A validation that gives an expression read the text, declared the variables in a new scope, and
evaluated all references and all conditionals of the tree without finding a fault
(`Validation.Passed`).

Main statement: `Validation.of_validate_eq_ok`. -/

namespace Formula

namespace WorldAction

theorem run_ofAction {α : Type} (action : Action α) (w : World) :
    ofAction action w = ((action w.store).1, { w with store := (action w.store).2 }) := rfl

/-- What an action on the store gives, it gives on the store of the world. -/
theorem of_ofAction_eq_ok {α : Type} {action : Action α} {w w' : World} {x : α}
    (h : ofAction action w = (.ok x, w')) :
    action w.store = (.ok x, w'.store) ∧ w' = { w with store := w'.store } := by
  rw [run_ofAction] at h
  have hworld : { w with store := (action w.store).2 } = w' := congrArg Prod.snd h
  have hresult : (action w.store).1 = .ok x := congrArg Prod.fst h
  subst hworld
  exact ⟨Prod.ext hresult rfl, rfl⟩

end WorldAction

/-- A text is refused: there are faults, and no expression. -/
structure Report.IsRefusal (report : Report) : Prop where
  isValid : report.isValid = false
  faults : report.faults ≠ []
  expression : report.expression = none

namespace Validation

/-- A validation passed: from the world in which the text was read, over the one in which the
variables were declared and the store in which the references were checked, to the last world. -/
structure Passed (i : Interpreter) (types : Dictionary String ValueType) (e : Expression)
    (read declared : World) (checked : Store) (last : World) : Prop where
  scope : e.scope = read.scopes.length
  checking : e.checking = false
  declares : WorldAction.declareAll i.host e.scope types.entries
    (read.addScope (some i.globals)) = (.ok (), declared)
  references : Expression.faultsOf (e.setting i true declared)
    (e.tree.find Expression.references true true) declared.store = (.ok [], checked)
  conditionals : faultsOfConditionals i { e with checking := true } []
    (e.tree.find [.conditional] true true) { declared with store := checked } = (.ok [], last)

/-- Faults that were found are kept. -/
theorem eq_nil_of_faultsOfConditionals {i : Interpreter} {e : Expression} {known : List Fault}
    {nodes : List Node} {w w' : World}
    (h : faultsOfConditionals i e known nodes w = (.ok [], w')) : known = [] := by
  induction nodes generalizing known w with
  | nil =>
      rw [faultsOfConditionals] at h
      cases h
      rfl
  | cons node nodes ih =>
      rw [faultsOfConditionals] at h
      obtain ⟨isolated, w₁, _, h⟩ := of_run_bind_eq_ok h
      obtain ⟨found, w₂, _, h⟩ := of_run_bind_eq_ok h
      cases found with
      | none => exact ih h
      | some fault =>
          simp only at h
          split at h
          · exact ih h
          · have hmore := ih h
            simp at hmore

/-- The validation of a tree passes and gives an expression, or the tree is refused. -/
theorem of_validateTree_eq_ok {i : Interpreter} {text : String} {tree : Node}
    {types : Dictionary String ValueType} {report : Report} {w w' : World}
    (h : i.validateTree text tree types w = (.ok report, w')) :
    report.IsRefusal ∨
      ∃ e declared checked, report = ⟨true, [], some e⟩ ∧ e.tree = tree ∧
        Passed i types e w declared checked w' := by
  unfold Interpreter.validateTree at h
  obtain ⟨e, w₁, hmake, hafter⟩ := of_run_bind_eq_ok h
  obtain ⟨_, declared, hdeclares, hchecks⟩ := of_run_bind_eq_ok hafter
  obtain ⟨faults, w₂, hreferences, hmore⟩ := of_run_bind_eq_ok hchecks
  obtain ⟨faults', w₃, hconditionals, hend⟩ := of_run_bind_eq_ok hmore
  by_cases hempty : faults'.isEmpty = true
  · rw [if_pos hempty] at hend
    obtain rfl : faults' = [] := List.isEmpty_iff.1 hempty
    obtain rfl : faults = [] := eq_nil_of_faultsOfConditionals hconditionals
    obtain ⟨rfl, rfl⟩ := of_run_pure_eq_ok hend
    obtain ⟨rfl, rfl⟩ := of_run_pure_eq_ok hmake
    obtain ⟨hfaults, hworld⟩ := WorldAction.of_ofAction_eq_ok hreferences
    rw [hworld] at hconditionals
    exact .inr ⟨_, declared, w₂.store, rfl, rfl, rfl, rfl, hdeclares, hfaults, hconditionals⟩
  · rw [if_neg hempty] at hend
    obtain ⟨_, w₄, _, hlast⟩ := of_run_bind_eq_ok hend
    obtain ⟨rfl, rfl⟩ := of_run_pure_eq_ok hlast
    exact .inl ⟨rfl, fun hnil => hempty (List.isEmpty_iff.2 hnil), rfl⟩

theorem run_read (i : Interpreter) (text : String) (w : World) :
    WorldAction.ofAction (i.read text) w = (readText i.config.strict text,
      { w with store := w.store.report (readingEvents i.config.strict text) }) := by
  have hresult {α : Type} (x : Except Fault α) (σ : Store) : Action.ofExcept x σ = (x, σ) := by
    cases x <;> rfl
  have hread : i.read text w.store =
      (readText i.config.strict text, w.store.report (readingEvents i.config.strict text)) :=
    hresult _ _
  rw [WorldAction.run_ofAction, hread]

/-- A text that was read is validated by its tree. -/
theorem run_validate {i : Interpreter} {text : String} {tree : Node}
    (types : Dictionary String ValueType) (w : World)
    (htext : readText i.config.strict text = .ok tree) :
    i.validate text types w = i.validateTree text tree types
      { w with store := w.store.report (readingEvents i.config.strict text) } := by
  have hread := run_read i text w
  rw [htext] at hread
  have hdone : (WorldAction.ofAction (i.read text) >>= fun tree => pure (.ok tree) :
      WorldAction (Except Fault Node)) w = (.ok (.ok tree), _) := run_bind_of_ok hread
  unfold Interpreter.validate
  rw [← bind_pure_comp, run_bind_of_ok (run_tryCatch_of_ok hdone)]

/-- A validation passes after the text was read and gives an expression, or the text is refused. -/
theorem of_validate_eq_ok {i : Interpreter} {text : String} {types : Dictionary String ValueType}
    {report : Report} {w w' : World} (h : i.validate text types w = (.ok report, w')) :
    report.IsRefusal ∨
      ∃ e declared checked, report = ⟨true, [], some e⟩ ∧ readText i.config.strict text = .ok e.tree ∧
        Passed i types e
          { w with store := w.store.report (readingEvents i.config.strict text) } declared checked
          w' := by
  cases htext : readText i.config.strict text with
  | error fault =>
      have hread := run_read i text w
      rw [htext] at hread
      unfold Interpreter.validate at h
      obtain ⟨result, w₁, hcaught, hafter⟩ := of_run_bind_eq_ok h
      rw [← bind_pure_comp, run_tryCatch_of_error (run_bind_of_error hread)] at hcaught
      split at hcaught
      · obtain ⟨rfl, rfl⟩ := of_run_pure_eq_ok hcaught
        obtain ⟨rfl, rfl⟩ := of_run_pure_eq_ok hafter
        exact .inl ⟨rfl, List.cons_ne_nil _ _, rfl⟩
      · cases hcaught
  | ok tree =>
      rw [run_validate types w htext] at h
      rcases of_validateTree_eq_ok h with hrefused | ⟨e, declared, checked, he, rfl, hpassed⟩
      · exact .inl hrefused
      · exact .inr ⟨e, declared, checked, he, rfl, hpassed⟩

end Validation

end Formula
