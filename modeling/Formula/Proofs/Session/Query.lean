import Formula.Proofs.Scope.Spared
import Formula.Proofs.Session.Step
import Formula.Proofs.Validation.Outcome

set_option autoImplicit false

/-! # Queries

What an interpreter can be asked: the value of an expression, the faults of its references, and
whether a text is valid. To answer, it runs host code, keeps what it has resolved, makes scopes for
the parts that it checks, and declares variables in one of these. An invariant that outlasts all this
holds after the answer, whatever the answer is.

Main statements: `Query.of_isStable` and `Query.spares_run`. -/

namespace Formula

/-- What an interpreter can be asked. -/
inductive Query where
  | evaluate (e : Expression)
  | evaluateAs (e : Expression) (t : ValueType)
  /-- The faults of the references in an expression. -/
  | check (e : Expression)
  /-- Whether a text is valid when variables have the given types. -/
  | validate (text : String) (types : Dictionary String ValueType)

/-- Asks an interpreter. The answer is left out. -/
def Query.run (i : Interpreter) : Query → WorldAction Unit
  | evaluate e => do
    let _ ← e.evaluate i
  | evaluateAs e t => do
    let _ ← e.evaluateAs i t
  | check e => do
    let _ ← e.checkReferences i
  | validate text types => do
    let _ ← i.validate text types

/-! ## What outlasts a query -/

/-- An invariant that holds whatever host code does to the heap, whatever is reported and whichever
overloads are chosen, and in a new child of a scope. -/
structure World.Outlasts (u : Universe) (I : World → Prop) : Prop where
  store : ∀ w : World, Store.IsStable u fun store => I { w with store }
  scope : ∀ {w : World} {parent : Nat}, parent < w.scopes.length → I w →
    I (w.addScope (some parent))

/-- A scope that was made is there for good. -/
theorem World.Outlasts.and_made {u : Universe} {I : World → Prop} (h : Outlasts u I) (k : Nat) :
    Outlasts u fun w => I w ∧ k < w.scopes.length where
  store w :=
    { heap := fun heap hw => ⟨(h.store w).heap heap hw.1, hw.2⟩
      report := fun events hw => ⟨(h.store w).report events hw.1, hw.2⟩
      resolve := fun id method types hw => ⟨(h.store w).resolve id method types hw.1, hw.2⟩ }
  scope hparent hw := ⟨h.scope hparent hw.1, Nat.lt_trans hw.2 (World.lt_length_addScope _ _)⟩

/-- An invariant that holds however the store grows, and in a new child of a scope. -/
structure World.IsStable (I : World → Prop) : Prop where
  store : ∀ {w : World} {store : Store}, w.store.Grows store → I w → I { w with store }
  scope : ∀ {w : World} {parent : Nat}, parent < w.scopes.length → I w →
    I (w.addScope (some parent))

theorem World.IsStable.outlasts {I : World → Prop} (h : IsStable I) (u : Universe) :
    Outlasts u I where
  store w := by
    have hlater {σ τ : Store} (hgrows : σ.Grows τ) (hσ : I { w with store := σ }) :
        I { w with store := τ } := by
      have hstores : ({ w with store := σ } : World).store.Grows τ := hgrows
      have hτ := h.store hstores hσ
      exact hτ
    -- Each of the changes lets the store grow.
    constructor
    · intro σ heap hσ
      exact hlater ((Store.isStable_grows u σ).heap heap (.refl σ)) hσ
    · intro σ events hσ
      exact hlater (σ.grows_report events) hσ
    · intro σ id method types hσ
      exact hlater ((Store.isStable_grows u σ).resolve id method types (.refl σ)) hσ
  scope := h.scope

/-- What keeps the invariant as one of the store keeps it as one of the world. -/
theorem WorldAction.keeps_ofStore {I : World → Prop} {α : Type} {a : Action α}
    (h : ∀ w : World, Keeps (fun store => I { w with store }) (fun _ => True) a) :
    Keeps I (fun _ => True) (ofAction a) := by
  intro w hw
  exact ⟨(h w w.store hw).1, fun _ _ => trivial⟩

namespace Expression

variable {I : World → Prop} {i : Interpreter} {e : Expression}

theorem keeps_evaluate_of_outlasts (hI : World.Outlasts i.host I) :
    Keeps I (fun _ => True) (e.evaluate i) := by
  refine .get_bind fun w _ => WorldAction.keeps_ofStore fun x => ?_
  have hstable : Store.IsStable (e.setting i e.checking w).host _ := hI.store x
  exact .bind (Setting.keeps_trace_of_isStable hstable _) fun _ =>
    Setting.keeps_evaluate_of_isStable hstable e.tree

theorem keeps_evaluateAs_of_outlasts (hI : World.Outlasts i.host I) (t : ValueType) :
    Keeps I (fun _ => True) (e.evaluateAs i t) := by
  refine .bind (keeps_evaluate_of_outlasts hI) fun v => ?_
  split
  · exact .pure _
  · exact .throw trivial

theorem keeps_checkReferences_of_outlasts (hI : World.Outlasts i.host I) :
    Keeps I (fun _ => True) (e.checkReferences i) := by
  refine .get_bind fun w _ => WorldAction.keeps_ofStore fun x => keeps_faultsOf fun n _ => ?_
  exact Setting.keeps_evaluate_of_isStable (hI.store x) n

/-- An expression has a scope of its own below the globals. -/
theorem keeps_ofText_of_outlasts (hI : World.Outlasts i.host I) (text : String) :
    Keeps (fun w => I w ∧ i.globals < w.scopes.length) (fun _ => True)
      (Expression.ofText i text) := by
  have hmade := hI.and_made i.globals
  have hread : Keeps (fun w => I w ∧ i.globals < w.scopes.length) (fun _ => True)
      (WorldAction.ofAction (i.read text)) := by
    refine WorldAction.keeps_ofStore fun x => ?_
    refine .bind (.modify fun τ hτ => (hmade.store x).report _ hτ) fun _ => ?_
    exact Action.keeps_ofExcept fun _ _ => trivial
  exact hread.bind fun tree w hw => ⟨hmade.scope hw.2 hw, fun _ h => by cases h⟩

end Expression

namespace Validation

variable {I : World → Prop} {i : Interpreter} {e : Expression}

/-- Every conditional is evaluated in a scope of its own below that of the expression. -/
theorem keeps_faultsOfConditionals (hI : World.Outlasts i.host I) (known : List Fault)
    (nodes : List Node) :
    Keeps (fun w => I w ∧ e.scope < w.scopes.length) (fun _ => True)
      (faultsOfConditionals i e known nodes) := by
  have hmade := hI.and_made e.scope
  induction nodes generalizing known with
  | nil => exact .pure _
  | cons node nodes ih =>
      have hmake : Keeps (fun w => I w ∧ e.scope < w.scopes.length) (fun _ => True)
          (Expression.make i node true e.scope) :=
        fun w hw => ⟨hmade.scope hw.2 hw, fun _ h => by cases h⟩
      refine .bind hmake fun isolated => ?_
      refine .bind (Expression.keeps_evaluate_of_outlasts hmade).caught fun found => ?_
      cases found with
      | none => exact ih known
      | some fault =>
          simp only
          split
          · exact ih known
          · exact ih _

end Validation

namespace Interpreter

variable {I : World → Prop} {i : Interpreter} {w : World}

/-- After the variables are declared, the validation of a tree only checks. -/
theorem validateTree_of_outlasts (hI : World.Outlasts i.host I) (text : String) (tree : Node)
    {types : Dictionary String ValueType} (hdeclared : I (i.declaring types w)) :
    I (i.validateTree text tree types w).2 := by
  let e : Expression := ⟨tree, w.scopes.length, true, i.config.debug⟩
  have hmade := hI.and_made e.scope
  have hmake : Expression.make i tree true i.globals w =
      (.ok e, w.addScope (some i.globals)) := rfl
  have hdeclare : e.declareAll i types (w.addScope (some i.globals)) =
      (.ok (), i.declaring types w) := i.run_declaring types w
  have hafter {α : Type} {a : WorldAction α}
      (ha : Keeps (fun w => I w ∧ e.scope < w.scopes.length) (fun _ => True) a) :
      I (a (i.declaring types w)).2 :=
    (ha _ ⟨hdeclared, i.lt_length_declaring types w⟩).1.1
  unfold validateTree
  rw [run_bind_of_ok hmake, run_bind_of_ok hdeclare]
  refine hafter (.bind (Expression.keeps_checkReferences_of_outlasts hmade) fun _ => ?_)
  refine .bind (Validation.keeps_faultsOfConditionals hI _ _) fun _ => ?_
  split
  · exact .pure _
  · refine .bind (WorldAction.keeps_ofStore fun x => ?_) fun _ => .pure _
    exact .modify fun τ hτ => (hmade.store x).report _ hτ

/-- The same for a text, which may be unreadable. -/
theorem validate_of_outlasts (hI : World.Outlasts i.host I) (text : String)
    {types : Dictionary String ValueType} (hread : I (i.reading text w))
    (hdeclared : I (i.declaring types (i.reading text w))) : I (i.validate text types w).2 := by
  cases htext : readText i.config.strict text with
  | ok tree =>
      rw [Validation.run_validate types w htext]
      exact validateTree_of_outlasts hI text tree hdeclared
  | error fault =>
      rcases readText_cases htext with ⟨error, rfl⟩ | ⟨cause, rfl, _⟩
      · rw [i.validate_unreadable text types w htext]
        exact hread
      · rw [i.validate_unreadableNumber text types w htext]
        exact hread

end Interpreter

/-- An invariant that outlasts evaluation holds after a query if it also holds when variables are
declared in a new scope below the globals. -/
theorem Query.of_outlasts {I : World → Prop} {i : Interpreter} {w : World}
    (hI : World.Outlasts i.host I) (hw : I w)
    (hdeclare : ∀ types {x}, x.scopes = w.scopes → w.store.Grows x.store → I x →
      I (i.declaring types x))
    (q : Query) : I (q.run i w).2 := by
  cases q with
  | evaluate e =>
      rw [run, run_bind_pure]
      exact (Expression.keeps_evaluate_of_outlasts hI w hw).1
  | evaluateAs e t =>
      rw [run, run_bind_pure]
      exact (Expression.keeps_evaluateAs_of_outlasts hI t w hw).1
  | check e =>
      rw [run, run_bind_pure]
      exact (Expression.keeps_checkReferences_of_outlasts hI w hw).1
  | validate text types =>
      have hread : I (i.reading text w) := (hI.store w).report _ hw
      have hgrows := w.store.grows_report (readingEvents i.config.strict text)
      rw [run, run_bind_pure]
      exact Interpreter.validate_of_outlasts hI text hread (hdeclare types rfl hgrows hread)

/-- A stable invariant holds after a query if it also holds when variables are declared in a new
scope below the globals. -/
theorem Query.of_isStable {I : World → Prop} {i : Interpreter} {w : World} (hI : World.IsStable I)
    (hw : I w)
    (hdeclare : ∀ types {store}, w.store.Grows store → I (i.declaring types { w with store }))
    (q : Query) : I (q.run i w).2 := by
  refine Query.of_outlasts (hI.outlasts i.host) hw (fun types x hscopes hgrows _ => ?_) q
  obtain ⟨store, scopes⟩ := x
  cases hscopes
  exact hdeclare types hgrows

/-! ## What a query leaves alone -/

namespace World

variable {w x : World} {r : Nat}

theorem isStable_spares (r : Nat) (w : World) : IsStable (Spares r w) where
  store hgrows h := h.withStore hgrows
  scope _ h := h.addScope _

/-- Below a scope that was made, a new one has the same root. -/
theorem root_addScope {parent : Nat} (h : parent < w.scopes.length) :
    (w.addScope (some parent)).root w.scopes.length = w.root parent := by
  rw [root_eq, scope_addScope]
  show (if parent < w.scopes.length then _ else _) = _
  rw [if_pos h]
  refine root_congr fun k hk => ?_
  rw [scope_of_append rfl (Nat.lt_of_le_of_lt hk h)]

/-- Variables that are declared in a new scope below the globals touch nothing but the tables at the
root. -/
theorem Spares.declaring (h : Spares r w x) {i : Interpreter} (hroot : x.root i.globals = r)
    (types : Dictionary String ValueType) : Spares r w (i.declaring types x) := by
  have hnew : (x.addScope (some i.globals)).root x.scopes.length = r ∨
      w.scopes.length ≤ (x.addScope (some i.globals)).root x.scopes.length := by
    by_cases hmade : i.globals < x.scopes.length
    · exact .inl ((root_addScope hmade).trans hroot)
    · -- The new scope would have no proper parent, and be a root itself.
      refine .inr ?_
      rw [root_eq, scope_addScope]
      show w.scopes.length ≤ if i.globals < x.scopes.length then _ else _
      rw [if_neg hmade]
      exact h.count
  have hkeeps := @WorldAction.keeps_spares_declareAll i.host w x.scopes.length r (fun _ => True)
    h.count types.entries
  exact (hkeeps (x.addScope (some i.globals)) ⟨h.addScope _, hnew⟩).1.1

end World

/-- Whatever is asked and whatever comes of it, the scopes there were keep their variables, and only
the root of the globals may have more tables. -/
theorem Query.spares_run (i : Interpreter) (q : Query) (w : World) :
    w.Spares (w.root i.globals) (q.run i w).2 := by
  have hsame {store : Store} : ({ w with store } : World).root i.globals = w.root i.globals :=
    World.root_congr fun _ _ => rfl
  refine Query.of_isStable (World.isStable_spares _ w) (.refl _ w) ?_ q
  intro types store hgrows
  exact ((World.Spares.refl _ w).withStore hgrows).declaring hsame types

end Formula
