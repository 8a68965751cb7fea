import Formula.Interpreter.Expression
import Formula.Proofs.Evaluation.Failure
import Formula.Proofs.Scope.Lookup

set_option autoImplicit false

/-! # Where an expression fails

The evaluation of an expression is the evaluation of its tree, in the setting that the world gives,
after it was reported that it begins.

Main statements: `Expression.run_evaluate` and `Expression.exists_failsIn`. -/

namespace Formula

namespace Expression

variable {i : Interpreter} {e : Expression} {w : World}

/-- The store with which the evaluation of the tree begins. -/
def entered (i : Interpreter) (e : Expression) (w : World) : Store :=
  if (e.setting i e.checking w).traced then w.store.report [.evaluating e.tree.text] else w.store

theorem run_evaluate (i : Interpreter) (e : Expression) (w : World) :
    e.evaluate i w =
      ((((e.setting i e.checking w).evaluate e.tree (entered i e w)).1),
        { w with store := ((e.setting i e.checking w).evaluate e.tree (entered i e w)).2 }) := by
  have hbegin := run_bind_of_ok (f := fun _ => (e.setting i e.checking w).evaluate e.tree)
    ((e.setting i e.checking w).run_trace (fun _ => .evaluating e.tree.text) w.store)
  have hget : (get : WorldAction World) w = (.ok w, w) := rfl
  unfold evaluate
  rw [run_bind_of_ok hget]
  unfold WorldAction.ofAction
  rw [hbegin]
  rfl

/-- The evaluation of an expression fails in a node of its tree below the given ones, the outermost
first. -/
def FailsIn (i : Interpreter) (e : Expression) (w : World) (above : List Node) (m : Node)
    (cause : Fault) : Prop :=
  (e.setting i e.checking w).FailsIn (entered i e w) e.tree above m cause

/-- A failed evaluation fails in some node, and its fault names this node. -/
theorem exists_failsIn {fault : Fault} (h : (e.evaluate i w).1 = .error fault) :
    ∃ above m cause, e.FailsIn i w above m cause ∧ fault = cause.within m.text := by
  rw [run_evaluate] at h
  exact Setting.exists_failsIn h

/-! ## Checking -/

/-- While it is only checked, an expression is not traced. -/
theorem setting_checking (i : Interpreter) (e : Expression) (w : World) :
    e.setting i true w = { e.setting i false w with traced := false } := by
  simp [setting]

/-- New scopes do not change what an expression can see. -/
theorem setting_of_append {w' : World} {more : List Scope} (h : w'.scopes = w.scopes ++ more)
    (hscope : e.scope < w.scopes.length) (checking : Bool) :
    e.setting i checking w' = e.setting i checking w := by
  have hlookup : w'.lookup e.scope = w.lookup e.scope :=
    funext fun name => World.lookup_of_append h hscope name
  rw [setting, hlookup]
  rfl

/-- A tree that is checked by itself, in a new child of a scope, is evaluated as in this scope. -/
theorem exists_isolated (i : Interpreter) (node : Node) (h : e.scope < w.scopes.length) :
    ∃ isolated, make i node true e.scope w = (.ok isolated, w.addScope (some e.scope)) ∧
      isolated.evaluate i (w.addScope (some e.scope)) =
        (((e.setting i true w).evaluate node w.store).1,
          { w.addScope (some e.scope) with
            store := ((e.setting i true w).evaluate node w.store).2 }) := by
  refine ⟨⟨node, w.scopes.length, true, i.config.debug⟩, rfl, ?_⟩
  have hlookup : (w.addScope (some e.scope)).lookup w.scopes.length = w.lookup e.scope :=
    funext fun name => w.lookup_child h name
  have hsetting : setting i ⟨node, w.scopes.length, true, i.config.debug⟩ true
      (w.addScope (some e.scope)) = e.setting i true w := by
    simp [setting, hlookup]
  have hentered : entered i ⟨node, w.scopes.length, true, i.config.debug⟩
      (w.addScope (some e.scope)) = w.store := by
    simp [entered, setting, World.addScope]
  rw [run_evaluate, hentered, hsetting]

end Expression

end Formula
