import Formula.Proofs.Scope.Consistent
import Formula.Proofs.Session.Step

set_option autoImplicit false

/-! # Binding a name before each evaluation

An expression that is evaluated right after a name was bound does not notice what the name was bound
to before: two worlds in which its scope has the same variables apart from the name, which takes the
value in both, are the same for it (`World.SameBut`). Whether the name takes a value depends on its
type alone, and this type stays (`Variable.IsSettled`), so afterwards there is still no other
difference.

Main statement: `Expression.evaluateAt_same`. -/

namespace Formula

open World (Sets SameFor)

/-! ## The type of the name -/

/-- A value is there and has exactly the given type. -/
def Value.IsOf (t : ValueType) (v : Value) : Prop := v ≠ .none ∧ v.type = t

theorem Value.IsOf.isNone {t : ValueType} {v : Value} (h : v.IsOf t) : v.isNone = false := by
  simpa [← Value.isNone_iff] using h.1

namespace Variable

/-- What a variable makes of values depends on its type alone. -/
theorem assign_eq_of_type {x y : Variable} (h : x.type = y.type) (v : Value) :
    x.assign v = y.assign v := by
  obtain ⟨t, _⟩ := x
  obtain ⟨t', _⟩ := y
  obtain rfl : t = t' := h
  rfl

/-- After a name was given one of some values, it takes of these what it took before. -/
def IsSettled (name : String) (X : Value → Prop) (own : Option Variable) : Prop :=
  ∀ v x, X v → assignIn name v own = .ok x →
    ∀ v', X v' → assignIn name v' (some x) = assignIn name v' own

/-- A variable keeps its type whatever it is given. -/
theorem isSettled_some (name : String) (X : Value → Prop) (y : Variable) :
    IsSettled name X (some y) := by
  intro v x _ hx v' _
  exact assign_eq_of_type (type_of_assign hx) v'

/-- A new variable is one of the type of its value. -/
theorem eq_of_assignIn_none {name : String} {v : Value} {x : Variable}
    (h : assignIn name v none = .ok x) : x = ⟨v.type, v⟩ := by
  have hx : (if v.isNone then .error (.untypedBinding name) else .ok ⟨v.type, v⟩ :
    Except Fault Variable) = .ok x := h
  split at hx
  · cases hx
  · cases hx
    rfl

/-- The variable under a name keeps the type that it had, or takes that of the value. -/
theorem type_of_assignIn {name : String} {v : Value} {own : Option Variable} {x : Variable}
    (h : assignIn name v own = .ok x) : x.type = (own.getD ⟨v.type, v⟩).type := by
  cases own with
  | some y => exact type_of_assign h
  | none => rw [eq_of_assignIn_none h, Option.getD_none]

/-- A name that took a value takes it again. -/
theorem assignIn_again {name : String} {v : Value} {own : Option Variable} {x : Variable}
    (h : assignIn name v own = .ok x) : assignIn name v (some x) = .ok x := by
  cases own with
  | some y => exact (assign_eq_of_type (type_of_assign h) v).trans h
  | none =>
      rw [eq_of_assignIn_none h]
      exact if_pos (.inr rfl)

/-- Values of one type do not differ in what they leave behind. -/
theorem isSettled_isOf (name : String) (t : ValueType) (own : Option Variable) :
    IsSettled name (Value.IsOf t) own := by
  cases own with
  | some y => exact isSettled_some name _ y
  | none =>
      intro v x hv hx v' hv'
      have htype : v'.type = v.type := hv'.2.trans hv.2.symm
      rw [eq_of_assignIn_none hx]
      simp only [assignIn, assign, hv'.isNone, htype, Bool.false_eq_true, false_or, if_true, if_false]

end Variable

/-! ## Worlds that differ in one variable -/

/-- In two worlds a scope has the same variables apart from one name, which takes some values in the
same way in both, and so have the globals. -/
structure World.SameBut (i : Interpreter) (J : Heap → Prop) (k : Nat) (name : String)
    (X : Value → Prop) (w w' : World) : Prop where
  left : w.Seats i J k
  right : w'.Seats i J k
  others : ∀ n, n ≠ name → w'.own? k n = w.own? k n
  takes : ∀ v, X v →
    Variable.assignIn name v (w'.own? k name) = Variable.assignIn name v (w.own? k name)
  globals : ∀ n, (w'.lookup i.globals n).map (·.toVariable) =
    (w.lookup i.globals n).map (·.toVariable)

namespace World

variable {i : Interpreter} {J : Heap → Prop} {k : Nat} {name : String} {X : Value → Prop}
  {w w' w'' w₁ w₁' : World} {x : Variable}

theorem SameFor.sameBut (h : SameFor i J k w w') : SameBut i J k name X w w' where
  left := h.left
  right := h.right
  others n _ := h.own n
  takes v _ := by rw [h.own]
  globals := h.globals

theorem SameBut.symm (h : SameBut i J k name X w w') : SameBut i J k name X w' w where
  left := h.right
  right := h.left
  others n hn := (h.others n hn).symm
  takes v hv := (h.takes v hv).symm
  globals n := (h.globals n).symm

theorem SameBut.trans (h : SameBut i J k name X w w') (h' : SameBut i J k name X w' w'') :
    SameBut i J k name X w w'' where
  left := h.left
  right := h'.right
  others n hn := (h'.others n hn).trans (h.others n hn)
  takes v hv := (h'.takes v hv).trans (h.takes v hv)
  globals n := (h'.globals n).trans (h.globals n)

/-- Where the name is bound to the same, the worlds do not differ. -/
theorem SameBut.sameFor (h : SameBut i J k name X w w') (hown : w'.own? k name = w.own? k name) :
    SameFor i J k w w' where
  left := h.left
  right := h.right
  own n := by
    by_cases hn : n = name
    · rw [hn, hown]
    · exact h.others n hn
  globals := h.globals

/-- When the name is bound to the same in both worlds, they no longer differ. -/
theorem SameBut.sets (h : SameBut i J k name X w w') (hsets : Sets i.host k name x w w₁)
    (hsets' : Sets i.host k name x w' w₁') : SameFor i J k w₁ w₁' where
  left := h.left.sets hsets
  right := h.right.sets hsets'
  own n := by
    rw [hsets.found, hsets'.found]
    by_cases hn : n = name
    · rw [if_pos hn, if_pos hn]
    · rw [if_neg hn, if_neg hn, h.others n hn]
  globals n := by
    rw [hsets.lookup_before h.left.above, hsets'.lookup_before h.left.above, h.globals]

/-- Binding the name to one of the values changes nothing else. -/
theorem Seats.sameBut_of_sets (h : w.Seats i J k) {v : Value} (hv : X v)
    (hsettled : Variable.IsSettled name X (w.own? k name))
    (hx : Variable.assignIn name v (w.own? k name) = .ok x)
    (hsets : Sets i.host k name x w w₁) : SameBut i J k name X w w₁ where
  left := h
  right := h.sets hsets
  others n hn := by rw [hsets.found, if_neg hn]
  takes v' hv' := by
    rw [hsets.found, if_pos rfl]
    exact hsettled v x hv hx v' hv'
  globals n := by rw [hsets.lookup_before h.above]

end World

/-! ## Expressions at values -/

namespace Expression

open World

/-- The value of an expression when a name is bound to a value. -/
def evaluateAt (i : Interpreter) (e : Expression) (name : String) (v : Value) :
    WorldAction Value := do
  e.assign i name v
  e.evaluate i

/-- What comes out of this. -/
def answer (i : Interpreter) (e : Expression) (name : String) (w : World) (v : Value) :
    Except Fault Value :=
  (e.evaluateAt i name v w).1

/-- The host code that an expression may run is pure, whichever of some values a name is bound to. -/
def IsPureOn (i : Interpreter) (J : Heap → Prop) (e : Expression) (name : String)
    (values : List Value) (w : World) : Prop :=
  ∀ v ∈ values, ∀ w', e.assign i name v w = (.ok (), w') →
    (e.setting i false w').HostCode w'.store e.tree (HostAction.IsPure J)

variable {i : Interpreter} {J : Heap → Prop} {e : Expression} {name : String} {X : Value → Prop}
  {v : Value} {values : List Value} {w w' : World}

theorem IsPureOn.of_mem (h : e.IsPureOn i J name values w) (hv : v ∈ values) :
    e.IsPureOn i J name [v] w := by
  intro v' hv' w' hassign
  obtain rfl := List.mem_singleton.1 hv'
  exact h v' hv w' hassign

/-- An evaluation leaves the variables as they are. -/
theorem sameFor_evaluate (h : w.Seats i J e.scope)
    (hpure : (e.setting i false w).HostCode w.store e.tree (HostAction.IsPure J)) :
    SameFor i J e.scope w (e.evaluate i w).2 where
  left := h
  right := (evaluate_same (.refl h) hpure).2.left
  own n := by
    rw [run_evaluate]
    rfl
  globals n := by rw [run_evaluate, lookup_withStore]

/-- The value at one of the values does not depend on what the name was bound to before, and
afterwards the worlds differ in nothing but the name. -/
theorem evaluateAt_same (h : SameBut i J e.scope name X w w') (hv : X v)
    (hpure : e.IsPureOn i J name [v] w) :
    e.answer i name w' v = e.answer i name w v ∧
      (Variable.IsSettled name X (w.own? e.scope name) →
        SameBut i J e.scope name X w (e.evaluateAt i name v w').2) := by
  have hrun := WorldAction.run_assign h.left.mapped h.left.scope name v
  have hrun' := WorldAction.run_assign h.right.mapped h.right.scope name v
  rw [h.takes v hv] at hrun'
  unfold answer evaluateAt assign
  cases hx : Variable.assignIn name v (w.own? e.scope name) with
  | error fault =>
      rw [hx] at hrun hrun'
      rw [run_bind_of_error hrun, run_bind_of_error hrun']
      exact ⟨rfl, fun _ => h⟩
  | ok x =>
      rw [hx] at hrun hrun'
      obtain ⟨w₁, hassign, hsets⟩ := hrun
      obtain ⟨w₁', hassign', hsets'⟩ := hrun'
      rw [run_bind_of_ok hassign, run_bind_of_ok hassign']
      have hcode := hpure v List.mem_cons_self w₁ hassign
      have hbound := h.sets hsets hsets'
      obtain ⟨hvalue, hworlds⟩ := evaluate_same hbound hcode
      refine ⟨hvalue.symm, fun hsettled => ?_⟩
      -- Along the left world: the name is bound, then the expression evaluated.
      have hfirst := h.left.sameBut_of_sets hv hsettled hx hsets
      have hsecond := sameFor_evaluate hbound.left hcode
      exact (hfirst.trans hsecond.sameBut).trans hworlds.sameBut

/-- It makes no difference when the name is bound to the value already. -/
theorem evaluateAt_again {x : Variable} {w₁ : World} (h : w.Seats i J e.scope)
    (hx : Variable.assignIn name v (w.own? e.scope name) = .ok x)
    (hassign : e.assign i name v w = (.ok (), w₁)) (hsets : Sets i.host e.scope name x w w₁)
    (hpure : e.IsPureOn i J name [v] w₁) :
    e.answer i name w v = e.answer i name w₁ v ∧
      SameFor i J e.scope w₁ (e.evaluateAt i name v w).2 := by
  have hagain : Variable.IsSettled name (· = v) (w.own? e.scope name) := by
    rintro _ y rfl hy _ rfl
    rw [hy, Variable.assignIn_again hy]
  have hsame := h.sameBut_of_sets (X := (· = v)) rfl hagain hx hsets
  have hsettled : Variable.IsSettled name (· = v) (w₁.own? e.scope name) := by
    rw [hsets.found, if_pos rfl]
    exact Variable.isSettled_some name _ x
  obtain ⟨hvalue, hworlds⟩ := evaluateAt_same hsame.symm rfl hpure
  refine ⟨hvalue, (hworlds hsettled).sameFor ?_⟩
  unfold evaluateAt
  rw [run_bind_of_ok hassign, run_evaluate]
  rfl

end Expression

end Formula
