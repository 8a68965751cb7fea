import Formula.Proofs.Evaluation.Plain
import Formula.Proofs.Number.Quotient
import Formula.Text.Radix

set_option autoImplicit false

/-! # Division of integers

Wherever both operands of a division are integers, whatever trees they come from, its value is the
integer nearest to the quotient. So the laws of that integer are laws of division: a factor that was
multiplied in comes out again, and signs are carried over. A division by zero fails; the fault names
the division and says what was divided.

Main statement: `Setting.evaluate_division`. -/

namespace Formula

/-- The operator divides integers as the nearest integer says. -/
theorem Operator.apply_division (a : Int) {b : Int} (hb : b ≠ 0) :
    dividedBy.apply (.int a) (.int b) = .ok (.int (Number.roundDivInt a b)) := by
  show (Number.Numeric.div (.int a) (.int b)).map Value.ofNumeric = _
  rw [Number.Numeric.div, if_neg hb]
  rfl

theorem Operator.apply_division_zero (a : Int) :
    dividedBy.apply (.int a) (.int 0) = .error (.divisionByZero a) := by
  rfl

namespace Setting

variable {s : Setting} {left right : Node} {σ : Store}

/-- The operands of an operation have values; the right one is evaluated where the left one was
done. -/
def HaveValues (s : Setting) (σ : Store) (left right : Node) (a b : Value) : Prop :=
  ∃ σ' σ'', s.evaluate left σ = (.ok a, σ') ∧ s.evaluate right σ' = (.ok b, σ'')

/-- The outcome of an operation is what its operator makes of the values of its operands. -/
theorem evaluate_binary_of_haveValues {op : Operator} {a b : Value}
    (h : s.HaveValues σ left right a b) (hitems : right.items? = none) :
    (s.evaluate (.binary op left right) σ).1 =
      (op.apply a b).mapError (·.within (Node.binary op left right).text) := by
  obtain ⟨σ', σ'', ha, hb⟩ := h
  rw [evaluate, complete_eq, run_bind_of_ok ha, hitems]
  simp only
  rw [run_bind_of_ok hb]
  cases op.apply a b <;> rfl

/-- An operand that has an integer as its value is no list literal. -/
theorem HaveValues.items?_eq_none {a : Value} {b : Int}
    (h : s.HaveValues σ left right a (.int b)) : right.items? = none := by
  obtain ⟨σ', σ'', _, hb⟩ := h
  cases hitems : right.items? with
  | none => rfl
  | some items =>
      obtain rfl := Node.eq_list_of_items? hitems
      have hlist := @evaluate_list s items σ'
      rw [hb] at hlist
      cases hlist

/-- Every division of the first integer by the second one has the third one as its value. -/
def Divides (s : Setting) (a b q : Int) : Prop :=
  ∀ left right σ, s.HaveValues σ left right (.int a) (.int b) →
    (s.evaluate (.binary .dividedBy left right) σ).1 = .ok (.int q)

theorem divides_roundDivInt (s : Setting) (a : Int) {b : Int} (hb : b ≠ 0) :
    s.Divides a b (Number.roundDivInt a b) := by
  intro left right σ hvalues
  rw [evaluate_binary_of_haveValues hvalues hvalues.items?_eq_none, Operator.apply_division a hb]
  rfl

/-- A division has the integer as its value that is nearest to the quotient. -/
theorem divides_of_isNearest {a b q : Int} (hb : b ≠ 0) (h : Number.IsNearest a b q) :
    s.Divides a b q := by
  rw [(Number.isNearest_iff hb).1 h]
  exact s.divides_roundDivInt a hb

/-- A division of integers has the one integer as its value that misses the quotient by at most a half
and is even if it misses it by a half; so a factor comes out again, and signs are carried over. By zero
it fails, for any dividend that is short enough to be written in the message. -/
theorem evaluate_division (s : Setting) (a b : Int) :
    (b ≠ 0 → ∃ q, (∀ r, Number.IsNearest a b r ↔ r = q) ∧ s.Divides a b q ∧
      s.Divides (-a) b (-q) ∧ s.Divides a (-b) (-q) ∧ s.Divides (a * b) b a) ∧
    (b = 0 → (Nat.toDigits 10 a.natAbs).length ≤ Text.digitLimit →
      ∀ left right σ, s.HaveValues σ left right (.int a) (.int b) →
        ∃ cause, (s.evaluate (.binary .dividedBy left right) σ).1 =
            .error (.evaluation (Node.binary .dividedBy left right).text cause) ∧
          cause.kind = "ZeroDivisionError" ∧ cause.message = "Fraction(" ++ toString a ++ ", 0)") := by
  constructor
  · intro hb
    have hnearest := Number.isNearest_roundDivInt a hb
    refine ⟨Number.roundDivInt a b, fun r => Number.isNearest_iff hb, ?_, ?_, ?_, ?_⟩
    · exact divides_of_isNearest hb hnearest
    · exact divides_of_isNearest hb hnearest.neg_left
    · exact divides_of_isNearest (Int.neg_ne_zero.2 hb) hnearest.neg_right
    · exact divides_of_isNearest hb (Number.isNearest_mul_self a hb)
  · rintro rfl _ left right σ hvalues
    refine ⟨.divisionByZero a, ?_, rfl, rfl⟩
    rw [evaluate_binary_of_haveValues hvalues hvalues.items?_eq_none, Operator.apply_division_zero]
    rfl

/-- Minus seven divided by two, and by zero. -/
theorem evaluate_division_seven :
    ((2 : Int) ≠ 0 ∧ ((single "x" (.int (-7))).evaluate
        (.binary .dividedBy (.name "x") (.literal (.int 2))) .empty).1 = .ok (.int (-4))) ∧
      ((0 : Int) = 0 ∧ (Nat.toDigits 10 (-7 : Int).natAbs).length ≤ Text.digitLimit ∧
        ∃ cause, ((single "x" (.int (-7))).evaluate
            (.binary .dividedBy (.name "x") (.literal (.int 0))) .empty).1 =
              .error (.evaluation "x / 0" cause) ∧
          cause.kind = "ZeroDivisionError" ∧ cause.message = "Fraction(-7, 0)") := by
  have hvalues (n : Int) : (single "x" (.int (-7))).HaveValues .empty (.name "x") (.literal (.int n))
      (.int (-7)) (.int n) := ⟨.empty, .empty, rfl, rfl⟩
  have hshort : (Nat.toDigits 10 (-7 : Int).natAbs).length ≤ Text.digitLimit := by decide
  constructor
  · obtain ⟨q, hq, hdivides, _⟩ := (evaluate_division (single "x" (.int (-7))) (-7) 2).1 (by decide)
    obtain rfl : -4 = q := (hq (-4)).1 ⟨by decide, by decide⟩
    exact ⟨by decide, hdivides _ _ _ (hvalues 2)⟩
  · refine ⟨rfl, hshort, ?_⟩
    exact (evaluate_division (single "x" (.int (-7))) (-7) 0).2 rfl hshort _ _ _ (hvalues 0)

end Setting

end Formula
