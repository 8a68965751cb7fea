import Formula.Proofs.Evaluation.Failure

set_option autoImplicit false

/-! # Trees of operations on literals, lists and names

A tree without members, calls and conditionals runs no host code and asks nothing of the store: what
its evaluation gives is decided by the values of its names. So the outcome of an operation is put
together from the outcomes of its operands, all of them seen from one store.

Main statements: `Setting.evaluate_eq_of_isPlain`, `Setting.evaluate_binary` and, for the outcome of an
operation case by case, `Setting.computes_evaluate`. -/

namespace Formula

/-- Trees of literals, lists and names, and of operations on them. -/
inductive Node.IsPlain : Node → Prop
  | literal (value : Scalar) : IsPlain (.literal value)
  | list (items : Items) : IsPlain (.list items)
  | name (n : String) : IsPlain (.name n)
  | binary {op : Operator} {left right : Node} :
      IsPlain left → IsPlain right → IsPlain (.binary op left right)

theorem Node.eq_list_of_items? {n : Node} {items : Items}
    (h : n.items? = some items) : n = .list items := by
  cases n with
  | list _ =>
      cases h
      rfl
  | _ => cases h

theorem of_mapError_eq_ok {ε ε' α : Type} {f : ε → ε'} {x : Except ε α} {a : α}
    (h : x.mapError f = .ok a) : x = .ok a := by
  cases x with
  | error e => cases h
  | ok b =>
      cases h
      rfl

theorem of_mapError_eq_error {ε ε' α : Type} {f : ε → ε'} {x : Except ε α} {e : ε'}
    (h : x.mapError f = .error e) : ∃ cause, x = .error cause ∧ e = f cause := by
  cases x with
  | error cause =>
      cases h
      exact ⟨cause, rfl, rfl⟩
  | ok b => cases h

/-- What an operation makes of the outcomes of its operands. A list on its right is no operand of its
own. -/
def Operator.result (op : Operator) (a : Except Fault Value) (items? : Option Items)
    (b : Except Fault Value) : Except Fault Value :=
  match a, items?, b with
  | .error fault, _, _ => .error fault
  | .ok x, some items, _ => op.applyToItems x items
  | .ok _, none, .error fault => .error fault
  | .ok x, none, .ok y => op.apply x y

namespace Setting

variable {s : Setting}

theorem evaluate_literal (x : Scalar) (σ : Store) :
    (s.evaluate (.literal x) σ).1 = .ok x.toValue := by
  rw [evaluate, complete_eq]
  rfl

theorem evaluate_list (items : Items) (σ : Store) :
    (s.evaluate (.list items) σ).1 = .ok (.list items.values) := by
  rw [evaluate, complete_eq]
  rfl

theorem evaluate_name {n : String} {b : Binding} (h : s.lookup n = some b) (σ : Store) :
    (s.evaluate (.name n) σ).1 = .ok b.value := by
  rw [evaluate, complete_eq, readName, h]
  rfl

theorem evaluate_name_of_none {n : String} (h : s.lookup n = none) (σ : Store) :
    (s.evaluate (.name n) σ).1 = .error (.evaluation n (.unboundName n)) := by
  rw [evaluate, complete_eq, readName, h]
  rfl

theorem evaluate_binary_of_eq {op : Operator} {left right : Node}
    (hright : ∀ σ τ, (s.evaluate right σ).1 = (s.evaluate right τ).1) (σ : Store) :
    (s.evaluate (.binary op left right) σ).1 =
      (op.result (s.evaluate left σ).1 right.items? (s.evaluate right σ).1).mapError
        (·.within (Node.binary op left right).text) := by
  rw [evaluate, complete_eq]
  congr 1
  rcases hleft : s.evaluate left σ with ⟨fault | a, σ'⟩
  · rw [run_bind_of_error hleft]
    rfl
  · rw [run_bind_of_ok hleft]
    cases right.items? with
    | some items =>
        simp only [Operator.result]
        cases op.applyToItems a items <;> rfl
    | none =>
        simp only
        rw [hright σ σ']
        rcases hrun : s.evaluate right σ' with ⟨fault | b, σ''⟩
        · rw [run_bind_of_error hrun]
          rfl
        · rw [run_bind_of_ok hrun]
          simp only [Operator.result]
          cases op.apply a b <;> rfl

/-- The outcome of a plain tree does not depend on the store. -/
theorem evaluate_eq_of_isPlain {n : Node} (h : n.IsPlain) (σ τ : Store) :
    (s.evaluate n σ).1 = (s.evaluate n τ).1 := by
  induction h generalizing σ τ with
  | literal x => rw [evaluate_literal, evaluate_literal]
  | list items => rw [evaluate_list, evaluate_list]
  | name n =>
      cases hlookup : s.lookup n with
      | none => rw [evaluate_name_of_none hlookup, evaluate_name_of_none hlookup]
      | some b => rw [evaluate_name hlookup, evaluate_name hlookup]
  | binary _ _ ihl ihr =>
      rw [evaluate_binary_of_eq ihr, evaluate_binary_of_eq ihr, ihl σ τ, ihr σ τ]

/-- The outcome of an operation on plain trees, seen from one store. -/
theorem evaluate_binary {right : Node} (hright : right.IsPlain) (op : Operator) (left : Node)
    (σ : Store) :
    (s.evaluate (.binary op left right) σ).1 =
      (op.result (s.evaluate left σ).1 right.items? (s.evaluate right σ).1).mapError
        (·.within (Node.binary op left right).text) :=
  evaluate_binary_of_eq (evaluate_eq_of_isPlain hright) σ

/-- A fault of an evaluation names a node already. -/
theorem within_of_evaluate {n : Node} {σ : Store} {fault : Fault}
    (h : (s.evaluate n σ).1 = .error fault) (source : String) : fault.within source = fault := by
  rw [Fault.within, if_pos (isEvaluation_of_evaluate h)]

/-- An operation fails like its left operand. -/
theorem evaluate_binary_of_error {right : Node} (hright : right.IsPlain) (op : Operator)
    {left : Node} {σ : Store} {fault : Fault} (h : (s.evaluate left σ).1 = .error fault) :
    (s.evaluate (.binary op left right) σ).1 = .error fault := by
  rw [evaluate_binary hright, h]
  exact congrArg Except.error (within_of_evaluate h _)

/-- An operation on two operands has the value that its operator gives. -/
theorem evaluate_binary_of_ok {op : Operator} {left right : Node} {σ : Store} {a b v : Value}
    (hright : right.IsPlain) (hitems : right.items? = none) (ha : (s.evaluate left σ).1 = .ok a)
    (hb : (s.evaluate right σ).1 = .ok b) (h : op.apply a b = .ok v) :
    (s.evaluate (.binary op left right) σ).1 = .ok v := by
  rw [evaluate_binary hright, ha, hitems, hb, Operator.result, h]
  rfl

/-- An operation with a list on its right has the value that its operator gives. -/
theorem evaluate_binary_list_of_ok {op : Operator} {left : Node} {items : Items} {σ : Store}
    {a v : Value} (ha : (s.evaluate left σ).1 = .ok a) (h : op.applyToItems a items = .ok v) :
    (s.evaluate (.binary op left (.list items)) σ).1 = .ok v := by
  rw [evaluate_binary (.list items), ha, Node.items?, Operator.result, h]
  rfl

/-- How an operation comes to its outcome. -/
inductive Computes (s : Setting) (σ : Store) (op : Operator) (left right : Node) :
    Except Fault Value → Prop
  | left {fault : Fault} :
      (s.evaluate left σ).1 = .error fault → Computes s σ op left right (.error fault)
  | items {a : Value} {items : Items} :
      (s.evaluate left σ).1 = .ok a → right = .list items →
      Computes s σ op left right
        ((op.applyToItems a items).mapError (·.within (Node.binary op left right).text))
  | right {a : Value} {fault : Fault} :
      (s.evaluate left σ).1 = .ok a → right.items? = none →
      (s.evaluate right σ).1 = .error fault → Computes s σ op left right (.error fault)
  | operands {a b : Value} :
      (s.evaluate left σ).1 = .ok a → right.items? = none → (s.evaluate right σ).1 = .ok b →
      Computes s σ op left right
        ((op.apply a b).mapError (·.within (Node.binary op left right).text))

theorem computes_evaluate {right : Node} (hright : right.IsPlain) (op : Operator) (left : Node)
    (σ : Store) : s.Computes σ op left right (s.evaluate (.binary op left right) σ).1 := by
  cases hl : (s.evaluate left σ).1 with
  | error fault =>
      rw [evaluate_binary_of_error hright op hl]
      exact .left hl
  | ok a =>
      rw [evaluate_binary hright, hl]
      cases hitems : right.items? with
      | some items => exact .items hl (Node.eq_list_of_items? hitems)
      | none =>
          cases hr : (s.evaluate right σ).1 with
          | error fault =>
              have hfails : s.Computes σ op left right
                  (.error (fault.within (Node.binary op left right).text)) := by
                rw [within_of_evaluate hr]
                exact .right hl hitems hr
              exact hfails
          | ok b => exact .operands hl hitems hr

/-- An operation has a value where its operands have values on which its operator is defined. -/
theorem of_evaluate_binary_eq_ok {op : Operator} {left right : Node} {σ : Store} {v : Value}
    (hright : right.IsPlain) (h : (s.evaluate (.binary op left right) σ).1 = .ok v) :
    ∃ a, (s.evaluate left σ).1 = .ok a ∧
      ((∃ items, right = .list items ∧ op.applyToItems a items = .ok v) ∨
        right.items? = none ∧ ∃ b, (s.evaluate right σ).1 = .ok b ∧ op.apply a b = .ok v) := by
  have hcomputes := @computes_evaluate s right hright op left σ
  generalize (s.evaluate (.binary op left right) σ).1 = outcome at hcomputes h
  cases hcomputes with
  | left hl => cases h
  | items ha hitems => exact ⟨_, ha, .inl ⟨_, hitems, of_mapError_eq_ok h⟩⟩
  | right ha hitems hb => cases h
  | operands ha hitems hb => exact ⟨_, ha, .inr ⟨hitems, _, hb, of_mapError_eq_ok h⟩⟩

/-- One variable, and no functions or host code. -/
def single (x : String) (v : Value) : Setting where
  host := ⟨[], []⟩
  functions := .empty
  lookup n := if n = x then some ⟨⟨v.type, v⟩, 0⟩ else none
  traced := false

end Setting

end Formula
