import Formula.Proofs.Evaluation.Plain
import Formula.Proofs.Grammar.Soundness
import Formula.Proofs.Host.Faults

set_option autoImplicit false

/-! # The kinds of results

What an operation gives depends on its operands, but the kind of what it gives depends on their kinds
only. So the kind of a plain tree can be computed from the kinds of its names, without evaluating it,
and where this fails no evaluation has a value: some membership test asks for a value of the wrong
kind.

Main statements: `Setting.kindIn_of_evaluate` (the computed kind is the kind of the value) and, for
two of its cases, `Node.kindIn_of_isArithmetic` and `Node.kindIn_of_none`. -/

namespace Formula

open Number (Numeric)

/-! ## Kinds -/

/-- What operators tell apart. -/
inductive Kind where
  | none
  | bool
  | int
  | float
  | str
  | other
  deriving DecidableEq, Repr

/-- The kind of the values of a type. -/
def ValueType.kind : ValueType → Kind
  | none => .none
  | bool => .bool
  | int => .int
  | float => .float
  | str => .str
  | _ => .other

/-- The kind of a value. -/
def Value.kind (v : Value) : Kind := v.type.kind

theorem Value.kind_eq_none {v : Value} : v.kind = .none ↔ v = .none := by
  cases v <;> simp [kind, type, ValueType.kind]

/-- A value has the type of the items of a list if it has their kind. -/
theorem Value.type_eq_iff {v : Value} {items : Items} :
    v.type = items.type ↔ v.kind = items.type.kind := by
  cases items <;> cases v <;> simp [kind, type, Items.type, ValueType.kind]

/-- The kind of a number. -/
def Number.Numeric.kind : Numeric → Kind
  | int _ => .int
  | float _ => .float

/-- The kind that numbers of two kinds are calculated with. -/
def Kind.joined : Kind → Kind → Kind
  | int, int => .int
  | _, _ => .float

theorem Value.kind_of_number? {v : Value} {x : Numeric} (h : v.number? = some x) :
    v.kind = x.kind := by
  cases v with
  | int n | float y | nan id =>
      cases h
      rfl
  | _ => cases h

theorem Value.exists_number? {v : Value} (h : v.kind = .int ∨ v.kind = .float) :
    ∃ x, v.number? = some x := by
  cases v with
  | int n | float y | nan id => exact ⟨_, rfl⟩
  | _ => simp [kind, type, ValueType.kind] at h

theorem Value.exists_bool {v : Value} (h : v.kind = .bool) : ∃ b, v = .bool b := by
  cases v with
  | bool b => exact ⟨b, rfl⟩
  | _ => cases h

theorem Value.exists_str {v : Value} (h : v.kind = .str) : ∃ s, v = .str s := by
  cases v with
  | str s => exact ⟨s, rfl⟩
  | _ => cases h

@[simp] theorem Value.kind_ofNumeric (x : Numeric) : (ofNumeric x).kind = x.kind := by
  cases x <;> rfl

namespace Operator

/-! ## Operators on kinds -/

/-- Whether an operator calculates with numbers. -/
def calculates : Operator → Bool
  | plus | minus | times | dividedBy => true
  | _ => false

/-- The kind of the result of an operator on numbers, if calculating gives the given kind. -/
def kindOfNumbers (op : Operator) (calculated : Kind) : Kind :=
  match op with
  | equal | unequal | greater | less | greaterOrEqual | lessOrEqual => .bool
  | plus | minus | times | dividedBy => calculated
  | either | both | member | absent => .none

/-- The kind of the result of an operator on values of two kinds. -/
def kindOf (op : Operator) : Kind → Kind → Kind
  | .bool, .bool => match op with
    | either | both => .bool
    | _ => .none
  | .str, .str => match op with
    | equal | unequal => .bool
    | plus => .str
    | _ => .none
  | .int, .int => op.kindOfNumbers .int
  | .int, .float | .float, .int | .float, .float => op.kindOfNumbers .float
  | _, _ => .none

/-- The kind of the result of an operator on a value of a kind and a list, or nothing if the kinds do
not go together. -/
def kindOfItems (op : Operator) (kind : Kind) (items : Items) : Option Kind :=
  match op with
  | member | absent =>
    if kind = .none then some .none else if kind = items.type.kind then some .bool else none
  | _ => some .none

theorem kindOf_none_left (op : Operator) (k : Kind) : op.kindOf .none k = .none := by
  cases k <;> rfl

theorem kindOf_none_right (op : Operator) (k : Kind) : op.kindOf k .none = .none := by
  cases k <;> rfl

theorem kindOfItems_none (op : Operator) (items : Items) :
    op.kindOfItems .none items = some .none := by
  cases op <;> rfl

/-- Calculating with numbers gives a floating-point number if one of them is one. -/
theorem kindOf_of_calculates {op : Operator} (h : op.calculates = true) (p q : Prop) [Decidable p]
    [Decidable q] : op.kindOf (if p then .float else .int) (if q then .float else .int) =
      if p ∨ q then .float else .int := by
  have hnumbers (k : Kind) : op.kindOfNumbers k = k := by
    cases op with
    | plus | minus | times | dividedBy => rfl
    | _ => cases h
  by_cases hp : p <;> by_cases hq : q <;> simp [hp, hq, kindOf, hnumbers]

variable {op : Operator} {a b v : Value}

theorem kindOf_numeric (op : Operator) (x y : Numeric) :
    op.kindOf x.kind y.kind = op.kindOfNumbers (x.kind.joined y.kind) := by
  cases x <;> cases y <;> rfl

/-- Numbers are calculated with at their joint kind. -/
theorem kind_of_combine {ints : Int → Int → Int}
    {floats : Number.Binary64 → Number.Binary64 → Number.Binary64} {x y z : Numeric}
    (h : Numeric.combine ints floats x y = .ok z) : z.kind = x.kind.joined y.kind := by
  unfold Numeric.combine at h
  split at h
  · cases h
    rfl
  next hints =>
    obtain ⟨_, _, h⟩ := Grammar.exists_of_bind_eq_ok h
    obtain ⟨_, _, h⟩ := Grammar.exists_of_bind_eq_ok h
    cases h
    cases x with
    | float _ => rfl
    | int m =>
        cases y with
        | float _ => rfl
        | int n => exact absurd rfl (hints m n rfl)

theorem kind_of_div {x y z : Numeric} (h : x.div y = .ok z) :
    z.kind = x.kind.joined y.kind := by
  unfold Numeric.div at h
  split at h
  · split at h
    · cases h
    · cases h
      rfl
  next hints =>
    obtain ⟨a, _, h⟩ := Grammar.exists_of_bind_eq_ok h
    obtain ⟨b, _, h⟩ := Grammar.exists_of_bind_eq_ok h
    have hz : z.kind = .float := by
      cases hquotient : a.div? b with
      | none =>
          rw [hquotient] at h
          cases h
      | some q =>
          rw [hquotient] at h
          cases h
          rfl
    rw [hz]
    cases x with
    | float _ => rfl
    | int m =>
        cases y with
        | float _ => rfl
        | int n => exact absurd rfl (hints m n rfl)

theorem exists_ofNumeric {result : Except Fault Numeric}
    (h : result.map Value.ofNumeric = .ok v) : ∃ z, result = .ok z ∧ v = .ofNumeric z := by
  cases result with
  | error fault => cases h
  | ok z =>
      cases h
      exact ⟨z, rfl, rfl⟩

theorem kind_of_onNumbers {x y : Numeric} (h : op.onNumbers x y = .ok v) :
    v.kind = op.kindOf x.kind y.kind := by
  rw [kindOf_numeric]
  have calculated {result : Except Fault Numeric} (hresult : result.map Value.ofNumeric = .ok v)
      (hkind : ∀ z, result = .ok z → z.kind = x.kind.joined y.kind) :
      v.kind = x.kind.joined y.kind := by
    obtain ⟨z, hz, rfl⟩ := exists_ofNumeric hresult
    rw [Value.kind_ofNumeric, hkind z hz]
  cases op with
  | plus | minus | times => exact calculated h fun _ => kind_of_combine
  | dividedBy => exact calculated h fun _ => kind_of_div
  | _ =>
      cases h
      rfl

/-- Values that are neither truth values nor texts nor numbers together give the absent value. -/
theorem kindOf_eq_none {k l : Kind} (hbool : ¬ (k = .bool ∧ l = .bool))
    (hstr : ¬ (k = .str ∧ l = .str))
    (hnumber : ¬ ((k = .int ∨ k = .float) ∧ (l = .int ∨ l = .float))) : op.kindOf k l = .none := by
  cases k <;> cases l <;> first | rfl | simp at hbool hstr hnumber

/-- Operators give what their table of kinds says. -/
theorem kind_of_apply (h : op.apply a b = .ok v) : v.kind = op.kindOf a.kind b.kind := by
  unfold apply at h
  split at h
  · cases h
    cases op <;> rfl
  · cases h
    cases op <;> rfl
  next hbools hstrs =>
    split at h
    next x y hx hy =>
      rw [Value.kind_of_number? hx, Value.kind_of_number? hy]
      exact kind_of_onNumbers h
    next hnumbers =>
      cases h
      refine (kindOf_eq_none ?_ ?_ ?_).symm
      · rintro ⟨ha, hb⟩
        obtain ⟨x, rfl⟩ := Value.exists_bool ha
        obtain ⟨y, rfl⟩ := Value.exists_bool hb
        exact hbools x y rfl rfl
      · rintro ⟨ha, hb⟩
        obtain ⟨x, rfl⟩ := Value.exists_str ha
        obtain ⟨y, rfl⟩ := Value.exists_str hb
        exact hstrs x y rfl rfl
      · rintro ⟨ha, hb⟩
        obtain ⟨x, hx⟩ := Value.exists_number? ha
        obtain ⟨y, hy⟩ := Value.exists_number? hb
        exact hnumbers x y hx hy

/-- What a membership test says, by the kind of the value. -/
inductive Occurs (v : Value) (items : Items) : Except Fault (Option Bool) → Prop
  | absent : v.kind = .none → Occurs v items (.ok none)
  | found (b : Bool) : v.kind ≠ .none → v.kind = items.type.kind → Occurs v items (.ok (some b))
  | refused (fault : Fault) : v.kind ≠ .none → v.kind ≠ items.type.kind →
      Occurs v items (.error fault)

theorem occurs_occursIn (v : Value) (items : Items) : Occurs v items (occursIn v items) := by
  have hnone : v.isNone = true ↔ v.kind = .none := by
    rw [Value.kind_eq_none]
    cases v <;> simp [Value.isNone]
  unfold occursIn
  split
  next h => exact .absent (hnone.1 h)
  next h =>
    have h' : v.kind ≠ .none := fun hkind => h (hnone.2 hkind)
    split
    next htype => exact .found _ h' (Value.type_eq_iff.1 htype)
    next htype => exact .refused _ h' fun hkind => htype (Value.type_eq_iff.2 hkind)

/-- Operators give beside a list what their table of kinds says, and fail where it says nothing. -/
theorem kindOfItems_eq (op : Operator) (a : Value) (items : Items) :
    op.kindOfItems a.kind items = ((op.applyToItems a items).map Value.kind).toOption := by
  have hoccurs {f : Option Bool → Value} (hf : (f none).kind = .none)
      (hf' : ∀ b, (f (some b)).kind = .bool) :
      (if a.kind = .none then some .none else if a.kind = items.type.kind then some .bool
        else none) = (((occursIn a items).map f).map Value.kind).toOption := by
    have houtcome := occurs_occursIn a items
    generalize occursIn a items = outcome at houtcome
    cases houtcome with
    | absent h =>
        rw [if_pos h]
        simp [Except.map, Except.toOption, hf]
    | found b h h' =>
        rw [if_neg h, if_pos h']
        simp [Except.map, Except.toOption, hf']
    | refused fault h h' =>
        rw [if_neg h, if_neg h']
        rfl
  cases op with
  | member => exact hoccurs rfl fun _ => rfl
  | absent => exact hoccurs rfl fun _ => rfl
  | _ => rfl

end Operator

/-! ## Trees -/

namespace Node

/-- The kind of a plain tree whose names have values of the given kinds, or nothing if a membership
test in it asks for a value of another kind. -/
def kindIn (env : String → Kind) : Node → Option Kind
  | literal x => some x.toValue.kind
  | list _ => some .other
  | name n => some (env n)
  | binary op left right =>
    match kindIn env left, right.items?, kindIn env right with
    | some a, some items, _ => op.kindOfItems a items
    | some a, none, some b => some (op.kindOf a b)
    | _, _, _ => none
  | member _ _ | call _ _ _ | conditional _ _ _ => none

/-- The kinds of the leaves of a plain tree, from left to right. -/
def leafKinds (env : String → Kind) : Node → List Kind
  | literal x => [x.toValue.kind]
  | list _ => [.other]
  | name n => [env n]
  | binary _ left right => leafKinds env left ++ leafKinds env right
  | member _ _ | call _ _ _ | conditional _ _ _ => []

/-- Trees whose operators all calculate with numbers. -/
def IsArithmetic (n : Node) : Prop :=
  ∀ op left right, .binary op left right ∈ n.walk → op.calculates = true

variable {env : String → Kind} {n : Node}

theorem kindIn_binary_list {op : Operator} {left : Node} {items : Items} {a : Kind}
    (ha : left.kindIn env = some a) :
    (binary op left (list items)).kindIn env = op.kindOfItems a items := by
  rw [kindIn, ha]
  rfl

theorem kindIn_binary {op : Operator} {left right : Node} {a b : Kind}
    (ha : left.kindIn env = some a) (hitems : right.items? = none)
    (hb : right.kindIn env = some b) :
    (binary op left right).kindIn env = some (op.kindOf a b) := by
  rw [kindIn, ha, hitems, hb]

/-- An operation has a kind where its operands have kinds that go together. -/
theorem of_kindIn_binary {op : Operator} {left right : Node} {k : Kind}
    (h : (binary op left right).kindIn env = some k) :
    ∃ a, left.kindIn env = some a ∧
      ((∃ items, right = list items ∧ op.kindOfItems a items = some k) ∨
        right.items? = none ∧ ∃ b, right.kindIn env = some b ∧ k = op.kindOf a b) := by
  rw [kindIn] at h
  split at h
  next a items ha hitems => exact ⟨a, ha, .inl ⟨items, eq_list_of_items? hitems, h⟩⟩
  next a b ha hitems hb =>
    cases h
    exact ⟨a, ha, .inr ⟨hitems, b, hb, rfl⟩⟩
  · cases h

/-- Numbers are calculated with at the kind that all leaves have together. -/
theorem kindIn_of_isArithmetic (hplain : n.IsPlain) (harithmetic : n.IsArithmetic)
    (hleaves : ∀ k ∈ n.leafKinds env, k = .int ∨ k = .float) :
    n.kindIn env = some (if .float ∈ n.leafKinds env then .float else .int) := by
  induction hplain with
  | literal x =>
      rcases hleaves _ (List.mem_singleton_self _) with hkind | hkind
      · simp [kindIn, leafKinds, hkind]
      · simp [kindIn, leafKinds, hkind]
  | list items => simp [leafKinds] at hleaves
  | name x =>
      rcases hleaves _ (List.mem_singleton_self _) with hkind | hkind
      · simp [kindIn, leafKinds, hkind]
      · simp [kindIn, leafKinds, hkind]
  | @binary op left right hl hr ihl ihr =>
      have hleft := ihl (fun op l r h => harithmetic op l r (mem_walk_binary.2 (.inr (.inl h))))
        fun k hk => hleaves k (List.mem_append_left _ hk)
      have hright := ihr (fun op l r h => harithmetic op l r (mem_walk_binary.2 (.inr (.inr h))))
        fun k hk => hleaves k (List.mem_append_right _ hk)
      have hop := harithmetic op left right (mem_walk_self _)
      have hitems : right.items? = none := by
        cases right with
        | list items =>
            have hother := hleaves .other (by simp [leafKinds])
            simp at hother
        | _ => rfl
      rw [kindIn_binary hleft hitems hright, Operator.kindOf_of_calculates hop]
      simp [leafKinds]

/-- A leaf without a value takes the value from every operation above it. -/
theorem kindIn_of_none {k : Kind} (hplain : n.IsPlain) (hleaf : .none ∈ n.leafKinds env)
    (h : n.kindIn env = some k) : k = .none := by
  induction hplain generalizing k with
  | literal x =>
      cases x <;> simp [leafKinds, Scalar.toValue, Value.kind, Value.type, ValueType.kind] at hleaf
  | list items => simp [leafKinds] at hleaf
  | name x =>
      cases h
      simpa [leafKinds, eq_comm] using hleaf
  | @binary op left right hl hr ihl ihr =>
      obtain ⟨a, ha, hcases⟩ := of_kindIn_binary h
      rcases List.mem_append.1 hleaf with hleaf | hleaf
      · obtain rfl := ihl hleaf ha
        rcases hcases with ⟨items, _, hk⟩ | ⟨_, b, _, rfl⟩
        · rw [Operator.kindOfItems_none] at hk
          exact (Option.some.inj hk).symm
        · exact op.kindOf_none_left b
      · rcases hcases with ⟨items, rfl, _⟩ | ⟨_, b, hb, rfl⟩
        · simp [leafKinds] at hleaf
        · obtain rfl := ihr hleaf hb
          exact op.kindOf_none_right a

end Node

namespace Setting

variable {s : Setting} {env : String → Kind} {n : Node} {σ : Store}

/-- All names of a tree are bound, to values of the given kinds. -/
def HasKinds (s : Setting) (env : String → Kind) (n : Node) : Prop :=
  ∀ x, .name x ∈ n.walk → ∃ b, s.lookup x = some b ∧ b.value.kind = env x

theorem HasKinds.left {op : Operator} {left right : Node}
    (h : s.HasKinds env (.binary op left right)) : s.HasKinds env left :=
  fun x hx => h x (Node.mem_walk_binary.2 (.inr (.inl hx)))

theorem HasKinds.right {op : Operator} {left right : Node}
    (h : s.HasKinds env (.binary op left right)) : s.HasKinds env right :=
  fun x hx => h x (Node.mem_walk_binary.2 (.inr (.inr hx)))

/-- The value of a tree has the kind that is computed for the tree. -/
theorem kindIn_of_evaluate {v : Value} (hplain : n.IsPlain) (hkinds : s.HasKinds env n)
    (h : (s.evaluate n σ).1 = .ok v) : n.kindIn env = some v.kind := by
  induction hplain generalizing v with
  | literal x =>
      rw [evaluate_literal] at h
      cases h
      rfl
  | list items =>
      rw [evaluate_list] at h
      cases h
      rfl
  | name x =>
      obtain ⟨b, hb, hkind⟩ := hkinds x (Node.mem_walk_self _)
      rw [evaluate_name hb] at h
      cases h
      rw [Node.kindIn, hkind]
  | @binary op left right hl hr ihl ihr =>
      obtain ⟨a, ha, hcases⟩ := of_evaluate_binary_eq_ok hr h
      have hleft := ihl hkinds.left ha
      rcases hcases with ⟨items, rfl, happly⟩ | ⟨hitems, b, hb, happly⟩
      · rw [Node.kindIn_binary_list hleft, Operator.kindOfItems_eq, happly]
        rfl
      · rw [Node.kindIn_binary hleft hitems (ihr hkinds.right hb), Operator.kind_of_apply happly]

end Setting

end Formula
