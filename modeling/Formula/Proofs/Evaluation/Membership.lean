import Formula.Proofs.Evaluation.Plain
import Formula.Proofs.Grammar.Items
import Formula.Proofs.Tree.Grouping

set_option autoImplicit false

/-! # Membership and comparison

Whether a value is in a list is decided without evaluating the list; whether it equals one item after
another is decided by comparisons and connectives. Both come to the same, for an absent value as well:
there neither of them says anything.

An item may be written in the comparison as any literal of the same value. In a list of doubles an
integer item is the double nearest to it, and it is this double that has to be compared: an integer
that is no double is equal to nothing in the list.

Main statement: `Setting.evaluate_membership`. -/

namespace Formula

open Number (Numeric)

/-! ## Comparisons written out -/

/-- The comparisons of a tree with some literals, written one after the other with connectives between
them, as they are grouped by precedence. -/
def Node.spelledOut (connective comparison : Operator) (left : Node) (first : Scalar)
    (rest : List Scalar) : Node :=
  (Chain.group left ((comparison, .literal first) ::
    rest.flatMap fun x => [(connective, left), (comparison, .literal x)])).toNode

/-- A row that goes on with a connective and a comparison, which binds more tightly, is joined to this
comparison as a whole. -/
theorem Chain.attach_comparison {connective comparison : Operator} {left literal : Node}
    {c : Chain} (h : connective.precedence < comparison.precedence)
    (hc : c.BindsFrom connective.precedence) :
    (c.attach connective left).attach comparison literal =
      apply connective c (apply comparison (operand left) (operand literal)) := by
  rw [attach_of_bindsFrom hc, attach, if_pos h]
  rfl

/-- The comparisons are joined from left to right. -/
theorem Node.spelledOut_eq {connective comparison : Operator} (left : Node) (first : Scalar)
    (rest : List Scalar) (h : connective.precedence < comparison.precedence) :
    spelledOut connective comparison left first rest =
      rest.foldl (fun tree x => .binary connective tree (.binary comparison left (.literal x)))
        (.binary comparison left (.literal first)) := by
  suffices hrest : ∀ c : Chain, c.BindsFrom connective.precedence →
      (c.attachAll (rest.flatMap fun x => [(connective, left), (comparison, .literal x)])).toNode =
        rest.foldl (fun tree x => .binary connective tree (.binary comparison left (.literal x)))
          c.toNode from
    hrest (.apply comparison (.operand left) (.operand (.literal first))) (Nat.le_of_lt h)
  induction rest with
  | nil => exact fun _ _ => rfl
  | cons x rest ih =>
      intro c hc
      rw [List.flatMap_cons, Chain.attachAll_append]
      have hpair : c.attachAll [(connective, left), (comparison, .literal x)] =
          .apply connective c (.apply comparison (.operand left) (.operand (.literal x))) :=
        Chain.attach_comparison h hc
      rw [hpair, ih _ (Nat.le_refl _)]
      rfl

/-! ## Values and items -/

/-- A truth value that is only known of a value that is there. -/
def Value.known (v : Value) (b : Bool) : Value := if v.isNone then .none else .bool b

/-- A literal has the value of an item: it is the item, or an integer that is exactly the double. -/
def Scalar.SpelledAs (item x : Scalar) : Prop :=
  x = item ∨ ∃ n d, x = .int n ∧ item = .double d ∧
    (Numeric.int n).place? = (Numeric.float d).place?

/-- The value is absent, or of the type of the items of a list. -/
def Value.Suits (items : Items) (v : Value) : Prop := v = .none ∨ v.type = items.type

theorem Value.exists_of_type_int {v : Value} (h : v.type = .int) : ∃ n, v = .int n := by
  cases v with
  | int n => exact ⟨n, rfl⟩
  | _ => cases h

theorem Value.exists_of_type_str {v : Value} (h : v.type = .str) : ∃ s, v = .str s := by
  cases v with
  | str s => exact ⟨s, rfl⟩
  | _ => cases h

/-- A value of the floating-point type is a number, also when it is the one that is none. -/
theorem Value.exists_of_type_float {v : Value} (h : v.type = .float) :
    (∃ x, v = .float x) ∨ ∃ id, v = .nan id := by
  cases v with
  | float x => exact .inl ⟨x, rfl⟩
  | nan id => exact .inr ⟨id, rfl⟩
  | _ => cases h

theorem Value.isNone_of_type {items : Items} {v : Value} (h : v.type = items.type) :
    v.isNone = false := by
  cases v with
  | none => cases items <;> cases h
  | _ => rfl

/-- Equality of numbers looks at their places only. -/
theorem Number.Numeric.same_congr {a b c : Numeric} (h : b.place? = c.place?) :
    a.same b = a.same c := by
  rw [same, same, compare?, compare?, h]

namespace Operator

variable {items : Items} {v : Value} {x y : Scalar}

/-- A value of the type of an item is compared with it by its equality. -/
theorem compare_item (hv : v.type = items.type) (hy : y ∈ items.toList) (hx : y.SpelledAs x) :
    equal.apply v x.toValue = .ok (.bool (v.same y.toValue)) ∧
      unequal.apply v x.toValue = .ok (.bool (!v.same y.toValue)) := by
  have hkind := Items.kind_of_mem_toList hy
  rw [Items.type_eq, ← hkind] at hv
  cases y with
  | bool b => cases items <;> cases hkind
  | int n =>
      obtain ⟨m, rfl⟩ := Value.exists_of_type_int hv
      obtain rfl : x = .int n := by simpa [Scalar.SpelledAs] using hx
      exact ⟨rfl, rfl⟩
  | string t =>
      obtain ⟨u, rfl⟩ := Value.exists_of_type_str hv
      obtain rfl : x = .string t := by simpa [Scalar.SpelledAs] using hx
      exact ⟨rfl, rfl⟩
  | double d =>
      have hnumber {a b : Numeric} (hb : b.place? = (Numeric.float d).place?) :
          equal.onNumbers a b = .ok (.bool (a.same (.float d))) ∧
            unequal.onNumbers a b = .ok (.bool (!a.same (.float d))) := by
        rw [onNumbers, onNumbers, Number.Numeric.same_congr hb]
        exact ⟨rfl, rfl⟩
      rcases hx with rfl | ⟨n, _, rfl, hd, hplace⟩
      · rcases Value.exists_of_type_float hv with ⟨z, rfl⟩ | ⟨id, rfl⟩
        · exact ⟨rfl, rfl⟩
        · exact ⟨rfl, rfl⟩
      · obtain rfl := Scalar.double.inj hd
        rcases Value.exists_of_type_float hv with ⟨z, rfl⟩ | ⟨id, rfl⟩
        · exact hnumber hplace
        · exact hnumber hplace

/-- An absent value is compared with nothing. -/
theorem compare_none (op : Operator) (x : Scalar) : op.apply .none x.toValue = .ok .none := by
  cases x <;> rfl

/-- Comparing with a literal of the value of an item. -/
theorem apply_comparison (hv : v.Suits items) (hy : y ∈ items.toList) (hx : y.SpelledAs x) :
    equal.apply v x.toValue = .ok (v.known (v.same y.toValue)) ∧
      unequal.apply v x.toValue = .ok (v.known (!v.same y.toValue)) := by
  rcases hv with rfl | hv
  · exact ⟨compare_none equal x, compare_none unequal x⟩
  · have hknown (b : Bool) : v.known b = .bool b := by
      simp [Value.known, Value.isNone_of_type hv]
    rw [hknown, hknown]
    exact compare_item hv hy hx

/-- Membership of a value that suits the list. -/
theorem apply_membership (hv : v.Suits items) :
    member.applyToItems v items = .ok (v.known (items.values.any v.same)) ∧
      absent.applyToItems v items = .ok (v.known (!items.values.any v.same)) := by
  rcases hv with rfl | hv
  · exact ⟨rfl, rfl⟩
  · simp [applyToItems, occursIn, Value.known, Value.isNone_of_type hv, hv, Except.map]

/-- The connectives join what is known. -/
theorem apply_connective (v : Value) (a b : Bool) :
    either.apply (v.known a) (v.known b) = .ok (v.known (a || b)) ∧
      both.apply (v.known a) (v.known b) = .ok (v.known (a && b)) := by
  unfold Value.known
  split
  · exact ⟨rfl, rfl⟩
  · exact ⟨rfl, rfl⟩

end Operator

/-- A row of disjunctions holds if some part of it does. -/
theorem foldl_or {α : Type} (p : α → Bool) (b : Bool) (as : List α) :
    (as.map p).foldl (· || ·) b = (b || as.any p) := by
  induction as generalizing b with
  | nil => simp
  | cons a as ih => simpa [Bool.or_assoc] using ih (b || p a)

/-- A row of conjunctions of negations holds if no part of it does. -/
theorem foldl_and_not {α : Type} (p : α → Bool) (b : Bool) (as : List α) :
    (as.map (!p ·)).foldl (· && ·) (!b) = !(b || as.any p) := by
  induction as generalizing b with
  | nil => simp
  | cons a as ih => simpa [Bool.or_assoc] using ih (b || p a)

namespace Setting

variable {s : Setting} {σ : Store} {left : Node} {v : Value}

/-- Comparisons that are joined have the value to which the connective folds what they say. -/
theorem evaluate_foldl {connective comparison : Operator} {join : Bool → Bool → Bool}
    {tree : Node} {b : Bool} {ys xs : List Scalar} (p : Scalar → Bool)
    (hjoin : ∀ a b, connective.apply (v.known a) (v.known b) = .ok (v.known (join a b)))
    (hleft : left.IsPlain) (htree : (s.evaluate tree σ).1 = .ok (v.known b))
    (hxs : List.Forall₂ (fun y x =>
      (s.evaluate (.binary comparison left (.literal x)) σ).1 = .ok (v.known (p y))) ys xs) :
    (s.evaluate (xs.foldl (fun tree x => .binary connective tree
      (.binary comparison left (.literal x))) tree) σ).1 =
      .ok (v.known ((ys.map p).foldl join b)) := by
  induction hxs generalizing tree b with
  | nil => exact htree
  | @cons y x ys xs hx _ ih =>
      have hplain : (Node.binary comparison left (.literal x)).IsPlain := .binary hleft (.literal x)
      exact ih (evaluate_binary_of_ok hplain rfl htree hx (hjoin _ _))

/-- What a written out comparison says: whether the value equals some item, and whether it equals
none. -/
theorem evaluate_spelledOut {items : Items} {first : Scalar} {rest : List Scalar}
    (hleft : left.IsPlain) (ha : (s.evaluate left σ).1 = .ok v) (hv : v.Suits items)
    (hitems : List.Forall₂ Scalar.SpelledAs items.toList (first :: rest)) :
    (s.evaluate (.spelledOut .either .equal left first rest) σ).1 =
        .ok (v.known (items.values.any v.same)) ∧
      (s.evaluate (.spelledOut .both .unequal left first rest) σ).1 =
        .ok (v.known (!items.values.any v.same)) := by
  have hcompared : List.Forall₂ (fun y x =>
      (s.evaluate (.binary .equal left (.literal x)) σ).1 = .ok (v.known (v.same y.toValue)) ∧
        (s.evaluate (.binary .unequal left (.literal x)) σ).1 =
          .ok (v.known (!v.same y.toValue))) items.toList (first :: rest) := by
    have hmem := (List.forall₂_and_left _ _).2 ⟨fun y (hy : y ∈ items.toList) => hy, hitems⟩
    refine hmem.imp fun y x ⟨hy, hx⟩ => ?_
    obtain ⟨hequal, hunequal⟩ := Operator.apply_comparison hv hy hx
    exact ⟨evaluate_binary_of_ok (.literal x) rfl ha (evaluate_literal x σ) hequal,
      evaluate_binary_of_ok (.literal x) rfl ha (evaluate_literal x σ) hunequal⟩
  rw [Items.values, List.any_map]
  generalize items.toList = ys at hcompared
  cases hcompared with
  | @cons y _ ys _ hy hys =>
      obtain ⟨hequal, hunequal⟩ := hy
      have hor := evaluate_foldl (fun y => v.same y.toValue)
        (fun a b => (Operator.apply_connective v a b).1) hleft hequal (hys.imp fun _ _ h => h.1)
      have hand := evaluate_foldl (fun y => !v.same y.toValue)
        (fun a b => (Operator.apply_connective v a b).2) hleft hunequal (hys.imp fun _ _ h => h.2)
      rw [foldl_or] at hor
      rw [foldl_and_not] at hand
      rw [Node.spelledOut_eq _ _ _ (by decide), Node.spelledOut_eq _ _ _ (by decide)]
      exact ⟨hor, hand⟩

/-- A written out comparison fails like the tree that is compared. -/
theorem evaluate_spelledOut_of_error {connective comparison : Operator} {first : Scalar}
    {rest : List Scalar} {fault : Fault} (hleft : left.IsPlain)
    (hprecedence : connective.precedence < comparison.precedence)
    (h : (s.evaluate left σ).1 = .error fault) :
    (s.evaluate (.spelledOut connective comparison left first rest) σ).1 = .error fault := by
  rw [Node.spelledOut_eq _ _ _ hprecedence]
  suffices hfold : ∀ tree : Node, (s.evaluate tree σ).1 = .error fault →
      (s.evaluate (rest.foldl (fun tree x => .binary connective tree
        (.binary comparison left (.literal x))) tree) σ).1 = .error fault from
    hfold _ (evaluate_binary_of_error (.literal first) comparison h)
  induction rest with
  | nil => exact fun _ htree => htree
  | cons x rest ih =>
      intro tree htree
      exact ih _ (evaluate_binary_of_error (.binary hleft (.literal x)) connective htree)

/-- Whether a variable is in a list is the same as whether it equals one of the items, and whether it
is not in the list the same as whether it differs from all of them. That is so if the variable is
absent or of the type of the items, and the comparisons are with literals of the values of the
items; a variable that is not bound fails in both ways alike. -/
theorem evaluate_membership_of_spelledAs {x : String} {items : Items} {first : Scalar}
    {rest : List Scalar} (hitems : List.Forall₂ Scalar.SpelledAs items.toList (first :: rest))
    (hx : ∀ b, s.lookup x = some b → b.value.Suits items) (σ : Store) :
    (s.evaluate (.binary .member (.name x) (.list items)) σ).1 =
        (s.evaluate (.spelledOut .either .equal (.name x) first rest) σ).1 ∧
      (s.evaluate (.binary .absent (.name x) (.list items)) σ).1 =
        (s.evaluate (.spelledOut .both .unequal (.name x) first rest) σ).1 := by
  cases hlookup : s.lookup x with
  | none =>
      have hfault := evaluate_name_of_none hlookup σ
      have hmembership (op : Operator) := evaluate_binary_of_error (.list items) op hfault
      rw [hmembership, hmembership, evaluate_spelledOut_of_error (.name x) (by decide) hfault,
        evaluate_spelledOut_of_error (.name x) (by decide) hfault]
      exact ⟨rfl, rfl⟩
  | some b =>
      have hv := hx b hlookup
      have hvalue := evaluate_name hlookup σ
      obtain ⟨hor, hand⟩ := evaluate_spelledOut (.name x) hvalue hv hitems
      obtain ⟨hmember, habsent⟩ := Operator.apply_membership hv
      rw [evaluate_binary_list_of_ok hvalue hmember, evaluate_binary_list_of_ok hvalue habsent, hor,
        hand]
      exact ⟨rfl, rfl⟩

/-- Whether a variable is in a list that is not empty is the same as whether it equals one of the
items, and whether it is not in the list the same as whether it differs from all of them, if the
variable is absent or of the type of the items. A variable that is bound gives a value in all of these
cases. -/
theorem evaluate_membership {x : String} {items : Items} {first : Scalar} {rest : List Scalar}
    (hitems : items.toList = first :: rest)
    (hx : ∀ b, s.lookup x = some b → b.value = .none ∨ b.value.type = items.type) (σ : Store) :
    (s.evaluate (.binary .member (.name x) (.list items)) σ).1 =
        (s.evaluate (.spelledOut .either .equal (.name x) first rest) σ).1 ∧
      (s.evaluate (.binary .absent (.name x) (.list items)) σ).1 =
        (s.evaluate (.spelledOut .both .unequal (.name x) first rest) σ).1 ∧
      ∀ b, s.lookup x = some b →
        ∃ v w, (s.evaluate (.binary .member (.name x) (.list items)) σ).1 = .ok v ∧
          (s.evaluate (.binary .absent (.name x) (.list items)) σ).1 = .ok w := by
  have hsame : List.Forall₂ Scalar.SpelledAs items.toList (first :: rest) := by
    rw [hitems]
    exact List.forall₂_same.2 fun _ _ => .inl rfl
  obtain ⟨hmember, habsent⟩ := evaluate_membership_of_spelledAs hsame hx σ
  refine ⟨hmember, habsent, fun b hb => ?_⟩
  obtain ⟨hin, hout⟩ := Operator.apply_membership (hx b hb)
  have hvalue := evaluate_name hb σ
  exact ⟨_, _, evaluate_binary_list_of_ok hvalue hin, evaluate_binary_list_of_ok hvalue hout⟩

/-- The number two in the list of one and two. -/
theorem evaluate_membership_two :
    ((single "x" (.int 2)).evaluate (.binary .member (.name "x") (.list (.ints [1, 2]))) .empty).1 =
        ((single "x" (.int 2)).evaluate
          (.spelledOut .either .equal (.name "x") (.int 1) [.int 2]) .empty).1 ∧
      ((single "x" (.int 2)).evaluate (.binary .absent (.name "x") (.list (.ints [1, 2])))
          .empty).1 =
        ((single "x" (.int 2)).evaluate
          (.spelledOut .both .unequal (.name "x") (.int 1) [.int 2]) .empty).1 ∧
      ∀ b, (single "x" (.int 2)).lookup "x" = some b →
        ∃ v w,
          ((single "x" (.int 2)).evaluate (.binary .member (.name "x") (.list (.ints [1, 2])))
            .empty).1 = .ok v ∧
          ((single "x" (.int 2)).evaluate (.binary .absent (.name "x") (.list (.ints [1, 2])))
            .empty).1 = .ok w := by
  have htyped : ∀ b, (single "x" (.int 2)).lookup "x" = some b →
      b.value = .none ∨ b.value.type = (Items.ints [1, 2]).type := by
    intro b hb
    cases hb
    exact .inr rfl
  exact evaluate_membership rfl htyped .empty

end Setting

end Formula
