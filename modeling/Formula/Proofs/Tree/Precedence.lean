import Formula.Proofs.Tree.Grouping

set_option autoImplicit false

/-! # The shape of a grouped chain

In the grouping of a row of operands and operators, no operator on the left of an operation binds
less tightly than it does, and every operator on its right binds more tightly. Only one grouping of a
row has this shape, and its outermost operator is the last one of those that bind least tightly.

Main statements: `Chain.isOrdered_group`, `Chain.eq_group_of_isOrdered` and
`Chain.IsOrdered.root_eq`. -/

namespace Formula.Chain

/-! ## Operators in order -/

/-- The operators of a chain, in order. -/
def operators : Chain → List Operator
  | operand _ => []
  | apply op left right => left.operators ++ op :: right.operators

theorem operators_eq (c : Chain) : c.operators = c.links.map Prod.fst := by
  induction c with
  | operand node => rfl
  | apply op left right ihl ihr => simp [operators, links, ihl, ihr]

/-- Around every operation, the operators on its left bind no less tightly and those on its right
more tightly. -/
def IsOrdered : Chain → Prop
  | operand _ => True
  | apply op left right => left.IsOrdered ∧ right.IsOrdered ∧
      (∀ o ∈ left.operators, op.precedence ≤ o.precedence) ∧
      ∀ o ∈ right.operators, op.precedence < o.precedence

theorem bindsFrom_of_forall {c : Chain} {p : Nat} (h : ∀ o ∈ c.operators, p ≤ o.precedence) :
    c.BindsFrom p := by
  cases c with
  | operand node => trivial
  | apply op left right => exact h op (by simp [operators])

/-- It is the same to compare an operation with all operators of its operands and with the outermost
ones only. -/
theorem isOrdered_iff_isGrouped {c : Chain} : c.IsOrdered ↔ c.IsGrouped := by
  induction c with
  | operand node => exact Iff.rfl
  | apply op left right ihl ihr =>
      have bound {c : Chain} {p : Nat} (hc : c.IsGrouped) :
          (∀ o ∈ c.operators, p ≤ o.precedence) ↔ c.BindsFrom p := by
        refine ⟨bindsFrom_of_forall, fun h o ho => ?_⟩
        rw [operators_eq, List.mem_map] at ho
        obtain ⟨link, hlink, rfl⟩ := ho
        exact le_precedence_of_mem_links hc h link hlink
      constructor
      · rintro ⟨hl, hr, hleft, hright⟩
        exact ⟨ihl.1 hl, ihr.1 hr, (bound (ihl.1 hl)).1 hleft, (bound (ihr.1 hr)).1 hright⟩
      · rintro ⟨hl, hr, hleft, hright⟩
        exact ⟨ihl.2 hl, ihr.2 hr, (bound hl).2 hleft, (bound hr).2 hright⟩

/-! ## Grouping -/

/-- A new operator does not loosen a chain below its own precedence. -/
theorem BindsFrom.attach {c : Chain} {p : Nat} {op : Operator} (h : c.BindsFrom p)
    (hop : p ≤ op.precedence) (node : Node) : (c.attach op node).BindsFrom p := by
  cases c with
  | operand first => exact hop
  | apply o left right =>
      rw [Chain.attach]
      split
      · exact h
      · exact hop

/-- One more operator keeps a chain grouped. -/
theorem IsGrouped.attach {c : Chain} (h : c.IsGrouped) (op : Operator) (node : Node) :
    (c.attach op node).IsGrouped := by
  induction c with
  | operand first => exact ⟨trivial, trivial, trivial, trivial⟩
  | apply o left right _ ihr =>
      obtain ⟨hl, hr, hbl, hbr⟩ := h
      rw [Chain.attach]
      split
      next hlt => exact ⟨hl, ihr hr, hbl, hbr.attach hlt node⟩
      next hle => exact ⟨⟨hl, hr, hbl, hbr⟩, trivial, Nat.le_of_not_lt hle, trivial⟩

theorem isGrouped_attachAll {c : Chain} (h : c.IsGrouped) (links : List (Operator × Node)) :
    (c.attachAll links).IsGrouped := by
  induction links generalizing c with
  | nil => exact h
  | cons link links ih => exact ih (h.attach link.1 link.2)

/-- A row is grouped by precedence, and from left to right among equals. -/
theorem isOrdered_group (first : Node) (links : List (Operator × Node)) :
    (group first links).IsOrdered :=
  isOrdered_iff_isGrouped.2 (isGrouped_attachAll (c := operand first) trivial links)

/-- There is only one such grouping of a row. -/
theorem eq_group_of_isOrdered {c : Chain} (h : c.IsOrdered) : c = group c.head c.links :=
  (group_eq_self (isOrdered_iff_isGrouped.1 h)).symm

/-! ## The outermost operator -/

/-- A list is cut in only one way at an element that bounds what is on its left and is strictly below
what is on its right. -/
theorem eq_of_append_cons {before before' after after' : List Operator} {op op' : Operator}
    (h : before ++ op :: after = before' ++ op' :: after')
    (hbefore : ∀ o ∈ before, op.precedence ≤ o.precedence)
    (hafter : ∀ o ∈ after, op.precedence < o.precedence)
    (hbefore' : ∀ o ∈ before', op'.precedence ≤ o.precedence)
    (hafter' : ∀ o ∈ after', op'.precedence < o.precedence) :
    before = before' ∧ op = op' ∧ after = after' := by
  rcases List.append_eq_append_iff.1 h with ⟨between, rfl, hrest⟩ | ⟨between, rfl, hrest⟩
  · cases between with
    | nil => simpa using hrest
    | cons o between =>
        obtain ⟨rfl, rfl⟩ : op = o ∧ after = between ++ op' :: after' := by simpa using hrest
        have hlt : op.precedence < op'.precedence := hafter op' (by simp)
        have hle : op'.precedence ≤ op.precedence := hbefore' op (by simp)
        omega
  · cases between with
    | nil => simpa [eq_comm] using hrest
    | cons o between =>
        obtain ⟨rfl, rfl⟩ : op' = o ∧ after' = between ++ op :: after := by simpa using hrest
        have hlt : op'.precedence < op.precedence := hafter' op (by simp)
        have hle : op.precedence ≤ op'.precedence := hbefore op' (by simp)
        omega

/-- The outermost operator is the last of those that bind least tightly, and its operands are what
stands before it and after it. -/
theorem IsOrdered.root_eq {c : Chain} (h : c.IsOrdered) {before after : List Operator}
    {op : Operator} (hc : c.operators = before ++ op :: after)
    (hbefore : ∀ o ∈ before, op.precedence ≤ o.precedence)
    (hafter : ∀ o ∈ after, op.precedence < o.precedence) :
    ∃ left right, c = apply op left right ∧ left.operators = before ∧ right.operators = after := by
  cases c with
  | operand node => simp [operators] at hc
  | apply o left right =>
      obtain ⟨_, _, hleft, hright⟩ := h
      obtain ⟨rfl, rfl, rfl⟩ := eq_of_append_cons hc hleft hright hbefore hafter
      exact ⟨left, right, rfl, rfl, rfl⟩

end Formula.Chain
