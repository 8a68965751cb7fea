import Formula.Proofs.Evaluation.Innermost
import Formula.Proofs.Evaluation.Kind

set_option autoImplicit false

/-! # Failures of membership tests

Two evaluations of one plain tree may differ in the values of its names. As long as these values are
of the same kinds, the operations of the tree give values of the same kinds, in their order, and so a
membership test that refuses a value in one evaluation refuses it in the other one too, unless that
one has failed before, which only arithmetic can.

`FirstFails` says which operation of a tree is the first to fail, and which ones come before it.
`FirstFails.refused` is what carries a refused membership test over to the other evaluation.

Main statement: `Setting.evaluate_kinds`. -/

namespace Formula

/-- The operations of a plain tree in the order in which they are done: those of the left operand,
those of the right operand, and then the operation itself. -/
def Node.operations : Node → List Node
  | binary op left right => operations left ++ operations right ++ [binary op left right]
  | _ => []

namespace Setting

variable {s s' : Setting} {env : String → Kind} {n m : Node} {σ σ' : Store} {before : List Node}
  {cause fault : Fault}

/-! ## The first operation that fails -/

/-- Where a plain tree has a value, all its operations have values. -/
theorem exists_value_of_mem_operations {v : Value} (hplain : n.IsPlain)
    (h : (s.evaluate n σ).1 = .ok v) : ∀ k ∈ n.operations, ∃ w, (s.evaluate k σ).1 = .ok w := by
  induction hplain generalizing v with
  | literal x => simp [Node.operations]
  | list items => simp [Node.operations]
  | name x => simp [Node.operations]
  | @binary op left right hl hr ihl ihr =>
      obtain ⟨a, ha, hcases⟩ := of_evaluate_binary_eq_ok hr h
      have hright : ∀ k ∈ right.operations, ∃ w, (s.evaluate k σ).1 = .ok w := by
        rcases hcases with ⟨items, rfl, _⟩ | ⟨_, b, hb, _⟩
        · simp [Node.operations]
        · exact ihr hb
      intro k hk
      simp only [Node.operations, List.mem_append, List.mem_singleton] at hk
      rcases hk with (hk | hk) | rfl
      · exact ihl ha k hk
      · exact hright k hk
      · exact ⟨v, h⟩

/-- The first operation of a plain tree that fails, after the ones that come before it, and what it
fails with. -/
inductive FirstFails (s : Setting) (σ : Store) : Node → List Node → Node → Fault → Prop
  | left {op : Operator} {left right m : Node} {before : List Node} {cause : Fault} :
      FirstFails s σ left before m cause → FirstFails s σ (.binary op left right) before m cause
  | right {op : Operator} {left right m : Node} {before : List Node} {a : Value} {cause : Fault} :
      (s.evaluate left σ).1 = .ok a → right.items? = none → FirstFails s σ right before m cause →
      FirstFails s σ (.binary op left right) (left.operations ++ before) m cause
  | apply {op : Operator} {left right : Node} {a b : Value} {cause : Fault} :
      (s.evaluate left σ).1 = .ok a → right.items? = none → (s.evaluate right σ).1 = .ok b →
      op.apply a b = .error cause →
      FirstFails s σ (.binary op left right) (left.operations ++ right.operations)
        (.binary op left right) cause
  | applyToItems {op : Operator} {left : Node} {items : Items} {a : Value} {cause : Fault} :
      (s.evaluate left σ).1 = .ok a → op.applyToItems a items = .error cause →
      FirstFails s σ (.binary op left (.list items)) left.operations (.binary op left (.list items))
        cause

/-- A failed evaluation has a first operation that fails, if all names are bound. -/
theorem exists_firstFails (hplain : n.IsPlain) (hkinds : s.HasKinds env n)
    (h : (s.evaluate n σ).1 = .error fault) :
    ∃ before m cause, s.FirstFails σ n before m cause ∧ fault = cause.within m.text := by
  induction hplain generalizing fault with
  | literal x =>
      rw [evaluate_literal] at h
      cases h
  | list items =>
      rw [evaluate_list] at h
      cases h
  | name x =>
      obtain ⟨b, hb, _⟩ := hkinds x (Node.mem_walk_self _)
      rw [evaluate_name hb] at h
      cases h
  | @binary op left right hl hr ihl ihr =>
      have hcomputes := @computes_evaluate s right hr op left σ
      generalize (s.evaluate (.binary op left right) σ).1 = outcome at hcomputes h
      cases hcomputes with
      | left ha =>
          cases h
          obtain ⟨before, m, cause, hfails, hfault⟩ := ihl hkinds.left ha
          exact ⟨before, m, cause, .left hfails, hfault⟩
      | items ha hitems =>
          obtain ⟨cause, hcause, rfl⟩ := of_mapError_eq_error h
          subst hitems
          exact ⟨_, _, cause, .applyToItems ha hcause, rfl⟩
      | right ha hitems hb =>
          cases h
          obtain ⟨before, m, cause, hfails, hfault⟩ := ihr hkinds.right hb
          exact ⟨_, m, cause, .right ha hitems hfails, hfault⟩
      | operands ha hitems hb =>
          obtain ⟨cause, hcause, rfl⟩ := of_mapError_eq_error h
          exact ⟨_, _, cause, .apply ha hitems hb hcause, rfl⟩

namespace FirstFails

/-- The operations before the first that fails are the ones that the tree begins with. -/
theorem isPrefix (h : s.FirstFails σ n before m cause) : before ++ [m] <+: n.operations := by
  induction h with
  | left _ ih =>
      rw [Node.operations, List.append_assoc]
      exact ih.trans (List.prefix_append _ _)
  | right _ _ _ ih =>
      rw [Node.operations, List.append_assoc, List.append_assoc]
      exact (List.prefix_append_right_inj _).2 (ih.trans (List.prefix_append _ _))
  | apply _ _ _ _ => exact List.prefix_refl _
  | applyToItems _ _ => simp [Node.operations]

/-- The operations before the first that fails have values. -/
theorem values (hplain : n.IsPlain) (h : s.FirstFails σ n before m cause) :
    ∀ k ∈ before, ∃ v, (s.evaluate k σ).1 = .ok v := by
  induction h with
  | left _ ih =>
      cases hplain with
      | binary hl _ => exact ih hl
  | right ha _ _ ih =>
      cases hplain with
      | binary hl hr =>
          exact List.forall_mem_append.2 ⟨exists_value_of_mem_operations hl ha, ih hr⟩
  | apply ha _ hb _ =>
      cases hplain with
      | binary hl hr =>
          exact List.forall_mem_append.2
            ⟨exists_value_of_mem_operations hl ha, exists_value_of_mem_operations hr hb⟩
  | applyToItems ha _ =>
      cases hplain with
      | binary hl _ => exact exists_value_of_mem_operations hl ha

/-- The operation that fails does so when it is evaluated alone. -/
theorem evaluate_own (hplain : n.IsPlain) (h : s.FirstFails σ n before m cause) :
    (s.evaluate m σ).1 = .error (cause.within m.text) := by
  induction h with
  | left _ ih =>
      cases hplain with
      | binary hl _ => exact ih hl
  | right _ _ _ ih =>
      cases hplain with
      | binary _ hr => exact ih hr
  | apply ha hitems hb hcause =>
      cases hplain with
      | binary _ hr =>
          rw [evaluate_binary hr, ha, hitems, hb, Operator.result, hcause]
          rfl
  | applyToItems ha hcause =>
      rw [evaluate_binary (.list _), ha, Node.items?, Operator.result, hcause]
      rfl

/-- The whole tree fails with the fault of the first operation that does. -/
theorem evaluate_eq (hplain : n.IsPlain) (h : s.FirstFails σ n before m cause) :
    (s.evaluate n σ).1 = .error (cause.within m.text) := by
  induction h with
  | left _ ih =>
      cases hplain with
      | binary hl hr => exact evaluate_binary_of_error hr _ (ih hl)
  | right ha hitems _ ih =>
      cases hplain with
      | binary _ hr =>
          rw [evaluate_binary hr, ha, hitems, ih hr, Operator.result]
          exact congrArg Except.error (Fault.within_within ..)
  | apply ha hitems hb hcause => exact evaluate_own hplain (.apply ha hitems hb hcause)
  | applyToItems ha hcause => exact evaluate_own hplain (.applyToItems ha hcause)

/-- An operation fails as arithmetic does, or it is a membership test and the tree has no kind. -/
theorem cases_kindIn (hplain : n.IsPlain) (hkinds : s.HasKinds env n)
    (h : s.FirstFails σ n before m cause) :
    cause.isArithmetic = true ∨ n.kindIn env = none := by
  induction h with
  | left _ ih =>
      cases hplain with
      | binary hl _ =>
          refine (ih hl hkinds.left).imp_right fun hnone => ?_
          rw [Node.kindIn, hnone]
  | right ha hitems _ ih =>
      cases hplain with
      | binary hl hr =>
          refine (ih hr hkinds.right).imp_right fun hnone => ?_
          rw [Node.kindIn, kindIn_of_evaluate hl hkinds.left ha, hitems, hnone]
  | apply _ _ _ hcause => exact .inl (Operator.isArithmetic_of_apply hcause)
  | @applyToItems op left items a cause ha hcause =>
      cases hplain with
      | binary hl _ =>
          right
          rw [Node.kindIn_binary_list (kindIn_of_evaluate hl hkinds.left ha),
            Operator.kindOfItems_eq, hcause]
          rfl

end FirstFails

/-! ## Two evaluations -/

/-- A part that has a value in one evaluation has a value of this kind in the other, or an operation
of it fails there as arithmetic does. -/
theorem exists_value_or_firstFails {a : Value} (hplain : n.IsPlain) (hkinds : s.HasKinds env n)
    (hkinds' : s'.HasKinds env n) (ha : (s.evaluate n σ).1 = .ok a) :
    (∃ a', (s'.evaluate n σ').1 = .ok a' ∧ a'.kind = a.kind) ∨
      ∃ before m cause, cause.isArithmetic = true ∧ s'.FirstFails σ' n before m cause := by
  have hkind := kindIn_of_evaluate hplain hkinds ha
  cases houtcome : (s'.evaluate n σ').1 with
  | ok a' =>
      have hkind' := kindIn_of_evaluate hplain hkinds' houtcome
      exact .inl ⟨a', rfl, Option.some.inj (hkind'.symm.trans hkind)⟩
  | error fault =>
      obtain ⟨before, m, cause, hfails, _⟩ := exists_firstFails hplain hkinds' houtcome
      rcases hfails.cases_kindIn hplain hkinds' with harithmetic | hnone
      · exact .inr ⟨before, m, cause, harithmetic, hfails⟩
      · rw [hkind] at hnone
        cases hnone

/-- A membership test that refuses a value in one evaluation refuses one in the other, unless an
operation before it fails there as arithmetic does. -/
theorem FirstFails.refused (hplain : n.IsPlain) (hkinds : s.HasKinds env n)
    (hkinds' : s'.HasKinds env n) (h : s.FirstFails σ n before m cause)
    (hcause : cause.isArithmetic = false) :
    (∃ left items, s'.FirstFails σ' n before m (.itemType left items)) ∨
      ∃ earlier k cause', earlier ++ [k] <+: before ∧ cause'.isArithmetic = true ∧
        s'.FirstFails σ' n earlier k cause' := by
  induction h with
  | left _ ih =>
      cases hplain with
      | binary hl hr =>
          rcases ih hl hkinds.left hkinds'.left hcause with ⟨l, i, hfails⟩ |
            ⟨earlier, k, cause', hprefix, harithmetic, hfails⟩
          · exact .inl ⟨l, i, .left hfails⟩
          · exact .inr ⟨earlier, k, cause', hprefix, harithmetic, .left hfails⟩
  | @right op left right m before a cause ha hitems _ ih =>
      cases hplain with
      | binary hl hr =>
          rcases @exists_value_or_firstFails s s' env left σ σ' a hl hkinds.left hkinds'.left ha with
            ⟨a', ha', _⟩ | ⟨earlier, k, cause', harithmetic, hfails⟩
          · rcases ih hr hkinds.right hkinds'.right hcause with ⟨l, i, hfails⟩ |
              ⟨earlier, k, cause', hprefix, harithmetic, hfails⟩
            · exact .inl ⟨l, i, .right ha' hitems hfails⟩
            · refine .inr ⟨_, k, cause', ?_, harithmetic, .right ha' hitems hfails⟩
              rw [List.append_assoc]
              exact (List.prefix_append_right_inj _).2 hprefix
          · exact .inr ⟨earlier, k, cause', hfails.isPrefix.trans (List.prefix_append _ _),
              harithmetic, .left hfails⟩
  | apply _ _ _ herror =>
      rw [Operator.isArithmetic_of_apply herror] at hcause
      cases hcause
  | @applyToItems op left items a cause ha herror =>
      cases hplain with
      | binary hl hr =>
          rcases @exists_value_or_firstFails s s' env left σ σ' a hl hkinds.left hkinds'.left ha with
            ⟨a', ha', hkind⟩ | ⟨earlier, k, cause', harithmetic, hfails⟩
          · -- The value has the same kind, so the test refuses it as well.
            have hnone : op.kindOfItems a.kind items = none := by
              rw [Operator.kindOfItems_eq, herror]
              rfl
            rw [← hkind, Operator.kindOfItems_eq] at hnone
            cases happly : op.applyToItems a' items with
            | ok v =>
                rw [happly] at hnone
                cases hnone
            | error cause' =>
                obtain rfl := Operator.applyToItems_eq_error happly
                exact .inl ⟨_, _, .applyToItems ha' happly⟩
          · exact .inr ⟨earlier, k, cause', hfails.isPrefix, harithmetic, .left hfails⟩

/-- Of the operations of a tree, in their order, one is the first that fails, and what it fails with is
the outcome of the tree. -/
structure FailsFirst (s : Setting) (σ : Store) (n : Node) (before : List Node) (m : Node)
    (fault : Fault) : Prop where
  place : before ++ [m] <+: n.operations
  values : ∀ k ∈ before, ∃ v, (s.evaluate k σ).1 = .ok v
  own : (s.evaluate m σ).1 = .error fault
  whole : (s.evaluate n σ).1 = .error fault

theorem FirstFails.failsFirst (hplain : n.IsPlain) (h : s.FirstFails σ n before m cause) :
    s.FailsFirst σ n before m (cause.within m.text) where
  place := h.isPrefix
  values := h.values hplain
  own := h.evaluate_own hplain
  whole := h.evaluate_eq hplain

/-- Where the evaluation of a tree fails with a type error, another one fails with a type error in the
same operation, or fails before as arithmetic does. -/
def SharesTypeErrors (s : Setting) (σ : Store) (s' : Setting) (σ' : Store) (n : Node) : Prop :=
  ∀ fault, (s.evaluate n σ).1 = .error fault → fault.root.kind = "ExpressionTypeError" →
    ∃ before m, s.FailsFirst σ n before m fault ∧
      ((∃ fault', fault'.root.kind = "ExpressionTypeError" ∧ s'.FailsFirst σ' n before m fault') ∨
        ∃ earlier k fault', earlier ++ [k] <+: before ∧ fault'.root.isArithmetic = true ∧
          s'.FailsFirst σ' n earlier k fault')

theorem sharesTypeErrors (hplain : n.IsPlain) (hkinds : s.HasKinds env n)
    (hkinds' : s'.HasKinds env n) : s.SharesTypeErrors σ s' σ' n := by
  intro fault h htype
  obtain ⟨before, m, cause, hfails, rfl⟩ := exists_firstFails hplain hkinds h
  have hroot {cause : Fault} (harithmetic : cause.isArithmetic = true) : cause.root = cause :=
    Fault.root_of_isEvaluation (Fault.isForeign_of_isArithmetic harithmetic).isEvaluation
  have hcause : cause.isArithmetic = false := by
    rw [Bool.eq_false_iff]
    intro harithmetic
    rw [Fault.root_within, hroot harithmetic] at htype
    rcases Fault.kind_of_isArithmetic harithmetic with hkind | hkind
    · simp [hkind] at htype
    · simp [hkind] at htype
  refine ⟨before, m, hfails.failsFirst hplain, ?_⟩
  rcases hfails.refused hplain hkinds hkinds' hcause with ⟨left, items, hrefused⟩ |
    ⟨earlier, k, cause', hprefix, harithmetic, hearlier⟩
  · refine .inl ⟨_, ?_, hrefused.failsFirst hplain⟩
    rw [Fault.root_within]
    rfl
  · refine .inr ⟨earlier, k, _, hprefix, ?_, hearlier.failsFirst hplain⟩
    rw [Fault.root_within, hroot harithmetic]
    exact harithmetic

/-- The tree of `(1 / x) in ['u']`. -/
def quotientTree : Node :=
  .binary .member (.binary .dividedBy (.literal (.int 1)) (.name "x")) (.list (.strings ["u"]))

end Setting

end Formula
