import Formula.Evaluation.Operators
import Formula.Function
import Formula.Member.Access
import Formula.Proofs.Effect

set_option autoImplicit false

/-! # The faults of host code

Host code, and the standard functions beside it, fails in ways of its own: it never reports that a
name is not there, which only the library does, nor names an expression part. The operators of the
language fail like arithmetic does.

Main statements: `MemberTable.readMember?_foreign`, `MemberTable.invoke_foreign` and
`Implementation.run_foreign`. -/

namespace Formula

/-! ## Faults of names -/

/-- Whether the library reports that something is not there under its name, that `if` was written
like a call, or that a function takes another number of arguments. -/
def Fault.isNaming : Fault → Bool
  | unboundName _ | unboundParent _ | noMember _ _ | noMethod _ _ | notRegistered _
  | conditionalForm | argumentCount _ _ _ => true
  | _ => false

/-- The errors of these families are about names, unless host code raised them or no overload of a
method accepts the arguments. -/
theorem Fault.isNaming_of_kind {fault : Fault}
    (h : fault.kind ∈ ["ScopeError", "MemberError", "ExpressionSyntaxError", "ArityError"]) :
    fault.isNaming = true ∨ (∃ kind message, fault = .raised kind message) ∨
      ∃ method parent types, fault = .noOverload method parent types := by
  cases fault with
  | unboundName | unboundParent | noMember | noMethod | notRegistered | conditionalForm
  | argumentCount => exact .inl rfl
  | raised kind message => exact .inr (.inl ⟨kind, message, rfl⟩)
  | noOverload method parent types => exact .inr (.inr ⟨method, parent, types, rfl⟩)
  | unreadableNumber cause => cases cause <;> simp [kind] at h
  | _ => simp [kind] at h

/-- A fault that is not about a name, and not one of an expression part. -/
def Fault.IsForeign (fault : Fault) : Prop := (fault.isNaming || fault.isEvaluation) = false

theorem Fault.IsForeign.isEvaluation {fault : Fault} (h : fault.IsForeign) :
    fault.isEvaluation = false :=
  (Bool.or_eq_false_iff.1 h).2

/-- What caused a foreign fault is not about a name either. -/
theorem Fault.IsForeign.root {fault : Fault} (h : fault.IsForeign) :
    fault.root.isNaming = false := by
  cases fault with
  | evaluation part cause => cases h
  | _ => exact (Bool.or_eq_false_iff.1 h).1

/-- A result that is no fault of a name. -/
def IsForeign {α : Type} (x : Except Fault α) : Prop :=
  ∀ fault, x = .error fault → fault.IsForeign

namespace IsForeign

variable {α β : Type}

theorem ok (x : α) : IsForeign (.ok x) := fun _ h => by cases h

theorem error {fault : Fault} (h : fault.IsForeign) : IsForeign (.error fault : Except Fault α) := by
  intro f hf
  cases hf
  exact h

theorem bind {x : Except Fault α} {f : α → Except Fault β} (hx : IsForeign x)
    (hf : ∀ a, IsForeign (f a)) : IsForeign (x >>= f) := by
  cases x with
  | error fault => exact error (hx fault rfl)
  | ok a => exact hf a

theorem map {x : Except Fault α} (hx : IsForeign x) (f : α → β) : IsForeign (x.map f) := by
  cases x with
  | error fault => exact error (hx fault rfl)
  | ok a => exact ok (f a)

end IsForeign

theorem IsForeign.elim {α β : Type} {x : Option α} {fault : Fault} {f : α → Except Fault β}
    (h : fault.IsForeign) (hf : ∀ a, IsForeign (f a)) :
    IsForeign (x.elim (.error fault) f) := by
  cases x with
  | none => exact .error h
  | some a => exact hf a

/-! ## Arithmetic -/

/-- Whether arithmetic fails so: an integer is too large for a conversion, or the divisor is zero. -/
def Fault.isArithmetic : Fault → Bool
  | integerTooLarge | divisionByZero _ | floatDivisionByZero => true
  | _ => false

theorem Fault.isForeign_of_isArithmetic {fault : Fault} (h : fault.isArithmetic = true) :
    fault.IsForeign := by
  cases fault with
  | integerTooLarge => rfl
  | divisionByZero _ => rfl
  | floatDivisionByZero => rfl
  | _ => cases h

theorem Fault.kind_of_isArithmetic {fault : Fault} (h : fault.isArithmetic = true) :
    fault.kind = "OverflowError" ∨ fault.kind = "ZeroDivisionError" := by
  cases fault with
  | integerTooLarge => exact .inl rfl
  | divisionByZero _ => exact .inr rfl
  | floatDivisionByZero => exact .inr rfl
  | _ => cases h

open Number (Numeric)

namespace Number.Numeric

variable {x y : Numeric} {fault : Fault}

theorem toFloat_eq_error (h : x.toFloat = .error fault) : fault = .integerTooLarge := by
  cases x with
  | float x => cases h
  | int n =>
      rw [toFloat] at h
      cases hconverted : Binary64.ofInt? n with
      | some y =>
          rw [hconverted] at h
          cases h
      | none =>
          rw [hconverted] at h
          cases h
          rfl

theorem combine_eq_error {ints : Int → Int → Int} {floats : Binary64 → Binary64 → Binary64}
    (h : combine ints floats x y = .error fault) : fault = .integerTooLarge := by
  unfold combine at h
  split at h
  · cases h
  · rcases hx : x.toFloat with cause | a
    · rw [hx] at h
      cases h
      exact toFloat_eq_error hx
    · rcases hy : y.toFloat with cause | b
      · rw [hx, hy] at h
        cases h
        exact toFloat_eq_error hy
      · rw [hx, hy] at h
        cases h

theorem isArithmetic_of_div (h : x.div y = .error fault) : fault.isArithmetic = true := by
  unfold div at h
  split at h
  · split at h
    · cases h
      rfl
    · cases h
  · rcases hx : x.toFloat with cause | a
    · rw [hx] at h
      cases h
      rw [toFloat_eq_error hx]
      rfl
    · rcases hy : y.toFloat with cause | b
      · rw [hx, hy] at h
        cases h
        rw [toFloat_eq_error hy]
        rfl
      · rw [hx, hy] at h
        simp only [bind, Except.bind] at h
        cases hquotient : a.div? b with
        | none =>
            rw [hquotient] at h
            cases h
            rfl
        | some q =>
            rw [hquotient] at h
            cases h

theorem combine_foreign (ints : Int → Int → Int) (floats : Binary64 → Binary64 → Binary64)
    (x y : Numeric) : IsForeign (combine ints floats x y) := by
  intro fault h
  rw [combine_eq_error h]
  rfl

end Number.Numeric

namespace Value

theorem plus_foreign (a b : Value) : IsForeign (a.plus b) := by
  unfold plus
  split
  · exact .map (Number.Numeric.combine_foreign _ _ _ _) _
  · split
    · exact .ok _
    · exact .ok _
    · exact .ok _
    · exact .error rfl
    · exact .error rfl
    · exact .error rfl
    · exact .error rfl

theorem times_foreign (a b : Value) : IsForeign (a.times b) := by
  unfold times
  split
  · exact .map (Number.Numeric.combine_foreign _ _ _ _) _
  · split
    · exact .ok _
    · exact .error rfl
  · split
    · exact .ok _
    · exact .error rfl
  · split
    · exact .error rfl
    · exact .error rfl

end Value

/-! ## Operators -/

namespace Operator

variable {op : Operator} {fault : Fault}

theorem isArithmetic_of_onNumbers {x y : Numeric} (h : op.onNumbers x y = .error fault) :
    fault.isArithmetic = true := by
  -- Only the four operations of arithmetic can fail; they do so before their result is wrapped.
  have hmap {result : Except Fault Numeric} (h : result.map Value.ofNumeric = .error fault) :
      result = .error fault := by
    cases result with
    | error cause =>
        cases h
        rfl
    | ok z => cases h
  cases op with
  | plus => rw [Numeric.combine_eq_error (hmap h), Fault.isArithmetic]
  | minus => rw [Numeric.combine_eq_error (hmap h), Fault.isArithmetic]
  | times => rw [Numeric.combine_eq_error (hmap h), Fault.isArithmetic]
  | dividedBy => exact Numeric.isArithmetic_of_div (hmap h)
  | _ => cases h

/-- An operator fails only as arithmetic does. -/
theorem isArithmetic_of_apply {a b : Value} (h : op.apply a b = .error fault) :
    fault.isArithmetic = true := by
  unfold apply at h
  split at h
  · cases h
  · cases h
  · split at h
    · exact isArithmetic_of_onNumbers h
    · cases h

theorem apply_foreign (op : Operator) (a b : Value) : IsForeign (op.apply a b) :=
  fun _ h => Fault.isForeign_of_isArithmetic (isArithmetic_of_apply h)

/-- A membership test fails only on a value of another type than the items. -/
theorem applyToItems_eq_error {v : Value} {items : Items}
    (h : op.applyToItems v items = .error fault) :
    fault = .itemType v.typeName items.type.name := by
  have hoccurs {f : Option Bool → Value} (h : (occursIn v items).map f = .error fault) :
      fault = .itemType v.typeName items.type.name := by
    unfold occursIn at h
    split at h
    · cases h
    · split at h
      · cases h
      · cases h
        rfl
  unfold applyToItems at h
  split at h
  · exact hoccurs h
  · exact hoccurs h
  · cases h

theorem applyToItems_foreign (op : Operator) (v : Value) (items : Items) :
    IsForeign (op.applyToItems v items) := by
  intro fault h
  rw [applyToItems_eq_error h]
  rfl

end Operator

/-! ## Comparing -/

namespace Heap

theorem sameItems_foreign {same : Value → Value → Except Fault Bool}
    (h : ∀ a b, IsForeign (same a b)) (as bs : List Value) : IsForeign (sameItems same as bs) := by
  induction as generalizing bs with
  | nil => cases bs <;> exact .ok _
  | cons a as ih =>
      cases bs with
      | nil => exact .ok _
      | cons b bs =>
          refine .bind (h a b) fun found => ?_
          split
          · exact ih bs
          · exact .ok _

theorem tooDeepToCompare_isForeign : tooDeepToCompare.IsForeign := rfl

theorem sameWithin_foreign (h : Heap) (depth : Nat) (a b : Value) :
    IsForeign (h.sameWithin depth a b) := by
  induction depth generalizing a b with
  | zero =>
      rw [sameWithin]
      exact .error tooDeepToCompare_isForeign
  | succ depth ih =>
      have hrows (as bs : List Value) : IsForeign (sameWithin.rows h depth as bs) := by
        rw [sameWithin.rows]
        split
        · exact sameItems_foreign ih as bs
        · exact .ok _
      unfold sameWithin
      split
      · split
        · exact .ok _
        · exact hrows _ _
      · exact hrows _ _
      · exact hrows _ _
      · exact hrows _ _
      · exact sameItems_foreign ih _ _
      · exact IsForeign.ok _

theorem same_foreign (h : Heap) (a b : Value) : IsForeign (h.same a b) :=
  sameWithin_foreign h comparisonDepth a b

theorem countSame_foreign (h : Heap) (v : Value) (items : List Value) :
    IsForeign (h.countSame v items) := by
  induction items with
  | nil => exact .ok _
  | cons item items ih => exact .bind (same_foreign h item v) fun _ => .bind ih fun _ => .ok _

theorem indexFrom_foreign (h : Heap) (v : Value) (position : Nat) (items : List Value) :
    IsForeign (h.indexFrom v position items) := by
  induction items generalizing position with
  | nil => exact .ok _
  | cons item items ih =>
      refine .bind (same_foreign h item v) fun found => ?_
      split
      · exact .ok _
      · exact ih _

theorem firstDifference_foreign (h : Heap) (as bs : List Value) :
    IsForeign (h.firstDifference as bs) := by
  induction as generalizing bs with
  | nil => cases bs <;> exact .ok _
  | cons a as ih =>
      cases bs with
      | nil => exact .ok _
      | cons b bs =>
          refine .bind (same_foreign h a b) fun found => ?_
          split
          · exact ih bs
          · exact .ok _

theorem isBeyondWithin_foreign (h : Heap) (upward : Bool) (depth : Nat) (a b : Value) :
    IsForeign (h.isBeyondWithin upward depth a b) := by
  induction depth generalizing a b with
  | zero => exact .error rfl
  | succ depth ih =>
      have hrows {as bs : List Value} {f : Option (Value × Value) → Except Fault Bool}
          (hsome : ∀ x y, IsForeign (f (some (x, y)))) (hnone : IsForeign (f none)) :
          IsForeign (h.firstDifference as bs >>= f) := by
        refine .bind (firstDifference_foreign h as bs) fun difference => ?_
        obtain _ | ⟨x, y⟩ := difference
        · exact hnone
        · exact hsome x y
      unfold isBeyondWithin
      split
      · exact .ok _
      · exact hrows ih (.ok _)
      · exact hrows ih (.ok _)
      · split
        · exact .ok _
        · exact .error rfl

theorem isBeyond_foreign (h : Heap) (upward : Bool) (a b : Value) :
    IsForeign (h.isBeyond upward a b) :=
  isBeyondWithin_foreign h upward comparisonDepth a b

end Heap

/-! ## Members of the built-in types -/

namespace BuiltIn

theorem boundOf_foreign (mayLeaveOut : Bool) (otherwise : Int) (v : Option Value) :
    IsForeign (boundOf mayLeaveOut otherwise v) := by
  unfold boundOf
  split
  · exact .ok _
  · split
    · exact .ok _
    · split
      · exact .ok _
      · exact .error rfl

theorem bounds_foreign (mayLeaveOut : Bool) (length : Nat) (range : List Value) :
    IsForeign (bounds mayLeaveOut length range) :=
  .bind (boundOf_foreign _ _ _) fun _ => .bind (boundOf_foreign _ _ _) fun _ => .ok _

theorem testAffix_foreign (atEnd : Bool) (part : Option (List Char)) (affix : Value) :
    IsForeign (testAffix atEnd part affix) := by
  have hany (items : List Value) : IsForeign (hasAnyAffix atEnd part items) := by
    induction items with
    | nil => exact .ok _
    | cons item items ih =>
        unfold hasAnyAffix
        split
        · exact .ok _
        · split
          · exact .ok _
          · cases ‹_ = _›
            exact ih
        · exact .error rfl
  unfold testAffix
  split
  · exact .ok _
  · exact hany _
  · exact .error rfl

theorem selectPart_foreign (s : String) (range : List Value) : IsForeign (selectPart s range) := by
  refine .bind (bounds_foreign _ _ _) fun selected => ?_
  split
  · exact .ok _
  · exact .ok _

theorem searchMethod_foreign (s method : String) (arguments : List Value) :
    IsForeign (searchMethod s method arguments) := by
  cases arguments with
  | nil => exact .error rfl
  | cons v range =>
      unfold searchMethod
      simp only
      split
      · exact .error rfl
      · refine .bind (selectPart_foreign s range) fun part => ?_
        split
        · exact .map (testAffix_foreign _ _ _) _
        · exact .map (testAffix_foreign _ _ _) _
        · exact .ok _
        · split
          · exact .ok _
          · exact .ok _
        · exact .error rfl

theorem textMethod_foreign (s method : String) (arguments : List Value) :
    IsForeign (textMethod s method arguments) := by
  unfold textMethod
  split
  · exact .ok _
  · exact .ok _
  · exact .ok _
  · exact .ok _
  · exact .ok _
  · exact .ok _
  · exact .error rfl
  · simp only
    split
    · exact .ok _
    · exact .ok _
    · exact .error rfl
    · exact .error rfl
  · exact .error rfl
  · exact .error rfl
  · exact searchMethod_foreign _ _ _
  · exact searchMethod_foreign _ _ _
  · exact searchMethod_foreign _ _ _
  · exact searchMethod_foreign _ _ _
  · exact .error rfl

theorem rowMethod_foreign (heap : Heap) (items : List Value) (method : String)
    (arguments : List Value) : IsForeign (rowMethod heap items method arguments) := by
  unfold rowMethod
  split
  · exact .bind (Heap.countSame_foreign _ _ _) fun _ => .ok _
  · refine .bind (bounds_foreign _ _ _) fun selected => ?_
    split
    · exact .error rfl
    · refine .bind (Heap.indexFrom_foreign _ _ _ _) fun found => ?_
      split
      · exact .ok _
      · exact .error rfl
  · exact .error rfl

end BuiltIn

/-! ## Actions of host code -/

/-- Host code that fails with no fault of a name, wherever it starts. -/
abbrev IsForeignAction {α : Type} (a : HostAction α) : Prop :=
  Keeps (fun _ => True) Fault.IsForeign a

theorem isForeignAction_ofExcept {α : Type} {x : Except Fault α} (h : IsForeign x) :
    IsForeignAction (ofExcept x : HostAction α) := by
  cases x with
  | error fault => exact .throw (h fault rfl)
  | ok a => exact .pure a

theorem isForeignAction_hold (v : Value) : IsForeignAction (HostAction.hold v) :=
  fun _ _ => ⟨trivial, fun _ h => by cases h⟩

namespace BuiltIn

theorem call_foreign (receiver : Value) (method : String) (arguments : List Value) :
    IsForeignAction (call receiver method arguments) := by
  have hlift {x : Except Fault Value} (h : IsForeign x) :
      IsForeignAction (call.liftExcept x) := by
    cases x with
    | error fault => exact .throw (h fault rfl)
    | ok a => exact .pure a
  refine .bind .get fun heap => ?_
  split
  · exact .bind (isForeignAction_hold _) fun _ => .bind (.modify fun _ _ => trivial) fun _ =>
      .pure _
  · exact hlift (textMethod_foreign _ _ _)
  · exact .pure _
  · exact .pure _
  · exact .pure _
  · exact .pure _
  · exact hlift (rowMethod_foreign _ _ _ _)
  · exact .pure _
  · exact hlift (rowMethod_foreign _ _ _ _)
  · exact hlift (rowMethod_foreign _ _ _ _)
  · exact .throw rfl

end BuiltIn

/-! ## Bodies -/

theorem bindParameters_foreign (code : String) (ps : List Parameter) (vs : List Value)
    (frame : Frame) : IsForeign (bindParameters code ps vs frame) := by
  induction ps generalizing vs frame with
  | nil => cases vs with
    | nil => exact .ok _
    | cons v vs => exact .error rfl
  | cons p ps ih =>
      unfold bindParameters
      simp only
      split
      · exact ih _ _
      · split
        · exact ih _ _
        · exact .error rfl
      · split
        · exact ih _ _
        · exact ih _ _
        · exact .error rfl
      · split
        · exact ih _ _
        · exact ih _ _
        · exact .error rfl

theorem setAttribute_foreign (u : Universe) (ref : ObjectRef) (name : String) (v : Value) :
    IsForeignAction (setAttribute u ref name v) := by
  unfold setAttribute
  split
  · exact .throw rfl
  · exact .modify fun _ _ => trivial
  · split
    · exact .modify fun _ _ => trivial
    · split
      · exact .throw rfl
      · exact .throw rfl

section Bodies

variable {u : Universe} {read : ObjectRef → String → HostAction Value} {frame : Frame}

mutual

theorem Body.run_foreign (hread : ∀ ref name, IsForeignAction (read ref name)) (body : Body) :
    IsForeignAction (body.run u read frame) := by
  match body with
  | .const _ => exact .pure _
  | .param _ => exact .pure _
  | .self name =>
      unfold Body.run
      split
      · exact hread _ _
      · exact .throw rfl
  | .arguments => exact .pure _
  | .add left right =>
      unfold Body.run
      exact .bind (Body.run_foreign hread left) fun _ => .bind (Body.run_foreign hread right)
        fun _ => .bind .get fun _ => isForeignAction_ofExcept (Value.plus_foreign _ _)
  | .mul left right =>
      unfold Body.run
      exact .bind (Body.run_foreign hread left) fun _ => .bind (Body.run_foreign hread right)
        fun _ => .bind .get fun _ => isForeignAction_ofExcept (Value.times_foreign _ _)
  | .concat parts =>
      unfold Body.run
      exact .bind (Body.runAll_foreign hread parts) fun _ => .pure _
  | .upper part =>
      unfold Body.run
      refine .bind (Body.run_foreign hread part) fun _ => ?_
      split
      · exact .pure _
      · exact .throw rfl
  | .assign name part =>
      unfold Body.run
      refine .bind (Body.run_foreign hread part) fun _ => .bind (isForeignAction_hold _) fun _ => ?_
      split
      · exact .bind (setAttribute_foreign _ _ _ _) fun _ => .pure _
      · exact .throw rfl
  | .raise kind message => exact .throw rfl

theorem Body.runAll_foreign (hread : ∀ ref name, IsForeignAction (read ref name))
    (parts : List Body) : IsForeignAction (Body.runAll u read frame parts) := by
  match parts with
  | [] => exact .pure _
  | part :: parts =>
      unfold Body.runAll
      exact .bind (Body.run_foreign hread part) fun _ => .bind .get fun _ =>
        .bind (Body.runAll_foreign hread parts) fun _ => .pure _

end

end Bodies

/-! ## Attributes -/

theorem readWithin_foreign (u : Universe) (depth : Nat) (ref : ObjectRef) (name : String) :
    IsForeignAction (readWithin u depth ref name) := by
  induction depth generalizing ref name with
  | zero => exact .throw rfl
  | succ depth ih =>
      unfold readWithin
      refine .bind .get fun heap => ?_
      simp only
      split
      · exact Body.run_foreign ih _
      · exact .throw rfl
      · exact .pure _
      · exact .pure _
      · split
        · exact .bind (Body.run_foreign ih _) fun _ => .bind (isForeignAction_hold _) fun _ =>
            .bind (.modify fun _ _ => trivial) fun _ => .pure _
        · exact .throw rfl
      · exact .pure _
      · exact .pure _
      · exact .pure _
      · exact .throw rfl

theorem readObject_foreign (u : Universe) (ref : ObjectRef) (name : String) :
    IsForeignAction (readObject u ref name) :=
  readWithin_foreign u getterDepth ref name

theorem readAttribute_foreign (u : Universe) (v : Value) (name : String) :
    IsForeignAction (readAttribute u v name) := by
  unfold readAttribute
  split
  · exact readObject_foreign _ _ _
  · split
    · exact .pure _
    · split
      · exact .pure _
      · exact .throw rfl

theorem Method.call_foreign (u : Universe) (m : Method) (ref : ObjectRef) (name : String)
    (arguments : List Value) : IsForeignAction (m.call u ref name arguments) :=
  .bind (isForeignAction_ofExcept (bindParameters_foreign _ _ _ _)) fun _ =>
    Body.run_foreign (readObject_foreign u) _

theorem callFree_foreign (u : Universe) (name : String) (parameters : List Parameter)
    (body : Body) (arguments : List Value) :
    IsForeignAction (callFree u name parameters body arguments) :=
  .bind (isForeignAction_ofExcept (bindParameters_foreign _ _ _ _)) fun _ =>
    Body.run_foreign (readObject_foreign u) _

theorem callAttribute_foreign (u : Universe) (receiver : Value) (name : String)
    (arguments : List Value) : IsForeignAction (callAttribute u receiver name arguments) := by
  unfold callAttribute
  split
  · refine .bind .get fun heap => ?_
    simp only
    split
    · exact .pure _
    · exact .pure _
    · exact .pure _
    · refine .bind (readObject_foreign _ _ _) fun found => ?_
      split
      · exact .pure _
      · exact .pure _
  · split
    · exact .pure _
    · exact .bind (readAttribute_foreign _ _ _) fun _ => .pure _

/-! ## Members -/

namespace MemberTable

theorem readField?_foreign (u : Universe) (m : MemberTable) (v : Value) (name : String) :
    IsForeignAction (m.readField? u v name) := by
  unfold readField?
  split
  · refine .tryCatch (.map (readAttribute_foreign u v name) some) fun fault hfault => ?_
    split
    · exact .pure _
    · exact .throw hfault
  · exact .pure _

theorem readProperty?_foreign (u : Universe) (m : MemberTable) (v : Value) (name : String) :
    IsForeignAction (m.readProperty? u v name) := by
  unfold readProperty?
  split
  · exact .map (readAttribute_foreign u v name) some
  · exact .pure _

theorem readOwn?_foreign (u : Universe) (m : MemberTable) (v : Value) (name : String) :
    IsForeignAction (m.readOwn? u v name) := by
  unfold readOwn?
  split
  · refine .bind .get fun heap => ?_
    split
    · exact .pure _
    · exact .pure _
  · exact .pure _

/-- Reading a member fails with no fault of a name. -/
theorem readMember?_foreign (u : Universe) (m : MemberTable) (v : Value) (name : String) :
    IsForeignAction (m.readMember? u v name) := by
  refine .bind (readField?_foreign u m v name) fun field => ?_
  split
  · exact .pure _
  · refine .bind (readProperty?_foreign u m v name) fun property => ?_
    split
    · exact .pure _
    · exact readOwn?_foreign u m v name

/-- Calling a method fails with no fault of a name. -/
theorem invoke_foreign (u : Universe) (m : MemberTable) (v : Value) (method : String)
    (arguments : List Value) : IsForeignAction (m.invoke u v method arguments) := by
  refine .bind (callAttribute_foreign u v method arguments) fun run => ?_
  have hrun : Keeps (fun _ => True) (fun _ => True) run := fun _ _ => ⟨trivial, fun _ _ => trivial⟩
  exact .tryCatch hrun fun cause _ => .throw rfl

end MemberTable

/-! ## Functions -/

namespace StandardFunction

theorem pick_foreign (function : String) (before : Numeric → Numeric → Bool)
    (shorter : Nat → Nat → Bool) (a b : Value) : IsForeign (pick function before shorter a b) := by
  unfold pick
  split
  · exact .ok _
  · exact .ok _
  · exact .ok _
  · split
    · exact .ok _
    · exact .error rfl

theorem roundAt_foreign (x : Numeric) (place : Int) : IsForeign (roundAt x place) := by
  cases x with
  | int n => exact IsForeign.ok _
  | float x =>
      show IsForeign ((x.roundAt? place).elim (.error .roundedTooLarge) fun y =>
        .ok (Value.float y))
      exact IsForeign.elim rfl fun _ => IsForeign.ok _

theorem call_foreign (f : StandardFunction) (heap : Heap) (arguments : List Value) :
    IsForeign (f.call heap arguments) := by
  have haffix (atEnd : Bool) (v affix : Value) : IsForeign (hasAffix atEnd v affix) := by
    unfold hasAffix
    split
    · exact .ok _
    · exact .map (BuiltIn.testAffix_foreign _ _ _) _
  have habsolute (v : Value) : IsForeign (absoluteOf v) := by
    unfold absoluteOf
    split
    · exact .ok _
    · split
      · exact .ok _
      · exact .ok _
      · exact .error rfl
  have hround (v decimals : Value) : IsForeign (roundOf v decimals) := by
    unfold roundOf
    split
    · exact .ok _
    · split
      · exact roundAt_foreign _ _
      · exact .error rfl
  unfold call
  split
  · exact haffix _ _ _
  · exact haffix _ _ _
  · exact .ok _
  · exact .ok _
  · exact .ok _
  · exact .ok _
  · exact .ok _
  · exact pick_foreign _ _ _ _ _
  · exact pick_foreign _ _ _ _ _
  · exact habsolute _
  · exact hround _ _
  · exact .ok _
  · exact .error rfl

end StandardFunction

namespace Implementation

theorem runExtreme_foreign (largest : Bool) (heap : Heap) (arguments : List Value) :
    IsForeign (runExtreme largest heap arguments) := by
  have hextreme (best : Value) (vs : List Value) :
      IsForeign (extremeOf largest heap best vs) := by
    induction vs generalizing best with
    | nil => exact .ok _
    | cons v vs ih => exact .bind (Heap.isBeyond_foreign _ _ _ _) fun _ => ih _
  unfold runExtreme
  simp only
  split
  · exact .error rfl
  · split
    · exact hextreme _ _
    · exact .error rfl
    · exact .error rfl
  · exact hextreme _ _

/-- What is registered as a function fails with no fault of a name. -/
theorem run_foreign (u : Universe) (name : String) (arguments : List Value)
    (implementation : Implementation) :
    IsForeignAction (implementation.run u name arguments) := by
  cases implementation with
  | standard f =>
      exact .bind .get fun heap => isForeignAction_ofExcept (StandardFunction.call_foreign _ _ _)
  | written parameters body documentation => exact callFree_foreign _ _ _ _ _
  | extreme largest =>
      exact .bind .get fun heap => isForeignAction_ofExcept (runExtreme_foreign _ _ _)

end Implementation

/-- A function that is given as many arguments as it takes fails with no fault of a name. -/
theorem FunctionDefinition.call_foreign (u : Universe) {f : FunctionDefinition}
    {arguments : List Value} (h : ∀ expected ∈ f.arity, arguments.length = expected) :
    IsForeignAction (f.call u arguments) := by
  unfold call
  split
  next expected harity =>
    rw [if_pos (h expected harity)]
    exact Implementation.run_foreign _ _ _ _
  · exact Implementation.run_foreign _ _ _ _

end Formula
