import Formula.Proofs.Evaluation.Steps

set_option autoImplicit false

/-! # Evaluation that reaches the host in another way

An evaluation reaches the host in three ways: a function is called, a member of an object is read, a
method of an object is called. What each of them does can be replaced by anything else
(`Setting.evaluateVia`).

Some invariants of the store hold however the heap changes (`Store.IsStable`), such as that the member
tables cannot be told apart from those of a given store. They are kept whatever the host code does,
and so by evaluations that reach the host in any way, the usual one among them.

Main statements: `Setting.evaluateVia_direct` and `Setting.keeps_evaluateVia`. -/

namespace Formula

/-- How the host is reached: how a function is called, how a member of a value is read and how a
method of it is called. -/
structure Access where
  call : Universe → FunctionDefinition → List Value → HostAction Value
  read : Universe → MemberTable → Value → String → HostAction (Option Value)
  invoke : Universe → MemberTable → Value → String → List Value → HostAction Value

/-- The host is reached as it is. -/
def Access.direct : Access where
  call u f arguments := f.call u arguments
  read u m v name := m.readMember? u v name
  invoke u m v name arguments := m.invoke u v name arguments

namespace Setting

/-! ## Evaluation by another access -/

/-- The value of a member of a variable, read in the given way. -/
def readMemberVia (s : Setting) (a : Access) (parent name : String) : Action Value := do
  match s.lookup parent with
  | none => throw (.unboundParent parent)
  | some b =>
    let m := (← get).table b.members
    if b.value.isNone then
      if m.hasMember name then return .none else throw (.noMember name parent)
    else
      match ← Action.ofHost (a.read s.host m b.value name) with
      | some v => return v
      | none => throw (.noMember name parent)

/-- Calls a function in the given way. -/
def callFunctionVia (s : Setting) (a : Access) (name : String) (arguments : List Value) :
    Action Value := do
  match s.functions.find? name with
  | none => throw (if Text.lower name = "if" then .conditionalForm else .notRegistered name)
  | some f =>
    s.trace fun heap => .calling name (arguments.map heap.freeze)
    Action.ofHost (a.call s.host f arguments)

/-- Calls a method of a variable in the given way. -/
def callMethodVia (s : Setting) (a : Access) (parent name : String) (arguments : List Value) :
    Action Value := do
  match s.lookup parent with
  | none => throw (.unboundName parent)
  | some b =>
    if ((← get).table b.members).hasMethod name then
      let types := arguments.map (·.type)
      match ← Action.resolve s.host b.members name types with
      | none => throw (.noOverload name parent (types.map (·.name)))
      | some _ =>
        if b.value.isNone then return .none
        else
          s.trace fun heap => .invoking parent name (arguments.map heap.freeze)
          let m := (← get).table b.members
          Action.ofHost (a.invoke s.host m b.value name arguments)
    else throw (.noMethod name parent)

/-- Calls a function or, with a parent, a method in the given way. -/
def callVia (s : Setting) (a : Access) (parent : Option String) (name : String)
    (arguments : List Value) : Action Value :=
  match parent with
  | none => s.callFunctionVia a name arguments
  | some parent => s.callMethodVia a parent name arguments

mutual

/-- The value of a tree when the host is reached in the given way. -/
def evaluateVia (s : Setting) (a : Access) : Node → Action Value
  | .literal value => s.complete (.literal value) (return value.toValue)
  | .list items => s.complete (.list items) (return .list items.values)
  | .name n => s.complete (.name n) (s.readName n)
  | .member parent n => s.complete (.member parent n) (s.readMemberVia a parent n)
  | .call parent n arguments => s.complete (.call parent n arguments) do
    let values ← s.evaluateAllVia a arguments
    s.callVia a parent n values
  | .binary op left right => s.complete (.binary op left right) do
    let x ← s.evaluateVia a left
    match right.items? with
    | some items => Action.ofExcept (op.applyToItems x items)
    | none =>
      let y ← s.evaluateVia a right
      Action.ofExcept (op.apply x y)
  | .conditional condition truthy falsy =>
    s.complete (.conditional condition truthy falsy) do
      let c ← s.evaluateVia a condition
      if ← Action.ofExcept (holds c) then s.evaluateVia a truthy else s.evaluateVia a falsy

/-- The values of some trees, from left to right. -/
def evaluateAllVia (s : Setting) (a : Access) : List Node → Action (List Value)
  | [] => return []
  | node :: nodes => do
    let v ← s.evaluateVia a node
    let vs ← s.evaluateAllVia a nodes
    return v :: vs

end

variable {s : Setting} {a a' : Access}

/-! ## The host as it is -/

theorem evaluateAllVia_congr {nodes : List Node}
    (h : ∀ n ∈ nodes, s.evaluateVia a n = s.evaluateVia a' n) :
    s.evaluateAllVia a nodes = s.evaluateAllVia a' nodes := by
  induction nodes with
  | nil => rw [evaluateAllVia, evaluateAllVia]
  | cons node nodes ih =>
      have hrest := ih fun n hn => h n (List.mem_cons_of_mem _ hn)
      rw [evaluateAllVia, evaluateAllVia, h node List.mem_cons_self, hrest]

theorem evaluateAllVia_of_direct {nodes : List Node}
    (h : ∀ n ∈ nodes, s.evaluateVia .direct n = s.evaluate n) :
    s.evaluateAllVia .direct nodes = s.evaluateAll nodes := by
  induction nodes with
  | nil => rw [evaluateAllVia, evaluateAll]
  | cons node nodes ih =>
      have hrest := ih fun n hn => h n (List.mem_cons_of_mem _ hn)
      rw [evaluateAllVia, evaluateAll, h node List.mem_cons_self, hrest]

/-- If the host is reached as it is, a tree has its own value. -/
theorem evaluateVia_direct (s : Setting) (tree : Node) :
    s.evaluateVia .direct tree = s.evaluate tree := by
  induction tree using Node.parts with
  | literal value => rw [evaluateVia, evaluate]
  | list items => rw [evaluateVia, evaluate]
  | name n => rw [evaluateVia, evaluate]
  | member parent n => rw [evaluateVia]; rfl
  | call parent n arguments ih =>
      have hcall (values : List Value) : s.callVia .direct parent n values =
          s.call parent n values := by
        cases parent <;> rfl
      rw [evaluateVia, evaluate, evaluateAllVia_of_direct ih]
      simp only [hcall]
  | binary op left right ihl ihr => rw [evaluateVia, ihl, ihr]; rfl
  | conditional condition truthy falsy ihc iht ihf =>
      rw [evaluateVia, evaluate, ihc, iht, ihf]

theorem evaluateAllVia_direct (s : Setting) (nodes : List Node) :
    s.evaluateAllVia .direct nodes = s.evaluateAll nodes :=
  evaluateAllVia_of_direct fun n _ => s.evaluateVia_direct n

end Setting

/-! ## Invariants that hold however the heap changes -/

/-- An invariant that holds however the heap changes and whatever is reported, and that choosing an
overload keeps. -/
structure Store.IsStable (u : Universe) (I : Store → Prop) : Prop where
  heap : ∀ {σ : Store} (heap : Heap), I σ → I { σ with heap }
  report : ∀ {σ : Store} (events : List Event), I σ → I (σ.report events)
  resolve : ∀ {σ : Store} (id : Nat) (method : String) (types : List ValueType), I σ →
    I (σ.replaceTable id ((σ.table id).resolve u method types).table)

theorem Store.isStable_alike (u : Universe) (origin : Store) : IsStable u (origin.Alike u) where
  heap heap h := h.trans (Store.alike_withHeap _ heap)
  report events h := h.trans (Store.alike_report _ events)
  resolve id method types h := h.trans (Store.alike_resolve _ id method types)

theorem Store.isStable_count (u : Universe) (count : Nat) :
    IsStable u fun σ => σ.tables.length = count where
  heap _ h := h
  report _ h := h
  resolve _ _ _ h := List.length_set.trans h

namespace Action

variable {u : Universe} {I : Store → Prop} {E : Fault → Prop}

theorem keeps_ofHost_of_isStable (h : Store.IsStable u I) {α : Type} (a : HostAction α) :
    Keeps I (fun _ => True) (ofHost a) :=
  fun _ hσ => ⟨h.heap _ hσ, fun _ _ => trivial⟩

theorem keeps_resolve_of_isStable (h : Store.IsStable u I) (id : Nat) (method : String)
    (types : List ValueType) : Keeps I E (resolve u id method types) :=
  fun _ hσ => ⟨h.report _ (h.resolve id method types hσ), fun _ hf => by cases hf⟩

end Action

namespace Setting

variable {s : Setting} {a : Access} {I : Store → Prop} {E : Fault → Prop}

theorem keeps_trace_of_isStable (h : Store.IsStable s.host I)
    (event : Heap → Event) : Keeps I E (s.trace event) := by
  unfold trace
  split
  · exact .bind .get fun _ => .modify fun σ hσ => h.report _ hσ
  · exact .pure _

theorem keeps_readMemberVia (h : Store.IsStable s.host I) (parent name : String) :
    Keeps I (fun _ => True) (s.readMemberVia a parent name) := by
  unfold readMemberVia
  cases s.lookup parent with
  | none => exact .throw trivial
  | some b =>
      refine .bind .get fun σ => ?_
      simp only
      split
      · split
        · exact .pure _
        · exact .throw trivial
      · refine .bind (Action.keeps_ofHost_of_isStable h _) fun found => ?_
        cases found with
        | some v => exact .pure _
        | none => exact .throw trivial

theorem keeps_callVia (h : Store.IsStable s.host I) (parent : Option String) (name : String)
    (values : List Value) : Keeps I (fun _ => True) (s.callVia a parent name values) := by
  cases parent with
  | none =>
      show Keeps I _ (s.callFunctionVia a name values)
      unfold callFunctionVia
      cases s.functions.find? name with
      | none => exact .throw trivial
      | some f =>
          exact .bind (keeps_trace_of_isStable h _) fun _ => Action.keeps_ofHost_of_isStable h _
  | some parent =>
      show Keeps I _ (s.callMethodVia a parent name values)
      unfold callMethodVia
      cases s.lookup parent with
      | none => exact .throw trivial
      | some b =>
          refine .bind .get fun σ => ?_
          split
          · refine .bind (Action.keeps_resolve_of_isStable h _ _ _) fun pick => ?_
            cases pick with
            | none => exact .throw trivial
            | some signature =>
                simp only
                split
                · exact .pure _
                · exact .bind (keeps_trace_of_isStable h _) fun _ => .bind .get fun _ =>
                    Action.keeps_ofHost_of_isStable h _
          · exact .throw trivial

theorem keeps_evaluateAllVia {nodes : List Node}
    (h : ∀ n ∈ nodes, Keeps I (fun _ => True) (s.evaluateVia a n)) :
    Keeps I (fun _ => True) (s.evaluateAllVia a nodes) := by
  induction nodes with
  | nil =>
      rw [evaluateAllVia]
      exact .pure _
  | cons node nodes ih =>
      rw [evaluateAllVia]
      have hrest := ih fun n hn => h n (List.mem_cons_of_mem _ hn)
      exact .bind (h node List.mem_cons_self) fun _ => .bind hrest fun _ => .pure _

/-- However the host is reached, an evaluation keeps what every change of the heap keeps. -/
theorem keeps_evaluateVia (h : Store.IsStable s.host I) (n : Node) :
    Keeps I (fun _ => True) (s.evaluateVia a n) := by
  have hcomplete (node : Node) {action : Action Value} (haction : Keeps I (fun _ => True) action) :
      Keeps I (fun _ => True) (s.complete node action) :=
    keeps_complete (keeps_trace_of_isStable h) (fun _ _ _ => trivial) node haction
  induction n using Node.parts with
  | literal value =>
      rw [evaluateVia]
      exact hcomplete _ (.pure _)
  | list items =>
      rw [evaluateVia]
      exact hcomplete _ (.pure _)
  | name n =>
      rw [evaluateVia]
      exact hcomplete _ (keeps_readName fun _ => trivial)
  | member parent n =>
      rw [evaluateVia]
      exact hcomplete _ (keeps_readMemberVia h parent n)
  | call parent n arguments ih =>
      rw [evaluateVia]
      exact hcomplete _ (.bind (keeps_evaluateAllVia ih) fun values => keeps_callVia h parent n values)
  | binary op left right ihl ihr =>
      rw [evaluateVia]
      refine hcomplete _ (.bind ihl fun x => ?_)
      split
      · exact Action.keeps_ofExcept fun _ _ => trivial
      · exact .bind ihr fun y => Action.keeps_ofExcept fun _ _ => trivial
  | conditional condition truthy falsy ihc iht ihf =>
      rw [evaluateVia]
      refine hcomplete _ (.bind ihc fun c => .bind (Action.keeps_ofExcept fun _ _ => trivial) ?_)
      intro holds
      cases holds with
      | true => exact iht
      | false => exact ihf

theorem keeps_evaluate_of_isStable (h : Store.IsStable s.host I) (n : Node) :
    Keeps I (fun _ => True) (s.evaluate n) := by
  rw [← evaluateVia_direct]
  exact keeps_evaluateVia h n

/-- The tables stay as they are as far as they can be told apart. -/
theorem keeps_evaluate_tables (s : Setting) (origin : Store) (n : Node) :
    Keeps (origin.Alike s.host) (fun _ => True) (s.evaluate n) :=
  keeps_evaluate_of_isStable (Store.isStable_alike s.host origin) n

end Setting

end Formula
