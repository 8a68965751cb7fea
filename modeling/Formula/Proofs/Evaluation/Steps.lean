import Formula.Evaluation
import Formula.Proofs.Effect
import Formula.Proofs.Member.Resolution
import Formula.Proofs.Tree.Walk

set_option autoImplicit false

/-! # What evaluation keeps, and what it depends on

An evaluation is made of steps: a name is looked up, a member is read, a function or a method is
called, an operator is applied. If every step that a tree can take keeps an invariant of the store,
so does the evaluation of the tree; if every step gives the same in two settings, on any two stores
in a relation, so does the evaluation.

The invariant of interest is that the heap has some property and that the member tables cannot be
told apart from those of a given store (`Store.IsNear`). It is kept by a step if the host code that
the step may run keeps the property of the heap (`Setting.HostCode`).

Main statements: `Setting.keeps_evaluate` and `Setting.simulates_evaluate`. -/

namespace Formula

/-! ## The invariant -/

/-- The heap has a property, and the tables cannot be told apart from those of a given store. -/
structure Store.IsNear (u : Universe) (J : Heap → Prop) (origin s : Store) : Prop where
  heap : J s.heap
  tables : origin.Alike u s

namespace Action

variable {u : Universe} {J : Heap → Prop} {origin : Store} {E : Fault → Prop} {α : Type}

theorem keeps_ofHost {a : HostAction α} (h : Keeps J E a) :
    Keeps (Store.IsNear u J origin) E (ofHost a) :=
  fun s hs => ⟨⟨(h s.heap hs.heap).1, hs.tables⟩, (h s.heap hs.heap).2⟩

theorem keeps_report (events : List Event) :
    Keeps (Store.IsNear u J origin) E (report events) :=
  .modify fun _ hs => ⟨hs.heap, hs.tables⟩

theorem keeps_ofExcept {I : Store → Prop} {x : Except Fault α}
    (h : ∀ fault, x = .error fault → E fault) : Keeps I E (ofExcept x) := by
  cases x with
  | error fault => exact .throw (h fault rfl)
  | ok a => exact .pure a

theorem simulates_ofExcept {R : Store → Store → Prop} (x : Except Fault α) :
    Simulates R (ofExcept x) (ofExcept x) := by
  cases x with
  | error fault => exact .throw fault
  | ok a => exact .pure a

theorem keeps_resolve (id : Nat) (method : String) (types : List ValueType) :
    Keeps (Store.IsNear u J origin) E (resolve u id method types) := by
  refine fun s hs => ⟨⟨hs.heap, ?_⟩, fun _ h => by cases h⟩
  exact hs.tables.trans (s.alike_resolve id method types)

end Action

/-! ## Host code -/

/-- A property of the host code that the evaluation of a tree may run: the functions it calls and,
where the variable has a value, the members it reads and the methods it calls. -/
structure Setting.HostCode (s : Setting) (origin : Store) (tree : Node)
    (P : ∀ {α : Type}, HostAction α → Prop) : Prop where
  function : ∀ {name arguments f}, .call none name arguments ∈ tree.walk →
    s.functions.find? name = some f → ∀ values, P (f.call s.host values)
  member : ∀ {parent name b}, .member parent name ∈ tree.walk → s.lookup parent = some b →
    b.value.isNone = false → P ((origin.table b.members).readMember? s.host b.value name)
  method : ∀ {parent name arguments b}, .call (some parent) name arguments ∈ tree.walk →
    s.lookup parent = some b → b.value.isNone = false →
    ∀ values, P ((origin.table b.members).invoke s.host b.value name values)

namespace Setting

variable {s s' : Setting} {E : Fault → Prop}

theorem HostCode.mono {origin : Store} {tree : Node} {P Q : ∀ {α : Type}, HostAction α → Prop}
    (h : s.HostCode origin tree P) (himp : ∀ {α : Type} {a : HostAction α}, P a → Q a) :
    s.HostCode origin tree Q where
  function hm hfind values := himp (h.function hm hfind values)
  member hm hlookup hvalue := himp (h.member hm hlookup hvalue)
  method hm hlookup hvalue values := himp (h.method hm hlookup hvalue values)

/-- The host code of a part is host code of the whole. -/
theorem HostCode.part {origin : Store} {m n : Node} {P : ∀ {α : Type}, HostAction α → Prop}
    (h : s.HostCode origin n P) (hpart : ∀ k ∈ m.walk, k ∈ n.walk) : s.HostCode origin m P where
  function hm := h.function (hpart _ hm)
  member hm := h.member (hpart _ hm)
  method hm := h.method (hpart _ hm)

/-! ## Steps that keep an invariant -/

theorem keeps_trace {J : Heap → Prop} {origin : Store} (event : Heap → Event) :
    Keeps (Store.IsNear s.host J origin) E (s.trace event) := by
  unfold trace
  split
  · exact .bind .get fun _ => Action.keeps_report _
  · exact .pure _

theorem keeps_complete {I : Store → Prop} (htrace : ∀ event, Keeps I E (s.trace event))
    (hwithin : ∀ fault part, E fault → E (fault.within part)) {action : Action Value} (node : Node)
    (ha : Keeps I E action) : Keeps I E (s.complete node action) := by
  refine .bind (.tryCatch ha fun fault hfault => .throw (hwithin fault _ hfault)) fun v => ?_
  exact .bind (htrace _) fun _ => .pure _

section Steps

variable {J : Heap → Prop} {origin : Store}

theorem keeps_readName {I : Store → Prop} {n : String}
    (hunbound : s.lookup n = none → E (.unboundName n)) : Keeps I E (s.readName n) := by
  unfold readName
  cases hlookup : s.lookup n with
  | none => exact .throw (hunbound hlookup)
  | some b => exact .pure _

theorem keeps_readMember {parent name : String}
    (hunbound : s.lookup parent = none → E (.unboundParent parent))
    (hmissing : ∀ b heap, s.lookup parent = some b → b.value.isNone = true → J heap →
      (origin.table b.members).hasMember name = false → E (.noMember name parent))
    (habsent : ∀ b heap, s.lookup parent = some b → b.value.isNone = false → J heap →
      ((origin.table b.members).readMember? s.host b.value name heap).1 = .ok none →
      E (.noMember name parent))
    (hread : ∀ b, s.lookup parent = some b → b.value.isNone = false →
      Keeps J E ((origin.table b.members).readMember? s.host b.value name)) :
    Keeps (Store.IsNear s.host J origin) E (s.readMember parent name) := by
  unfold readMember
  cases hlookup : s.lookup parent with
  | none => exact .throw (hunbound hlookup)
  | some b =>
      refine .get_bind fun σ hσ => ?_
      simp only
      rw [(hσ.tables b.members).hasMember, (hσ.tables b.members).readMember?]
      by_cases hnone : b.value.isNone = true
      · rw [if_pos hnone]
        split
        · exact .pure _
        next hmember => exact .throw (hmissing b _ hlookup hnone hσ.heap (by simpa using hmember))
      · have hvalue : b.value.isNone = false := by simpa using hnone
        rw [if_neg hnone]
        refine .bind_of (Action.keeps_ofHost (hread b hlookup hvalue)) fun τ found hτ hfound => ?_
        cases found with
        | some v => exact .pure _
        | none => exact .throw (habsent b τ.heap hlookup hvalue hτ.heap hfound)

theorem keeps_callFunction {name : String} {values : List Value}
    (hmissing : s.functions.find? name = none →
      E (if Text.lower name = "if" then .conditionalForm else .notRegistered name))
    (hcall : ∀ f, s.functions.find? name = some f → Keeps J E (f.call s.host values)) :
    Keeps (Store.IsNear s.host J origin) E (s.callFunction name values) := by
  unfold callFunction
  cases hfind : s.functions.find? name with
  | none => exact .throw (hmissing hfind)
  | some f => exact .bind (keeps_trace _) fun _ => Action.keeps_ofHost (hcall f hfind)

theorem keeps_callMethod {parent name : String} {values : List Value}
    (hunbound : s.lookup parent = none → E (.unboundName parent))
    (hmissing : ∀ b, s.lookup parent = some b →
      (origin.table b.members).hasMethod name = false → E (.noMethod name parent))
    (hoverload : ∀ types, E (.noOverload name parent types))
    (hinvoke : ∀ b, s.lookup parent = some b → b.value.isNone = false →
      Keeps J E ((origin.table b.members).invoke s.host b.value name values)) :
    Keeps (Store.IsNear s.host J origin) E (s.callMethod parent name values) := by
  unfold callMethod
  cases hlookup : s.lookup parent with
  | none => exact .throw (hunbound hlookup)
  | some b =>
      refine .get_bind fun σ hσ => ?_
      rw [(hσ.tables b.members).hasMethod]
      split
      · refine .bind (Action.keeps_resolve _ _ _) fun pick => ?_
        cases pick with
        | none => exact .throw (hoverload _)
        | some signature =>
            simp only
            by_cases hnone : b.value.isNone = true
            · rw [if_pos hnone]
              exact .pure _
            · rw [if_neg hnone]
              refine .bind (keeps_trace _) fun _ => .get_bind fun σ hσ => ?_
              rw [(hσ.tables b.members).invoke]
              exact Action.keeps_ofHost (hinvoke b hlookup (by simpa using hnone))
      next hmethod => exact .throw (hmissing b hlookup (by simpa using hmethod))

end Steps

/-- What the steps of a tree keep, and how they fail. -/
structure StepsKeep (s : Setting) (I : Store → Prop) (E : Fault → Prop) (tree : Node) : Prop where
  trace : ∀ event, Keeps I E (s.trace event)
  within : ∀ fault part, E fault → E (fault.within part)
  name : ∀ {n}, .name n ∈ tree.walk → Keeps I E (s.readName n)
  member : ∀ {parent n}, .member parent n ∈ tree.walk → Keeps I E (s.readMember parent n)
  call : ∀ {parent n arguments}, .call parent n arguments ∈ tree.walk →
    ∀ values, values.length = arguments.length → Keeps I E (s.call parent n values)
  apply : ∀ {op : Operator} {a b fault}, op.apply a b = .error fault → E fault
  applyToItems : ∀ {op : Operator} {a items fault}, op.applyToItems a items = .error fault → E fault
  holds : ∀ {v fault}, holds v = .error fault → E fault

theorem StepsKeep.part {I : Store → Prop} {m n : Node} (h : s.StepsKeep I E n)
    (hpart : ∀ k ∈ m.walk, k ∈ n.walk) : s.StepsKeep I E m :=
  { h with
    name := fun hm => h.name (hpart _ hm)
    member := fun hm => h.member (hpart _ hm)
    call := fun hm => h.call (hpart _ hm) }

theorem StepsKeep.complete {I : Store → Prop} {tree : Node} (h : s.StepsKeep I E tree)
    {action : Action Value} (node : Node) (ha : Keeps I E action) :
    Keeps I E (s.complete node action) :=
  keeps_complete h.trace h.within node ha

/-- As many values are given as there are trees. -/
theorem length_of_evaluateAll {nodes : List Node} {σ σ' : Store} {values : List Value}
    (h : s.evaluateAll nodes σ = (.ok values, σ')) : values.length = nodes.length := by
  induction nodes generalizing values σ σ' with
  | nil =>
      rw [evaluateAll] at h
      cases h
      rfl
  | cons node nodes ih =>
      rw [evaluateAll] at h
      obtain ⟨v, σ₁, _, h⟩ := of_run_bind_eq_ok h
      obtain ⟨vs, σ₂, hvs, h⟩ := of_run_bind_eq_ok h
      cases h
      rw [List.length_cons, List.length_cons, ih hvs]

theorem keeps_evaluateAll {I : Store → Prop} {nodes : List Node}
    (h : ∀ n ∈ nodes, Keeps I E (s.evaluate n)) : Keeps I E (s.evaluateAll nodes) := by
  induction nodes with
  | nil =>
      rw [evaluateAll]
      exact .pure _
  | cons node nodes ih =>
      rw [evaluateAll]
      have hfirst := h node List.mem_cons_self
      have hrest := ih fun n hn => h n (List.mem_cons_of_mem _ hn)
      exact .bind hfirst fun _ => .bind hrest fun _ => .pure _

/-- The steps of a tree keep a property of the heap that its host code keeps. -/
theorem HostCode.stepsKeep {J : Heap → Prop} {origin : Store} {tree : Node}
    (h : s.HostCode origin tree (Keeps J fun _ => True)) :
    s.StepsKeep (Store.IsNear s.host J origin) (fun _ => True) tree where
  trace := keeps_trace
  within _ _ _ := trivial
  name _ := keeps_readName fun _ => trivial
  member hmem := keeps_readMember (fun _ => trivial) (fun _ _ _ _ _ _ => trivial)
    (fun _ _ _ _ _ _ => trivial) fun _ hlookup hvalue => h.member hmem hlookup hvalue
  call := by
    intro parent n arguments hmem values _
    cases parent with
    | none => exact keeps_callFunction (fun _ => trivial) fun _ hf => h.function hmem hf values
    | some parent =>
        exact keeps_callMethod (fun _ => trivial) (fun _ _ _ => trivial) (fun _ => trivial)
          fun _ hlookup hvalue => h.method hmem hlookup hvalue values
  apply _ := trivial
  applyToItems _ := trivial
  holds _ := trivial

/-- What all steps of a tree keep is kept by its evaluation. -/
theorem keeps_evaluate {I : Store → Prop} {n : Node} (h : s.StepsKeep I E n) :
    Keeps I E (s.evaluate n) := by
  induction n using Node.parts with
  | literal value =>
      rw [evaluate]
      exact h.complete _ (.pure _)
  | list items =>
      rw [evaluate]
      exact h.complete _ (.pure _)
  | name n =>
      rw [evaluate]
      exact h.complete _ (h.name (Node.mem_walk_self _))
  | member parent n =>
      rw [evaluate]
      exact h.complete _ (h.member (Node.mem_walk_self _))
  | call parent n arguments ih =>
      have harguments : Keeps I E (s.evaluateAll arguments) := by
        refine keeps_evaluateAll fun argument hargument => ih argument hargument ?_
        exact h.part fun k hk => Node.mem_walk_call.2 (.inr ⟨argument, hargument, hk⟩)
      rw [evaluate]
      refine h.complete _ (.bind_of harguments fun σ values _ hvalues => ?_)
      refine h.call (Node.mem_walk_self _) values ?_
      rcases hrun : s.evaluateAll arguments σ with ⟨r, σ'⟩
      rw [hrun] at hvalues
      simp only at hvalues
      subst hvalues
      exact length_of_evaluateAll hrun
  | binary op left right ihl ihr =>
      have hl := ihl (h.part fun k hk => Node.mem_walk_binary.2 (.inr (.inl hk)))
      have hr := ihr (h.part fun k hk => Node.mem_walk_binary.2 (.inr (.inr hk)))
      rw [evaluate]
      refine h.complete _ (.bind hl fun a => ?_)
      split
      · exact Action.keeps_ofExcept fun _ => h.applyToItems
      · exact .bind hr fun b => Action.keeps_ofExcept fun _ => h.apply
  | conditional condition truthy falsy ihc iht ihf =>
      have hc := ihc (h.part fun k hk => Node.mem_walk_conditional.2 (.inr (.inl hk)))
      have ht := iht (h.part fun k hk => Node.mem_walk_conditional.2 (.inr (.inr (.inl hk))))
      have hf := ihf (h.part fun k hk => Node.mem_walk_conditional.2 (.inr (.inr (.inr hk))))
      rw [evaluate]
      refine h.complete _ (.bind hc fun c => .bind (Action.keeps_ofExcept fun _ => h.holds) ?_)
      intro holds
      cases holds with
      | true => exact ht
      | false => exact hf

/-! ## Steps with the same results -/

/-- Two settings take each step of a tree with the same result, on any two stores in a relation. -/
structure StepsSimulate (s s' : Setting) (R : Store → Store → Prop) (tree : Node) : Prop where
  trace : ∀ event event', Simulates R (s.trace event) (s'.trace event')
  name : ∀ {n}, .name n ∈ tree.walk → Simulates R (s.readName n) (s'.readName n)
  member : ∀ {parent n}, .member parent n ∈ tree.walk →
    Simulates R (s.readMember parent n) (s'.readMember parent n)
  call : ∀ {parent n arguments}, .call parent n arguments ∈ tree.walk →
    ∀ values, Simulates R (s.call parent n values) (s'.call parent n values)

theorem StepsSimulate.part {R : Store → Store → Prop} {m n : Node} (h : s.StepsSimulate s' R n)
    (hpart : ∀ k ∈ m.walk, k ∈ n.walk) : s.StepsSimulate s' R m :=
  { h with
    name := fun hm => h.name (hpart _ hm)
    member := fun hm => h.member (hpart _ hm)
    call := fun hm => h.call (hpart _ hm) }

theorem StepsSimulate.complete {R : Store → Store → Prop} {tree : Node} (h : s.StepsSimulate s' R tree)
    (node : Node) {action action' : Action Value} (ha : Simulates R action action') :
    Simulates R (s.complete node action) (s'.complete node action') :=
  .bind (.tryCatch ha fun _ => .throw _) fun _ => .bind (h.trace _ _) fun _ => .pure _

theorem simulates_evaluateAll {R : Store → Store → Prop} {nodes : List Node}
    (h : ∀ n ∈ nodes, Simulates R (s.evaluate n) (s'.evaluate n)) :
    Simulates R (s.evaluateAll nodes) (s'.evaluateAll nodes) := by
  induction nodes with
  | nil =>
      rw [evaluateAll, evaluateAll]
      exact .pure _
  | cons node nodes ih =>
      rw [evaluateAll, evaluateAll]
      have hfirst := h node List.mem_cons_self
      have hrest := ih fun n hn => h n (List.mem_cons_of_mem _ hn)
      exact .bind hfirst fun _ => .bind hrest fun _ => .pure _

/-- Where every step of a tree has the same result, its evaluation has. -/
theorem simulates_evaluate {R : Store → Store → Prop} {n : Node} (h : s.StepsSimulate s' R n) :
    Simulates R (s.evaluate n) (s'.evaluate n) := by
  induction n using Node.parts with
  | literal value =>
      rw [evaluate, evaluate]
      exact h.complete _ (.pure _)
  | list items =>
      rw [evaluate, evaluate]
      exact h.complete _ (.pure _)
  | name n =>
      rw [evaluate, evaluate]
      exact h.complete _ (h.name (Node.mem_walk_self _))
  | member parent n =>
      rw [evaluate, evaluate]
      exact h.complete _ (h.member (Node.mem_walk_self _))
  | call parent n arguments ih =>
      have harguments : Simulates R (s.evaluateAll arguments) (s'.evaluateAll arguments) := by
        refine simulates_evaluateAll fun argument hargument => ih argument hargument ?_
        exact h.part fun k hk => Node.mem_walk_call.2 (.inr ⟨argument, hargument, hk⟩)
      rw [evaluate, evaluate]
      exact h.complete _ (.bind harguments fun values => h.call (Node.mem_walk_self _) values)
  | binary op left right ihl ihr =>
      have hl := ihl (h.part fun k hk => Node.mem_walk_binary.2 (.inr (.inl hk)))
      have hr := ihr (h.part fun k hk => Node.mem_walk_binary.2 (.inr (.inr hk)))
      rw [evaluate, evaluate]
      refine h.complete _ (.bind hl fun a => ?_)
      split
      · exact Action.simulates_ofExcept _
      · exact .bind hr fun b => Action.simulates_ofExcept _
  | conditional condition truthy falsy ihc iht ihf =>
      have hc := ihc (h.part fun k hk => Node.mem_walk_conditional.2 (.inr (.inl hk)))
      have ht := iht (h.part fun k hk => Node.mem_walk_conditional.2 (.inr (.inr (.inl hk))))
      have hf := ihf (h.part fun k hk => Node.mem_walk_conditional.2 (.inr (.inr (.inr hk))))
      rw [evaluate, evaluate]
      refine h.complete _ (.bind hc fun c => .bind (Action.simulates_ofExcept _) fun holds => ?_)
      cases holds with
      | true => exact ht
      | false => exact hf

end Setting

end Formula
