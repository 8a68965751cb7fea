import Formula.Proofs.Evaluation.Steps

set_option autoImplicit false

/-! # Evaluation with pure host code

Where the host code that a tree may run is pure, the value of the tree depends on nothing but the
variables that it names: their types and values. It does not matter when the tree is evaluated, nor
whether the evaluation is traced, nor which numbers the member tables have; signatures that were kept
in the meantime are the ones that would be found again.

Main statements: `Setting.simulates_of_agreesOn` (two settings that agree on what a tree mentions) and
`Setting.agrees_of_isPure` (one setting at two times). -/

namespace Formula

/-- Host code that is pure as far as some heaps go: it leads from one to another of them, and does
the same on all. A property that is computed once and kept in the instance is pure in this sense if
its body is; what leaves the heap as it is always is. -/
def HostAction.IsPure (J : Heap → Prop) {α : Type} (a : HostAction α) : Prop := Agrees J a a

theorem HostAction.isPure_of_unchanged {α : Type} {a : HostAction α}
    (h : ∀ heap, (a heap).2 = heap) (heap : Heap) : IsPure (· = heap) a := by
  rintro _ _ rfl rfl
  exact ⟨rfl, h _, h _⟩

theorem HostAction.IsPure.keeps {J : Heap → Prop} {α : Type} {a : HostAction α} (h : IsPure J a) :
    Keeps J (fun _ => True) a :=
  fun heap hheap => ⟨(h heap heap hheap hheap).2.1, fun _ _ => trivial⟩

/-! ## The same variables -/

/-- What a name is bound to in two settings is the same: nothing, or a variable of the same type and
value, with tables that cannot be told apart. -/
inductive Binding.Same (u : Universe) (origin origin' : Store) : Option Binding → Option Binding → Prop
  | none : Same u origin origin' none none
  | some {b b' : Binding} : b'.toVariable = b.toVariable →
      (origin.table b.members).Alike u (origin'.table b'.members) →
      Same u origin origin' (some b) (some b')

theorem Binding.Same.refl (u : Universe) (origin : Store) (b : Option Binding) :
    Same u origin origin b b := by
  cases b with
  | none => exact .none
  | some b => exact .some rfl (.refl _)

/-- Two settings have the same functions, and the same variables as far as a tree names them. -/
structure Setting.Matches (s s' : Setting) (origin origin' : Store) (tree : Node) : Prop where
  host : s'.host = s.host
  functions : s'.functions = s.functions
  lookup : ∀ m ∈ tree.walk, ∀ name ∈ m.subject?,
    Binding.Same s.host origin origin' (s.lookup name) (s'.lookup name)

/-- Two settings agree on what a tree mentions: the functions that it calls are the same, and so are
the variables that it names. -/
structure Setting.AgreesOn (s s' : Setting) (origin origin' : Store) (tree : Node) : Prop where
  host : s'.host = s.host
  functions : ∀ {name arguments}, .call none name arguments ∈ tree.walk →
    s'.functions.find? name = s.functions.find? name
  lookup : ∀ m ∈ tree.walk, ∀ name ∈ m.subject?,
    Binding.Same s.host origin origin' (s.lookup name) (s'.lookup name)

theorem Setting.Matches.agreesOn {s s' : Setting} {origin origin' : Store} {tree : Node}
    (h : s.Matches s' origin origin' tree) : s.AgreesOn s' origin origin' tree where
  host := h.host
  functions _ := by rw [h.functions]
  lookup := h.lookup

/-- Both heaps have a property, and the tables of each store cannot be told apart from those of a
store of its own. -/
def Store.IsPaired (u : Universe) (J : Heap → Prop) (origin origin' s t : Store) : Prop :=
  IsNear u J origin s ∧ IsNear u J origin' t

namespace Action

variable {u : Universe} {J : Heap → Prop} {origin origin' : Store} {α : Type}

theorem simulates_ofHost {a : HostAction α} (h : HostAction.IsPure J a) :
    Simulates (Store.IsPaired u J origin origin') (ofHost a) (ofHost a) := by
  rintro s t ⟨hs, ht⟩
  obtain ⟨hsame, hs', ht'⟩ := h s.heap t.heap hs.heap ht.heap
  exact ⟨hsame, ⟨hs', hs.tables⟩, ⟨ht', ht.tables⟩⟩

/-- From tables that cannot be told apart the same overload is chosen. -/
theorem simulates_resolve {id id' : Nat} (h : (origin.table id).Alike u (origin'.table id'))
    (method : String) (types : List ValueType) :
    Simulates (Store.IsPaired u J origin origin') (resolve u id method types)
      (resolve u id' method types) := by
  have hkeeps := @keeps_resolve u J origin (fun _ => True) id method types
  have hkeeps' := @keeps_resolve u J origin' (fun _ => True) id' method types
  rintro s t ⟨hs, ht⟩
  refine ⟨?_, (hkeeps s hs).1, (hkeeps' t ht).1⟩
  have hsame := ((hs.tables id).symm.trans h).trans (ht.tables id')
  show Except.ok ((s.table id).resolve u method types).pick =
    Except.ok ((t.table id').resolve u method types).pick
  rw [hsame.pick method types]

end Action

namespace Setting

variable {s s' : Setting} {J : Heap → Prop} {origin origin' : Store} {tree : Node}

/-! ## Steps -/

theorem simulates_trace (event event' : Heap → Event) :
    Simulates (Store.IsPaired s.host J origin origin') (s.trace event) (s'.trace event') := by
  rintro σ τ ⟨hσ, hτ⟩
  have hkeeps := @keeps_trace s (fun _ => True) J origin event σ hσ
  have hkeeps' := @keeps_trace { s with traced := s'.traced } (fun _ => True) J origin' event' τ hτ
  refine ⟨?_, hkeeps.1, hkeeps'.1⟩
  rw [run_trace, run_trace]

theorem simulates_readName {n : String}
    (h : Binding.Same s.host origin origin' (s.lookup n) (s'.lookup n)) :
    Simulates (Store.IsPaired s.host J origin origin') (s.readName n) (s'.readName n) := by
  unfold readName
  generalize s.lookup n = found, s'.lookup n = found' at h
  cases h with
  | none => exact .throw _
  | some hvariable _ =>
      simp only
      rw [hvariable]
      exact .pure _

theorem simulates_readMember {parent name : String} (hhost : s'.host = s.host)
    (h : Binding.Same s.host origin origin' (s.lookup parent) (s'.lookup parent))
    (hpure : ∀ b, s.lookup parent = some b → b.value.isNone = false →
      HostAction.IsPure J ((origin.table b.members).readMember? s.host b.value name)) :
    Simulates (Store.IsPaired s.host J origin origin') (s.readMember parent name)
      (s'.readMember parent name) := by
  unfold readMember
  generalize s.lookup parent = found, s'.lookup parent = found' at h hpure
  cases h with
  | none => exact .throw _
  | @some b b' hvariable halike =>
      refine .get_bind fun σ τ hστ => ?_
      have hσ := hστ.1.tables b.members
      have hτ := halike.trans (hστ.2.tables b'.members)
      simp only
      rw [hhost, hvariable, hσ.hasMember, hτ.hasMember, hσ.readMember?, hτ.readMember?]
      by_cases hnone : b.value.isNone = true
      · rw [if_pos hnone]
        split
        · exact .pure _
        · exact .throw _
      · rw [if_neg hnone]
        have hread := hpure b rfl (by simpa using hnone)
        refine .bind (Action.simulates_ofHost hread) fun found => ?_
        split
        · exact .pure _
        · exact .throw _

theorem simulates_callFunction {name : String} (hhost : s'.host = s.host)
    (hfunction : s'.functions.find? name = s.functions.find? name)
    (hpure : ∀ f, s.functions.find? name = some f →
      ∀ values, HostAction.IsPure J (f.call s.host values)) (values : List Value) :
    Simulates (Store.IsPaired s.host J origin origin') (s.callFunction name values)
      (s'.callFunction name values) := by
  unfold callFunction
  rw [hfunction, hhost]
  cases hfind : s.functions.find? name with
  | none => exact .throw _
  | some f =>
      exact .bind (simulates_trace _ _) fun _ => Action.simulates_ofHost (hpure f hfind values)

theorem simulates_callMethod {parent name : String} (hhost : s'.host = s.host)
    (h : Binding.Same s.host origin origin' (s.lookup parent) (s'.lookup parent))
    (hpure : ∀ b, s.lookup parent = some b → b.value.isNone = false → ∀ values,
      HostAction.IsPure J ((origin.table b.members).invoke s.host b.value name values))
    (values : List Value) :
    Simulates (Store.IsPaired s.host J origin origin') (s.callMethod parent name values)
      (s'.callMethod parent name values) := by
  unfold callMethod
  generalize s.lookup parent = found, s'.lookup parent = found' at h hpure
  cases h with
  | none => exact .throw _
  | @some b b' hvariable halike =>
      refine .get_bind fun σ τ hστ => ?_
      have hσ := hστ.1.tables b.members
      have hτ := halike.trans (hστ.2.tables b'.members)
      simp only
      rw [hhost, hvariable, hσ.hasMethod, hτ.hasMethod]
      split
      · refine .bind (Action.simulates_resolve halike _ _) fun pick => ?_
        cases pick with
        | none => exact .throw _
        | some signature =>
            simp only
            by_cases hnone : b.value.isNone = true
            · rw [if_pos hnone, if_pos hnone]
              exact .pure _
            · rw [if_neg hnone, if_neg hnone]
              refine .bind (simulates_trace _ _) fun _ => .get_bind fun σ τ hστ => ?_
              have hσ := hστ.1.tables b.members
              have hτ := halike.trans (hστ.2.tables b'.members)
              rw [hσ.invoke, hτ.invoke]
              exact Action.simulates_ofHost (hpure b rfl (by simpa using hnone) values)
      · exact .throw _

/-! ## Trees -/

/-- With pure host code a tree has the same value, or fails in the same way, in two settings that
agree on what it mentions. -/
theorem simulates_of_agreesOn (hagrees : s.AgreesOn s' origin origin' tree)
    (hpure : s.HostCode origin tree (HostAction.IsPure J)) :
    Simulates (Store.IsPaired s.host J origin origin') (s.evaluate tree) (s'.evaluate tree) := by
  refine simulates_evaluate ?_
  exact {
    trace := simulates_trace
    name := fun hmem => simulates_readName (hagrees.lookup _ hmem _ rfl)
    member := fun hmem => simulates_readMember hagrees.host (hagrees.lookup _ hmem _ rfl)
      fun b => hpure.member hmem
    call := by
      intro parent name arguments hmem values
      cases parent with
      | none =>
          exact simulates_callFunction hagrees.host (hagrees.functions hmem)
            (fun f hf => hpure.function hmem hf) values
      | some parent =>
          exact simulates_callMethod hagrees.host (hagrees.lookup _ hmem _ rfl)
            (fun b => hpure.method hmem) values }

/-- So it is in two settings with the same functions and the same variables. -/
theorem simulates_of_isPure (hmatches : s.Matches s' origin origin' tree)
    (hpure : s.HostCode origin tree (HostAction.IsPure J)) :
    Simulates (Store.IsPaired s.host J origin origin') (s.evaluate tree) (s'.evaluate tree) :=
  simulates_of_agreesOn hmatches.agreesOn hpure

/-- Evaluation with pure host code leads to stores that are near. -/
theorem keeps_of_isPure (h : s.HostCode origin tree (HostAction.IsPure J)) :
    Keeps (Store.IsNear s.host J origin) (fun _ => True) (s.evaluate tree) :=
  keeps_evaluate (HostCode.stepsKeep (h.mono HostAction.IsPure.keeps))

/-- With pure host code the value of a tree is the same on all stores near to one another, whether the
evaluation is traced or not. -/
theorem agrees_of_isPure (h : s.HostCode origin tree (HostAction.IsPure J)) (traced : Bool) :
    Agrees (Store.IsNear s.host J origin) (s.evaluate tree) ({ s with traced }.evaluate tree) := by
  have hmatches : s.Matches { s with traced } origin origin tree :=
    ⟨rfl, rfl, fun _ _ _ _ => .refl _ _ _⟩
  exact agrees_iff.2 (simulates_of_isPure hmatches h)

end Setting

end Formula
