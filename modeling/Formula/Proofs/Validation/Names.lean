import Formula.Proofs.Evaluation.Names
import Formula.Proofs.Validation.Checks
import Formula.Proofs.Validation.Later

set_option autoImplicit false

/-! # Validated expressions find what they name

A validated expression never fails because of a name, whichever values its declared variables are
given later. During the validation these variables had no values, and each reference found what it
names: in the type of a variable, among the globals, or among the functions. There it is found
later too, in every branch, whether it was evaluated as part of the whole or not.

Main statement: `Interpreter.validate_names`. -/

namespace Formula

/-- Host code that leads from each heap to a related one. -/
def HostAction.Respects (Rel : Heap → Heap → Prop) {α : Type} (a : HostAction α) : Prop :=
  ∀ heap, Rel heap (a heap).2

namespace Validation.Passed

variable {i : Interpreter} {types : Dictionary String ValueType} {e : Expression}
  {read declared last later : World} {checked : Store}

/-- The host code that ran during the validation is part of what may run later. -/
theorem hostCode_last (h : Passed i types e read declared checked last) (hsince : e.Since i last later)
    {P : ∀ {α : Type}, HostAction α → Prop}
    (hhost : (e.setting i false later).HostCode later.store e.tree P) :
    (e.setting i true last).HostCode later.store e.tree P := by
  have hsame {name : String} {b : Binding} (hb : last.lookup e.scope name = some b)
      (hvalue : b.value.isNone = false) : later.lookup e.scope name = some b := by
    rcases hsince.lookup h.parent_last hb with ⟨hown, _⟩ | ⟨_, hlater⟩
    · rw [h.unset_last hown] at hvalue
      cases hvalue
    · exact hlater
  exact {
    function := fun hmem hfind => hhost.function hmem hfind
    member := fun hmem hb hvalue => hhost.member hmem (hsame hb hvalue) hvalue
    method := fun hmem hb hvalue => hhost.method hmem (hsame hb hvalue) hvalue }

/-- What a reference found during the validation it finds later. -/
theorem finds_later (h : Passed i types e read declared checked last)
    (hsince : e.Since i last later) {σ : Store} (halike : later.store.Alike i.host σ)
    (hglobals : i.KeepsGlobals last σ.heap last.store.heap) {n : Node}
    (hfinds : (e.setting i true last).Finds σ (· = σ.heap) n) :
    (e.setting i false later).Finds later.store (i.KeepsGlobals last later.store.heap) n := by
  cases n with
  | literal value => trivial
  | list items => trivial
  | binary op left right => trivial
  | conditional condition truthy falsy => trivial
  | name n =>
      obtain ⟨b, hb⟩ := hfinds
      rcases hsince.lookup h.parent_last hb with ⟨_, b', hb', _⟩ | ⟨_, hb'⟩
      · exact ⟨b', hb'⟩
      · exact ⟨b, hb'⟩
  | member parent n =>
      obtain ⟨b, hb, hmember⟩ := hfinds
      rw [(halike b.members).hasMember] at hmember
      rcases hsince.lookup h.parent_last hb with ⟨hown, b', hb', hmembers⟩ | ⟨hglobal, hb'⟩
      · -- The variable had no value, so no data of its own was found in it.
        refine ⟨b', hb', .inl ?_⟩
        rw [hmembers]
        refine hmember.resolve_right fun hdata => ?_
        have hvalue := (hdata _ rfl).data.isNone
        rw [h.unset_last hown] at hvalue
        cases hvalue
      · refine ⟨b, hb', hmember.imp_right fun hdata heap hheap => ?_⟩
        obtain ⟨hpublic, hmethod, howns⟩ := hdata _ rfl
        have hlater := (hglobals.trans hsince.globals).trans hheap
        rw [(halike b.members).hasMethod] at hmethod
        exact ⟨hpublic, hmethod, hlater parent b n hglobal howns⟩
  | call parent n arguments =>
      cases parent with
      | none => exact hfinds
      | some parent =>
          obtain ⟨b, hb, hmethod⟩ := hfinds
          rw [(halike b.members).hasMethod] at hmethod
          rcases hsince.lookup h.parent_last hb with ⟨_, b', hb', hmembers⟩ | ⟨_, hb'⟩
          · exact ⟨b', hb', hmembers ▸ hmethod⟩
          · exact ⟨b, hb', hmethod⟩

/-- All references of the tree find later what they name. -/
theorem finds_of_since (h : Passed i types e read declared checked last)
    (hsince : e.Since i last later)
    (hhost : (e.setting i false later).HostCode later.store e.tree
      (HostAction.Respects (i.KeepsGlobals last))) :
    ∀ n ∈ e.tree.walk,
      (e.setting i false later).Finds later.store (i.KeepsGlobals last later.store.heap) n := by
  have hdeclared : later.store.Alike i.host declared.store :=
    hsince.tables.symm.trans h.alike.symm
  -- While the tables stay alike, the globals keep their data at every step.
  let Rel (σ τ : Store) : Prop := later.store.Alike i.host σ →
    later.store.Alike i.host τ ∧ i.KeepsGlobals last σ.heap τ.heap
  have hprogress : Store.IsProgress Rel := by
    refine ⟨fun σ hσ => ⟨hσ, .refl i last σ.heap⟩, fun hστ hτυ hσ => ?_⟩
    obtain ⟨hτ, hfirst⟩ := hστ hσ
    obtain ⟨hυ, hsecond⟩ := hτυ hτ
    exact ⟨hυ, hfirst.trans hsecond⟩
  have hsteps (n : Node) (hn : n ∈ e.tree.walk) (σ : Store) :
      Rel σ ((e.setting i true last).evaluate n σ).2 := by
    intro hσ
    have hkeeps {α : Type} {a : HostAction α}
        (ha : HostAction.Respects (i.KeepsGlobals last) a) :
        Keeps (i.KeepsGlobals last σ.heap) (fun _ => True) a :=
      fun heap hheap => ⟨hheap.trans (ha heap), fun _ _ => trivial⟩
    have hcode := (h.hostCode_last hsince hhost).part fun k hk => Node.walk_subset hn hk
    obtain ⟨hheap, htables⟩ := (Setting.keeps_evaluate (hcode.mono hkeeps).stepsKeep σ
      ⟨.refl i last σ.heap, hσ⟩).1
    exact ⟨htables, hheap⟩
  obtain ⟨hlast, hvalue⟩ := h.hadValue hprogress hsteps
  intro n hn
  have hfound (hclass : ∃ c ∈ .conditional :: Expression.references, n.isA c = true) :
      (e.setting i false later).Finds later.store (i.KeepsGlobals last later.store.heap) n := by
    obtain ⟨τ, v, hτ, hv, hafter⟩ := hvalue n hn hclass
    obtain ⟨halike, _⟩ := hτ hdeclared
    exact h.finds_later hsince halike (hafter halike).2 (Setting.finds_of_evaluate hv)
  cases n with
  | name n => exact hfound ⟨.name, by decide, rfl⟩
  | member parent n => exact hfound ⟨.member, by decide, rfl⟩
  | call parent n arguments => exact hfound ⟨.call, by decide, rfl⟩
  | _ => trivial

end Validation.Passed

namespace Interpreter

/-- An expression that was found valid does not fail because of a name later, as long as only
declared variables are given values and the objects of the globals keep their data. -/
theorem validate_names {i : Interpreter} {text : String} {types : Dictionary String ValueType}
    {w w' later : World} {report : Report} {e : Expression} {fault : Fault}
    (hvalidate : i.validate text types w = (.ok report, w'))
    (hexpression : report.expression = some e) (hlater : e.Later i types.keys w' later)
    (hhost : (e.setting i false later).HostCode later.store e.tree
      (HostAction.Respects (i.KeepsGlobals w')))
    (hfault : (e.evaluate i later).1 = .error fault) : fault.root.isNaming = false := by
  rcases Validation.of_validate_eq_ok hvalidate with
    hrefused | ⟨e', declared, checked, rfl, _, hpassed⟩
  · rw [hrefused.expression] at hexpression
    cases hexpression
  obtain rfl : e' = e := Option.some.inj hexpression
  have hscope : e'.scope < w'.scopes.length := by
    obtain ⟨more, hmore⟩ := hpassed.exists_append
    have hdeclared := hpassed.isDeclared.2
    rw [hmore, List.length_append]
    omega
  have hsince := hlater.since hscope fun name hname => hpassed.bound_last hname
  have hfinds := hpassed.finds_of_since hsince hhost
  have hkeeps : (e'.setting i false later).HostCode later.store e'.tree
      (Keeps (i.KeepsGlobals w' later.store.heap) fun _ => True) :=
    hhost.mono fun ha heap hheap => ⟨hheap.trans (ha heap), fun _ _ => trivial⟩
  rw [Expression.run_evaluate, hpassed.checking] at hfault
  refine (Setting.keeps_evaluate_of_finds hfinds hkeeps (e'.entered i later) ?_).2 fault hfault
  unfold Expression.entered
  split
  · exact ⟨.refl i w' _, later.store.alike_report _⟩
  · exact ⟨.refl i w' _, .refl _⟩

unseal World.chain in
theorem validate_names_echo :
    ∃ report w' e later fault,
      echoing.validate "1 / 0 + echo(n)" ⟨[("n", .int)]⟩ .single = (.ok report, w') ∧
        report.expression = some e ∧ e.assign echoing "n" (.int 5) w' = (.ok (), later) ∧
        (e.evaluate echoing later).1 = .error fault ∧ fault.root.isNaming = false := by
  have hassign : echoExpression.assign echoing "n" (.int 5) validated =
      (.ok (), (echoExpression.assign echoing "n" (.int 5) validated).2) := by
    refine Prod.ext ?_ rfl
    rw [validated, Validation.run_validate _ _ readText_echo]
    rfl
  have hfault : (echoExpression.evaluate echoing
      (echoExpression.assign echoing "n" (.int 5) validated).2).1 =
        .error (.evaluation "1 / 0" (.divisionByZero 1)) := by
    rw [validated, Validation.run_validate _ _ readText_echo]
    rfl
  have hlater := Expression.Later.assign .now (List.mem_singleton.2 rfl) hassign
  refine ⟨_, _, _, _, _, validate_echo, rfl, hassign, hfault, ?_⟩
  refine validate_names validate_echo rfl hlater (hostCode_echo rfl fun h heap => ?_) hfault
  rw [h]
  exact .refl _ _ _

end Interpreter

end Formula
