import Formula.Proofs.Validation.Absent

set_option autoImplicit false

/-! # False alarms

A text that has a value whichever values its declared variables are given can still be refused when
it is checked: a call that is given an argument in which a declared variable occurs is then given the
absent value, which the called code need not take. Without conditionals, and with pure host code,
these calls are the only source of false alarms, and no alarm is about a name.

Main statement: `Interpreter.validate_alarms`. -/

namespace Formula

/-- A property of stores that the evaluation of each of some trees keeps holds at every visit. -/
theorem Expression.of_mem_visits {s : Setting} {I : Store → Prop} {nodes : List Node} {σ : Store}
    (hkeeps : ∀ n ∈ nodes, ∀ σ, I σ → I (s.evaluate n σ).2) (hσ : I σ) :
    ∀ visit ∈ visits s nodes σ, visit.1 ∈ nodes ∧ I visit.2 := by
  induction nodes generalizing σ with
  | nil => exact fun visit hvisit => by cases hvisit
  | cons node nodes ih =>
      intro visit hvisit
      rcases List.mem_cons.1 hvisit with rfl | hvisit
      · exact ⟨List.mem_cons_self, hσ⟩
      · obtain ⟨hmem, hstore⟩ := ih (fun n hn => hkeeps n (List.mem_cons_of_mem _ hn))
          (hkeeps node List.mem_cons_self σ hσ) visit hvisit
        exact ⟨List.mem_cons_of_mem _ hmem, hstore⟩

namespace Interpreter

variable {i : Interpreter} {text : String} {types : Dictionary String ValueType} {w : World}
  {tree : Node} {J : Heap → Prop}

/-- Without conditionals a validation reports the faults of the references. -/
theorem run_validateTree_of_flat (i : Interpreter) (text : String)
    (types : Dictionary String ValueType) (w : World)
    (hflat : ∀ m ∈ tree.walk, m.isA .conditional = false) :
    ∃ report w', i.validateTree text tree types w = (.ok report, w') ∧
      report.faults = (i.scan types w tree).filterMap (i.checking types w).faultAt? := by
  obtain ⟨report, w', more, hvalidate, hfaults, hnone⟩ := i.run_validateTree text tree types w
  have hempty : tree.find [.conditional] true true = [] := by
    refine List.eq_nil_iff_forall_not_mem.2 fun m hm => ?_
    obtain ⟨hwalk, c, hc, hisA⟩ := Node.mem_find.1 hm
    obtain rfl := List.mem_singleton.1 hc
    rw [hflat m hwalk] at hisA
    cases hisA
  refine ⟨report, w', hvalidate, ?_⟩
  rw [hfaults, hnone hempty, List.append_nil]

/-- What is found when the references of a text are checked, whose variables have values in another
setting in which the text has a value. -/
theorem alarm_of_unsets {s' : Setting} {origin' τ : Store} {names : List String} {v : Value}
    (h : (i.checking types w).Unsets s' (i.declaring types w).store origin' names)
    (hheap : J w.store.heap)
    (hbare : ∀ name ∈ names, ∀ b, s'.lookup name = some b → IsBare i.host w.store.heap b.value)
    (hflat : ∀ m ∈ tree.walk, m.isA .conditional = false)
    (hpure : s'.HostCode origin' tree (HostAction.IsPure J))
    (hτ : Store.IsNear i.host J origin' τ) (hv : (s'.evaluate tree τ).1 = .ok v) {fault : Fault}
    (hfault : fault ∈ (i.scan types w tree).filterMap (i.checking types w).faultAt?) :
    fault.root.isNaming = false ∧
      ∃ m ∈ tree.walk, m.HasOpenCall names ∧ ∃ cause, fault = .evaluation m.text cause := by
  obtain ⟨⟨m, σ⟩, hvisit, hfails⟩ := List.mem_filterMap.1 hfault
  -- Every reference is visited in a store that is near the one in which the variables are declared.
  have hdeclared : Store.IsNear i.host J (i.declaring types w).store (i.declaring types w).store :=
    ⟨(i.heap_declaring types w).symm ▸ hheap, .refl _⟩
  have hkeeps : ∀ n ∈ tree.find Expression.references true true, ∀ σ,
      Store.IsNear i.host J (i.declaring types w).store σ →
        Store.IsNear i.host J (i.declaring types w).store ((i.checking types w).evaluate n σ).2 := by
    intro n hn σ hσ
    have hcode := (h.hostCode hpure).part fun k hk => Node.walk_subset (Node.mem_find.1 hn).1 hk
    exact (Setting.keeps_of_isPure hcode σ hσ).1
  obtain ⟨hm, hσ⟩ := Expression.of_mem_visits hkeeps hdeclared _ hvisit
  have hwalk : m ∈ tree.walk := (Node.mem_find.1 hm).1
  have herror : ((i.checking types w).evaluate m σ).1 = .error fault := by
    unfold Setting.faultAt? at hfails
    split at hfails
    next => cases hfails
    next other hother =>
      cases hfails
      exact hother
  obtain ⟨hnaming, k, hk, hopen, hcause⟩ :=
    h.of_evaluate_eq_error hheap hbare hflat hpure hτ hv hwalk hσ herror
  exact ⟨hnaming, k, Node.walk_subset hwalk hk, hopen, hcause⟩

/-- Whichever values of exactly the declared types its variables are given, none of them absent, a
text has a value. -/
def AlwaysSucceeds (i : Interpreter) (text : String) (types : Dictionary String ValueType)
    (w : World) : Prop :=
  ∀ values : Dictionary String Value, Fits types.entries values.entries →
    ∃ e w' v, i.assigning text values w = (.ok e, w') ∧ (e.evaluate i w').1 = .ok v

/-- A text without conditionals always has a value, but it is refused. -/
def RaisesFalseAlarm (i : Interpreter) (text : String) (types : Dictionary String ValueType)
    (w : World) : Prop :=
  (∃ tree, readText i.config.strict text = .ok tree ∧ ∀ m ∈ tree.walk, m.isA .conditional = false) ∧
    i.AlwaysSucceeds text types w ∧
    ∃ report, (i.validate text types w).1 = .ok report ∧ report.isValid = false

/-- An interpreter for a class with a method that is given a number. -/
def growing : Interpreter :=
  let grow : Method := ⟨.ofInstance, [⟨"by", .type .int, none, .positional⟩], .param "by", []⟩
  { echoing with host := ⟨[⟨"Box", [], none, [("grow", .other (.method grow))]⟩], []⟩ }

/-- The tree of `box.grow(n)`. -/
def growTree : Node := .call (some "box") "grow" [.name "n"]

def growTypes : Dictionary String ValueType := ⟨[("box", .declared "Box"), ("n", .int)]⟩

/-- The world in which the variables of `box.grow(n)` have values. -/
def grown (label : String) (n : Int) (log : List Event) : World :=
  let box := MemberTable.ofType growing.host (.declared "Box")
  let number := MemberTable.ofType growing.host .int
  { store := ⟨.empty, [box, number], log ++ box.events ++ number.events⟩
    scopes := [⟨none, .empty, ⟨[(.declared "Box", 0), (.int, 1)]⟩⟩,
      ⟨some 0, ⟨[("box", ⟨⟨.declared "Box", .object ⟨"Box", label⟩⟩, 0⟩),
        ("n", ⟨⟨.int, .int n⟩, 1⟩)]⟩, .empty⟩] }

theorem readText_grow : readText false "box.grow(n)" = .ok growTree := by
  let tokens : List Token := [⟨.name, "box.grow", 0, "box.grow"⟩, ⟨.leftParen, "(", 1, "("⟩,
    ⟨.name, "n", 2, "n"⟩, ⟨.rightParen, ")", 3, ")"⟩]
  have htokens : tokenize false "box.grow(n)" = .ok tokens := by rfl
  have hparse : parseTokens tokens = .ok growTree := by cbv
  have hdepth : Nesting.deepest [] tokens = 1 := by rfl
  have hshallow : isTooDeep tokens = false := by rw [isTooDeep, hdepth]; rfl
  exact readText_eq_ok htokens hparse hshallow

theorem eq_of_fits_grow {values : List (String × Value)} (h : Fits growTypes.entries values) :
    ∃ label n, values = [("box", .object ⟨"Box", label⟩), ("n", .int n)] := by
  cases h with
  | @cons _ _ box _ _ hbox _ h =>
  cases h with
  | @cons _ _ number _ _ hnumber _ h =>
  cases h
  obtain ⟨label, rfl⟩ : ∃ label, box = .object ⟨"Box", label⟩ := by
    cases box with
    | object ref =>
        obtain ⟨className, label⟩ := ref
        cases hbox
        exact ⟨label, rfl⟩
    | _ => cases hbox
  obtain ⟨n, rfl⟩ : ∃ n, number = .int n := by
    cases number with
    | int n => exact ⟨n, rfl⟩
    | _ => cases hnumber
  exact ⟨label, n, rfl⟩

unseal World.chain in
theorem run_assigning_grow (label : String) (n : Int) :
    growing.assigning "box.grow(n)" ⟨[("box", .object ⟨"Box", label⟩), ("n", .int n)]⟩ .single =
      (.ok ⟨growTree, 1, false, false⟩,
        grown label n (readingEvents false "box.grow(n)")) := by
  have hassign (log : List Event) : WorldAction.assignAll growing.host 1
      [("box", .object ⟨"Box", label⟩), ("n", .int n)]
      ⟨⟨.empty, [], log⟩, [.child none, .child (some 0)]⟩ = (.ok (), grown label n log) := by rfl
  unfold assigning
  rw [run_bind_of_ok (run_ofText .single readText_grow)]
  exact run_bind_of_ok (hassign _)

unseal World.chain in
theorem alwaysSucceeds_grow : growing.AlwaysSucceeds "box.grow(n)" growTypes .single := by
  rintro ⟨entries⟩ hfits
  obtain ⟨label, n, rfl⟩ := eq_of_fits_grow hfits
  exact ⟨_, _, .int n, run_assigning_grow label n, rfl⟩

unseal World.chain in
/-- The method leaves the heap as it is. -/
theorem hostCode_grow (label : String) (n : Int) (log : List Event) :
    (Expression.setting growing ⟨growTree, 1, false, false⟩ false (grown label n log)).HostCode
      (grown label n log).store growTree (HostAction.IsPure (· = .empty)) where
  function hmem := by simp [growTree] at hmem
  member hmem := by simp [growTree] at hmem
  method := by
    intro parent name arguments b hmem hb _ values
    obtain ⟨rfl, rfl, _⟩ : parent = "box" ∧ name = "grow" ∧ arguments = [.name "n"] := by
      simpa [growTree] using hmem
    have hbox : (grown label n log).lookup 1 "box" =
        some ⟨⟨.declared "Box", .object ⟨"Box", label⟩⟩, 0⟩ := by rfl
    obtain rfl := Option.some.inj (hbox.symm.trans hb)
    have hunchanged : (((grown label n log).store.table 0).invoke growing.host
        (.object ⟨"Box", label⟩) "grow" values .empty).2 = .empty := by
      rcases values with _ | ⟨v, _ | ⟨v', values⟩⟩
      · rfl
      · rfl
      · rfl
    rintro _ _ rfl rfl
    exact ⟨rfl, hunchanged, hunchanged⟩

/-- The tree of `echo(door.open())`. -/
def openTree : Node := .call none "echo" [.call (some "door") "open" []]

/-- An interpreter for a class with a method that can be called only once. -/
def opening : Interpreter :=
  let turn : Method := ⟨.ofInstance, [],
    .concat [.add (.self "n") (.const (.int 1)), .assign "n" (.const (.str "x"))], []⟩
  { echoing with host := ⟨[⟨"Door", [], none, [("open", .other (.method turn))]⟩], []⟩ }

/-- A world with a global object of this class. -/
def closed : World where
  store := ⟨⟨⟨[("d", ⟨[("n", .int 0)]⟩)]⟩, [], 0⟩, [.ofType opening.host (.declared "Door")], []⟩
  scopes := [⟨none, ⟨[("door", ⟨⟨.declared "Door", .object ⟨"Door", "d"⟩⟩, 0⟩)]⟩,
    ⟨[(.declared "Door", 0)]⟩⟩]

theorem readText_open : readText false "echo(door.open())" = .ok openTree := by
  let tokens : List Token := [⟨.name, "echo", 0, "echo"⟩, ⟨.leftParen, "(", 1, "("⟩,
    ⟨.name, "door.open", 2, "door.open"⟩, ⟨.leftParen, "(", 3, "("⟩, ⟨.rightParen, ")", 4, ")"⟩,
    ⟨.rightParen, ")", 5, ")"⟩]
  have htokens : tokenize false "echo(door.open())" = .ok tokens := by rfl
  have hparse : parseTokens tokens = .ok openTree := by cbv
  have hdepth : Nesting.deepest [] tokens = 2 := by rfl
  have hshallow : isTooDeep tokens = false := by rw [isTooDeep, hdepth]; rfl
  exact readText_eq_ok htokens hparse hshallow

end Interpreter

end Formula
