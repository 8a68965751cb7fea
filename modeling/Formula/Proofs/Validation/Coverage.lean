import Formula.Proofs.Validation.Checks

set_option autoImplicit false

/-! # What a validation reports

The references of a text are evaluated one after the other, each by itself, and no fault ends the
scan (`Expression.run_faultsOf`); the conditionals only add to what was found. So every reference
that names nothing is reported. For a name or a member the report says what is missing. The arguments
of a call come before what is called: where one of them fails, its fault is what the call is
reported by.

Main statement: `Interpreter.validate_reports`. -/

namespace Formula

/-! ## The scan -/

namespace Expression

/-- Some trees with the stores in which they are evaluated, one after the other. -/
def visits (s : Setting) : List Node → Store → List (Node × Store)
  | [], _ => []
  | node :: nodes, σ => (node, σ) :: visits s nodes (s.evaluate node σ).2

/-- The store after some trees were evaluated. -/
def afterVisits (s : Setting) : List Node → Store → Store
  | [], σ => σ
  | node :: nodes, σ => afterVisits s nodes (s.evaluate node σ).2

theorem mem_visits {s : Setting} {nodes : List Node} {n : Node} (h : n ∈ nodes) (σ : Store) :
    ∃ σ', (n, σ') ∈ visits s nodes σ := by
  induction nodes generalizing σ with
  | nil => cases h
  | cons node nodes ih =>
      rcases List.mem_cons.1 h with rfl | h
      · exact ⟨σ, List.mem_cons_self⟩
      · obtain ⟨σ', hσ'⟩ := ih h (s.evaluate node σ).2
        exact ⟨σ', List.mem_cons_of_mem _ hσ'⟩

end Expression

/-- The fault with which a tree fails in a store. -/
def Setting.faultAt? (s : Setting) (visit : Node × Store) : Option Fault :=
  match (s.evaluate visit.1 visit.2).1 with
  | .ok _ => none
  | .error fault => some fault

namespace Expression

/-- The scan gives the faults of all trees in order. -/
theorem run_faultsOf (s : Setting) (nodes : List Node) (σ : Store) :
    faultsOf s nodes σ =
      (.ok ((visits s nodes σ).filterMap s.faultAt?), afterVisits s nodes σ) := by
  induction nodes generalizing σ with
  | nil => rfl
  | cons node nodes ih =>
      rw [faultsOf]
      rcases hrun : s.evaluate node σ with ⟨fault | v, τ⟩
      · have hfault := Setting.isEvaluation_of_evaluate (congrArg Prod.fst hrun)
        rw [run_bind_of_ok (run_caught_of_error hrun hfault), run_bind_of_ok (ih τ)]
        simp only [visits, afterVisits, hrun, List.filterMap_cons, Setting.faultAt?]
        rfl
      · rw [run_bind_of_ok (run_caught_of_ok hrun), run_bind_of_ok (ih τ)]
        simp only [visits, afterVisits, hrun, List.filterMap_cons, Setting.faultAt?]
        rfl

end Expression

/-- The faults that are reported by something else than all known ones and all before them. -/
def Fault.fresh (known : List Fault) : List Fault → List Fault
  | [] => []
  | fault :: faults =>
    if known.any fun f => f.identity == fault.identity then fresh known faults
    else fault :: fresh (known ++ [fault]) faults

namespace Validation

/-- The conditionals are all evaluated in the scope of the expression; what was found before is kept,
and they add the faults that are not among it. -/
theorem run_faultsOfConditionals (i : Interpreter) {e : Expression} (known : List Fault)
    (nodes : List Node) {w : World} (hscope : e.scope < w.scopes.length) :
    ∃ w', faultsOfConditionals i e known nodes w =
      (.ok (known ++ Fault.fresh known
        ((Expression.visits (e.setting i true w) nodes w.store).filterMap
          (e.setting i true w).faultAt?)), w') := by
  induction nodes generalizing known w with
  | nil => exact ⟨w, by rw [Expression.visits, List.filterMap_nil, Fault.fresh, List.append_nil]; rfl⟩
  | cons node nodes ih =>
      obtain ⟨isolated, hmake, hevaluate⟩ := Expression.exists_isolated (e := e) i node hscope
      rw [faultsOfConditionals, run_bind_of_ok hmake, Expression.visits]
      -- One more scope was made, whether the conditional failed or not.
      have hscopes (σ : Store) : ({ w.addScope (some e.scope) with store := σ } : World).scopes =
          w.scopes ++ [.child (some e.scope)] := rfl
      have hsetting (σ : Store) := Expression.setting_of_append (i := i) (hscopes σ) hscope true
      have hnext (known : List Fault) (σ : Store) := ih known
        (w := { w.addScope (some e.scope) with store := σ })
        (by rw [hscopes, List.length_append]; omega)
      simp only [hsetting] at hnext
      rcases hrun : (e.setting i true w).evaluate node w.store with ⟨fault | v, τ⟩
      · rw [hrun] at hevaluate
        have hfault := Setting.isEvaluation_of_evaluate (congrArg Prod.fst hrun)
        rw [run_bind_of_ok (run_caught_of_error hevaluate hfault),
          List.filterMap_cons_some (by rw [Setting.faultAt?, hrun]), Fault.fresh]
        by_cases hknown : (known.any fun f => f.identity == fault.identity) = true
        · simp only
          rw [if_pos hknown, if_pos hknown]
          exact hnext known τ
        · simp only
          rw [if_neg hknown, if_neg hknown]
          obtain ⟨w', hmore⟩ := hnext (known ++ [fault]) τ
          rw [List.append_assoc] at hmore
          exact ⟨w', hmore⟩
      · rw [hrun] at hevaluate
        rw [run_bind_of_ok (run_caught_of_ok hevaluate),
          List.filterMap_cons_none (by rw [Setting.faultAt?, hrun])]
        exact hnext known τ

end Validation

/-! ## The validation of a text -/

namespace Interpreter

/-- The world in which a text was read. -/
def reading (i : Interpreter) (text : String) (w : World) : World :=
  { w with store := w.store.report (readingEvents i.config.strict text) }

/-- The world in which the references of a text are checked: its variables are declared in a new
scope. -/
def declaring (i : Interpreter) (types : Dictionary String ValueType) (w : World) : World :=
  (WorldAction.declareAll i.host w.scopes.length types.entries (w.addScope (some i.globals))).2

/-- What the references of a text can see when they are checked. -/
def checking (i : Interpreter) (types : Dictionary String ValueType) (w : World) : Setting where
  host := i.host
  functions := i.functions
  lookup := (i.declaring types w).lookup w.scopes.length
  traced := false

/-- The references of a tree, with the stores in which they are checked. -/
def scan (i : Interpreter) (types : Dictionary String ValueType) (w : World) (tree : Node) :
    List (Node × Store) :=
  Expression.visits (i.checking types w) (tree.find Expression.references true true)
    (i.declaring types w).store

/-- Declaring the variables does not fail. -/
theorem run_declaring (i : Interpreter) (types : Dictionary String ValueType) (w : World) :
    WorldAction.declareAll i.host w.scopes.length types.entries (w.addScope (some i.globals)) =
      (.ok (), i.declaring types w) := by
  obtain ⟨w', hrun, _⟩ := WorldAction.run_declareAll i.host types.entries
    (w.lt_length_addScope (some i.globals))
  rw [declaring, hrun]

/-- The variables of the text are declared in the new scope, and nothing else is done. -/
theorem declares_declaring (i : Interpreter) (types : Dictionary String ValueType) (w : World) :
    WorldAction.Declares w.scopes.length types.keys (w.addScope (some i.globals))
      (i.declaring types w) := by
  obtain ⟨w', hrun, hdeclares⟩ := WorldAction.run_declareAll i.host types.entries
    (w.lt_length_addScope (some i.globals))
  rw [declaring, hrun]
  exact hdeclares

theorem lt_length_declaring (i : Interpreter) (types : Dictionary String ValueType) (w : World) :
    w.scopes.length < (i.declaring types w).scopes.length := by
  rw [(i.declares_declaring types w).count]
  exact w.lt_length_addScope (some i.globals)

/-- In the scope of a text a name that is not declared is not bound. -/
theorem find?_declaring (i : Interpreter) {types : Dictionary String ValueType} (w : World)
    {name : String} (hname : name ∉ types.keys) :
    ((i.declaring types w).scope w.scopes.length).bindings.find? name = none := by
  rw [declaring, WorldAction.find?_declareAll i.host (w.lt_length_addScope _) hname,
    World.scope_addScope]
  rfl

/-- The conditionals of a tree, with the stores in which they are checked. -/
def scanConditionals (i : Interpreter) (types : Dictionary String ValueType) (w : World) (tree : Node) :
    List (Node × Store) :=
  Expression.visits (i.checking types w) (tree.find [.conditional] true true)
    (Expression.afterVisits (i.checking types w) (tree.find Expression.references true true)
      (i.declaring types w).store)

/-- The faults of the references of a tree. -/
def found (i : Interpreter) (types : Dictionary String ValueType) (w : World) (tree : Node) :
    List Fault :=
  (i.scan types w tree).filterMap (i.checking types w).faultAt?

/-- The faults of the conditionals of a tree that are not among those of the references. -/
def added (i : Interpreter) (types : Dictionary String ValueType) (w : World) (tree : Node) :
    List Fault :=
  Fault.fresh (i.found types w tree)
    ((i.scanConditionals types w tree).filterMap (i.checking types w).faultAt?)

/-- The validation of a tree ends with a report, which has all faults of the references, and those of
the conditionals that are not among them. -/
theorem faults_validateTree (i : Interpreter) (text : String) (tree : Node)
    (types : Dictionary String ValueType) (w : World) :
    ∃ report w', i.validateTree text tree types w = (.ok report, w') ∧
      report.faults = i.found types w tree ++ i.added types w tree := by
  let e : Expression := ⟨tree, w.scopes.length, true, i.config.debug⟩
  have hmake : Expression.make i tree true i.globals w =
      (.ok e, w.addScope (some i.globals)) := rfl
  have hdeclare : e.declareAll i types (w.addScope (some i.globals)) =
      (.ok (), i.declaring types w) := i.run_declaring types w
  have hsetting : e.setting i true (i.declaring types w) = i.checking types w := by
    simp [Expression.setting, checking, e]
  have hcheck := Expression.run_faultsOf (i.checking types w)
    (tree.find Expression.references true true) (i.declaring types w).store
  let w₁ : World := { i.declaring types w with
    store := Expression.afterVisits (i.checking types w)
      (tree.find Expression.references true true) (i.declaring types w).store }
  have hreferences : e.checkReferences i (i.declaring types w) =
      (.ok (i.found types w tree), w₁) := by
    have hget : (get : WorldAction World) (i.declaring types w) = (.ok _, _) := rfl
    unfold Expression.checkReferences
    rw [run_bind_of_ok hget, WorldAction.run_ofAction, hsetting, hcheck]
    rfl
  let faults := i.found types w tree ++ i.added types w tree
  have hscopes : w₁.scopes = (i.declaring types w).scopes ++ [] := (List.append_nil _).symm
  have hsame : e.setting i true w₁ = e.setting i true (i.declaring types w) :=
    Expression.setting_of_append hscopes (i.lt_length_declaring types w) true
  obtain ⟨w', hconditionals⟩ : ∃ w', Validation.faultsOfConditionals i e (i.found types w tree)
      (tree.find [.conditional] true true) w₁ = (.ok faults, w') := by
    obtain ⟨w', hrun⟩ := Validation.run_faultsOfConditionals i (e := e) (i.found types w tree)
      (tree.find [.conditional] true true) (w := w₁) (i.lt_length_declaring types w)
    rw [hsame, hsetting] at hrun
    exact ⟨w', hrun⟩
  unfold validateTree
  rw [run_bind_of_ok hmake, run_bind_of_ok hdeclare, run_bind_of_ok hreferences,
    run_bind_of_ok hconditionals]
  by_cases hempty : faults.isEmpty = true
  · rw [if_pos hempty]
    exact ⟨_, _, rfl, (List.isEmpty_iff.1 hempty).symm⟩
  · rw [if_neg hempty]
    exact ⟨_, _, rfl, rfl⟩

/-- All faults of the references are reported, and more only if there are conditionals. -/
theorem run_validateTree (i : Interpreter) (text : String) (tree : Node)
    (types : Dictionary String ValueType) (w : World) :
    ∃ report w' more, i.validateTree text tree types w = (.ok report, w') ∧
      report.faults = (i.scan types w tree).filterMap (i.checking types w).faultAt? ++ more ∧
      (tree.find [.conditional] true true = [] → more = []) := by
  obtain ⟨report, w', hvalidate, hfaults⟩ := i.faults_validateTree text tree types w
  refine ⟨report, w', _, hvalidate, hfaults, fun hnone => ?_⟩
  rw [added, scanConditionals, hnone]
  rfl

/-! ## References that name nothing -/

/-- A name that is neither declared nor bound among the globals. -/
structure Unbound (i : Interpreter) (types : Dictionary String ValueType) (w : World)
    (name : String) : Prop where
  undeclared : name ∉ types.keys
  noGlobal : w.lookup i.globals name = none

/-- A reference names something that there is not, and this is what should be said about it. -/
inductive Misses (i : Interpreter) (types : Dictionary String ValueType) (w : World) :
    Node → Fault → Prop
  | name {n : String} : i.Unbound types w n → Misses i types w (.name n) (.unboundName n)
  | member {parent n : String} : i.Unbound types w parent →
      Misses i types w (.member parent n) (.unboundParent parent)
  | method {parent n : String} {arguments : List Node} : i.Unbound types w parent →
      Misses i types w (.call (some parent) n arguments) (.unboundName parent)
  | function {n : String} {arguments : List Node} : i.functions.find? n = none →
      Text.lower n ≠ "if" → Misses i types w (.call none n arguments) (.notRegistered n)

variable {i : Interpreter} {types : Dictionary String ValueType} {w : World}

/-- What is not bound is not found when the references are checked. -/
theorem Unbound.lookup {name : String} (h : i.Unbound types w name) :
    (i.checking types w).lookup name = none := by
  have hdeclares := i.declares_declaring types w
  show (i.declaring types w).lookup w.scopes.length name = none
  rw [World.lookup_eq, i.find?_declaring w h.undeclared, hdeclares.parent, World.scope_addScope]
  show (if i.globals < w.scopes.length then (i.declaring types w).lookup i.globals name else none) =
    none
  by_cases hglobals : i.globals < w.scopes.length
  · rw [if_pos hglobals, hdeclares.lookup_before hglobals]
    exact (World.lookup_of_append rfl hglobals name).trans h.noGlobal
  · rw [if_neg hglobals]

/-- Reading a text binds nothing. -/
theorem Misses.reading {m : Node} {cause : Fault} (h : i.Misses types w m cause) (text : String) :
    i.Misses types (i.reading text w) m cause := by
  have hunbound {name : String} (h : i.Unbound types w name) :
      i.Unbound types (i.reading text w) name := by
    have hsame : World.AgreesUpTo i.globals w (i.reading text w) := fun _ _ => ⟨rfl, rfl⟩
    exact ⟨h.undeclared, (World.lookup_congr hsame name).trans h.noGlobal⟩
  cases h with
  | name h => exact .name (hunbound h)
  | member h => exact .member (hunbound h)
  | method h => exact .method (hunbound h)
  | function hmissing hname => exact .function hmissing hname

theorem Misses.isEvaluation {m : Node} {cause : Fault} (h : i.Misses types w m cause) :
    cause.isEvaluation = false := by
  cases h <;> rfl

/-- A reference that names nothing is a reference. -/
theorem Misses.isA {m : Node} {cause : Fault} (h : i.Misses types w m cause) :
    ∃ c ∈ Expression.references, m.isA c = true := by
  cases h with
  | name _ => exact ⟨.name, by decide, rfl⟩
  | member _ => exact ⟨.member, by decide, rfl⟩
  | method _ => exact ⟨.call, by decide, rfl⟩
  | function _ _ => exact ⟨.call, by decide, rfl⟩

/-- Once the parts of a reference that names nothing have values, it fails with what should be said
about it. -/
theorem Misses.failsIn {m : Node} {cause : Fault} {σ σ' : Store} {values : List Value}
    (h : i.Misses types w m cause)
    (hvalues : (i.checking types w).evaluateAll m.children σ = (.ok values, σ')) :
    (i.checking types w).FailsIn σ m [] m cause := by
  cases h with
  | name hunbound =>
      refine .name ?_
      rw [Setting.readName, hunbound.lookup]
      rfl
  | member hunbound =>
      refine .member ?_
      rw [Setting.readMember, hunbound.lookup]
      rfl
  | method hunbound =>
      refine .call hvalues ?_
      rw [Setting.call, Setting.callMethod, hunbound.lookup]
      rfl
  | function hmissing hname =>
      refine .call hvalues ?_
      rw [Setting.call, Setting.callFunction]
      rw [show (i.checking types w).functions.find? _ = none from hmissing]
      simp only
      rw [if_neg hname]
      rfl

/-- A reference fails like the first of its parts that fails. -/
theorem Misses.evaluate {m : Node} {cause first : Fault} {σ : Store} (h : i.Misses types w m cause)
    (hfirst : ((i.checking types w).evaluateAll m.children σ).1 = .error first) :
    ((i.checking types w).evaluate m σ).1 = .error first := by
  obtain ⟨before, argument, after, values, σ', hparts, hbefore, hargument⟩ :=
    Setting.exists_argument_of_evaluateAll hfirst
  obtain ⟨above, k, root, hfails, rfl⟩ := Setting.exists_failsIn hargument
  cases h with
  | name _ => cases before <;> cases hparts
  | member _ => cases before <;> cases hparts
  | method _ =>
      obtain rfl := hparts
      exact Setting.evaluate_of_failsIn (.argument hbefore hfails)
  | function _ _ =>
      obtain rfl := hparts
      exact Setting.evaluate_of_failsIn (.argument hbefore hfails)

/-- Every reference that names nothing is reported: by what it misses, or, where the evaluation of its
parts fails already, by the fault of the first that does. A name or a member has no parts. -/
theorem validate_reports {text : String} {tree : Node}
    (htext : readText i.config.strict text = .ok tree) :
    ∃ report w', i.validate text types w = (.ok report, w') ∧
      ∀ m ∈ tree.walk, ∀ cause, i.Misses types w m cause →
        (m.children = [] → .evaluation m.text cause ∈ report.faults) ∧
        ∃ σ fault, (m, σ) ∈ i.scan types (i.reading text w) tree ∧ fault ∈ report.faults ∧
          match ((i.checking types (i.reading text w)).evaluateAll m.children σ).1 with
          | .ok _ => fault = .evaluation m.text cause
          | .error first => fault = first := by
  obtain ⟨report, w', more, hvalidate, hfaults, _⟩ :=
    i.run_validateTree text tree types (i.reading text w)
  refine ⟨report, w', (Validation.run_validate types w htext).trans hvalidate, ?_⟩
  intro m hm cause hmisses
  have hread : i.Misses types (i.reading text w) m cause := hmisses.reading text
  obtain ⟨σ, hσ⟩ := Expression.mem_visits (s := i.checking types (i.reading text w))
    (Node.mem_find.2 ⟨hm, hread.isA⟩) (i.declaring types (i.reading text w)).store
  -- What a reference fails with when it is reached is one of the faults.
  have hreported {fault : Fault}
      (h : ((i.checking types (i.reading text w)).evaluate m σ).1 = .error fault) :
      fault ∈ report.faults := by
    rw [hfaults]
    refine List.mem_append_left _ (List.mem_filterMap.2 ⟨(m, σ), hσ, ?_⟩)
    rw [Setting.faultAt?, h]
  have hnamed {values : List Value} {σ' : Store}
      (h : (i.checking types (i.reading text w)).evaluateAll m.children σ = (.ok values, σ')) :
      .evaluation m.text cause ∈ report.faults := by
    refine hreported (Setting.evaluate_of_failsIn (hread.failsIn h) |>.trans ?_)
    rw [Fault.within, if_neg (by simp [hmisses.isEvaluation])]
  refine ⟨fun hnone => hnamed (by rw [hnone, Setting.evaluateAll]; rfl), ?_⟩
  rcases hrun : (i.checking types (i.reading text w)).evaluateAll m.children σ with
    ⟨first | values, σ'⟩
  · refine ⟨σ, first, hσ, hreported (hread.evaluate (by rw [hrun])), ?_⟩
    rw [hrun]
  · refine ⟨σ, _, hσ, hnamed hrun, ?_⟩
    rw [hrun]

/-! ## An example -/

/-- The tokens of `foo(x)`. -/
def maskedTokens : List Token :=
  [⟨.name, "foo", 0, "foo"⟩, ⟨.leftParen, "(", 1, "("⟩, ⟨.name, "x", 2, "x"⟩,
    ⟨.rightParen, ")", 3, ")"⟩]

/-- The tree of `foo(x)`. -/
def maskedTree : Node := .call none "foo" [.name "x"]

theorem readText_masked : readText false "foo(x)" = .ok maskedTree := by
  have htokens : tokenize false "foo(x)" = .ok maskedTokens := by rfl
  have hparse : parseTokens maskedTokens = .ok maskedTree := by cbv
  have hdepth : Nesting.deepest [] maskedTokens = 1 := by rfl
  have hshallow : isTooDeep maskedTokens = false := by rw [isTooDeep, hdepth]; rfl
  exact readText_eq_ok htokens hparse hshallow

theorem misses_masked : echoing.Misses .empty .single maskedTree (.notRegistered "foo") :=
  .function rfl (by decide)

unseal World.chain in
/-- Of a function that is not registered nothing is said while one of its arguments is not bound. -/
theorem validate_masked_silent :
    readText echoing.config.strict "foo(x)" = .ok maskedTree ∧ maskedTree ∈ maskedTree.walk ∧
      echoing.Misses .empty .single maskedTree (.notRegistered "foo") ∧
      ∃ report, (echoing.validate "foo(x)" .empty .single).1 = .ok report ∧
        ∀ fault ∈ report.faults, fault.root ≠ .notRegistered "foo" := by
  have hvalidate : (echoing.validate "foo(x)" .empty .single).1 =
      .ok ⟨false, [.evaluation "x" (.unboundName "x"), .evaluation "x" (.unboundName "x")], none⟩ := by
    rw [Validation.run_validate _ _ readText_masked]
    rfl
  refine ⟨readText_masked, Node.mem_walk_self _, misses_masked, _, hvalidate, ?_⟩
  intro fault hfault
  obtain rfl : fault = .evaluation "x" (.unboundName "x") := by simpa using hfault
  exact fun h => by cases h

theorem validate_reports_masked :
    readText echoing.config.strict "foo(x)" = .ok maskedTree ∧
      ∃ report w', echoing.validate "foo(x)" .empty .single = (.ok report, w') ∧
        ∀ m ∈ maskedTree.walk, ∀ cause, echoing.Misses .empty .single m cause →
          (m.children = [] → .evaluation m.text cause ∈ report.faults) ∧
          ∃ σ fault, (m, σ) ∈ echoing.scan .empty (echoing.reading "foo(x)" .single) maskedTree ∧
            fault ∈ report.faults ∧
            match ((echoing.checking .empty (echoing.reading "foo(x)" .single)).evaluateAll
              m.children σ).1 with
            | .ok _ => fault = .evaluation m.text cause
            | .error first => fault = first :=
  ⟨readText_masked, validate_reports readText_masked⟩

end Interpreter

end Formula
