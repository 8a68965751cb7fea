import Formula.Proofs.Evaluation.Access
import Formula.Proofs.Evaluation.Expression
import Formula.Proofs.Scope.Binding
import Formula.Proofs.Tree.Walk
import Formula.Proofs.Validation.Runs

set_option autoImplicit false

/-! # What a validation has checked

Each reference and each conditional of a validated tree had a value when it was checked, at some time
between the declarations and the end. What names mean did not change meanwhile, since only scopes
were added.

Main statement: `Validation.Passed.checked`. -/

namespace Formula

/-! ## Time -/

/-- How stores develop: not at all, or in several steps. -/
structure Store.IsProgress (Rel : Store → Store → Prop) : Prop where
  refl : ∀ σ, Rel σ σ
  trans : ∀ {σ τ υ}, Rel σ τ → Rel τ υ → Rel σ υ

namespace Setting

variable {s : Setting} {Rel : Store → Store → Prop} {σ σ' : Store}

/-- Between two stores the evaluation of a tree gave a value. -/
def HadValue (s : Setting) (Rel : Store → Store → Prop) (σ σ' : Store) (n : Node) : Prop :=
  ∃ τ v, Rel σ τ ∧ (s.evaluate n τ).1 = .ok v ∧ Rel τ σ'

theorem HadValue.widen {n : Node} {σ₀ σ₁ : Store} (hprogress : Store.IsProgress Rel)
    (h : s.HadValue Rel σ σ' n) (hbefore : Rel σ₀ σ) (hafter : Rel σ' σ₁) :
    s.HadValue Rel σ₀ σ₁ n := by
  obtain ⟨τ, v, hτ, hv, hτ'⟩ := h
  exact ⟨τ, v, hprogress.trans hbefore hτ, hv, hprogress.trans hτ' hafter⟩

end Setting

/-! ## References -/

/-- Where no faults were found, every node had a value. -/
theorem Expression.of_faultsOf_eq_nil {s : Setting} {Rel : Store → Store → Prop} {σ σ' : Store}
    {nodes : List Node} (hprogress : Store.IsProgress Rel)
    (hsteps : ∀ n ∈ nodes, ∀ σ, Rel σ (s.evaluate n σ).2)
    (h : faultsOf s nodes σ = (.ok [], σ')) :
    Rel σ σ' ∧ ∀ n ∈ nodes, s.HadValue Rel σ σ' n := by
  induction nodes generalizing σ with
  | nil =>
      rw [faultsOf] at h
      cases h
      exact ⟨hprogress.refl _, fun n hn => by cases hn⟩
  | cons node nodes ih =>
      rw [faultsOf] at h
      obtain ⟨found, σ₁, hfound, hmore⟩ := of_run_bind_eq_ok h
      obtain ⟨rest, σ₂, hrest, hend⟩ := of_run_bind_eq_ok hmore
      obtain ⟨hnone, rfl⟩ := of_run_pure_eq_ok hend
      obtain ⟨hempty, rfl⟩ := List.append_eq_nil_iff.1 hnone.symm
      obtain rfl := Option.toList_eq_nil_iff.1 hempty
      have hstep := hsteps node List.mem_cons_self σ
      obtain ⟨v, hrun⟩ := of_run_caught_eq_none hfound
      rw [hrun] at hstep
      obtain ⟨hlast, hall⟩ := ih (fun n hn => hsteps n (List.mem_cons_of_mem _ hn)) hrest
      refine ⟨hprogress.trans hstep hlast, fun n hn => ?_⟩
      rcases List.mem_cons.1 hn with rfl | hn
      · exact ⟨σ, v, hprogress.refl _, by rw [hrun], hprogress.trans hstep hlast⟩
      · exact (hall n hn).widen hprogress hstep (hprogress.refl _)

/-! ## Conditionals -/

namespace Validation

/-- Where no faults were found, every node had a value in the scope of the expression. -/
theorem of_faultsOfConditionals_eq_nil {i : Interpreter} {e : Expression} {known : List Fault}
    {Rel : Store → Store → Prop} {nodes : List Node} {w w' : World}
    (hprogress : Store.IsProgress Rel) (hscope : e.scope < w.scopes.length)
    (hsteps : ∀ n ∈ nodes, ∀ σ, Rel σ ((e.setting i true w).evaluate n σ).2)
    (h : faultsOfConditionals i e known nodes w = (.ok [], w')) :
    (∃ more, w'.scopes = w.scopes ++ more) ∧ Rel w.store w'.store ∧
      ∀ n ∈ nodes, (e.setting i true w).HadValue Rel w.store w'.store n := by
  induction nodes generalizing known w with
  | nil =>
      rw [faultsOfConditionals] at h
      cases h
      exact ⟨⟨[], (List.append_nil _).symm⟩, hprogress.refl _, fun n hn => by cases hn⟩
  | cons node nodes ih =>
      rw [faultsOfConditionals] at h
      obtain ⟨isolated, hmake, hevaluate⟩ := Expression.exists_isolated (e := e) i node hscope
      rw [run_bind_of_ok hmake] at h
      have hstep := hsteps node List.mem_cons_self w.store
      rcases hrun : (e.setting i true w).evaluate node w.store with ⟨fault | v, τ⟩
      · -- The fault stays in what was found, so not nothing was found.
        rw [hrun] at hevaluate
        have hfault := Setting.isEvaluation_of_evaluate (congrArg Prod.fst hrun)
        rw [run_bind_of_ok (run_caught_of_error hevaluate hfault)] at h
        simp only at h
        split at h
        next hknown =>
          rw [eq_nil_of_faultsOfConditionals h] at hknown
          cases hknown
        · have hnil := eq_nil_of_faultsOfConditionals h
          simp at hnil
      · rw [hrun] at hevaluate hstep
        rw [run_bind_of_ok (run_caught_of_ok hevaluate)] at h
        have hscopes : ({ w.addScope (some e.scope) with store := τ } : World).scopes =
            w.scopes ++ [.child (some e.scope)] := rfl
        have hsetting := Expression.setting_of_append (i := i) hscopes hscope true
        obtain ⟨⟨more, hmore⟩, hlast, hall⟩ := ih
          (by rw [hscopes, List.length_append]; omega)
          (fun n hn => by rw [hsetting]; exact hsteps n (List.mem_cons_of_mem _ hn)) h
        rw [hsetting] at hall
        refine ⟨⟨_, by rw [hmore, hscopes, List.append_assoc]⟩, hprogress.trans hstep hlast, ?_⟩
        intro n hn
        rcases List.mem_cons.1 hn with rfl | hn
        · exact ⟨w.store, v, hprogress.refl _, by rw [hrun], hprogress.trans hstep hlast⟩
        · exact (hall n hn).widen hprogress hstep (hprogress.refl _)

/-! ## The whole validation -/

namespace Passed

variable {i : Interpreter} {types : Dictionary String ValueType} {e : Expression}
  {read declared last : World} {checked : Store}

/-- The variables were declared in the scope of the expression, which is a new one. -/
theorem isDeclared (h : Passed i types e read declared checked last) :
    WorldAction.Declares e.scope types.keys (read.addScope (some i.globals)) declared ∧
      e.scope < declared.scopes.length := by
  have hnew : e.scope < (read.addScope (some i.globals)).scopes.length := by
    rw [World.addScope, List.length_append, h.scope]
    exact Nat.lt_succ_self _
  obtain ⟨w, hrun, hdeclares⟩ := WorldAction.run_declareAll i.host types.entries hnew
  rw [h.declares] at hrun
  cases hrun
  exact ⟨hdeclares, hdeclares.count ▸ hnew⟩

/-- Only scopes were added since. -/
theorem exists_append (h : Passed i types e read declared checked last) :
    ∃ more, last.scopes = declared.scopes ++ more :=
  (@of_faultsOfConditionals_eq_nil i { e with checking := true } [] (fun _ _ => True) _
    { declared with store := checked } last ⟨fun _ => trivial, fun _ _ => trivial⟩
    h.isDeclared.2 (fun _ _ _ => trivial) h.conditionals).1

theorem setting_last (h : Passed i types e read declared checked last) (checking : Bool) :
    e.setting i checking last = e.setting i checking declared := by
  obtain ⟨more, hmore⟩ := h.exists_append
  exact Expression.setting_of_append hmore h.isDeclared.2 checking

theorem scope_last (h : Passed i types e read declared checked last) :
    last.scope e.scope = declared.scope e.scope := by
  obtain ⟨more, hmore⟩ := h.exists_append
  exact World.scope_of_append hmore h.isDeclared.2

/-- The scope of the expression stands in that of the globals. -/
theorem parent_last (h : Passed i types e read declared checked last) :
    (last.scope e.scope).parent = some i.globals := by
  rw [h.scope_last, h.isDeclared.1.parent, h.scope, World.scope_addScope]
  rfl

/-- The variables of the expression have no values. -/
theorem unset_last (h : Passed i types e read declared checked last) {name : String} {b : Binding}
    (hb : (last.scope e.scope).bindings.find? name = some b) : b.value = .none := by
  rw [h.scope_last] at hb
  rcases h.isDeclared.1.unset hb with hnone | hbefore
  · exact hnone
  · rw [h.scope, World.scope_addScope] at hbefore
    cases hbefore

/-- The declared variables are bound. -/
theorem bound_last (h : Passed i types e read declared checked last) {name : String}
    (hname : name ∈ types.keys) : ((last.scope e.scope).bindings.find? name).isSome = true := by
  rw [h.scope_last]
  exact h.isDeclared.1.bound name hname

/-- Every reference and every conditional of the tree had a value. -/
theorem hadValue (h : Passed i types e read declared checked last)
    {Rel : Store → Store → Prop} (hprogress : Store.IsProgress Rel)
    (hsteps : ∀ n ∈ e.tree.walk, ∀ σ, Rel σ ((e.setting i true last).evaluate n σ).2) :
    Rel declared.store last.store ∧
      ∀ n ∈ e.tree.walk, (∃ c ∈ .conditional :: Expression.references, n.isA c = true) →
        (e.setting i true last).HadValue Rel declared.store last.store n := by
  rw [h.setting_last] at hsteps ⊢
  have hnodes {n : Node} {classes : List Node.Class} (hn : n ∈ e.tree.find classes true true) :
      n ∈ e.tree.walk := (Node.mem_find.1 hn).1
  obtain ⟨hmiddle, hreferences⟩ := Expression.of_faultsOf_eq_nil hprogress
    (fun n hn => hsteps n (hnodes hn)) h.references
  have hsetting : { e with checking := true }.setting i true { declared with store := checked } =
      e.setting i true declared :=
    @Expression.setting_of_append i { e with checking := true } declared
      { declared with store := checked } [] (List.append_nil _).symm h.isDeclared.2 true
  obtain ⟨-, hend, hconditionals⟩ := of_faultsOfConditionals_eq_nil
    (e := { e with checking := true }) (w := { declared with store := checked }) hprogress
    h.isDeclared.2 (fun n hn => by rw [hsetting]; exact hsteps n (hnodes hn)) h.conditionals
  rw [hsetting] at hconditionals
  refine ⟨hprogress.trans hmiddle hend, fun n hn hclass => ?_⟩
  obtain ⟨c, hc, hisA⟩ := hclass
  rcases List.mem_cons.1 hc with rfl | hc
  · have hfound := Node.mem_find.2 ⟨hn, .conditional, List.mem_singleton.2 rfl, hisA⟩
    exact (hconditionals n hfound).widen hprogress hmiddle (hprogress.refl _)
  · have hfound := Node.mem_find.2 ⟨hn, c, hc, hisA⟩
    exact (hreferences n hfound).widen hprogress (hprogress.refl _) hend

/-- The tables stayed as they were as far as they can be told apart. -/
theorem alike (h : Passed i types e read declared checked last) :
    declared.store.Alike i.host last.store := by
  refine (@hadValue _ _ _ _ _ _ _ h (Store.Alike i.host) ⟨.refl, .trans⟩ fun n _ σ => ?_).1
  have hkeeps := Setting.keeps_evaluate_tables (e.setting i true last) σ n
  exact (hkeeps σ (.refl σ)).1

end Passed

end Validation

/-! ## An example -/

/-- The world of a single scope without bindings. -/
def World.single : World := ⟨.empty, [.child none]⟩

/-- The tokens of `1 / 0 + echo(n)`. -/
def echoTokens : List Token :=
  [⟨.number, "1", 0, "1"⟩, ⟨.operator, "/", 1, "/"⟩, ⟨.number, "0", 2, "0"⟩,
    ⟨.operator, "+", 3, "+"⟩, ⟨.name, "echo", 4, "echo"⟩, ⟨.leftParen, "(", 5, "("⟩,
    ⟨.name, "n", 6, "n"⟩, ⟨.rightParen, ")", 7, ")"⟩]

/-- The tree of `1 / 0 + echo(n)`. -/
def echoTree : Node :=
  .binary .plus (.binary .dividedBy (.literal (.int 1)) (.literal (.int 0)))
    (.call none "echo" [.name "n"])

namespace Interpreter

/-- An interpreter with one function, which gives back what it is given. -/
def echoing : Interpreter where
  host := ⟨[], []⟩
  config := ⟨false, false, false⟩
  globals := 0
  functions := FunctionTable.register .empty (.derive "echo"
    (.written [⟨"x", .any, none, .positional⟩] (.param "x") none) none "" .custom [])

theorem readText_echo : readText false "1 / 0 + echo(n)" = .ok echoTree := by
  have htokens : tokenize false "1 / 0 + echo(n)" = .ok echoTokens := by rfl
  have hparse : parseTokens echoTokens = .ok echoTree := by cbv
  have hdepth : Nesting.deepest [] echoTokens = 1 := by rfl
  have hshallow : isTooDeep echoTokens = false := by rw [isTooDeep, hdepth]; rfl
  exact readText_eq_ok htokens hparse hshallow

/-- What the validation of `1 / 0 + echo(n)`, for a number `n`, gives. -/
def echoExpression : Expression := ⟨echoTree, 1, false, false⟩

/-- The world after this validation. -/
def validated : World := (echoing.validate "1 / 0 + echo(n)" ⟨[("n", .int)]⟩ .single).2

unseal World.chain in
theorem validate_echo : echoing.validate "1 / 0 + echo(n)" ⟨[("n", .int)]⟩ .single =
    (.ok ⟨true, [], some echoExpression⟩, validated) := by
  refine Prod.ext ?_ rfl
  rw [Validation.run_validate _ _ readText_echo]
  rfl

/-- The function leaves the heap as it is. -/
theorem hostCode_echo {s : Setting} {origin : Store} {P : ∀ {α : Type}, HostAction α → Prop}
    (hfunctions : s.functions = echoing.functions)
    (hunchanged : ∀ {α : Type} {a : HostAction α}, (∀ heap, (a heap).2 = heap) → P a) :
    s.HostCode origin echoTree P where
  function := by
    intro name arguments f hmem hfind values
    obtain ⟨rfl, rfl⟩ : name = "echo" ∧ arguments = [.name "n"] := by simpa [echoTree] using hmem
    rw [hfunctions] at hfind
    cases hfind
    refine hunchanged fun heap => ?_
    rcases values with _ | ⟨v, _ | ⟨v', values⟩⟩
    · rfl
    · rfl
    · rfl
  member hmem := by simp [echoTree] at hmem
  method hmem := by simp [echoTree] at hmem

end Interpreter

end Formula
