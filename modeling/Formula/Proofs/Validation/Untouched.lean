import Formula.Proofs.Evaluation.Untouched
import Formula.Proofs.Validation.Coverage

set_option autoImplicit false

/-! # Validation that leaves the host alone

All that a validation evaluates are references and conditionals of its text. Where all names in the
text are declared, they mean variables without values whenever one of these is evaluated. So the whole
validation stays the same, with its report and all that it leaves behind, if trees are evaluated by
anything that gives the same for such variables (`Interpreter.validateWith_congr`); reading members of
objects and calling their methods may be replaced at will.

Main statement: `Interpreter.validateVia_congr`. -/

namespace Formula

/-- A way to evaluate trees. -/
abbrev Evaluator := Setting → Node → Action Value

/-! ## Validation by another evaluator -/

namespace Expression

/-- The value of an expression. -/
def evaluateWith (ev : Evaluator) (i : Interpreter) (e : Expression) : WorldAction Value := do
  let s := e.setting i e.checking (← get)
  WorldAction.ofAction do
    s.trace fun _ => .evaluating e.tree.text
    ev s e.tree

/-- The faults of some trees, each evaluated by itself. -/
def faultsOfWith (ev : Evaluator) (s : Setting) : List Node → Action (List Fault)
  | [] => return []
  | node :: nodes => do
    let found ← Fault.caught (ev s node)
    return found.toList ++ (← faultsOfWith ev s nodes)

/-- The faults of the references in the tree. -/
def checkReferencesWith (ev : Evaluator) (i : Interpreter) (e : Expression) :
    WorldAction (List Fault) := do
  let s := e.setting i true (← get)
  WorldAction.ofAction (faultsOfWith ev s (e.tree.find references true true))

end Expression

/-- Adds the faults of conditionals to those found before, each unless it is there already. -/
def Validation.faultsOfConditionalsWith (ev : Evaluator) (i : Interpreter) (e : Expression)
    (known : List Fault) : List Node → WorldAction (List Fault)
  | [] => return known
  | node :: nodes => do
    let isolated ← Expression.make i node true e.scope
    match ← Fault.caught (isolated.evaluateWith ev i) with
    | some fault =>
      if known.any fun f => f.identity == fault.identity then
        faultsOfConditionalsWith ev i e known nodes
      else faultsOfConditionalsWith ev i e (known ++ [fault]) nodes
    | none => faultsOfConditionalsWith ev i e known nodes

namespace Interpreter

/-- Checks a tree that was read from a text. -/
def validateTreeWith (ev : Evaluator) (i : Interpreter) (text : String) (tree : Node)
    (types : Dictionary String ValueType) : WorldAction Report := do
  let e ← Expression.make i tree true i.globals
  e.declareAll i types
  let faults ← e.checkReferencesWith ev i
  let faults ← Validation.faultsOfConditionalsWith ev i e faults
    (tree.find [.conditional] true true)
  if faults.isEmpty then return ⟨true, [], some { e with checking := false }⟩
  else
    WorldAction.ofAction (Action.report [.invalid text faults.length])
    return ⟨false, faults, none⟩

/-- Checks a text, given the types of some variables. -/
def validateWith (ev : Evaluator) (i : Interpreter) (text : String)
    (types : Dictionary String ValueType) : WorldAction Report := do
  let tree ← tryCatch (Except.ok <$> WorldAction.ofAction (i.read text)) fun fault =>
    match fault with
    | .unreadable _ => return .error fault
    | fault => throw fault
  match tree with
  | .error fault => return ⟨false, [fault], none⟩
  | .ok tree => i.validateTreeWith ev text tree types

/-- Checks a text while the host is reached in the given way. -/
def validateVia (a : Access) (i : Interpreter) (text : String)
    (types : Dictionary String ValueType) : WorldAction Report :=
  i.validateWith (fun s => s.evaluateVia a) text types

end Interpreter

/-! ## The evaluator itself -/

theorem Expression.faultsOfWith_evaluate (s : Setting) (nodes : List Node) :
    faultsOfWith Setting.evaluate s nodes = faultsOf s nodes := by
  induction nodes with
  | nil => rw [faultsOfWith, faultsOf]
  | cons node nodes ih => rw [faultsOfWith, faultsOf, ih]

theorem Expression.checkReferencesWith_evaluate (i : Interpreter) (e : Expression) :
    e.checkReferencesWith Setting.evaluate i = e.checkReferences i := by
  unfold checkReferencesWith checkReferences
  simp only [faultsOfWith_evaluate]

theorem Validation.faultsOfConditionalsWith_evaluate (i : Interpreter) (e : Expression)
    (known : List Fault) (nodes : List Node) :
    faultsOfConditionalsWith Setting.evaluate i e known nodes =
      faultsOfConditionals i e known nodes := by
  induction nodes generalizing known with
  | nil => rw [faultsOfConditionalsWith, faultsOfConditionals]
  | cons node nodes ih =>
      rw [faultsOfConditionalsWith]
      simp only [ih]
      rfl

/-- If trees are evaluated as they are, a validation is the one there is. -/
theorem Interpreter.validateWith_evaluate (i : Interpreter) (text : String)
    (types : Dictionary String ValueType) :
    i.validateWith Setting.evaluate text types = i.validate text types := by
  have htree (tree : Node) :
      i.validateTreeWith Setting.evaluate text tree types = i.validateTree text tree types := by
    unfold validateTreeWith validateTree
    simp only [Expression.checkReferencesWith_evaluate, Validation.faultsOfConditionalsWith_evaluate]
  unfold validateWith
  simp only [htree]
  rfl

/-! ## Evaluators that agree on variables without values -/

section Congr

variable {ev ev' : Evaluator} {i : Interpreter} {e : Expression} {w : World}

theorem Expression.faultsOfWith_congr {s : Setting} {nodes : List Node}
    (h : ∀ n ∈ nodes, ev s n = ev' s n) : faultsOfWith ev s nodes = faultsOfWith ev' s nodes := by
  induction nodes with
  | nil => rw [faultsOfWith, faultsOfWith]
  | cons node nodes ih =>
      have hrest := ih fun n hn => h n (List.mem_cons_of_mem _ hn)
      rw [faultsOfWith, faultsOfWith, h node List.mem_cons_self, hrest]

/-- Two evaluators agree where the variables that a tree names have no values. -/
def Evaluator.AgreeOnUnset (ev ev' : Evaluator) : Prop :=
  ∀ (s : Setting) (tree : Node), tree.IsUnset s.lookup → ev s tree = ev' s tree

theorem Expression.evaluateWith_congr (hev : ev.AgreeOnUnset ev')
    (h : e.tree.IsUnset (w.lookup e.scope)) : e.evaluateWith ev i w = e.evaluateWith ev' i w := by
  have hget : (get : WorldAction World) w = (.ok w, w) := rfl
  have hvalue := hev (e.setting i e.checking w) e.tree h
  unfold evaluateWith
  rw [run_bind_of_ok hget, run_bind_of_ok hget, hvalue]

theorem Expression.checkReferencesWith_congr (hev : ev.AgreeOnUnset ev')
    (h : e.tree.IsUnset (w.lookup e.scope)) :
    e.checkReferencesWith ev i w = e.checkReferencesWith ev' i w := by
  have hget : (get : WorldAction World) w = (.ok w, w) := rfl
  have hfaults : faultsOfWith ev (e.setting i true w) (e.tree.find references true true) =
      faultsOfWith ev' (e.setting i true w) (e.tree.find references true true) :=
    faultsOfWith_congr fun n hn => hev _ n (h.part (Node.mem_find.1 hn).1)
  unfold checkReferencesWith
  rw [run_bind_of_ok hget, run_bind_of_ok hget, hfaults]

/-- An evaluation makes no scopes. -/
theorem Expression.keeps_scopes_evaluateWith (ev : Evaluator) (i : Interpreter) (e : Expression)
    (scopes : List Scope) :
    Keeps (fun w => w.scopes = scopes) (fun _ => True) (e.evaluateWith ev i) :=
  .bind .get fun _ _ h => ⟨h, fun _ _ => trivial⟩

theorem Expression.keeps_scopes_checkReferencesWith (ev : Evaluator) (i : Interpreter)
    (e : Expression) (scopes : List Scope) :
    Keeps (fun w => w.scopes = scopes) (fun _ => True) (e.checkReferencesWith ev i) :=
  .bind .get fun _ _ h => ⟨h, fun _ _ => trivial⟩

/-- Conditionals that are evaluated in new scopes below one in which their variables have no
values. -/
theorem Validation.faultsOfConditionalsWith_congr (hev : ev.AgreeOnUnset ev') {nodes : List Node}
    (hscope : e.scope < w.scopes.length) (hunset : ∀ n ∈ nodes, n.IsUnset (w.lookup e.scope))
    (known : List Fault) :
    faultsOfConditionalsWith ev i e known nodes w =
      faultsOfConditionalsWith ev' i e known nodes w := by
  induction nodes generalizing known w with
  | nil => rw [faultsOfConditionalsWith, faultsOfConditionalsWith]
  | cons node nodes ih =>
      let isolated : Expression := ⟨node, w.scopes.length, true, i.config.debug⟩
      have hmake : Expression.make i node true e.scope w =
          (.ok isolated, w.addScope (some e.scope)) := rfl
      have hlookup : (w.addScope (some e.scope)).lookup w.scopes.length = w.lookup e.scope :=
        funext fun name => w.lookup_child hscope name
      have hsame : isolated.evaluateWith ev i (w.addScope (some e.scope)) =
          isolated.evaluateWith ev' i (w.addScope (some e.scope)) := by
        refine Expression.evaluateWith_congr hev ?_
        show node.IsUnset ((w.addScope (some e.scope)).lookup w.scopes.length)
        rw [hlookup]
        exact hunset node List.mem_cons_self
      have hscopes := ((Expression.keeps_scopes_evaluateWith ev' i isolated _).caught
        (w.addScope (some e.scope)) rfl).1
      rw [faultsOfConditionalsWith, faultsOfConditionalsWith, run_bind_of_ok hmake,
        run_bind_of_ok hmake]
      have hcaught := run_caught_congr hsame
      rcases hrun : Fault.caught (isolated.evaluateWith ev' i) (w.addScope (some e.scope)) with
        ⟨fault | found, w₁⟩
      · rw [hrun] at hcaught
        rw [run_bind_of_error hcaught, run_bind_of_error hrun]
      · rw [hrun] at hcaught hscopes
        rw [run_bind_of_ok hcaught, run_bind_of_ok hrun]
        -- One more scope was made, in which nothing is bound.
        have hnext (known : List Fault) := ih (w := w₁) (by
            rw [hscopes, World.addScope, List.length_append]
            exact Nat.lt_add_right _ hscope) (fun n hn => by
            have hbefore : w₁.lookup e.scope = w.lookup e.scope :=
              funext fun name => World.lookup_of_append hscopes hscope name
            rw [hbefore]
            exact hunset n (List.mem_cons_of_mem _ hn)) known
        cases found with
        | none => exact hnext known
        | some fault =>
            simp only
            split
            · exact hnext known
            · exact hnext _

end Congr

/-- All variables that a tree names are among the given ones. -/
def Node.NamesOnly (names : List String) (tree : Node) : Prop :=
  ∀ m ∈ tree.walk, ∀ name ∈ m.subject?, name ∈ names

namespace Interpreter

variable {ev ev' : Evaluator} {i : Interpreter} {types : Dictionary String ValueType}

/-- Names that are declared mean variables without values. -/
theorem isUnset_declaring {tree : Node} (h : tree.NamesOnly types.keys) (w : World) :
    tree.IsUnset ((i.declaring types w).lookup w.scopes.length) := by
  have hdeclares := i.declares_declaring types w
  intro m hm name hname b hb
  obtain ⟨own, hown⟩ := Option.isSome_iff_exists.1 (hdeclares.bound name (h m hm name hname))
  rw [World.lookup_eq, hown] at hb
  cases hb
  refine (hdeclares.unset hown).resolve_right fun hbefore => ?_
  rw [World.scope_addScope] at hbefore
  cases hbefore

/-- The validation of a tree whose names are all declared. -/
theorem validateTreeWith_congr (hev : ev.AgreeOnUnset ev') {tree : Node}
    (hnames : tree.NamesOnly types.keys) (text : String) (w : World) :
    i.validateTreeWith ev text tree types w = i.validateTreeWith ev' text tree types w := by
  let e : Expression := ⟨tree, w.scopes.length, true, i.config.debug⟩
  have hmake : Expression.make i tree true i.globals w =
      (.ok e, w.addScope (some i.globals)) := rfl
  have hdeclare : e.declareAll i types (w.addScope (some i.globals)) =
      (.ok (), i.declaring types w) := i.run_declaring types w
  have hunset : e.tree.IsUnset ((i.declaring types w).lookup e.scope) := isUnset_declaring hnames w
  have hreferences := Expression.checkReferencesWith_congr (i := i) hev hunset
  have hscopes := (Expression.keeps_scopes_checkReferencesWith ev' i e _ (i.declaring types w) rfl).1
  unfold validateTreeWith
  rw [run_bind_of_ok hmake, run_bind_of_ok hmake, run_bind_of_ok hdeclare, run_bind_of_ok hdeclare]
  rcases hrun : e.checkReferencesWith ev' i (i.declaring types w) with ⟨fault | faults, w₁⟩
  · rw [hrun] at hreferences
    rw [run_bind_of_error hreferences, run_bind_of_error hrun]
  · rw [hrun] at hreferences hscopes
    rw [run_bind_of_ok hreferences, run_bind_of_ok hrun]
    -- The names still mean what they were declared to be.
    have hlookup : w₁.lookup e.scope = (i.declaring types w).lookup e.scope :=
      funext fun name => World.lookup_congr (fun k _ => by
        unfold World.scope
        rw [hscopes]
        exact ⟨rfl, rfl⟩) name
    refine run_bind_congr (Validation.faultsOfConditionalsWith_congr hev ?_ (fun n hn => ?_) faults)
    · rw [hscopes]
      exact i.lt_length_declaring types w
    · rw [hlookup]
      exact hunset.part (Node.mem_find.1 hn).1

/-- The validation of a text whose names are all declared does not depend on how trees are evaluated
whose variables have values. -/
theorem validateWith_congr (hev : ev.AgreeOnUnset ev') {text : String}
    (hnames : ∀ tree, readText i.config.strict text = .ok tree → tree.NamesOnly types.keys)
    (w : World) : i.validateWith ev text types w = i.validateWith ev' text types w := by
  unfold validateWith
  refine run_bind_congr_right fun found w₁ hfound => ?_
  cases found with
  | error fault => rfl
  | ok tree =>
      refine validateTreeWith_congr hev (hnames tree ?_) text w₁
      have hread := Validation.run_read i text w
      rw [← bind_pure_comp] at hfound
      cases htext : readText i.config.strict text with
      | ok tree' =>
          rw [htext] at hread
          have hdone : (WorldAction.ofAction (i.read text) >>= fun tree => pure (.ok tree) :
              WorldAction (Except Fault Node)) w = (.ok (.ok tree'), _) := run_bind_of_ok hread
          rw [run_tryCatch_of_ok hdone] at hfound
          cases hfound
          rfl
      | error fault =>
          rw [htext] at hread
          have hdone : (WorldAction.ofAction (i.read text) >>= fun tree => pure (.ok tree) :
              WorldAction (Except Fault Node)) w = (.error fault, _) := run_bind_of_error hread
          rw [run_tryCatch_of_error hdone] at hfound
          split at hfound
          · cases hfound
          · cases hfound

/-- If all names in a text are declared, its validation reads no member of an object and calls no
method of one, whatever functions do: anything else could be done instead. -/
theorem validateVia_congr {a a' : Access} (hcall : a.call = a'.call) {text : String}
    (hnames : ∀ tree, readText i.config.strict text = .ok tree → tree.NamesOnly types.keys)
    (w : World) : i.validateVia a text types w = i.validateVia a' text types w :=
  validateWith_congr (fun _ _ hunset => Setting.evaluateVia_congr hcall hunset) hnames w

/-- If the host is reached as it is, a validation is the one there is. -/
theorem validateVia_direct (i : Interpreter) (text : String) (types : Dictionary String ValueType) :
    i.validateVia .direct text types = i.validate text types := by
  have hevaluator : (fun s : Setting => s.evaluateVia .direct) = Setting.evaluate :=
    funext fun s => funext s.evaluateVia_direct
  rw [validateVia, hevaluator, validateWith_evaluate]

end Interpreter

end Formula
