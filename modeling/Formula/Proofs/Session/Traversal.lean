import Formula.Interpreter.Traversal
import Formula.Proofs.Session.Rebinding

set_option autoImplicit false

/-! # What traversals give

A traversal binds one name to each item in turn, in the scope of its expression. What it should give
(`Traversal.due`) is told by the values of the expression at the items, in the world in which the
traversal has begun: there the name has its type. A step binds the name and evaluates at once, so a
run gives what is due, whatever its consumer does to the name in between.

Main statements: `Traversal.run_eq_due`, `Traversal.run_of_same` and `Traversal.run_append`. -/

namespace Formula

/-! ## What a traversal should give -/

/-- What is given at first and, if nothing has stopped it, what is given next. -/
def Yield.append {α : Type} (y y' : Yield α) : Yield α :=
  match y.stopped with
  | some _ => y
  | none => ⟨y.items ++ y'.items, y'.stopped⟩

/-- What a consumer makes of what it is given. -/
def Yield.map {α β : Type} (f : α → β) (y : Yield α) : Yield β := ⟨y.items.map f, y.stopped⟩

theorem Yield.map_id {α : Type} (y : Yield α) : y.map id = y := by rw [map, List.map_id]

namespace Traversal

open World (SameBut)

/-- What a traversal gives for an item, given the value of the expression at it: a filter gives the
item where it is true, a map gives the value. -/
def output? (item : Value) : Traversal → Except Fault Value → Option Value
  | map, .ok v => some v
  | filter, .ok (.bool true) => some item
  | _, _ => none

/-- The fault with which an item stops a traversal: that of the evaluation, or that the value is no
truth value where a filter needs one. -/
def fault? (e : Expression) : Traversal → Except Fault Value → Option Fault
  | _, .error fault => some fault
  | map, .ok _ => none
  | filter, .ok (.bool _) => none
  | filter, .ok v => some (.resultType e.tree.text v.typeName "bool")

/-- What a traversal should give: what the items before the first that stops it give, and its
fault. -/
def due (e : Expression) (answer : Value → Except Fault Value) (t : Traversal)
    (items : List Value) : Yield Value where
  items := (items.takeWhile fun v => (t.fault? e (answer v)).isNone).filterMap
    fun v => t.output? v (answer v)
  stopped := items.findSome? fun v => t.fault? e (answer v)

section Due

variable {e : Expression} {answer : Value → Except Fault Value} {t : Traversal} {v : Value}

theorem due_cons_of_some {fault : Fault} (h : t.fault? e (answer v) = some fault)
    (items : List Value) : t.due e answer (v :: items) = ⟨[], some fault⟩ := by
  simp [due, h]

theorem due_cons_of_none (h : t.fault? e (answer v) = none) (items : List Value) :
    t.due e answer (v :: items) =
      ⟨(t.output? v (answer v)).toList ++ (t.due e answer items).items,
        (t.due e answer items).stopped⟩ := by
  cases houtput : t.output? v (answer v) with
  | none => simp [due, h, houtput]
  | some output => simp [due, h, houtput]

theorem due_append (xs ys : List Value) :
    t.due e answer (xs ++ ys) = (t.due e answer xs).append (t.due e answer ys) := by
  induction xs with
  | nil => rfl
  | cons v xs ih =>
      cases h : t.fault? e (answer v) with
      | some fault => rw [List.cons_append, due_cons_of_some h, due_cons_of_some h]; rfl
      | none =>
          rw [List.cons_append, due_cons_of_none h, due_cons_of_none h, ih]
          rcases t.due e answer xs with ⟨items, _ | fault⟩
          · simp [Yield.append]
          · rfl

end Due

/-! ## Steps -/

section Run

variable {α : Type} {i : Interpreter} {J : Heap → Prop} {e : Expression} {name : String}
  {X : Value → Prop} {t : Traversal} {v : Value} {items : List Value} {w w' : World}

/-- A step evaluates the expression at the item, and nothing else. -/
theorem run_step (i : Interpreter) (e : Expression) (name : String) (t : Traversal) (v : Value)
    (w : World) :
    t.step i e name v w =
      (match t.fault? e (e.answer i name w v) with
        | some fault => .error fault
        | none => .ok (t.output? v (e.answer i name w v)),
      (e.evaluateAt i name v w).2) := by
  unfold Expression.answer Expression.evaluateAt
  rcases hassign : e.assign i name v w with ⟨fault | _, w₁⟩
  · rw [run_bind_of_error hassign]
    cases t with
    | filter => exact run_bind_of_error hassign
    | map => exact run_bind_of_error hassign
  · rw [run_bind_of_ok hassign]
    rcases hvalue : e.evaluate i w₁ with ⟨fault | v', w₂⟩
    · cases t with
      | filter => exact (run_bind_of_ok hassign).trans (run_bind_of_error (run_bind_of_error hvalue))
      | map => exact (run_bind_of_ok hassign).trans (run_bind_of_error hvalue)
    · cases t with
      | map => exact (run_bind_of_ok hassign).trans (run_bind_of_ok hvalue)
      | filter =>
          have has : e.evaluateAs i .bool w₁ =
              (if v'.type == .bool then .ok v' else .error (.resultType e.tree.text v'.typeName "bool"),
                w₂) := by
            unfold Expression.evaluateAs
            rw [run_bind_of_ok hvalue]
            show (if v'.type == .bool then return v' else throw _ : WorldAction Value) w₂ = _
            split
            · rfl
            · rfl
          refine (run_bind_of_ok hassign).trans ?_
          cases v' with
          | bool b =>
              rw [run_bind_of_ok has]
              cases b with
              | true => rfl
              | false => rfl
          | _ => exact run_bind_of_error has

/-! ## Runs -/

/-- What is caught of an action is what comes out of it. -/
theorem run_found {β : Type} (a : WorldAction β) (w : World) :
    (tryCatch (Except.ok <$> a) fun fault => return .error fault :
        WorldAction (Except Fault β)) w = (.ok (a w).1, (a w).2) := by
  rw [← bind_pure_comp]
  rcases ha : a w with ⟨fault | x, w₁⟩
  · exact run_tryCatch_of_error (run_bind_of_error ha)
  · exact run_tryCatch_of_ok (run_bind_of_ok ha)

/-- An item that stops a traversal is the last one that is looked at. -/
theorem run_cons_of_some {consume : Value → WorldAction α} {fault : Fault}
    (h : t.fault? e (e.answer i name w v) = some fault) (items : List Value) :
    t.run consume i e name (v :: items) w =
      (.ok ⟨[], some fault⟩, (e.evaluateAt i name v w).2) := by
  rw [run, run_bind_of_ok (run_found _ w), run_step, h]
  rfl

/-- After another item comes the consumer, if there is anything to consume, and then the rest. -/
theorem run_cons_of_none {consume : Value → WorldAction α}
    (h : t.fault? e (e.answer i name w v) = none) (items : List Value) :
    t.run consume i e name (v :: items) w =
      (match t.output? v (e.answer i name w v) with
        | none => t.run consume i e name items
        | some output => do
          let made ← consume output
          let more ← t.run consume i e name items
          return { more with items := made :: more.items } : WorldAction (Yield α))
        (e.evaluateAt i name v w).2 := by
  rw [run, run_bind_of_ok (run_found _ w), run_step, h]
  cases t.output? v (e.answer i name w v) with
  | none => rfl
  | some output => rfl

/-- A traversal is lazy: what comes later in a sequence is not looked at before all that is given
earlier was consumed, and not at all after a fault. -/
theorem run_append (consume : Value → WorldAction α) (i : Interpreter) (e : Expression)
    (name : String) (t : Traversal) (xs ys : List Value) :
    t.run consume i e name (xs ++ ys) = (do
      let y ← t.run consume i e name xs
      if y.stopped.isSome then return y
      else return y.append (← t.run consume i e name ys)) := by
  funext w
  induction xs generalizing w with
  | nil =>
      have hnil : t.run consume i e name [] = pure ⟨[], none⟩ := rfl
      rw [hnil, pure_bind]
      exact (congrFun (bind_pure (t.run consume i e name ys)) w).symm
  | cons v xs ih =>
      cases hfault : t.fault? e (e.answer i name w v) with
      | some fault =>
          rw [List.cons_append, run_cons_of_some hfault, run_bind_of_ok (run_cons_of_some hfault xs)]
          rfl
      | none =>
          rw [List.cons_append, run_cons_of_none hfault,
            run_bind_congr (run_cons_of_none hfault xs)]
          cases t.output? v (e.answer i name w v) with
          | none => exact ih _
          | some output =>
              have hrest := funext ih
              simp only [hrest, bind_assoc, pure_bind]
              refine congrFun (bind_congr fun made => bind_congr fun y => ?_) _
              rcases y with ⟨items, _ | fault⟩
              · simp [Yield.append]
              · rfl

/-- A run gives what is due in some world if its first item gives there what it gives here, and the
rest of it does so afterwards. -/
theorem run_cons_eq (consume : Value → WorldAction α) (made : Value → α) (items : List Value)
    {R : World → Prop}
    (hconsume : ∀ v w', R w' → ∃ w'', consume v w' = (.ok (made v), w'') ∧ R w'')
    (hvalue : e.answer i name w' v = e.answer i name w v) (hnext : R (e.evaluateAt i name v w').2)
    (hrest : ∀ w', R w' → ∃ w'', t.run consume i e name items w' =
      (.ok ((t.due e (e.answer i name w) items).map made), w'') ∧ R w'') :
    ∃ w'', t.run consume i e name (v :: items) w' =
      (.ok ((t.due e (e.answer i name w) (v :: items)).map made), w'') ∧ R w'' := by
  cases hfault : t.fault? e (e.answer i name w v) with
  | some fault =>
      refine ⟨_, ?_, hnext⟩
      rw [run_cons_of_some (hvalue ▸ hfault), due_cons_of_some hfault]
      rfl
  | none =>
      rw [run_cons_of_none (hvalue ▸ hfault), due_cons_of_none hfault, hvalue]
      cases t.output? v (e.answer i name w v) with
      | none => exact hrest _ hnext
      | some output =>
          obtain ⟨w₁, hmade, hconsumed⟩ := hconsume output _ hnext
          obtain ⟨w₂, hrun, hlast⟩ := hrest _ hconsumed
          refine ⟨w₂, ?_, hlast⟩
          simp only
          rw [run_bind_of_ok hmade, run_bind_of_ok hrun]
          rfl

/-- In worlds that differ in the name alone, a run over items that the name takes gives what is due
in one of them, whatever the consumer does that keeps the worlds so. -/
theorem run_of_same (consume : Value → WorldAction α) (made : Value → α)
    (hconsume : ∀ v w', SameBut i J e.scope name X w w' →
      ∃ w'', consume v w' = (.ok (made v), w'') ∧ SameBut i J e.scope name X w w'')
    (hsettled : Variable.IsSettled name X (w.own? e.scope name)) (hitems : ∀ v ∈ items, X v)
    (hpure : e.IsPureOn i J name items w) (h : SameBut i J e.scope name X w w') :
    ∃ w'', t.run consume i e name items w' =
        (.ok ((t.due e (e.answer i name w) items).map made), w'') ∧
      SameBut i J e.scope name X w w'' := by
  induction items generalizing w' with
  | nil => exact ⟨w', rfl, h⟩
  | cons v items ih =>
      obtain ⟨hvalue, hworlds⟩ := Expression.evaluateAt_same h (hitems v List.mem_cons_self)
        (hpure.of_mem List.mem_cons_self)
      exact run_cons_eq consume made items hconsume hvalue (hworlds hsettled) fun w' => ih
        (fun v' hv' => hitems v' (List.mem_cons_of_mem _ hv'))
        (fun v' hv' => hpure v' (List.mem_cons_of_mem _ hv'))

/-- So does a run that hands out what it gives as it stands. -/
theorem run_pure_of_same (hsettled : Variable.IsSettled name X (w.own? e.scope name))
    (hitems : ∀ v ∈ items, X v) (hpure : e.IsPureOn i J name items w)
    (h : SameBut i J e.scope name X w w') :
    ∃ w'', t.run pure i e name items w' = (.ok (t.due e (e.answer i name w) items), w'') ∧
      SameBut i J e.scope name X w w'' := by
  have hrun := run_of_same (t := t) pure id (fun v w' hw' => ⟨w', rfl, hw'⟩) hsettled
    hitems hpure h
  rwa [Yield.map_id] at hrun

/-! ## The first item -/

/-- The world in which a traversal has begun: the name is bound to the first item, if it takes it. -/
def begun (i : Interpreter) (e : Expression) (name : String) (items : List Value) (w : World) :
    World :=
  match items with
  | [] => w
  | first :: _ => (e.assign i name first w).2

/-- The first item is refused, and nothing has changed, or the name is bound to it. -/
theorem begun_cases (h : w.Seats i J e.scope) (first : Value) (rest : List Value) :
    (∃ fault, Variable.assignIn name first (w.own? e.scope name) = .error fault ∧
      begun i e name (first :: rest) w = w ∧ e.answer i name w first = .error fault) ∨
    ∃ x, Variable.assignIn name first (w.own? e.scope name) = .ok x ∧
      e.assign i name first w = (.ok (), begun i e name (first :: rest) w) ∧
      World.Sets i.host e.scope name x w (begun i e name (first :: rest) w) := by
  have hrun := WorldAction.run_assign h.mapped h.scope name first
  cases hx : Variable.assignIn name first (w.own? e.scope name) with
  | error fault =>
      rw [hx] at hrun
      exact .inl ⟨fault, rfl, congrArg Prod.snd hrun, congrArg Prod.fst (run_bind_of_error hrun)⟩
  | ok x =>
      rw [hx] at hrun
      obtain ⟨w₁, hassign, hsets⟩ := hrun
      have hbegun : begun i e name (first :: rest) w = w₁ := congrArg Prod.snd hassign
      rw [hbegun]
      exact .inr ⟨x, rfl, hassign, hsets⟩

/-- A run gives what is due in the world in which it has begun. -/
theorem run_eq_due (h : w.Seats i J e.scope)
    (hpure : e.IsPureOn i J name items (begun i e name items w)) :
    ∃ w', t.run pure i e name items w =
      (.ok (t.due e (e.answer i name (begun i e name items w)) items), w') := by
  cases items with
  | nil => exact ⟨w, rfl⟩
  | cons first rest =>
      rcases begun_cases h first rest with ⟨fault, -, hbegun, hanswer⟩ | ⟨x, hx, hassign, hsets⟩
      · have hfault : t.fault? e (e.answer i name w first) = some fault := by
          rw [hanswer]
          cases t with
          | filter => rfl
          | map => rfl
        rw [hbegun, run_cons_of_some hfault, due_cons_of_some hfault]
        exact ⟨_, rfl⟩
      · generalize begun i e name (first :: rest) w = w₁ at hpure hassign hsets ⊢
        obtain ⟨hvalue, hworlds⟩ := Expression.evaluateAt_again h hx hassign hsets
          (hpure.of_mem List.mem_cons_self)
        have hsettled : Variable.IsSettled name (fun _ => True) (w₁.own? e.scope name) := by
          rw [hsets.found, if_pos rfl]
          exact Variable.isSettled_some name _ x
        have hrun := run_cons_eq (t := t) pure id rest
          (fun v w' hw' => ⟨w', rfl, hw'⟩) hvalue hworlds.sameBut fun w' hw' =>
            run_of_same pure id (fun v w' hw' => ⟨w', rfl, hw'⟩) hsettled (fun _ _ => trivial)
              (fun v hv => hpure v (List.mem_cons_of_mem _ hv)) hw'
        obtain ⟨w₂, hrun, -⟩ := hrun
        rw [Yield.map_id] at hrun
        exact ⟨w₂, hrun⟩

/-- An item that is reached is bound if it is absent or has the type of the variable under the name.
Where there was no such variable, the first item must not be absent, and the others must be of its
type. -/
theorem assign_begun (h : w.Seats i J e.scope) {before after : List Value} {item : Value}
    (hitems : items = before ++ item :: after)
    (hbefore : ∀ v ∈ before, t.fault? e (e.answer i name (begun i e name items w) v) = none) :
    (e.assign i name item (begun i e name items w)).1 =
      (Variable.assignIn name item
        ((w.own? e.scope name).or (before.head?.map fun v => ⟨v.type, v⟩))).map fun _ => () := by
  have hassign {w' : World} (h' : w'.Seats i J e.scope) : (e.assign i name item w').1 =
      (Variable.assignIn name item (w'.own? e.scope name)).map fun _ => () := by
    have hrun := WorldAction.run_assign h'.mapped h'.scope name item
    cases hx : Variable.assignIn name item (w'.own? e.scope name) with
    | error fault =>
        rw [hx] at hrun
        exact congrArg Prod.fst hrun
    | ok x =>
        rw [hx] at hrun
        obtain ⟨w₁, hrun, -⟩ := hrun
        exact congrArg Prod.fst hrun
  cases before with
  | nil =>
      subst hitems
      rw [List.head?_nil, Option.map_none, Option.or_none]
      rcases begun_cases h item after with ⟨fault, hx, hbegun, -⟩ | ⟨x, hx, -, hsets⟩
      · rw [List.nil_append, hbegun, hassign h]
      · rw [List.nil_append, hassign (h.sets hsets), hsets.found, if_pos rfl, hx,
          Variable.assignIn_again hx]
  | cons first before =>
      subst hitems
      have hgiven := hbefore first List.mem_cons_self
      rcases begun_cases h first (before ++ item :: after) with
        ⟨fault, -, hbegun, hanswer⟩ | ⟨x, hx, -, hsets⟩
      · -- A first item that is refused stops the traversal.
        rw [List.cons_append, hbegun, hanswer] at hgiven
        cases t <;> cases hgiven
      · have htype := Variable.type_of_assignIn hx
        rw [List.cons_append, hassign (h.sets hsets), hsets.found, if_pos rfl]
        cases hown : w.own? e.scope name with
        | some y =>
            rw [hown] at htype
            exact congrArg _ (Variable.assign_eq_of_type htype item)
        | none =>
            rw [hown] at htype
            exact congrArg _ (Variable.assign_eq_of_type htype item)

end Run

end Traversal

end Formula
