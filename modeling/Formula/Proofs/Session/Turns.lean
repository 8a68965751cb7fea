import Formula.Proofs.Session.Isolation
import Formula.Proofs.Session.Traversal

set_option autoImplicit false

/-! # Traversals that take turns

Traversals of one expression and name share the variable that they bind. Each of them takes one item in
each of its turns, in whatever order they have them: a loop over one inside a loop over another, or a
traversal of what another one gives, is such an order. As long as the items are of one type, none of
them notices the others.

Main statements: `Traversal.takeTurns_alone` and `Traversal.yields`. -/

namespace Formula

namespace Traversal

open World (SameBut)

/-! ## Taking turns -/

/-- A traversal on its way: the items still to come, and what was given. -/
structure Walk where
  traversal : Traversal
  pending : List Value
  given : Yield Value

namespace Walk

/-- A traversal of some items that has not begun. -/
def start (t : Traversal) (items : List Value) : Walk := ⟨t, items, ⟨[], none⟩⟩

/-- Takes one item more, unless a fault has stopped the traversal. -/
def advance (i : Interpreter) (e : Expression) (name : String) (walk : Walk) : WorldAction Walk := do
  match walk.given.stopped, walk.pending with
  | some _, _ | none, [] => return walk
  | none, item :: pending =>
    let more ← walk.traversal.run pure i e name [item]
    return ⟨walk.traversal, pending, walk.given.append more⟩

end Walk

/-- Traversals take turns: those with the given numbers, one after the other, take one item each. -/
def takeTurns (i : Interpreter) (e : Expression) (name : String) :
    List Nat → List Walk → WorldAction (List Walk)
  | [], walks => return walks
  | n :: turns, walks => do
    match walks[n]? with
    | none => takeTurns i e name turns walks
    | some walk =>
      let walk ← walk.advance i e name
      takeTurns i e name turns (walks.set n walk)

section Turns

variable {i : Interpreter} {J : Heap → Prop} {e : Expression} {name : String}
  {X : Value → Prop} {t : Traversal} {items : List Value} {w w' : World} {walk : Walk}

/-- How far a traversal is after some of its turns: it has given what is due for as many items, and if
nothing has stopped it the others are still to come. -/
structure Walk.IsAt (e : Expression) (answer : Value → Except Fault Value) (t : Traversal)
    (items : List Value) (count : Nat) (walk : Walk) : Prop where
  traversal : walk.traversal = t
  given : walk.given = t.due e answer (items.take count)
  pending : walk.given.stopped = none → walk.pending = items.drop count

theorem Walk.isAt_start (e : Expression) (answer : Value → Except Fault Value) (t : Traversal)
    (items : List Value) : (start t items).IsAt e answer t items 0 where
  traversal := rfl
  given := by simp [start, due]
  pending _ := by simp [start]

/-- One turn, in worlds that differ in the name alone. -/
theorem Walk.advance_isAt {count : Nat}
    (hsettled : Variable.IsSettled name X (w.own? e.scope name)) (hitems : ∀ v ∈ items, X v)
    (hpure : e.IsPureOn i J name items w) (h : SameBut i J e.scope name X w w')
    (hwalk : walk.IsAt e (e.answer i name w) t items count) :
    ∃ walk' w'', walk.advance i e name w' = (.ok walk', w'') ∧
      walk'.IsAt e (e.answer i name w) t items (count + 1) ∧
      SameBut i J e.scope name X w w'' := by
  obtain ⟨rfl, hgiven, hpending⟩ := hwalk
  have hnext : walk.traversal.due e (e.answer i name w)
      (items.take count ++ (items.drop count).take 1) = _ := due_append _ _
  rw [← List.take_add, ← hgiven] at hnext
  obtain ⟨t, pending, given⟩ := walk
  simp only at hgiven hpending hnext
  have hdrop : items.drop (count + 1) = (items.drop count).drop 1 := List.drop_drop.symm
  rcases given with ⟨outputs, _ | fault⟩
  · obtain rfl := hpending rfl
    cases hrest : items.drop count with
    | nil =>
        refine ⟨_, w', rfl, ⟨rfl, ?_, fun _ => ?_⟩, h⟩
        · rw [hnext, hrest]
          simp [Yield.append, due]
        · rw [hdrop, hrest]
          rfl
    | cons item rest =>
        have hmem : item ∈ items := List.mem_of_mem_drop (i := count) (hrest ▸ List.mem_cons_self)
        have hitem : ∀ v ∈ [item], X v := fun v hv => hitems v (List.mem_singleton.1 hv ▸ hmem)
        obtain ⟨w₁, hrun, hworlds⟩ := run_pure_of_same (t := t) hsettled hitem (hpure.of_mem hmem) h
        refine ⟨_, w₁, run_bind_of_ok hrun, ⟨rfl, ?_, fun _ => ?_⟩, hworlds⟩
        · rw [hnext, hrest]
          rfl
        · rw [hdrop, hrest]
          rfl
  · refine ⟨_, w', rfl, ⟨rfl, ?_, fun hnone => by cases hnone⟩, h⟩
    rw [hnext]
    rfl

/-- How far some traversals are, each after turns of its own. -/
structure AreAt (e : Expression) (answer : Value → Except Fault Value)
    (starts : List (Traversal × List Value)) (counts : Nat → Nat) (walks : List Walk) : Prop where
  length : walks.length = starts.length
  isAt : ∀ n t items, starts[n]? = some (t, items) →
    ∃ walk : Walk, walks[n]? = some walk ∧ walk.IsAt e answer t items (counts n)

theorem areAt_start (e : Expression) (answer : Value → Except Fault Value)
    (starts : List (Traversal × List Value)) :
    AreAt e answer starts (fun _ => 0) (starts.map fun s => Walk.start s.1 s.2) where
  length := List.length_map _
  isAt n t items hn := by
    refine ⟨Walk.start t items, ?_, Walk.isAt_start e answer t items⟩
    rw [List.getElem?_map, hn]
    rfl

/-- What one traversal does in its turn leaves the others where they are. -/
theorem AreAt.set {starts : List (Traversal × List Value)} {counts : Nat → Nat} {walks : List Walk}
    {answer : Value → Except Fault Value} (h : AreAt e answer starts counts walks) {k : Nat}
    (hk : starts[k]? = some (t, items)) (hwalk : walk.IsAt e answer t items (counts k + 1)) :
    AreAt e answer starts (fun n => counts n + if k = n then 1 else 0) (walks.set k walk) where
  length := by rw [List.length_set, h.length]
  isAt n t' items' hn := by
    by_cases hkn : k = n
    · subst hkn
      rw [hk] at hn
      cases hn
      have hlt : k < walks.length := h.length ▸ (List.getElem?_eq_some_iff.1 hk).1
      refine ⟨walk, List.getElem?_set_self hlt, ?_⟩
      rw [if_pos rfl]
      exact hwalk
    · rw [List.getElem?_set_ne hkn, if_neg hkn]
      exact h.isAt n t' items' hn

/-- Turns that are taken in worlds that differ in the name alone. -/
theorem takeTurns_areAt {starts : List (Traversal × List Value)}
    (hsettled : Variable.IsSettled name X (w.own? e.scope name))
    (hitems : ∀ s ∈ starts, ∀ v ∈ s.2, X v) (hpure : ∀ s ∈ starts, e.IsPureOn i J name s.2 w)
    (turns : List Nat) {walks : List Walk} {counts : Nat → Nat}
    (h : SameBut i J e.scope name X w w')
    (hwalks : AreAt e (e.answer i name w) starts counts walks) :
    ∃ walks' w'', takeTurns i e name turns walks w' = (.ok walks', w'') ∧
      AreAt e (e.answer i name w) starts (fun n => counts n + turns.count n)
        walks' := by
  induction turns generalizing walks counts w' with
  | nil => exact ⟨walks, w', rfl, hwalks⟩
  | cons k turns ih =>
      have hcount : (fun n => counts n + (k :: turns).count n) =
          fun n => (counts n + if k = n then 1 else 0) + turns.count n := by
        funext n
        rw [List.count_cons, Nat.add_assoc, Nat.add_comm (turns.count n)]
        simp only [beq_iff_eq]
      rw [hcount, takeTurns]
      cases hk : walks[k]? with
      | none =>
          -- There is no traversal of this number.
          refine ih h ⟨hwalks.length, fun n t items hn => ?_⟩
          obtain ⟨walk, hwalk, hat⟩ := hwalks.isAt n t items hn
          have hkn : k ≠ n := fun hkn => by rw [← hkn, hk] at hwalk; cases hwalk
          rw [if_neg hkn]
          exact ⟨walk, hwalk, hat⟩
      | some walk =>
          have hlt : k < starts.length := hwalks.length ▸ (List.getElem?_eq_some_iff.1 hk).1
          rcases hs : starts[k] with ⟨t, items⟩
          have hstart : starts[k]? = some (t, items) := by rw [List.getElem?_eq_getElem hlt, hs]
          have hmem := List.mem_of_getElem? hstart
          obtain ⟨walk', hwalk, hat⟩ := hwalks.isAt k t items hstart
          obtain rfl : walk = walk' := Option.some.inj (hk.symm.trans hwalk)
          obtain ⟨walk₁, w₁, hadvance, hat₁, hworlds⟩ :=
            Walk.advance_isAt hsettled (hitems _ hmem) (hpure _ hmem) h hat
          simp only
          rw [run_bind_of_ok hadvance]
          exact ih hworlds (hwalks.set hstart hat₁)

/-- Traversals of items of one type that take turns give what each of them gives alone, of as many
items as it has had turns. -/
theorem takeTurns_alone (h : w.Seats i J e.scope) (name : String) {type : ValueType}
    {starts : List (Traversal × List Value)}
    (hitems : ∀ s ∈ starts, ∀ v ∈ s.2, v.IsOf type)
    (hpure : ∀ s ∈ starts, e.IsPureOn i J name s.2 w) (turns : List Nat) :
    ∃ walks w', takeTurns i e name turns (starts.map fun s => Walk.start s.1 s.2) w =
        (.ok walks, w') ∧
      ∀ n (t : Traversal) (items : List Value), starts[n]? = some (t, items) →
        ∃ walk : Walk, walks[n]? = some walk ∧
          (t.run pure i e name (items.take (turns.count n)) w).1 = .ok walk.given := by
  have hsettled := Variable.isSettled_isOf name type (w.own? e.scope name)
  have hsame : SameBut i J e.scope name (Value.IsOf type) w w := (World.SameFor.refl h).sameBut
  obtain ⟨walks, w', hrun, hat⟩ := takeTurns_areAt hsettled hitems hpure turns hsame
    (areAt_start e (e.answer i name w) starts)
  refine ⟨walks, w', hrun, fun n t items hn => ?_⟩
  obtain ⟨walk, hwalk, -, hgiven, -⟩ := hat.isAt n t items hn
  have hmem := List.mem_of_getElem? hn
  have htaken : ∀ v ∈ items.take (turns.count n), v ∈ items := fun v hv => List.mem_of_mem_take hv
  obtain ⟨_, halone, -⟩ := run_pure_of_same (t := t) hsettled
    (fun v hv => hitems _ hmem v (htaken v hv)) (fun v hv => hpure _ hmem v (htaken v hv)) hsame
  refine ⟨walk, hwalk, ?_⟩
  rw [halone, hgiven, Nat.zero_add]

/-- So do traversals that are run for each value that another one gives. -/
theorem run_nested (h : w.Seats i J e.scope) (name : String) (t : Traversal) {type : ValueType}
    {items : List Value} {inner : Value → Traversal × List Value}
    (hitems : ∀ v ∈ items, v.IsOf type) (hpure : e.IsPureOn i J name items w)
    (hinner : ∀ u, ∀ v ∈ (inner u).2, v.IsOf type)
    (hinnerPure : ∀ u, e.IsPureOn i J name (inner u).2 w) :
    ∃ (given : Yield Value) (within : Value → Yield Value),
      (t.run pure i e name items w).1 = .ok given ∧
      (∀ u, ((inner u).1.run pure i e name (inner u).2 w).1 = .ok (within u)) ∧
      (t.run (fun u => do return (u, ← (inner u).1.run pure i e name (inner u).2)) i e name items
        w).1 = .ok (given.map fun u => (u, within u)) := by
  have hsettled := Variable.isSettled_isOf name type (w.own? e.scope name)
  have hsame : SameBut i J e.scope name (Value.IsOf type) w w := (World.SameFor.refl h).sameBut
  have hwithin {w' : World} (u : Value) (hw' : SameBut i J e.scope name (Value.IsOf type) w w') :=
    run_pure_of_same (t := (inner u).1) hsettled (hinner u) (hinnerPure u) hw'
  refine ⟨t.due e (e.answer i name w) items,
    fun u => (inner u).1.due e (e.answer i name w) (inner u).2, ?_, fun u => ?_, ?_⟩
  · obtain ⟨_, hrun, -⟩ := run_pure_of_same (t := t) hsettled hitems hpure hsame
    rw [hrun]
  · obtain ⟨_, hrun, -⟩ := hwithin u hsame
    rw [hrun]
  · obtain ⟨_, hrun, -⟩ := run_of_same (t := t)
      (fun u => do return (u, ← (inner u).1.run pure i e name (inner u).2))
      (fun u => (u, (inner u).1.due e (e.answer i name w) (inner u).2))
      (fun u w' hw' => by
        obtain ⟨w'', hrun, hlast⟩ := hwithin u hw'
        exact ⟨w'', run_bind_of_ok hrun, hlast⟩)
      hsettled hitems hpure hsame
    rw [hrun]

end Turns

/-! ## Traversals of a formula -/

section Formulas

variable {i : Interpreter} {J : Heap → Prop} {e : Expression} {w : World}

/-- A traversal of a text is one of the expression that the text becomes. -/
theorem apply_text {α : Type} {text : String} {w₀ : World}
    (h : Expression.ofText i text w₀ = (.ok e, w)) (consume : Value → WorldAction α) (t : Traversal)
    (items : List Value) (name : String) :
    t.apply consume i (some items) name (.text text) w₀ =
      t.apply consume i (some items) name (.bound e) w := by
  have hfound := run_found (Expression.ofText i text) w₀
  rw [h] at hfound
  exact run_bind_of_ok hfound

/-- The expression `echo(n)` in a scope of its own. -/
def echoed : Expression := ⟨Interpreter.echoCall, 1, false, false⟩

/-- The world in which this expression was made. -/
def echoedWorld : World := World.single.addScope (some 0)

/-- Some truth values. -/
def flags : List Value := [.bool true, .bool false, .bool true]

end Formulas

end Traversal

end Formula
