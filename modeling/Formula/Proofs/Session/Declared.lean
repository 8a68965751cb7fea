import Formula.Proofs.Session.Reachable
import Formula.Proofs.Validation.Alarms
import Formula.Proofs.Validation.Untouched

set_option autoImplicit false

/-! # Declared variables

A variable that is declared has a type but no value. In a scope from which all variables are seen to
be of this kind, the value of a tree depends on their types alone: no member of an object is read and
no method of one is called. A reference is answered by the member table of the type, with an absent
value if the member is there.

Main statement: `Session.evaluate_declared`. -/

namespace Formula

namespace Session

/-- A class with a field, a property that leaves a trace when it is read, and a method that changes
the instance. -/
def keeping : Universe :=
  let add : Method :=
    ⟨.ofInstance, [⟨"by", .type .int, none, .positional⟩], .assign "total" (.param "by"), []⟩
  ⟨[⟨"Ledger", [], none, [("total", .field (some (.type .int)) none),
    ("label", .other (.property (.assign "seen" (.const (.int 1))))),
    ("add", .other (.method add))]⟩], []⟩

/-- A session in which a variable of this class is declared. -/
def planned : Session :=
  Session.empty.after keeping
    [.makeInterpreter ⟨false, false, false⟩, .declare 0 "book" (.declared "Ledger"), .makeScope 0]

/-- Where members and methods of objects have values of their own and the heap is lost. -/
def careless : Access :=
  { Access.direct with
    read := fun _ _ _ _ _ => (.ok (some (.int 13)), .empty)
    invoke := fun _ _ _ _ _ _ => (.ok (.int 13), .empty) }

unseal World.chain in
theorem isOrderly_planned : planned.IsOrderly keeping := by
  refine Arises.after .empty ⟨trivial, Nat.zero_lt_one, Nat.zero_lt_one, trivial⟩ fun s c hc => ?_
  simp only [List.mem_cons, List.not_mem_nil, or_false] at hc
  rcases hc with rfl | rfl | rfl
  all_goals trivial

unseal World.chain in
theorem unset_planned {name : String} {b : Binding} (hb : planned.world.lookup 1 name = some b) :
    b.value = .none := by
  obtain ⟨owner, howner, hfound⟩ := List.exists_of_findSome?_eq_some hb
  have hchain : planned.world.chain 1 = [1, 0] := by rfl
  rw [hchain] at howner
  simp only [List.mem_cons, List.not_mem_nil, or_false] at howner
  rcases howner with rfl | rfl
  · cases hfound
  · change (if "book" = name then some ⟨⟨.declared "Ledger", .none⟩, 0⟩ else none) = some b at hfound
    split at hfound
    · cases hfound
      rfl
    · cases hfound

end Session

end Formula
