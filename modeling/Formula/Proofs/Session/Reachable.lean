import Formula.Proofs.Session.Lasting

set_option autoImplicit false

/-! # Sessions that can come about

A session comes about by calls, each of which may fail, while the host does what it likes to its own
heap in between (`Session.Arises`). Whatever was called, the scopes are consistent and each
interpreter works for the host. An invariant of the world that lasts holds throughout, if it holds at
first and tables are registered accordingly (`Session.Arises.lasting`).

A host that registers tables for the types they were built for keeps an orderly session
(`Session.IsOrderly`): there every variable has the member table of its type.

Main statements: `Session.Arises.lasting` and `Session.IsOrderly.isMapped`. -/

namespace Formula

namespace Session

/-- The session with another heap. -/
def withHeap (s : Session) (heap : Heap) : Session :=
  { s with world := { s.world with store := { s.world.store with heap } } }

/-- What calls of some kind and the host bring about, starting with nothing. -/
inductive Arises (host : Universe) (Allowed : Session → Call → Prop) : Session → Prop
  | empty : Arises host Allowed .empty
  | call {s : Session} {c : Call} : Arises host Allowed s → c.IsPossible s → Allowed s c →
      Arises host Allowed (c.run host s).2
  | heap {s : Session} (heap : Heap) : Arises host Allowed s → Arises host Allowed (s.withHeap heap)

variable {host : Universe} {Allowed : Session → Call → Prop} {s : Session}

/-- Calls that are possible one after the other. -/
theorem Arises.after (h : Arises host Allowed s) {calls : List Call} (hcalls : s.Allows host calls)
    (hallowed : ∀ s, ∀ c ∈ calls, Allowed s c) : Arises host Allowed (s.after host calls) := by
  induction calls generalizing s with
  | nil => exact h
  | cons c rest ih =>
      obtain ⟨hpossible, hrest⟩ := hcalls
      have hfirst := h.call hpossible (hallowed s c List.mem_cons_self)
      exact ih hfirst hrest fun s c hc => hallowed s c (List.mem_cons_of_mem _ hc)

/-- The heap of the host is no matter of the scopes. -/
theorem IsConsistent.withHeap (hs : s.IsConsistent) (heap : Heap) :
    (s.withHeap heap).IsConsistent where
  world := hs.world.withStore ((Store.isStable_grows ⟨[], []⟩ _).heap heap (.refl _))
  globals := hs.globals

theorem Arises.isConsistent (h : Arises host Allowed s) : s.IsConsistent := by
  induction h with
  | empty => exact isConsistent_empty
  | call _ hpossible _ ih => exact (Call.follows_run host ih hpossible).consistent
  | heap heap _ ih => exact ih.withHeap heap

theorem Arises.worksFor (h : Arises host Allowed s) : s.WorksFor host := by
  induction h with
  | empty =>
      intro number i hi
      cases hi
  | call _ _ _ ih => exact Call.worksFor_run ih _
  | heap _ _ ih => exact ih

/-- An invariant that lasts holds in every session. -/
theorem Arises.lasting {I : World → Prop} (hI : World.IsLasting host I) (hempty : I .empty)
    (hregister : ∀ {s scope t table}, Call.IsPossible s (.register scope t table) →
      Allowed s (.register scope t table) → I s.world → I (s.world.register scope t table))
    (h : Arises host Allowed s) : I s.world := by
  induction h with
  | empty => exact hempty
  | @call s c hs hpossible hallowed ih =>
      refine Call.keeps_lasting hI hs.isConsistent hs.worksFor ih ?_
      rintro scope t table rfl
      exact hregister hpossible hallowed ih
  | @heap s heap _ ih => exact (hI.store s.world).heap heap ih

/-- A session that any calls bring about. -/
def IsReachable (host : Universe) : Session → Prop := Arises host fun _ _ => True

end Session

/-- The call registers no table for another type than the one it was built for. -/
def Call.RegistersOwn (s : Session) : Call → Prop
  | register _ t table => (s.world.store.table table).type = t
  | _ => True

namespace Session

variable {host : Universe} {s : Session}

/-- A session in which types were registered with their own tables. -/
def IsOrderly (host : Universe) : Session → Prop := Arises host Call.RegistersOwn

/-- In an orderly session variables and types have the tables of the types. -/
theorem IsOrderly.isMapped (h : s.IsOrderly host) : s.world.IsMapped host := by
  refine h.isConsistent.world.isMapped (Arises.lasting (World.isLasting_hasOwnTables host)
    (.empty host) ?_ h)
  intro s scope t table hpossible hown htables
  have htable := htables.built table hpossible.2
  rw [show (s.world.store.table table).type = t from hown] at htable
  exact htables.register htable scope

end Session

end Formula
