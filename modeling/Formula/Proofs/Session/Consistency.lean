import Formula.Proofs.Scope.Consistent
import Formula.Proofs.Session.Call

set_option autoImplicit false

/-! # Sessions stay consistent

Every call leads from a consistent session to a consistent one, whether it fails or not, and the
world evolves as it should (`Call.follows_run`). So do all calls one after the other. What a call is
given must have been made: a scope, or a member table of the store.

Main statement: `Session.consistent_after`. -/

namespace Formula

open World (LeadsTo)

variable {host : Universe} {s s' : Session}

/-- The world is consistent, and the scopes of the interpreters were made. -/
structure Session.IsConsistent (s : Session) : Prop where
  world : s.world.IsConsistent
  globals : ∀ {number : Nat} {i : Interpreter}, s.interpreters[number]? = some i →
    i.globals < s.world.scopes.length

namespace Call

/-- The scope and the member table that a call is given were made before. -/
def IsPossible (s : Session) : Call → Prop
  | register scope _ table =>
    scope < s.world.scopes.length ∧ table < s.world.store.tables.length
  | makeScope scope | offerTable scope _ | tableFor scope _ | declare scope _ _
  | declareAll scope _ | assign scope _ _ | assignAll scope _ | assignNearest scope _ _ =>
    scope < s.world.scopes.length
  | makeInterpreter _ | registerFunction _ _ | makeExpression _ _ | buildTable _ | ask _ _ => True

/-- The call declares a name of a scope to have a type. -/
def Declares (k : Nat) (name : String) (t : ValueType) : Call → Prop
  | declare scope n t' => scope = k ∧ n = name ∧ t' = t
  | declareAll scope types => scope = k ∧ (name, t) ∈ types.entries
  | _ => False

end Call

/-! ## Queries -/

namespace World

variable {w : World} {D : Nat → String → ValueType → Prop}

theorem isStable_isConsistent : IsStable IsConsistent where
  store hgrows h := h.withStore hgrows
  scope hparent h := h.addScope fun hk => by cases hk; exact hparent

theorem isStable_leadsTo (D : Nat → String → ValueType → Prop) (w : World) :
    IsStable (LeadsTo D w) where
  store hgrows h := h.withStore hgrows
  scope hparent h := h.addScope fun hk => by cases hk; exact hparent

/-- Variables that are declared in a new scope below the globals. -/
theorem IsConsistent.declaring (h : w.IsConsistent) {i : Interpreter}
    (hglobals : i.globals < w.scopes.length) (types : Dictionary String ValueType) :
    (i.declaring types w).IsConsistent := by
  have hnew : (w.addScope (some i.globals)).IsConsistent :=
    isStable_isConsistent.scope hglobals h
  have hkeeps : Keeps (LeadsTo (fun _ _ _ => True) (w.addScope (some i.globals))) (fun _ => True)
      (WorldAction.declareAll i.host w.scopes.length types.entries) :=
    WorldAction.keeps_consistent_declareAll (w.lt_length_addScope _) fun _ _ => trivial
  exact (hkeeps _ (.refl hnew)).1.consistent

/-- A query declares nothing in the scopes there were. -/
theorem IsConsistent.query (h : w.IsConsistent) {i : Interpreter}
    (hglobals : i.globals < w.scopes.length) (q : Query) : LeadsTo D w (q.run i w).2 := by
  refine ⟨.of_spares (q.spares_run i w), ?_⟩
  refine Query.of_isStable isStable_isConsistent h (fun types store hgrows => ?_) q
  exact (h.withStore hgrows).declaring hglobals types

end World

/-! ## Calls -/

/-- A consistent session whose world is later than that of another one. -/
structure Session.Follows (D : Nat → String → ValueType → Prop) (s s' : Session) : Prop where
  consistent : s'.IsConsistent
  world : s.world.Evolves D s'.world

theorem Session.isConsistent_empty : Session.empty.IsConsistent where
  world := .empty
  globals h := by cases h

namespace Call

variable {D : Nat → String → ValueType → Prop}

/-- An expression has a scope of its own below the globals. -/
theorem leadsTo_ofText (hs : s.IsConsistent) {i : Interpreter}
    (hglobals : i.globals < s.world.scopes.length) (text : String) :
    LeadsTo D s.world (Expression.ofText i text s.world).2 := by
  have houtlasts := (World.isStable_leadsTo D s.world).outlasts i.host
  exact (Expression.keeps_ofText_of_outlasts houtlasts text s.world ⟨.refl hs.world, hglobals⟩).1.1

/-- A call keeps the world consistent, and declares nothing but what it says. -/
theorem leadsTo_run (host : Universe) (hs : s.IsConsistent) {c : Call} (hc : c.IsPossible s) :
    LeadsTo c.Declares s.world (c.run host s).2.world := by
  have hrefl {D : Nat → String → ValueType → Prop} : LeadsTo D s.world s.world := .refl hs.world
  cases c with
  | makeInterpreter config => exact hrefl.addScope fun h => by cases h
  | registerFunction number f => exact hrefl
  | makeExpression number text =>
      refine SessionAction.world_ofInterpreter hrefl fun i hi => ?_
      rw [run_bind_pure]
      exact leadsTo_ofText hs (hs.globals hi) text
  | makeScope parent => exact hrefl.addScope fun h => by cases h; exact hc
  | buildTable t => exact hrefl.withStore (World.grows_buildTable host s.world t)
  | register scope t table =>
      exact ⟨hrefl.toEvolves.register scope t table, hs.world.register hc.2 scope t⟩
  | offerTable scope t => exact hrefl.registerBuilt host scope t
  | tableFor scope t =>
      obtain ⟨table, w, hrun, hleads, _⟩ := WorldAction.leadsTo_tableFor (u := host) hrefl hc t
      show LeadsTo _ s.world ((WorldAction.tableFor host scope t >>= fun _ => pure ()) s.world).2
      rw [run_bind_pure, hrun]
      exact hleads
  | declare scope name t =>
      have hkeeps : Keeps (LeadsTo (declare scope name t).Declares s.world) (fun _ => True)
          (WorldAction.declare host scope name t) :=
        WorldAction.keeps_consistent_declare hc ⟨rfl, rfl, rfl⟩
      exact (hkeeps s.world hrefl).1
  | declareAll scope types =>
      have hkeeps : Keeps (LeadsTo (declareAll scope types).Declares s.world) (fun _ => True)
          (WorldAction.declareAll host scope types.entries) :=
        WorldAction.keeps_consistent_declareAll hc fun _ he => ⟨rfl, he⟩
      exact (hkeeps s.world hrefl).1
  | assign scope name v =>
      exact (WorldAction.keeps_consistent_assign name v s.world ⟨hrefl, hc⟩).1.1
  | assignAll scope values =>
      exact (WorldAction.keeps_consistent_assignAll values.entries s.world ⟨hrefl, hc⟩).1.1
  | assignNearest scope name v =>
      exact (WorldAction.keeps_consistent_assignNearest name v s.world hrefl).1
  | ask number q =>
      exact SessionAction.world_ofInterpreter hrefl fun i hi => hs.world.query (hs.globals hi) q

/-- A call keeps a session consistent: the globals of a new interpreter have a scope of their own. -/
theorem follows_run (host : Universe) (hs : s.IsConsistent) {c : Call} (hc : c.IsPossible s) :
    s.Follows c.Declares (c.run host s).2 := by
  have hworld := leadsTo_run host hs hc
  refine ⟨⟨hworld.consistent, fun {number i} hi => ?_⟩, hworld.toEvolves⟩
  rcases of_getElem?_interpreters hi with ⟨old, hold, _, hglobals⟩ | ⟨_, hglobals, hmade⟩
  · rw [hglobals]
    exact Nat.lt_of_lt_of_le (hs.globals hold) hworld.count
  · rw [hglobals, hmade]
    exact s.world.lt_length_addScope none

/-- What was made stays, so a call that is possible stays possible. -/
theorem IsPossible.mono {c : Call} (h : c.IsPossible s) (hworld : s.world.Evolves D s'.world) :
    c.IsPossible s' := by
  have hcount := hworld.count
  have htables := hworld.store.count
  cases c with
  | register scope t table => exact ⟨Nat.lt_of_lt_of_le h.1 hcount, Nat.lt_of_lt_of_le h.2 htables⟩
  | makeInterpreter config => trivial
  | registerFunction number f => trivial
  | makeExpression number text => trivial
  | buildTable t => trivial
  | ask number q => trivial
  | _ => exact Nat.lt_of_lt_of_le h hcount

end Call

/-! ## Runs -/

namespace Session

/-- The session after some calls. -/
def after (host : Universe) (s : Session) (calls : List Call) : Session :=
  calls.foldl (fun s c => (c.run host s).2) s

/-- Each of the calls is possible when it is made. -/
def Allows (host : Universe) : Session → List Call → Prop
  | _, [] => True
  | s, c :: rest => c.IsPossible s ∧ Allows host (c.run host s).2 rest

theorem allows_append {calls more : List Call} :
    s.Allows host (calls ++ more) ↔ s.Allows host calls ∧ (s.after host calls).Allows host more := by
  induction calls generalizing s with
  | nil => exact (iff_of_eq (true_and _)).symm
  | cons c rest ih => exact (and_congr_right fun _ => ih).trans and_assoc.symm

/-- Calls that are possible one after the other keep a session consistent, and declare nothing but
what they say. -/
theorem follows_after (hs : s.IsConsistent) {calls : List Call} (h : s.Allows host calls) :
    s.Follows (fun k name t => ∃ c ∈ calls, c.Declares k name t) (s.after host calls) := by
  induction calls generalizing s with
  | nil => exact ⟨hs, .refl _ _⟩
  | cons c rest ih =>
      obtain ⟨hc, hrest⟩ := h
      have hfirst := Call.follows_run host hs hc
      have hmore := ih hfirst.consistent hrest
      refine ⟨hmore.consistent, ?_⟩
      refine (hfirst.world.mono fun k name t hd => ?_).trans (hmore.world.mono fun k name t hd => ?_)
      · exact ⟨c, List.mem_cons_self, hd⟩
      · obtain ⟨c', hc', hd⟩ := hd
        exact ⟨c', List.mem_cons_of_mem _ hc', hd⟩

/-- Calls that are all possible at first are possible one after the other. -/
theorem allows_of_isPossible (hs : s.IsConsistent) {calls : List Call}
    (h : ∀ c ∈ calls, c.IsPossible s) : s.Allows host calls := by
  induction calls generalizing s with
  | nil => trivial
  | cons c rest ih =>
      have hc := h c List.mem_cons_self
      have hfirst := Call.follows_run host hs hc
      refine ⟨hc, ih hfirst.consistent fun c' hc' => ?_⟩
      exact (h c' (List.mem_cons_of_mem _ hc')).mono hfirst.world

/-- In every session that calls lead to, whether they failed or not, each variable of each scope holds
nothing or a value of exactly its declared type, its member table is the one registered for this type
at the root of the chain, and only roots have tables. Whatever is called after that, a registered
table is not replaced, and the declared type of a variable is as it was, or as some of these calls
declared it for this name of this scope. -/
theorem consistent_after {calls more : List Call} (h : Session.empty.Allows host (calls ++ more)) :
    let s := Session.empty.after host calls
    s.world.IsConsistent ∧
      s.world.Evolves (fun k name t => ∃ c ∈ more, c.Declares k name t)
        (s.after host more).world := by
  intro s
  obtain ⟨hcalls, hmore⟩ := allows_append.1 h
  have hs := (follows_after isConsistent_empty hcalls).consistent
  exact ⟨hs.world, (follows_after hs hmore).world⟩

/-- A variable that is given a value, refuses another one, and is declared anew. -/
theorem consistent_after_redeclaring :
    let host : Universe := ⟨[], []⟩
    let calls : List Call := [.makeInterpreter ⟨false, false, false⟩, .makeScope 0]
    let more : List Call := [.assign 1 "n" (.int 5), .assign 1 "n" (.str "x"),
      .ask 0 (.validate "n + 1" ⟨[("n", .str)]⟩), .declare 1 "n" .str, .assign 1 "n" (.str "x")]
    let s := Session.empty.after host calls
    Session.empty.Allows host (calls ++ more) ∧ s.world.IsConsistent ∧
      s.world.Evolves (fun k name t => ∃ c ∈ more, c.Declares k name t)
        (s.after host more).world := by
  intro host calls more s
  have hcalls : Session.empty.Allows host calls := ⟨trivial, Nat.zero_lt_one, trivial⟩
  have hs := (follows_after isConsistent_empty hcalls).consistent
  have hmore : s.Allows host more := by
    refine allows_of_isPossible hs fun c hc => ?_
    have hscope : 1 < s.world.scopes.length := Nat.lt_succ_self 1
    simp only [more, List.mem_cons, List.not_mem_nil, or_false] at hc
    rcases hc with rfl | rfl | rfl | rfl | rfl
    · exact hscope
    · exact hscope
    · trivial
    · exact hscope
    · exact hscope
  have hall := allows_append.2 ⟨hcalls, hmore⟩
  exact ⟨hall, consistent_after hall⟩

end Session

end Formula
