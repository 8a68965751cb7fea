import Formula.Proofs.Session.Query

set_option autoImplicit false

/-! # Sessions

Interpreters are made and given functions, scopes are made below others, variables are declared and
given values, member tables are registered, and interpreters are asked. A session is what all these
calls work on: the interpreters with their functions, and the world that they share. A call may fail,
and keeps what it did before failing.

Main statement: `Session.spares_ask`. -/

namespace Formula

/-- The interpreters by number, and the world that they share. -/
structure Session where
  interpreters : List Interpreter
  world : World

/-- Nothing was made yet. -/
def Session.empty : Session := ⟨[], .empty⟩

/-- An action on a session. It may fail, and keeps what it did before failing. -/
abbrev SessionAction (α : Type) := ExceptT Fault (StateM Session) α

namespace SessionAction

/-- An action on the world of a session. -/
def ofWorld {α : Type} (a : WorldAction α) : SessionAction α := fun s =>
  let (result, world) := a s.world
  (result, { s with world })

/-- An action of the interpreter with the given number. -/
def ofInterpreter (number : Nat) (a : Interpreter → WorldAction Unit) : SessionAction Unit := do
  match (← get).interpreters[number]? with
  | some i => ofWorld (a i)
  | none => return

theorem run_ofInterpreter_of_some {s : Session} {number : Nat} {i : Interpreter}
    (h : s.interpreters[number]? = some i) (a : Interpreter → WorldAction Unit) :
    ofInterpreter number a s = ofWorld (a i) s := by
  have hget : (get : SessionAction Session) s = (.ok s, s) := rfl
  unfold ofInterpreter
  rw [run_bind_of_ok hget, h]

theorem run_ofInterpreter_of_none {s : Session} {number : Nat}
    (h : s.interpreters[number]? = none) (a : Interpreter → WorldAction Unit) :
    ofInterpreter number a s = (.ok (), s) := by
  have hget : (get : SessionAction Session) s = (.ok s, s) := rfl
  unfold ofInterpreter
  rw [run_bind_of_ok hget, h]
  rfl

/-- Whatever an interpreter does, there are no others after it. -/
theorem interpreters_ofInterpreter (number : Nat) (a : Interpreter → WorldAction Unit)
    (s : Session) : (ofInterpreter number a s).2.interpreters = s.interpreters := by
  cases hi : s.interpreters[number]? with
  | none => rw [run_ofInterpreter_of_none hi]
  | some i =>
      rw [run_ofInterpreter_of_some hi]
      rfl

/-- What each interpreter keeps of the world is kept, also if there is none with the number. -/
theorem world_ofInterpreter {I : World → Prop} {s : Session} {number : Nat}
    {a : Interpreter → WorldAction Unit} (hs : I s.world)
    (h : ∀ i, s.interpreters[number]? = some i → I (a i s.world).2) :
    I (ofInterpreter number a s).2.world := by
  cases hi : s.interpreters[number]? with
  | none =>
      rw [run_ofInterpreter_of_none hi]
      exact hs
  | some i =>
      rw [run_ofInterpreter_of_some hi]
      exact h i hi

end SessionAction

/-- What is done in a session. Interpreters, scopes and member tables are known by number. -/
inductive Call where
  | makeInterpreter (config : Configuration)
  | registerFunction (interpreter : Nat) (f : FunctionDefinition)
  /-- A text is read into an expression with a scope of its own. -/
  | makeExpression (interpreter : Nat) (text : String)
  | makeScope (parent : Nat)
  | buildTable (t : ValueType)
  /-- A member table is registered for a type, which need not be the one it was built for. -/
  | register (scope : Nat) (t : ValueType) (table : Nat)
  | offerTable (scope : Nat) (t : ValueType)
  | tableFor (scope : Nat) (t : ValueType)
  | declare (scope : Nat) (name : String) (t : ValueType)
  | declareAll (scope : Nat) (types : Dictionary String ValueType)
  | assign (scope : Nat) (name : String) (v : Value)
  | assignAll (scope : Nat) (values : Dictionary String Value)
  /-- The variable that a name means is given a value, whichever scope binds it. -/
  | assignNearest (scope : Nat) (name : String) (v : Value)
  | ask (interpreter : Nat) (q : Query)

namespace Call

open SessionAction

/-- Makes a call. What it gives is left out. -/
def run (host : Universe) : Call → SessionAction Unit
  | makeInterpreter config => do
    let i ← ofWorld (Interpreter.make host config)
    modify fun s => { s with interpreters := s.interpreters ++ [i] }
  | registerFunction number f =>
    modify fun s => { s with interpreters := s.interpreters.modify number (·.register f) }
  | makeExpression number text => ofInterpreter number fun i => do
    let _ ← Expression.ofText i text
  | makeScope parent => ofWorld do
    let _ ← WorldAction.newScope (some parent)
  | buildTable t => ofWorld (modify fun w => w.buildTable host t)
  | register scope t table => ofWorld (modify fun w => w.register scope t table)
  | offerTable scope t => ofWorld do
    let _ ← WorldAction.offerTable host scope t
  | tableFor scope t => ofWorld do
    let _ ← WorldAction.tableFor host scope t
  | declare scope name t => ofWorld (WorldAction.declare host scope name t)
  | declareAll scope types => ofWorld (WorldAction.declareAll host scope types.entries)
  | assign scope name v => ofWorld (WorldAction.assign host scope name v)
  | assignAll scope values => ofWorld (WorldAction.assignAll host scope values.entries)
  | assignNearest scope name v => ofWorld (WorldAction.assignNearest host scope name v)
  | ask number q => ofInterpreter number q.run

/-- After a call an interpreter has the host and the globals that it had before, or it is a new one
with a scope of its own. -/
theorem of_getElem?_interpreters {host : Universe} {s : Session} {c : Call} {number : Nat}
    {i : Interpreter} (hi : (c.run host s).2.interpreters[number]? = some i) :
    (∃ old, s.interpreters[number]? = some old ∧ i.host = old.host ∧ i.globals = old.globals) ∨
      i.host = host ∧ i.globals = s.world.scopes.length ∧
        (c.run host s).2.world = s.world.addScope none := by
  have hsame (h : s.interpreters[number]? = some i) :
      ∃ old, s.interpreters[number]? = some old ∧ i.host = old.host ∧ i.globals = old.globals :=
    ⟨i, h, rfl, rfl⟩
  cases c with
  | makeInterpreter config =>
      obtain ⟨made, hhost, hglobals, hrun⟩ : ∃ made : Interpreter, made.host = host ∧
          made.globals = s.world.scopes.length ∧ ((makeInterpreter config).run host s).2 =
            ⟨s.interpreters ++ [made], s.world.addScope none⟩ := ⟨_, rfl, rfl, rfl⟩
      rw [hrun, List.getElem?_append] at hi
      split at hi
      · exact .inl (hsame hi)
      · obtain rfl := List.mem_singleton.1 (List.mem_of_getElem? hi)
        exact .inr ⟨hhost, hglobals, congrArg Session.world hrun⟩
  | registerFunction n f =>
      have hmodified : (s.interpreters.modify n (·.register f))[number]? = some i := hi
      rw [List.getElem?_modify] at hmodified
      obtain ⟨old, hold, rfl⟩ := Option.map_eq_some_iff.1 hmodified
      refine .inl ⟨old, hold, ?_⟩
      split
      · exact ⟨rfl, rfl⟩
      · exact ⟨rfl, rfl⟩
  | makeExpression n text =>
      rw [run, interpreters_ofInterpreter] at hi
      exact .inl (hsame hi)
  | ask n q =>
      rw [run, interpreters_ofInterpreter] at hi
      exact .inl (hsame hi)
  | _ => exact .inl (hsame hi)

end Call

namespace Session

/-- Asking is read-only. Whether an interpreter answers, collects faults or fails, no interpreter has
other functions than before, and the scopes there were have the same names with the same types and
values. Only the root of its globals may have more tables, and more may be kept in tables. -/
theorem spares_ask {s : Session} {number : Nat} {i : Interpreter}
    (h : s.interpreters[number]? = some i) (host : Universe) (q : Query) :
    ((Call.ask number q).run host s).2.interpreters = s.interpreters ∧
      s.world.Spares (s.world.root i.globals) ((Call.ask number q).run host s).2.world := by
  rw [Call.run, SessionAction.run_ofInterpreter_of_some h]
  exact ⟨rfl, q.spares_run i s.world⟩

/-- An interpreter that is asked about a text in which a variable is declared. -/
theorem spares_ask_echoing :
    let s : Session := ⟨[.echoing], .single⟩
    let asked := ((Call.ask 0 (.validate "echo(n)" ⟨[("n", .int)]⟩)).run Interpreter.echoing.host s).2
    s.interpreters[0]? = some .echoing ∧ asked.interpreters = s.interpreters ∧
      s.world.Spares 0 asked.world := by
  intro s asked
  have hroot : s.world.root Interpreter.echoing.globals = 0 := Nat.le_zero.1 (World.root_le _ 0)
  have hmade : s.interpreters[0]? = some .echoing := rfl
  obtain ⟨hinterpreters, hworld⟩ := spares_ask hmade Interpreter.echoing.host
    (.validate "echo(n)" ⟨[("n", .int)]⟩)
  exact ⟨hmade, hinterpreters, hroot ▸ hworld⟩

end Session

end Formula
