import Formula.Proofs.Function.Views

set_option autoImplicit false

/-! # The history of a function table

What is done with a table of functions, one thing after the other: functions are registered, as they
are defined or as host code from which the definition is derived, the table is cleared, a function is
asked for or called. A definition is the latest of its name if nothing after its registration cleared
the table or registered the name again. The table holds the latest definitions and no others, and so
do all its views.

Main statements: `FunctionTable.find?_after` and `FunctionTable.shows_after`. -/

namespace Formula

namespace FunctionTable

/-! ## Operations -/

/-- What can be done with a table of functions. -/
inductive Operation where
  | register (f : FunctionDefinition)
  /-- Host code is registered under a name; what is not given is derived. -/
  | registerCode (name : String) (implementation : Implementation) (arity : Option Nat)
      (description : String) (category : FunctionCategory) (examples : List String)
  | clear
  | get (name : String)
  | call (name : String) (arguments : List Value)

namespace Operation

/-- The definition that an operation registers. -/
def registered? : Operation → Option FunctionDefinition
  | register f => some f
  | registerCode name implementation arity description category examples =>
    some (.derive name implementation arity description category examples)
  | clear | get _ | call _ _ => none

/-- Whether an operation ends what stood under a name: it clears the table or registers the name. -/
def ends (op : Operation) (name : String) : Bool :=
  match op with
  | clear => true
  | op => op.registered?.any (·.name == name)

/-- What an operation makes of a table and the heap. A call may fail and may change the heap, but it
leaves the table alone. -/
def run (u : Universe) (s : FunctionTable × Heap) : Operation → FunctionTable × Heap
  | register f => (s.1.register f, s.2)
  | registerCode name implementation arity description category examples =>
    (s.1.register (.derive name implementation arity description category examples), s.2)
  | clear => (.empty, s.2)
  | get _ => s
  | call name arguments => (s.1, (s.1.call u name arguments s.2).2)

theorem isNamed_run (u : Universe) {s : FunctionTable × Heap} (h : s.1.IsNamed) (op : Operation) :
    (op.run u s).1.IsNamed := by
  cases op with
  | register f => exact h.register f
  | registerCode => exact h.register _
  | clear => exact isNamed_empty
  | get name => exact h
  | call name arguments => exact h

/-- After an operation there is under a name what it registered, or what was there unless it ended
that. -/
theorem find?_run (u : Universe) (s : FunctionTable × Heap) (op : Operation)
    (f : FunctionDefinition) :
    (op.run u s).1.find? f.name = some f ↔
      op.registered? = some f ∨ op.ends f.name = false ∧ s.1.find? f.name = some f := by
  have hregister (g : FunctionDefinition) :
      (s.1.register g).find? f.name = some f ↔
        some g = some f ∨ (g.name == f.name) = false ∧ s.1.find? f.name = some f := by
    rw [find?_register]
    by_cases hname : f.name = g.name
    · simp [hname]
    · have hne : g ≠ f := fun heq => hname (heq ▸ rfl)
      simp [hname, Ne.symm hname, hne]
  cases op with
  | register g => exact hregister g
  | registerCode => exact hregister _
  | clear => simp [run, registered?, ends]
  | get name => simp [run, registered?, ends]
  | call name arguments => simp [run, registered?, ends]

end Operation

/-! ## Histories -/

/-- A table and the heap after some operations. -/
def after (u : Universe) (s : FunctionTable × Heap) (history : List Operation) :
    FunctionTable × Heap :=
  history.foldl (Operation.run u) s

/-- A definition is the latest of its name: some operation registers it, and none after that one ends
it. -/
def IsLatest (history : List Operation) (f : FunctionDefinition) : Prop :=
  ∃ before op later, history = before ++ op :: later ∧ op.registered? = some f ∧
    ∀ op' ∈ later, op'.ends f.name = false

theorem not_isLatest_nil (f : FunctionDefinition) : ¬ IsLatest [] f := by
  rintro ⟨before, op, later, hhistory, _⟩
  simp at hhistory

/-- The last operation registers a definition, or leaves the latest one what it was. -/
theorem isLatest_append_singleton {history : List Operation} {op : Operation}
    {f : FunctionDefinition} :
    IsLatest (history ++ [op]) f ↔
      op.registered? = some f ∨ op.ends f.name = false ∧ IsLatest history f := by
  constructor
  · rintro ⟨before, op', later, hhistory, hregistered, hlater⟩
    rcases List.eq_nil_or_concat later with rfl | ⟨more, last, rfl⟩
    · obtain ⟨_, hop⟩ := List.append_inj' hhistory rfl
      cases hop
      exact .inl hregistered
    · have hsplit : history ++ [op] = (before ++ op' :: more) ++ [last] := by simpa using hhistory
      obtain ⟨rfl, hop⟩ := List.append_inj' hsplit rfl
      cases hop
      refine .inr ⟨hlater op (by simp), before, op', more, rfl, hregistered, ?_⟩
      exact fun op'' hop'' => hlater op'' (by simp [hop''])
  · rintro (hregistered | ⟨hends, before, op', later, rfl, hregistered, hlater⟩)
    · exact ⟨history, op, [], rfl, hregistered, by simp⟩
    · refine ⟨before, op', later ++ [op], by simp, hregistered, fun op'' hop'' => ?_⟩
      rcases List.mem_append.1 hop'' with hop'' | hop''
      · exact hlater op'' hop''
      · rw [List.mem_singleton.1 hop'']
        exact hends

variable (u : Universe) (heap : Heap) (history : List Operation)

theorem isNamed_after : (after u (.empty, heap) history).1.IsNamed :=
  List.foldlRecOn (motive := fun s : FunctionTable × Heap => s.1.IsNamed) _ _ isNamed_empty
    fun _ h op _ => Operation.isNamed_run u h op

/-- Under each name there is the latest definition of it, if there is one. -/
theorem find?_after (f : FunctionDefinition) :
    (after u (.empty, heap) history).1.find? f.name = some f ↔ IsLatest history f := by
  induction history using List.reverseRecOn with
  | nil => exact iff_of_false (fun h => by cases h) (not_isLatest_nil f)
  | append_singleton history op ih =>
      have hlast : after u (.empty, heap) (history ++ [op]) =
          op.run u (after u (.empty, heap) history) := by
        simp [after]
      rw [hlast, Operation.find?_run, isLatest_append_singleton, ih]

/-- A table of the standard functions is one in which they were registered one after the other. -/
theorem after_standard :
    after u (.empty, heap) (StandardFunction.all.map fun f => .register (.ofStandard f)) =
      (standard, heap) := rfl

/-! ## All views -/

/-- The functions that a table shows, in all its views, are those with a property. -/
structure Shows (u : Universe) (table : FunctionTable) (P : FunctionDefinition → Prop) : Prop where
  /-- The names are those of the functions, each once. -/
  names : table.keys.Nodup ∧ ∀ name, name ∈ table.keys ↔ ∃ f, P f ∧ f.name = name
  /-- A function is found under its name. -/
  get : ∀ name f, table.find? name = some f ↔ P f ∧ f.name = name
  /-- It is called by its name, which is unknown if there is none. -/
  call : ∀ name arguments, (∃ f, P f ∧ f.name = name ∧
      table.call u name arguments = f.call u arguments) ∨
    (∀ f, P f → f.name ≠ name) ∧ table.call u name arguments = throw (.unknownFunction name)
  /-- All functions, in any order, are listed once. -/
  all : table.values.Nodup ∧ ∀ f, f ∈ table.values ↔ P f
  /-- In the order of their names, the names increase strictly. -/
  sorted : table.sorted.Pairwise (fun f g => f.name < g.name) ∧ ∀ f, f ∈ table.sorted ↔ P f
  /-- Each category lists its functions, and the categories together list all functions. -/
  categories : (∀ c f, f ∈ table.ofCategory c ↔ P f ∧ f.category = c) ∧
    (FunctionCategory.all.flatMap table.ofCategory).Perm table.values
  /-- The catalogue has one entry under the name of each function, and no other names. -/
  entries : table.catalogue.functions.keys.Nodup ∧
    ∀ name entry, table.catalogue.functions.find? name = some entry ↔
      ∃ f, P f ∧ f.name = name ∧ f.entry = entry
  /-- By category it shows each function once, with the same entry under the label of its category,
  and nothing else. -/
  listed : table.catalogue.byCategory.keys.Nodup ∧
    (∀ f, P f → table.catalogue.listed.filter (·.2.name == f.name) =
      [(f.category.label, f.entry)]) ∧
    ∀ shown ∈ table.catalogue.listed, ∃ f, P f ∧ shown = (f.category.label, f.entry)

/-- The views of a table by name show what is found in it. -/
theorem IsNamed.shows (u : Universe) {table : FunctionTable} (h : table.IsNamed) :
    table.Shows u fun f => table.find? f.name = some f := by
  have hfound {name : String} {f : FunctionDefinition} :
      table.find? name = some f ↔ table.find? f.name = some f ∧ f.name = name := by
    constructor
    · intro hf
      obtain rfl := h.named hf
      exact ⟨hf, rfl⟩
    · rintro ⟨hf, rfl⟩
      exact hf
  refine
    { names := ⟨h.distinct, fun name => ?_⟩
      get := fun name f => hfound
      call := fun name arguments => ?_
      all := ⟨h.nodup_values, fun f => h.mem_values⟩
      sorted := ⟨h.pairwise_sorted, fun f => table.perm_sorted.mem_iff.trans h.mem_values⟩
      categories := ⟨fun c f => mem_ofCategory.trans (and_congr_left fun _ => h.mem_values),
        h.perm_flatMap_ofCategory FunctionCategory.nodup_all fun f _ => f.category.mem_all⟩
      entries := ⟨h.distinct_catalogue.1, fun name entry => ?_⟩
      listed := ⟨h.distinct_catalogue.2, fun f hf => h.filter_listed hf, fun shown hshown => ?_⟩ }
  · rw [Dictionary.mem_keys, Dictionary.contains, Option.isSome_iff_exists]
    exact exists_congr fun f => hfound
  · unfold FunctionTable.call
    cases hname : table.find? name with
    | some f => exact .inl ⟨f, (hfound.1 hname).1, (hfound.1 hname).2, rfl⟩
    | none =>
        refine .inr ⟨fun f hf heq => ?_, rfl⟩
        rw [heq, hname] at hf
        cases hf
  · rw [find?_functions_catalogue, Option.map_eq_some_iff]
    exact exists_congr fun f => (and_congr_left fun _ => hfound).trans and_assoc
  · obtain ⟨f, hf, rfl⟩ := List.mem_map.1 (h.perm_listed.mem_iff.1 hshown)
    exact ⟨f, h.mem_values.1 hf, rfl⟩

/-- After any history a table shows the latest definitions, and nothing else. -/
theorem shows_after (u : Universe) (heap : Heap) (history : List Operation) :
    (after u (.empty, heap) history).1.Shows u (IsLatest history) := by
  have hlatest : (fun f => (after u (.empty, heap) history).1.find? f.name = some f) =
      IsLatest history :=
    funext fun f => propext (find?_after u heap history f)
  rw [← hlatest]
  exact (isNamed_after u heap history).shows u

/-- A function that is registered anew under another category has moved there. -/
example :
    let history : List Operation :=
      [.registerCode "f" (.extreme true) none "" .math [], .register (.ofStandard .coalesce),
        .call "f" [], .registerCode "f" (.extreme false) (some 2) "" .logic []]
    let shown := (after ⟨[], []⟩ (.empty, .empty) history).1.catalogue.listed
    shown.map (fun e => (e.1, e.2.name, e.2.arity)) =
      [("logic", "f", some 2), ("logic", "coalesce", none)] := rfl

end FunctionTable

end Formula
