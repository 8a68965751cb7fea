import Formula.Proofs.Member.History
import Formula.Proofs.Member.Nearest

set_option autoImplicit false

/-! # Calls that fit

Whether arguments fit a method is decided twice: by its signature when the method is chosen, which
counts the parameters and compares types, and by its parameters when it runs, which take the
arguments one after the other. For parameters as they can be declared both come to the same counts
(`Parameter.FitCount`), so a method that was chosen never fails for want of an argument, and one
that was not would have failed or been given an argument of the wrong type.

A method is chosen under a public name only, and only where no class before its own declares a field
of the name.

Main statements: `exists_bindParameters_iff`, `Signature.exists_accepts_ofParameters_iff` and
`MemberTable.resolve_isSome_iff`. -/

namespace Formula

/-! ## Parameters that can be declared -/

namespace ParameterKind

theorem cases_takesPosition (kind : ParameterKind) :
    kind.takesPosition = true ∨ kind = .rest ∨ kind = .keywordOnly := by
  cases kind <;> simp [takesPosition]

theorem beq_of_takesPosition {kind : ParameterKind} (h : kind.takesPosition = true) :
    (kind == .rest) = false ∧ (kind == .keywordOnly) = false := by
  cases kind <;> simp [takesPosition] at h ⊢

end ParameterKind

namespace Parameter

/-- Whether one parameter may stand somewhere before another: behind the one that takes the rest
there are no positions, and behind a position with a default there is none without. -/
def MayPrecede (p q : Parameter) : Prop :=
  q.kind.takesPosition = true →
    p.kind ≠ .rest ∧ (p.kind.takesPosition = true → p.default.isSome = true → q.default.isSome = true)

instance (p q : Parameter) : Decidable (MayPrecede p q) :=
  inferInstanceAs (Decidable (_ → _))

/-- What the language asks, at least, of parameters that are declared together. -/
def AreDeclarable (parameters : List Parameter) : Prop := parameters.Pairwise MayPrecede

instance (parameters : List Parameter) : Decidable (AreDeclarable parameters) :=
  inferInstanceAs (Decidable (parameters.Pairwise MayPrecede))

/-- The parameters to which arguments can be given by position. -/
def positional (parameters : List Parameter) : List Parameter :=
  parameters.filter (·.kind.takesPosition)

/-- The parameters that take a position and have no default. -/
def demanding (parameters : List Parameter) : List Parameter :=
  (positional parameters).filter (·.default.isNone)

/-- Whether so many arguments fit parameters, none being given by name. -/
structure FitCount (parameters : List Parameter) (n : Nat) : Prop where
  demanded : (demanding parameters).length ≤ n
  taken : n ≤ (positional parameters).length ∨ parameters.any (·.kind == .rest) = true
  unnamed : parameters.any (fun p => p.kind == .keywordOnly && p.default.isNone) = false

variable {p : Parameter} {ps : List Parameter} {n : Nat}

/-- No parameter behind the one that takes the rest takes a position. -/
theorem positional_eq_nil (h : ∀ q ∈ ps, MayPrecede p q) (hkind : p.kind = .rest) :
    positional ps = [] := by
  refine List.filter_eq_nil_iff.2 fun q hq hposition => ?_
  exact (h q hq hposition).1 hkind

/-- No parameter behind a position with a default demands an argument. -/
theorem demanding_eq_nil (h : ∀ q ∈ ps, MayPrecede p q) (hkind : p.kind.takesPosition = true)
    (hdefault : p.default.isSome = true) : demanding ps = [] := by
  refine List.filter_eq_nil_iff.2 fun q hq hnone => ?_
  obtain ⟨hmem, hposition⟩ := List.mem_filter.1 hq
  have hsome := (h q hmem hposition).2 hkind hdefault
  simp [Option.isNone_iff_eq_none.1 hnone] at hsome

/-! ## Counting -/

theorem fitCount_nil : FitCount [] n ↔ n = 0 := by
  constructor
  · intro h
    exact Nat.le_zero.1 (h.taken.resolve_right (by simp))
  · rintro rfl
    exact ⟨by simp [demanding, positional], by simp, by simp⟩

/-- What takes the rest takes all of it. -/
theorem fitCount_rest (h : ∀ q ∈ ps, MayPrecede p q) (hkind : p.kind = .rest) :
    FitCount (p :: ps) n ↔ FitCount ps 0 := by
  have hnil := positional_eq_nil h hkind
  have hpositional : positional (p :: ps) = [] := by
    rw [← hnil]
    simp [positional, hkind, ParameterKind.takesPosition]
  constructor
  · intro hfit
    exact ⟨by simp [demanding, hnil], by simp, by simpa [hkind] using hfit.unnamed⟩
  · intro hfit
    exact ⟨by simp [demanding, hpositional], by simp [hkind], by simpa [hkind] using hfit.unnamed⟩

/-- What is given by name only must have a default. -/
theorem fitCount_keywordOnly (hkind : p.kind = .keywordOnly) :
    FitCount (p :: ps) n ↔ p.default.isSome = true ∧ FitCount ps n := by
  have hpositional : positional (p :: ps) = positional ps := by
    simp [positional, hkind, ParameterKind.takesPosition]
  have hdemanding : demanding (p :: ps) = demanding ps := by simp only [demanding, hpositional]
  constructor
  · rintro ⟨hdemanded, htaken, hunnamed⟩
    rw [hdemanding] at hdemanded
    rw [hpositional] at htaken
    obtain ⟨hdefault, hunnamed⟩ : p.default.isSome = true ∧ _ := by simpa [hkind] using hunnamed
    exact ⟨hdefault, hdemanded, by simpa [hkind] using htaken, by simpa using hunnamed⟩
  · rintro ⟨hdefault, hdemanded, htaken, hunnamed⟩
    rw [← hdemanding] at hdemanded
    rw [← hpositional] at htaken
    exact ⟨hdemanded, by simpa [hkind] using htaken, by simpa [hkind, hdefault] using hunnamed⟩

/-- A position that is left over must have a default. -/
theorem fitCount_position_zero (hkind : p.kind.takesPosition = true) :
    FitCount (p :: ps) 0 ↔ p.default.isSome = true ∧ FitCount ps 0 := by
  obtain ⟨-, hkeyword⟩ := p.kind.beq_of_takesPosition hkind
  constructor
  · rintro ⟨hdemanded, -, hunnamed⟩
    have hdefault : p.default.isSome = true := by
      cases hnone : p.default with
      | some v => rfl
      | none => simp [demanding, positional, hkind, hnone] at hdemanded
    refine ⟨hdefault, ?_, by simp, by simpa [hkeyword] using hunnamed⟩
    simpa [demanding, positional, hkind, Option.isNone_eq_false_iff.2 hdefault] using hdemanded
  · rintro ⟨hdefault, hdemanded, -, hunnamed⟩
    refine ⟨?_, by simp, by simpa [hkeyword] using hunnamed⟩
    simpa [demanding, positional, hkind, Option.isNone_eq_false_iff.2 hdefault] using hdemanded

/-- A position takes an argument, whether it has a default or not. -/
theorem fitCount_position_succ (h : ∀ q ∈ ps, MayPrecede p q)
    (hkind : p.kind.takesPosition = true) : FitCount (p :: ps) (n + 1) ↔ FitCount ps n := by
  obtain ⟨hrest, hkeyword⟩ := p.kind.beq_of_takesPosition hkind
  have hpositional : positional (p :: ps) = p :: positional ps := List.filter_cons_of_pos hkind
  have hdemanded : (demanding (p :: ps)).length ≤ n + 1 ↔ (demanding ps).length ≤ n := by
    unfold demanding
    rw [hpositional, List.filter_cons]
    cases hdefault : p.default with
    | none => simp
    | some v =>
        have hnil := demanding_eq_nil h hkind (by rw [hdefault]; rfl)
        unfold demanding at hnil
        simp [hnil]
  constructor
  · rintro ⟨hdemand, htaken, hunnamed⟩
    refine ⟨hdemanded.1 hdemand, ?_, by simpa [hkeyword] using hunnamed⟩
    simpa [hpositional, hrest] using htaken
  · rintro ⟨hdemand, htaken, hunnamed⟩
    refine ⟨hdemanded.2 hdemand, ?_, by simpa [hkeyword] using hunnamed⟩
    simpa [hpositional, hrest] using htaken

end Parameter

/-! ## Binding -/

open Parameter

/-- Gives a position its argument, or its default if none is left. -/
theorem bindParameters_position (code : String) {p : Parameter} (hkind : p.kind.takesPosition = true)
    (ps : List Parameter) (vs : List Value) (frame : Frame) :
    bindParameters code (p :: ps) vs frame =
      match vs.head?.or p.default with
      | some v =>
        bindParameters code ps vs.tail
          { frame with
            parameters := frame.parameters.put p.name v
            arguments := frame.arguments ++ [v] }
      | none => .error (misfitArguments code) := by
  cases hcase : p.kind with
  | rest => simp [hcase, ParameterKind.takesPosition] at hkind
  | keywordOnly => simp [hcase, ParameterKind.takesPosition] at hkind
  | positional =>
      cases vs <;> cases hdefault : p.default <;> simp [bindParameters, hcase, hdefault]
  | positionalOnly =>
      cases vs <;> cases hdefault : p.default <;> simp [bindParameters, hcase, hdefault]

/-- Arguments can be bound to parameters that can be declared if and only if their number fits. -/
theorem exists_bindParameters_iff (code : String) {ps : List Parameter} (h : AreDeclarable ps)
    (arguments : List Value) (start : Frame) :
    (∃ frame, bindParameters code ps arguments start = .ok frame) ↔ FitCount ps arguments.length := by
  induction ps generalizing arguments start with
  | nil =>
      rw [fitCount_nil]
      cases arguments with
      | nil => simp [bindParameters]
      | cons v vs => simp [bindParameters]
  | cons p ps ih =>
      obtain ⟨hp, hps⟩ := List.pairwise_cons.1 h
      rcases p.kind.cases_takesPosition with hkind | hkind | hkind
      · rw [bindParameters_position code hkind]
        cases arguments with
        | cons v vs =>
            rw [List.length_cons, fitCount_position_succ hp hkind]
            exact ih hps vs _
        | nil =>
            rw [List.length_nil, fitCount_position_zero hkind]
            cases p.default with
            | none => simp
            | some v =>
                simp only [Option.isSome_some, true_and]
                exact ih hps [] _
      · rw [fitCount_rest hp hkind]
        simp only [bindParameters, hkind]
        exact ih hps [] _
      · rw [fitCount_keywordOnly hkind]
        cases hdefault : p.default with
        | none => simp [bindParameters, hkind, hdefault]
        | some v =>
            simp only [bindParameters, hkind, hdefault, Option.isSome_some, true_and]
            exact ih hps arguments _

/-! ## Matching -/

namespace Signature

variable {u : Universe} {name : String} {parameters : List Parameter} {types : List ValueType}

theorem typeVariables_resolve? (u : Universe) (forward : String) :
    ((resolve? u forward).getD (.forward forward)).typeVariables = [] := by
  unfold resolve?
  split
  · rfl
  · cases u.type? forward <;> rfl

/-- Names are resolved in the types of parameters; nothing else is changed. -/
theorem exists_resolveForward (u : Universe) (parameters : List Parameter) :
    ∃ f : Parameter → Parameter, resolveForward u parameters = parameters.map f ∧
      ∀ p, (f p).kind = p.kind ∧ (f p).default = p.default ∧
        (p.type.typeVariables = [] → (f p).type.typeVariables = []) := by
  unfold resolveForward
  split
  · refine ⟨_, rfl, fun p => ?_⟩
    split
    next forward htype => exact ⟨rfl, rfl, fun _ => htype ▸ typeVariables_resolve? u forward⟩
    · exact ⟨rfl, rfl, id⟩
  · exact ⟨id, (List.map_id _).symm, fun p => ⟨rfl, rfl, id⟩⟩

/-- Leaving out the receiver, for which no name has to be resolved, from the parameters of a method
gives the signature of the others. -/
theorem ofParameters_receiver (u : Universe) (name : String) {receiver : Parameter}
    (hkind : receiver.kind.takesPosition = true)
    (htype : ∀ forward, receiver.type ≠ .forward forward) (parameters : List Parameter) :
    ofParameters u name true (receiver :: parameters) = ofParameters u name false parameters := by
  have hnames : forwardNames (receiver :: parameters) = forwardNames parameters := by
    unfold forwardNames
    rw [List.filterMap_cons]
    split
    · rfl
    next hforward =>
      split at hforward
      next htype' => exact absurd htype' (htype _)
      · cases hforward
  have hresolved : withoutFirst (resolveForward u (receiver :: parameters)) =
      resolveForward u parameters := by
    unfold resolveForward
    rw [hnames]
    split
    · rw [List.map_cons]
      split
      next htype' => exact absurd htype' (htype _)
      · simp [withoutFirst, hkind]
    · simp [withoutFirst, hkind]
  simp only [ofParameters, if_true, hresolved, Bool.false_eq_true, if_false]

/-- The numbers of parameters that can be given by position, must be and need not be are those that
were declared. -/
theorem counts_ofParameters (u : Universe) (name : String) (parameters : List Parameter) :
    let s := ofParameters u name false parameters
    s.required = (demanding parameters).length ∧ s.count = (positional parameters).length ∧
      s.variadic = parameters.any (·.kind == .rest) ∧
      s.needsKeyword = parameters.any (fun p => p.kind == .keywordOnly && p.default.isNone) := by
  obtain ⟨f, hresolved, hf⟩ := exists_resolveForward u parameters
  have hkind (p : Parameter) : (f p).kind = p.kind := (hf p).1
  have hdefault (p : Parameter) : (f p).default = p.default := (hf p).2.1
  simp only [ofParameters, count, hresolved, demanding, positional, List.filter_map, List.length_map,
    List.any_map, Function.comp_def, hkind, hdefault, Bool.false_eq_true, if_false, and_self]

/-- Without type variables there is nothing to bind. -/
theorem concrete_ofParameters (name : String) (types : List ValueType)
    (h : ∀ p ∈ parameters, p.type.typeVariables = []) :
    (ofParameters u name false parameters).concrete u types =
      .ok (ofParameters u name false parameters) := by
  obtain ⟨f, hresolved, hf⟩ := exists_resolveForward u parameters
  have hnone (as : List TypeExpr) (has : ∀ a ∈ as, a.typeVariables = []) :
      TypeExpr.typeVariablesAll as = [] := by
    induction as with
    | nil => rfl
    | cons a as ih =>
        obtain ⟨ha, has⟩ := List.forall_mem_cons.1 has
        simp [TypeExpr.typeVariablesAll, ha, ih has]
  have htypes : (ofParameters u name false parameters).typeParameters = [] := by
    refine hnone _ fun a ha => ?_
    obtain ⟨q, hq, rfl⟩ := List.mem_map.1 ha
    have hmem : q ∈ parameters.map f := by
      rw [← hresolved]
      exact (List.mem_filter.1 hq).1
    obtain ⟨p, hp, rfl⟩ := List.mem_map.1 hmem
    exact (hf p).2.2 (h p hp)
  unfold concrete isGeneric
  rw [htypes]
  rfl

/-- The signature read off parameters takes arguments if and only if their number fits the
parameters and every one that is given to a position is of its type. -/
theorem exists_accepts_ofParameters_iff (name : String) (types : List ValueType)
    (h : ∀ p ∈ parameters, p.type.typeVariables = []) :
    (∃ loose form, (ofParameters u name false parameters).Accepts u types loose form) ↔
      FitCount parameters types.length ∧
        ∀ e ∈ types.zip (positional (resolveForward u parameters)),
          e.2.type.accepts u e.1 = true := by
  have hbound := concrete_ofParameters (u := u) name types h
  obtain ⟨hrequired, hcount, hvariadic, hkeyword⟩ := counts_ofParameters u name parameters
  have htypes : (∀ e ∈ types.zip (ofParameters u name false parameters).parameters,
      e.2.accepts u e.1 = true) ↔ ∀ e ∈ types.zip (positional (resolveForward u parameters)),
        e.2.type.accepts u e.1 = true := by
    show (∀ e ∈ types.zip ((positional (resolveForward u parameters)).map (·.type)), _) ↔ _
    rw [List.zip_map_right, List.forall_mem_map]
    rfl
  constructor
  · rintro ⟨loose, form, haccepts⟩
    obtain rfl : form = _ := Except.ok.inj (haccepts.bound.symm.trans hbound)
    have hfits := haccepts.count
    rw [hrequired, hcount, hvariadic] at hfits
    -- As many arguments as positions are no fewer than the demanding ones among these.
    have hcounts : (demanding parameters).length ≤ types.length ∧
        (types.length ≤ (positional parameters).length ∨
          parameters.any (·.kind == .rest) = true) := by
      cases loose with
      | true => exact hfits
      | false =>
          have hle : (demanding parameters).length ≤ (positional parameters).length :=
            List.length_filter_le _ _
          exact ⟨Nat.le_trans hle (Nat.le_of_eq hfits.symm), .inl (Nat.le_of_eq hfits)⟩
    exact ⟨⟨hcounts.1, hcounts.2, hkeyword.symm.trans haccepts.noKeyword⟩,
      htypes.1 haccepts.types⟩
  · rintro ⟨hfit, haccepts⟩
    refine ⟨true, _, hbound, hkeyword.trans hfit.unnamed, ?_, htypes.2 haccepts⟩
    rw [hrequired, hcount, hvariadic]
    exact ⟨hfit.demanded, hfit.taken⟩

end Signature

/-! ## Methods of a class -/

/-- Where the first class that has any attribute of a name has a method, the nearest class that
settles the name is that class, unless it only declares a field. -/
theorem exists_nearest_method {cs : List HostClass} {name : String} {m : Method}
    (hmethod : cs.findSome? (fun c => c.attributes.find? name) = some (.method m))
    (hkind : (cs.find? (·.settles name)).map (·.kindOf name) = some .method) :
    ∃ c, cs.find? (·.settles name) = some c ∧ c.attributes.find? name = some (.method m) := by
  induction cs with
  | nil => cases hmethod
  | cons c cs ih =>
      cases hown : c.attributes.find? name with
      | some what =>
          obtain rfl : what = .method m := by simpa [hown] using hmethod
          have hsettles : c.settles name = true := by
            simp [HostClass.settles, hown, ClassAttribute.isMember]
          exact ⟨c, by simp [hsettles], hown⟩
      | none =>
          cases hsettles : c.settles name with
          | true => simp [hsettles, HostClass.kindOf, hown] at hkind
          | false =>
              obtain ⟨d, hd, hdmethod⟩ := ih (by simpa [hown] using hmethod)
                (by simpa [hsettles] using hkind)
              exact ⟨d, by simpa [hsettles] using hd, hdmethod⟩

namespace MemberTable

variable {u : Universe} {className name : String} {m : Method}

/-- The overloads under a public name that the nearest class makes a method are those of the method
that instances find. -/
theorem overloads_ofType (hmethod : u.attribute? className name = some (.method m))
    (hname : isPublic name = true) (hkind : u.kindOf? className name = some .method) :
    (ofType u (.declared className)).overloads name = Members.overloads u name m := by
  obtain ⟨c, hc, hcmethod⟩ := exists_nearest_method hmethod hkind
  obtain ⟨known, hfound⟩ := Members.exists_find?_ofClass hname hc
  have hmember : c.member? u name known = some (.method (Members.overloads u name m)) := by
    unfold HostClass.member?
    rw [hcmethod]
    rfl
  unfold overloads
  rw [show (ofType u (.declared className)).members.find? name = _ from hfound, hmember]

/-- Under any other name there are no overloads. -/
theorem kindOf?_of_mem_overloads {s : Signature}
    (h : s ∈ (ofType u (.declared className)).overloads name) :
    isPublic name = true ∧ u.kindOf? className name = some .method := by
  unfold overloads at h
  split at h
  next os hfound =>
    have hname := Members.arePublic_ofType u (.declared className) name _ hfound
    rw [← Members.map_kind_find?_ofClass hname, show (Members.ofClass u className).find? name = _
      from hfound]
    exact ⟨hname, rfl⟩
  · cases h

/-- An overload takes arguments if and only if expressions see the method and its parameters take
arguments of their types. -/
theorem exists_accepts_overloads_iff (hmethod : u.attribute? className name = some (.method m))
    (hsingle : m.overloads = []) (hplain : ∀ p ∈ m.parameters, p.type.typeVariables = [])
    (types : List ValueType) :
    (∃ s ∈ (ofType u (.declared className)).overloads name, ∃ loose form,
        s.Accepts u types loose form) ↔
      isPublic name = true ∧ u.kindOf? className name = some .method ∧
        FitCount m.parameters types.length ∧
        ∀ e ∈ types.zip (positional (Signature.resolveForward u m.parameters)),
          e.2.type.accepts u e.1 = true := by
  have hread : Members.overloads u name m = [.ofParameters u name false m.parameters] := by
    simp [Members.overloads, hsingle]
  constructor
  · rintro ⟨s, hs, haccepts⟩
    obtain ⟨hname, hkind⟩ := kindOf?_of_mem_overloads hs
    rw [overloads_ofType hmethod hname hkind, hread, List.mem_singleton] at hs
    subst hs
    exact ⟨hname, hkind, (Signature.exists_accepts_ofParameters_iff name types hplain).1 haccepts⟩
  · rintro ⟨hname, hkind, hfits⟩
    rw [overloads_ofType hmethod hname hkind, hread]
    exact ⟨_, List.mem_singleton_self _,
      (Signature.exists_accepts_ofParameters_iff name types hplain).2 hfits⟩

/-- A method that an instance finds in its class, and whose parameters take the arguments, runs. -/
theorem run_invoke {table : MemberTable} {ref : ObjectRef} {heap : Heap} {arguments : List Value}
    {frame : Frame} (hmethod : u.attribute? ref.className name = some (.method m))
    (hown : (heap.attributes ref).find? name = none)
    (hbind : bindParameters name m.parameters arguments
      ⟨if m.kind = .ofInstance then some ref else none, .empty, []⟩ = .ok frame) :
    table.invoke u (.object ref) name arguments heap =
      (tryCatch (m.body.run u (readObject u) frame) fun cause =>
        throw (.invocation name table.type.name cause) : HostAction Value) heap := by
  have hfound : callAttribute u (.object ref) name arguments heap =
      (.ok (m.call u ref name arguments), heap) := by
    unfold callAttribute
    dsimp only
    rw [run_bind_of_ok (run_get heap)]
    simp only [hmethod, hown]
    rfl
  have hcall : m.call u ref name arguments = m.body.run u (readObject u) frame := by
    unfold Method.call
    cases hkind : m.kind with
    | ofInstance =>
        rw [if_pos hkind] at hbind
        simp only [hbind]
        rfl
    | _ =>
        rw [if_neg (by simp [hkind])] at hbind
        simp only [hbind]
        rfl
  unfold invoke
  rw [run_bind_of_ok hfound, hcall]

/-- A method with a parameter of each kind, which gives all their values. -/
def mixedMethod : Method where
  kind := .ofInstance
  parameters :=
    [⟨"x", .type .int, none, .positionalOnly⟩, ⟨"y", .missing, some (.int 1), .positional⟩,
      ⟨"more", .missing, none, .rest⟩, ⟨"flag", .type .bool, some (.bool true), .keywordOnly⟩]
  body := .arguments
  overloads := []

theorem typeVariables_mixedMethod :
    ∀ p ∈ mixedMethod.parameters, p.type.typeVariables = [] := by
  simp [mixedMethod, TypeExpr.typeVariables]

/-- A class with a method under two names, one of them public, and a class that inherits it and
declares a field of the public name. -/
def veiled : Universe where
  classes :=
    [⟨"Base", [], none,
        [("total", .other (.method mixedMethod)), ("_total", .other (.method mixedMethod))]⟩,
      ⟨"Typed", ["Base"], none, [("total", .field (some (.type .int)) none)]⟩]
  typeParameters := []

end MemberTable

end Formula
