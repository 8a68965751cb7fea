import Formula.Proofs.Evaluation.Parts

set_option autoImplicit false

/-! # Variables without values

The same tree is evaluated twice: with values for some variables, and with these variables unset. As
long as no call is given an argument in which such a variable occurs, the absent value only travels
through operators, which pass it on. So where the evaluation with values succeeds, the other one
does, and gives the same value or the absent one. A call that is given the absent value may do
anything.

Main statements: `Setting.Unsets.value` and `Setting.Unsets.of_evaluate_eq_error`. -/

namespace Formula

namespace Node

/-- One of the given variables is named somewhere in a tree. -/
def Mentions (names : List String) (n : Node) : Prop :=
  ∃ m ∈ n.walk, ∃ name ∈ m.subject?, name ∈ names

/-- Some call in a tree has an argument in which one of the given variables is named. -/
def HasOpenCall (names : List String) (n : Node) : Prop :=
  ∃ parent f arguments, .call parent f arguments ∈ n.walk ∧
    ∃ argument ∈ arguments, argument.Mentions names

section Mentions

variable {names : List String}

@[simp] theorem not_mentions_literal (value : Scalar) : ¬ (literal value).Mentions names := by
  simp [Mentions, subject?]

@[simp] theorem not_mentions_list (items : Items) : ¬ (list items).Mentions names := by
  simp [Mentions, subject?]

@[simp] theorem mentions_name {n : String} : (name n).Mentions names ↔ n ∈ names := by
  simp [Mentions, subject?]

@[simp] theorem mentions_member {parent n : String} :
    (member parent n).Mentions names ↔ parent ∈ names := by
  simp [Mentions, subject?]

theorem mentions_call {parent : Option String} {n : String} {arguments : List Node} :
    (call parent n arguments).Mentions names ↔
      (∃ p ∈ parent, p ∈ names) ∨ ∃ argument ∈ arguments, argument.Mentions names := by
  constructor
  · rintro ⟨m, hm, name, hname, hin⟩
    rcases mem_walk_call.1 hm with rfl | ⟨argument, hargument, hm⟩
    · exact .inl ⟨name, hname, hin⟩
    · exact .inr ⟨argument, hargument, m, hm, name, hname, hin⟩
  · rintro (⟨p, hp, hin⟩ | ⟨argument, hargument, m, hm, hname⟩)
    · exact ⟨_, mem_walk_self _, p, hp, hin⟩
    · exact ⟨m, mem_walk_call.2 (.inr ⟨argument, hargument, hm⟩), hname⟩

end Mentions

theorem HasOpenCall.of_part {names : List String} {m n : Node} (hm : m ∈ n.walk)
    (h : m.HasOpenCall names) : n.HasOpenCall names := by
  obtain ⟨parent, f, arguments, hk, hargument⟩ := h
  exact ⟨parent, f, arguments, walk_subset hm hk, hargument⟩

end Node

/-- A value has no data of its own. -/
def IsBare (u : Universe) (heap : Heap) (v : Value) : Prop := ∀ name, ¬ OwnsData u heap v name

namespace Setting

/-- In the first of two settings some variables are unset that have values in the second; all others
are the same. -/
structure Unsets (s s' : Setting) (origin origin' : Store) (names : List String) : Prop where
  host : s'.host = s.host
  functions : s'.functions = s.functions
  unset : ∀ name ∈ names, ∃ b b', s.lookup name = some b ∧ s'.lookup name = some b' ∧
    b.value = .none ∧ (origin.table b.members).Alike s.host (origin'.table b'.members)
  other : ∀ name, name ∉ names →
    Binding.Same s.host origin origin' (s.lookup name) (s'.lookup name)

namespace Unsets

variable {s s' : Setting} {origin origin' : Store} {names : List String} {J : Heap → Prop}

/-- Where none of the variables is named the settings are the same. -/
theorem matches_of_not_mentions (h : s.Unsets s' origin origin' names) {tree : Node}
    (hnone : ¬ tree.Mentions names) : s.Matches s' origin origin' tree where
  host := h.host
  functions := h.functions
  lookup m hm name hname := h.other name fun hmem => hnone ⟨m, hm, name, hname, hmem⟩

/-- What is bound with the values is bound without them, with a table that is alike. -/
theorem exists_unset (h : s.Unsets s' origin origin' names) {name : String} {b' : Binding}
    (hb' : s'.lookup name = some b') : ∃ b, s.lookup name = some b ∧
      (origin.table b.members).Alike s.host (origin'.table b'.members) ∧
      (name ∈ names → b.value = .none) ∧ (name ∉ names → b'.toVariable = b.toVariable) := by
  by_cases hname : name ∈ names
  · obtain ⟨b, c, hb, hc, hnone, halike⟩ := h.unset name hname
    rw [hb'] at hc
    cases hc
    exact ⟨b, hb, halike, fun _ => hnone, fun hout => absurd hname hout⟩
  · have hbinding := h.other name hname
    rw [hb'] at hbinding
    generalize s.lookup name = found at hbinding
    cases hbinding with
    | some hvariable halike =>
        exact ⟨_, rfl, halike, fun hin => absurd hin hname, fun _ => hvariable⟩

/-- A variable that has a value although the given ones are unset has it with their values too. -/
theorem exists_set (h : s.Unsets s' origin origin' names) {name : String} {b : Binding}
    (hb : s.lookup name = some b) (hvalue : b.value.isNone = false) :
    ∃ b', s'.lookup name = some b' ∧ b'.toVariable = b.toVariable ∧
      (origin.table b.members).Alike s.host (origin'.table b'.members) := by
  by_cases hname : name ∈ names
  · obtain ⟨c, _, hc, _, hnone, _⟩ := h.unset name hname
    rw [hb] at hc
    cases hc
    rw [hnone] at hvalue
    cases hvalue
  · have hbinding := h.other name hname
    rw [hb] at hbinding
    generalize s'.lookup name = found at hbinding
    cases hbinding with
    | some hvariable halike => exact ⟨_, rfl, hvariable, halike⟩

/-- With unset variables no other host code runs. -/
theorem hostCode (h : s.Unsets s' origin origin' names) {tree : Node}
    {P : ∀ {α : Type}, HostAction α → Prop} (hcode : s'.HostCode origin' tree P) :
    s.HostCode origin tree P := by
  constructor
  · intro name arguments f hmem hfind values
    rw [← h.host]
    exact hcode.function hmem (h.functions ▸ hfind) values
  · intro parent name b hmem hb hvalue
    obtain ⟨b', hb', hvariable, halike⟩ := h.exists_set hb hvalue
    have hread := hcode.member hmem hb' (by rw [hvariable]; exact hvalue)
    rw [h.host, hvariable, halike.readMember?] at hread
    exact hread
  · intro parent name arguments b hmem hb hvalue values
    obtain ⟨b', hb', hvariable, halike⟩ := h.exists_set hb hvalue
    have hcall := hcode.method hmem hb' (by rw [hvariable]; exact hvalue) values
    rw [h.host, hvariable, halike.invoke] at hcall
    exact hcall

/-- What a reference finds when the variables have values it finds when they are unset, unless it
finds data of their own in the values. -/
theorem finds (h : s.Unsets s' origin origin' names) {heap : Heap} (hheap : J heap)
    (hbare : ∀ name ∈ names, ∀ b', s'.lookup name = some b' → IsBare s.host heap b'.value)
    {n : Node} (hfinds : s'.Finds origin' J n) : s.Finds origin J n := by
  cases n with
  | literal value => trivial
  | list items => trivial
  | binary op left right => trivial
  | conditional condition truthy falsy => trivial
  | name n =>
      obtain ⟨b', hb'⟩ := hfinds
      obtain ⟨b, hb, _⟩ := h.exists_unset hb'
      exact ⟨b, hb⟩
  | member parent n =>
      obtain ⟨b', hb', hmember⟩ := hfinds
      obtain ⟨b, hb, halike, _, hsame⟩ := h.exists_unset hb'
      refine ⟨b, hb, ?_⟩
      rw [halike.hasMember] at hmember
      by_cases hname : parent ∈ names
      · -- The value has no data of its own in one of the heaps, so the type has the member.
        refine .inl (hmember.resolve_right fun hown => ?_)
        have hdata := (hown heap hheap).data
        rw [h.host] at hdata
        exact hbare parent hname b' hb' n hdata
      · refine hmember.imp_right fun hown heap hheap => ?_
        obtain ⟨hpublic, hmethod, hdata⟩ := hown heap hheap
        rw [halike.hasMethod] at hmethod
        rw [h.host, hsame hname] at hdata
        exact ⟨hpublic, hmethod, hdata⟩
  | call parent n arguments =>
      cases parent with
      | none =>
          obtain ⟨f, hf, harity⟩ := hfinds
          exact ⟨f, h.functions ▸ hf, harity⟩
      | some parent =>
          obtain ⟨b', hb', hmethod⟩ := hfinds
          obtain ⟨b, hb, halike, _⟩ := h.exists_unset hb'
          exact ⟨b, hb, (halike.hasMethod n).symm.trans hmethod⟩

end Unsets

/-! ## Steps -/

variable {s s' : Setting} {origin origin' : Store} {names : List String} {J : Heap → Prop}

theorem run_readName_of_unset {n : String} {b : Binding} (hb : s.lookup n = some b)
    (hnone : b.value = .none) (σ : Store) : s.readName n σ = (.ok .none, σ) := by
  unfold readName
  rw [hb]
  simp only
  rw [hnone]
  rfl

theorem run_readMember_of_unset {parent n : String} {b : Binding} {σ : Store}
    (hb : s.lookup parent = some b) (hnone : b.value = .none)
    (hmember : (σ.table b.members).hasMember n = true) :
    s.readMember parent n σ = (.ok .none, σ) := by
  have hget : (get : Action Store) σ = (.ok σ, σ) := rfl
  unfold readMember
  rw [hb]
  simp only
  rw [run_bind_of_ok hget, if_pos (by rw [hnone]; rfl), if_pos hmember]
  rfl

/-- Of a variable without a value a method is not called when it is there and takes the types of the
arguments. -/
theorem run_callMethod_of_unset {parent n : String} {values : List Value} {b : Binding} {σ : Store}
    {signature : Signature} (hb : s.lookup parent = some b) (hnone : b.value = .none)
    (hmethod : (σ.table b.members).hasMethod n = true)
    (hpick : ((σ.table b.members).resolve s.host n (values.map (·.type))).pick = some signature) :
    ∃ σ', s.callMethod parent n values σ = (.ok .none, σ') := by
  have hget : (get : Action Store) σ = (.ok σ, σ) := rfl
  have hresolve : ∃ σ', Action.resolve s.host b.members n (values.map (·.type)) σ =
      (.ok (some signature), σ') := ⟨_, Prod.ext (congrArg Except.ok hpick) rfl⟩
  obtain ⟨σ', hresolve⟩ := hresolve
  refine ⟨σ', ?_⟩
  unfold callMethod
  rw [hb]
  simp only
  rw [run_bind_of_ok hget, if_pos hmethod, run_bind_of_ok hresolve]
  simp only
  rw [if_pos (by rw [hnone]; rfl)]
  rfl

/-! ## Operators -/

/-- Operators pass the absent value on. -/
theorem apply_of_none {op : Operator} {a b : Value} (h : a = .none ∨ b = .none) :
    op.apply a b = .ok .none := by
  rcases h with rfl | rfl
  · rfl
  · cases a <;> rfl

theorem applyToItems_none (op : Operator) (items : Items) :
    op.applyToItems .none items = .ok .none := by
  cases op <;> rfl

/-- An operation on operands some of which are absent has the same value as before or is absent. -/
theorem apply_of_unset {op : Operator} {a b x y v : Value} (h : op.apply a b = .ok v)
    (hx : x = .none ∨ x = a) (hy : y = .none ∨ y = b) :
    ∃ z, op.apply x y = .ok z ∧ (z = .none ∨ z = v) := by
  rcases hx with hx | rfl
  · exact ⟨.none, apply_of_none (.inl hx), .inl rfl⟩
  · rcases hy with hy | rfl
    · exact ⟨.none, apply_of_none (.inr hy), .inl rfl⟩
    · exact ⟨v, h, .inr rfl⟩

theorem applyToItems_of_unset {op : Operator} {items : Items} {a x v : Value}
    (h : op.applyToItems a items = .ok v) (hx : x = .none ∨ x = a) :
    ∃ z, op.applyToItems x items = .ok z ∧ (z = .none ∨ z = v) := by
  rcases hx with rfl | rfl
  · exact ⟨.none, applyToItems_none op items, .inl rfl⟩
  · exact ⟨v, h, .inr rfl⟩

/-- An operation has its value or is absent where its operands have theirs or are absent. -/
theorem value_of_binary {op : Operator} {left right : Node} {σ τ : Store} {v : Value}
    (hleft : ∀ a, (s'.evaluate left τ).1 = .ok a →
      ∃ x, (s.evaluate left σ).1 = .ok x ∧ (x = .none ∨ x = a))
    (hright : ∀ b, (s'.evaluate right (s'.evaluate left τ).2).1 = .ok b →
      ∃ y, (s.evaluate right (s.evaluate left σ).2).1 = .ok y ∧ (y = .none ∨ y = b))
    (hv : (s'.evaluate (.binary op left right) τ).1 = .ok v) :
    ∃ z, (s.evaluate (.binary op left right) σ).1 = .ok z ∧ (z = .none ∨ z = v) := by
  rw [evaluate] at hv
  obtain ⟨τ', hdone⟩ := of_complete_eq_ok hv
  obtain ⟨a, τ₁, ha, hmore⟩ := of_run_bind_eq_ok hdone
  rw [ha] at hleft hright
  obtain ⟨x, hx, hxa⟩ := hleft a rfl
  generalize hσ₁ : (s.evaluate left σ).2 = σ₁ at hright
  have hfirst : s.evaluate left σ = (.ok x, σ₁) := Prod.ext hx hσ₁
  rw [evaluate]
  cases hitems : right.items? with
  | some items =>
      rw [hitems] at hmore
      obtain ⟨z, hz, hzv⟩ := applyToItems_of_unset (ofExcept_eq_ok hmore) hxa
      have hdo : Action.ofExcept (op.applyToItems x items) σ₁ = (.ok z, σ₁) := by
        rw [hz]
        rfl
      exact ⟨z, complete_eq_ok ((run_bind_of_ok hfirst).trans hdo), hzv⟩
  | none =>
      rw [hitems] at hmore
      obtain ⟨b, τ₂, hb, hend⟩ := of_run_bind_eq_ok hmore
      obtain ⟨y, hy, hyb⟩ := hright b (by rw [hb])
      have hsecond : s.evaluate right σ₁ = (.ok y, (s.evaluate right σ₁).2) := Prod.ext hy rfl
      obtain ⟨z, hz, hzv⟩ := apply_of_unset (ofExcept_eq_ok hend) hxa hyb
      have hdo : (do
          let b ← s.evaluate right
          Action.ofExcept (op.apply x b)) σ₁ = (.ok z, (s.evaluate right σ₁).2) := by
        rw [run_bind_of_ok hsecond, hz]
        rfl
      exact ⟨z, complete_eq_ok ((run_bind_of_ok hfirst).trans hdo), hzv⟩

/-! ## Trees -/

/-- Where no unset variable is named nothing has changed. -/
theorem Unsets.value_of_not_mentions (h : s.Unsets s' origin origin' names) {m : Node}
    (hnone : ¬ m.Mentions names) (hpure : s'.HostCode origin' m (HostAction.IsPure J)) {σ τ : Store}
    {v : Value} (hσ : Store.IsNear s.host J origin σ) (hτ : Store.IsNear s.host J origin' τ)
    (hv : (s'.evaluate m τ).1 = .ok v) :
    ∃ x, (s.evaluate m σ).1 = .ok x ∧ (x = .none ∨ x = v) := by
  have hsame := simulates_of_isPure (h.matches_of_not_mentions hnone) (h.hostCode hpure)
  exact ⟨v, (hsame σ τ ⟨hσ, hτ⟩).1.trans hv, .inr rfl⟩

/-- A member of an unset variable is absent, if it is found. -/
theorem Unsets.value_of_member (h : s.Unsets s' origin origin' names) {parent n : String}
    (hparent : parent ∈ names) {heap : Heap} (hheap : J heap)
    (hfinds : s.Finds origin J (.member parent n)) {σ : Store}
    (hσ : Store.IsNear s.host J origin σ) :
    (s.evaluate (.member parent n) σ).1 = .ok .none := by
  obtain ⟨b, _, hb, _, hnone, _⟩ := h.unset parent hparent
  obtain ⟨c, hc, hmember⟩ := hfinds
  rw [hb] at hc
  cases hc
  -- Without a value there is no data of its own, so the type has the member.
  have hdeclared : (σ.table b.members).hasMember n = true := by
    rw [(hσ.tables b.members).hasMember]
    refine hmember.resolve_right fun hown => ?_
    have hvalue := (hown heap hheap).data.isNone
    rw [hnone] at hvalue
    cases hvalue
  rw [evaluate]
  exact complete_eq_ok (run_readMember_of_unset hb hnone hdeclared)

/-- A method call on an unset variable gives the absent value, if the arguments do not name one. -/
theorem Unsets.value_of_method (h : s.Unsets s' origin origin' names) {parent n : String}
    {arguments : List Node} (hparent : parent ∈ names)
    (harguments : ∀ argument ∈ arguments, ¬ argument.Mentions names)
    (hpure : s'.HostCode origin' (.call (some parent) n arguments) (HostAction.IsPure J))
    {σ τ : Store} {v : Value} (hσ : Store.IsNear s.host J origin σ)
    (hτ : Store.IsNear s.host J origin' τ)
    (hv : (s'.evaluate (.call (some parent) n arguments) τ).1 = .ok v) :
    (s.evaluate (.call (some parent) n arguments) σ).1 = .ok .none := by
  have hsame : Simulates (Store.IsPaired s.host J origin origin') (s.evaluateAll arguments)
      (s'.evaluateAll arguments) := by
    refine simulates_evaluateAll fun argument hargument => ?_
    refine simulates_of_isPure (h.matches_of_not_mentions (harguments argument hargument)) ?_
    exact (h.hostCode hpure).part fun k hk => Node.mem_walk_call.2 (.inr ⟨argument, hargument, hk⟩)
  rw [evaluate] at hv
  obtain ⟨τ', hdone⟩ := of_complete_eq_ok hv
  obtain ⟨values, τ₁, hvalues', hcall⟩ := of_run_bind_eq_ok hdone
  obtain ⟨heq, hσ₁, hτ₁⟩ := hsame σ τ ⟨hσ, hτ⟩
  rw [hvalues'] at heq hτ₁
  have hvalues : s.evaluateAll arguments σ = (.ok values, (s.evaluateAll arguments σ).2) :=
    Prod.ext heq rfl
  -- The overload is chosen by the types of the arguments, from tables that are alike.
  obtain ⟨c, hc, hmethod, signature, hpick⟩ := pick_of_callMethod hcall
  obtain ⟨b, c', hb, hc', hnone, halike⟩ := h.unset parent hparent
  rw [hc] at hc'
  cases hc'
  have hall : (τ₁.table c.members).Alike s.host
      ((s.evaluateAll arguments σ).2.table b.members) :=
    ((hτ₁.tables c.members).symm.trans halike.symm).trans (hσ₁.tables b.members)
  rw [h.host, ← hall.pick] at hpick
  obtain ⟨σ', hrun⟩ := run_callMethod_of_unset hb hnone ((hall.hasMethod n).trans hmethod) hpick
  rw [evaluate]
  exact complete_eq_ok ((run_bind_of_ok hvalues).trans hrun)

/-- Without conditionals, and as long as no call is given an argument in which an unset variable
occurs, a tree that has a value when the variables have values has this one or the absent one when
they are unset. -/
theorem Unsets.value (h : s.Unsets s' origin origin' names) {heap : Heap} (hheap : J heap) {m : Node}
    (hclosed : ¬ m.HasOpenCall names) (hflat : ∀ k ∈ m.walk, k.isA .conditional = false)
    (hpure : s'.HostCode origin' m (HostAction.IsPure J)) (hfinds : ∀ k ∈ m.walk, s.Finds origin J k)
    {σ τ : Store} {v : Value} (hσ : Store.IsNear s.host J origin σ)
    (hτ : Store.IsNear s.host J origin' τ) (hv : (s'.evaluate m τ).1 = .ok v) :
    ∃ x, (s.evaluate m σ).1 = .ok x ∧ (x = .none ∨ x = v) := by
  induction m using Node.parts generalizing σ τ v with
  | literal value => exact h.value_of_not_mentions (Node.not_mentions_literal value) hpure hσ hτ hv
  | list items => exact h.value_of_not_mentions (Node.not_mentions_list items) hpure hσ hτ hv
  | name n =>
      by_cases hn : n ∈ names
      · obtain ⟨b, _, hb, _, hnone, _⟩ := h.unset n hn
        rw [evaluate]
        exact ⟨.none, complete_eq_ok (run_readName_of_unset hb hnone σ), .inl rfl⟩
      · exact h.value_of_not_mentions (mt Node.mentions_name.1 hn) hpure hσ hτ hv
  | member parent n =>
      by_cases hparent : parent ∈ names
      · have hmember := hfinds _ (Node.mem_walk_self _)
        exact ⟨.none, h.value_of_member hparent hheap hmember hσ, .inl rfl⟩
      · exact h.value_of_not_mentions (mt Node.mentions_member.1 hparent) hpure hσ hτ hv
  | call parent n arguments _ =>
      have harguments : ∀ argument ∈ arguments, ¬ argument.Mentions names := by
        intro argument hargument hmentions
        exact hclosed ⟨parent, n, arguments, Node.mem_walk_self _, argument, hargument, hmentions⟩
      by_cases hparent : ∃ p ∈ parent, p ∈ names
      · obtain ⟨p, rfl, hin⟩ := hparent
        exact ⟨.none, h.value_of_method hin harguments hpure hσ hτ hv, .inl rfl⟩
      · refine h.value_of_not_mentions (mt Node.mentions_call.1 ?_) hpure hσ hτ hv
        rintro (hin | ⟨argument, hargument, hmentions⟩)
        · exact hparent hin
        · exact harguments argument hargument hmentions
  | binary op left right ihl ihr =>
      have hl {k : Node} (hk : k ∈ left.walk) : k ∈ (Node.binary op left right).walk :=
        Node.mem_walk_binary.2 (.inr (.inl hk))
      have hr {k : Node} (hk : k ∈ right.walk) : k ∈ (Node.binary op left right).walk :=
        Node.mem_walk_binary.2 (.inr (.inr hk))
      have hleft {v : Value} (hv : (s'.evaluate left τ).1 = .ok v) :=
        ihl (fun hopen => hclosed (hopen.of_part (hl (Node.mem_walk_self _))))
          (fun k hk => hflat k (hl hk)) (hpure.part fun k hk => hl hk) (fun k hk => hfinds k (hl hk))
          hσ hτ hv
      refine value_of_binary (fun _ => hleft) (fun b hb => ?_) hv
      -- The stores in which the right operand is evaluated are near again.
      have hσ₁ := (keeps_of_isPure ((h.hostCode hpure).part fun k hk => hl hk) σ hσ).1
      have hτ₁ : Store.IsNear s.host J origin' (s'.evaluate left τ).2 := by
        have hcode : s'.HostCode origin' left (HostAction.IsPure J) := hpure.part fun k hk => hl hk
        have hkept := (keeps_of_isPure hcode τ (by rwa [h.host])).1
        rwa [h.host] at hkept
      exact ihr (fun hopen => hclosed (hopen.of_part (hr (Node.mem_walk_self _))))
        (fun k hk => hflat k (hr hk)) (hpure.part fun k hk => hr hk) (fun k hk => hfinds k (hr hk))
        hσ₁ hτ₁ hb
  | conditional condition truthy falsy _ _ _ =>
      have hnone := hflat _ (Node.mem_walk_self _)
      cases hnone

/-- Where a tree without conditionals has a value when the variables have values, a part fails, when
they are unset, only in a node below which a call is given an argument in which one of them occurs,
and not because of a name. -/
theorem Unsets.of_evaluate_eq_error (h : s.Unsets s' origin origin' names) {heap : Heap}
    (hheap : J heap)
    (hbare : ∀ name ∈ names, ∀ b', s'.lookup name = some b' → IsBare s.host heap b'.value)
    {tree m : Node} (hflat : ∀ k ∈ tree.walk, k.isA .conditional = false)
    (hpure : s'.HostCode origin' tree (HostAction.IsPure J)) {σ τ : Store} {v : Value}
    (hτ : Store.IsNear s.host J origin' τ) (hv : (s'.evaluate tree τ).1 = .ok v)
    (hm : m ∈ tree.walk) (hσ : Store.IsNear s.host J origin σ) {fault : Fault}
    (hfault : (s.evaluate m σ).1 = .error fault) :
    fault.root.isNaming = false ∧
      ∃ k ∈ m.walk, k.HasOpenCall names ∧ ∃ cause, fault = .evaluation k.text cause := by
  have hpart {k : Node} (hk : k ∈ tree.walk) : s'.HostCode origin' k (HostAction.IsPure J) :=
    hpure.part fun n hn => Node.walk_subset hk hn
  have hsub {k : Node} (hk : k ∈ m.walk) : k ∈ tree.walk := Node.walk_subset hm hk
  -- With values for the variables every part has a value, so every reference finds what it names.
  have hvalue {k : Node} (hk : k ∈ tree.walk) :
      ∃ τ x, Store.IsNear s.host J origin' τ ∧ (s'.evaluate k τ).1 = .ok x := by
    refine exists_value_of_part (fun n hn υ hυ => ?_) hflat hτ hv hk
    have hkept := (keeps_of_isPure (hpart hn) υ (by rwa [h.host])).1
    rwa [h.host] at hkept
  have hfinds {k : Node} (hk : k ∈ tree.walk) : s.Finds origin J k := by
    obtain ⟨υ, x, hυ, hx⟩ := hvalue hk
    exact h.finds hheap hbare (finds_of_isPure (hpart hk) (by rwa [h.host]) hx)
  have hcode : s.HostCode origin m (Keeps J fun _ => True) :=
    (h.hostCode (hpart hm)).mono HostAction.IsPure.keeps
  refine ⟨(keeps_evaluate_of_finds (fun k hk => hfinds (hsub hk)) hcode σ hσ).2 fault hfault, ?_⟩
  obtain ⟨above, k, cause, hfails, rfl⟩ := exists_failsIn hfault
  obtain ⟨hk, σ₁, hσ₁, hown⟩ := hfails.exists_own
    (fun n hn υ hυ => (keeps_of_isPure (h.hostCode (hpart (hsub hn))) υ hυ).1) hσ
  have hnames : cause.within k.text = .evaluation k.text cause := by
    rw [Fault.within, if_neg (by simp [hfails.isEvaluation])]
  refine ⟨k, hk, Classical.byContradiction fun hclosed => ?_, cause, hnames⟩
  -- A node without such a call does not fail by itself.
  obtain ⟨υ, x, hυ, hx⟩ := hvalue (hsub hk)
  obtain ⟨y, hy, _⟩ := h.value hheap hclosed (fun n hn => hflat n (Node.walk_subset (hsub hk) hn))
    (hpart (hsub hk)) (fun n hn => hfinds (Node.walk_subset (hsub hk) hn)) hσ₁ hυ hx
  rw [evaluate_of_failsIn hown] at hy
  cases hy

end Setting

end Formula
