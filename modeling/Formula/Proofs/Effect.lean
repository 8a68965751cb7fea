import Formula.Fault

set_option autoImplicit false

/-! # Effects

Host code, evaluation and what is done to a world are all actions on a state that may fail and keep
what they did before failing. Two properties of such an action are carried from its parts to the
whole: it keeps an invariant while its faults are of some kind (`Keeps`), and it gives the same as
another action, from any two states in a relation to states in this relation (`Simulates`). Where the
relation is that both states have an invariant, the result does not depend on the state
(`Agrees`). -/

namespace Formula

variable {σ α β : Type}

/-! ## Running -/

theorem run_get (s : σ) : (get : ExceptT Fault (StateM σ) σ) s = (.ok s, s) := rfl

theorem run_bind_of_ok {a : ExceptT Fault (StateM σ) α} {f : α → ExceptT Fault (StateM σ) β}
    {s s' : σ} {x : α} (h : a s = (.ok x, s')) : (a >>= f) s = f x s' := by
  show (match a s with | (r, s') => ExceptT.bindCont f r s') = f x s'
  rw [h]
  rfl

theorem run_bind_of_error {a : ExceptT Fault (StateM σ) α} {f : α → ExceptT Fault (StateM σ) β}
    {s s' : σ} {fault : Fault} (h : a s = (.error fault, s')) :
    (a >>= f) s = (.error fault, s') := by
  show (match a s with | (r, s') => ExceptT.bindCont f r s') = (.error fault, s')
  rw [h]
  rfl

/-- A sequence depends on its first part by what this gives and where it leads. -/
theorem run_bind_congr {a b : ExceptT Fault (StateM σ) α} {f : α → ExceptT Fault (StateM σ) β}
    {s t : σ} (h : a s = b t) : (a >>= f) s = (b >>= f) t := by
  show (match a s with | (r, s') => ExceptT.bindCont f r s') =
    (match b t with | (r, s') => ExceptT.bindCont f r s')
  rw [h]

/-- And it depends on its second part where the first one leads to. -/
theorem run_bind_congr_right {a : ExceptT Fault (StateM σ) α}
    {f g : α → ExceptT Fault (StateM σ) β} {s : σ}
    (h : ∀ x s', a s = (.ok x, s') → f x s' = g x s') : (a >>= f) s = (a >>= g) s := by
  rcases ha : a s with ⟨fault | x, s'⟩
  · rw [run_bind_of_error ha, run_bind_of_error ha]
  · rw [run_bind_of_ok ha, run_bind_of_ok ha]
    exact h x s' ha

theorem of_run_pure_eq_ok {s s' : σ} {x y : α}
    (h : (pure x : ExceptT Fault (StateM σ) α) s = (.ok y, s')) : y = x ∧ s' = s := by
  cases h
  exact ⟨rfl, rfl⟩

/-- A sequence fails like its first part. -/
theorem run_bind_eq_error {a : ExceptT Fault (StateM σ) α} {f : α → ExceptT Fault (StateM σ) β}
    {s : σ} {fault : Fault} (h : (a s).1 = .error fault) : ((a >>= f) s).1 = .error fault := by
  rcases hrun : a s with ⟨r, s'⟩
  rw [hrun] at h
  simp only at h
  subst h
  rw [run_bind_of_error hrun]

theorem run_tryCatch_of_ok {a : ExceptT Fault (StateM σ) α}
    {f : Fault → ExceptT Fault (StateM σ) α} {s s' : σ} {x : α} (h : a s = (.ok x, s')) :
    (tryCatch a f) s = (.ok x, s') := by
  simp only [tryCatch, tryCatchThe, MonadExceptOf.tryCatch, ExceptT.tryCatch, ExceptT.mk,
    bind, StateT.bind, h]
  rfl

theorem run_tryCatch_of_error {a : ExceptT Fault (StateM σ) α}
    {f : Fault → ExceptT Fault (StateM σ) α} {s s' : σ} {fault : Fault}
    (h : a s = (.error fault, s')) : (tryCatch a f) s = f fault s' := by
  simp only [tryCatch, tryCatchThe, MonadExceptOf.tryCatch, ExceptT.tryCatch, ExceptT.mk,
    bind, StateT.bind, h]

/-- An action that does not fail leaves nothing to catch. -/
theorem run_caught_of_ok {a : ExceptT Fault (StateM σ) α} {s s' : σ} {x : α}
    (h : a s = (.ok x, s')) : Fault.caught a s = (.ok none, s') := by
  have hdone : (a >>= fun _ => pure none : ExceptT Fault (StateM σ) (Option Fault)) s =
      (.ok none, s') := run_bind_of_ok h
  exact run_tryCatch_of_ok hdone

/-- The fault of an evaluation is caught. -/
theorem run_caught_of_error {a : ExceptT Fault (StateM σ) α} {s s' : σ} {fault : Fault}
    (h : a s = (.error fault, s')) (hfault : fault.isEvaluation = true) :
    Fault.caught a s = (.ok (some fault), s') := by
  have hfailed : (a >>= fun _ => pure none : ExceptT Fault (StateM σ) (Option Fault)) s =
      (.error fault, s') := run_bind_of_error h
  unfold Fault.caught
  rw [run_tryCatch_of_error hfailed, if_pos hfault]
  rfl

/-- What is caught depends on what an action gives and where it leads. -/
theorem run_caught_congr {a b : ExceptT Fault (StateM σ) α} {s t : σ} (h : a s = b t) :
    Fault.caught a s = Fault.caught b t := by
  have hbind := run_bind_congr (f := fun _ => (pure none : ExceptT Fault (StateM σ) (Option Fault))) h
  unfold Fault.caught
  simp only [tryCatch, tryCatchThe, MonadExceptOf.tryCatch, ExceptT.tryCatch, ExceptT.mk, bind,
    StateT.bind] at hbind ⊢
  rw [hbind]

/-- Nothing was there to catch only if the action did not fail. -/
theorem of_run_caught_eq_none {a : ExceptT Fault (StateM σ) α} {s s' : σ}
    (h : Fault.caught a s = (.ok none, s')) : ∃ x, a s = (.ok x, s') := by
  rcases ha : a s with ⟨fault | x, s₁⟩
  · have hfailed : (a >>= fun _ => pure none : ExceptT Fault (StateM σ) (Option Fault)) s =
        (.error fault, s₁) := run_bind_of_error ha
    unfold Fault.caught at h
    rw [run_tryCatch_of_error hfailed] at h
    split at h
    · cases h
    · cases h
  · rw [run_caught_of_ok ha] at h
    cases h
    exact ⟨x, rfl⟩

/-- What a sequence gave was given by its second part, unless the first one failed. -/
theorem of_run_bind_eq_ok {a : ExceptT Fault (StateM σ) α} {f : α → ExceptT Fault (StateM σ) β}
    {s s'' : σ} {y : β} (h : (a >>= f) s = (.ok y, s'')) :
    ∃ x s', a s = (.ok x, s') ∧ f x s' = (.ok y, s'') := by
  rcases ha : a s with ⟨x | x, s'⟩
  · rw [run_bind_of_error ha] at h
    cases h
  · exact ⟨x, s', rfl, by rwa [run_bind_of_ok ha] at h⟩

/-- A sequence that failed did so in its first part, or in its second one. -/
theorem of_run_bind_eq_error {a : ExceptT Fault (StateM σ) α} {f : α → ExceptT Fault (StateM σ) β}
    {s : σ} {fault : Fault} (h : ((a >>= f) s).1 = .error fault) :
    (a s).1 = .error fault ∨ ∃ x s', a s = (.ok x, s') ∧ (f x s').1 = .error fault := by
  rcases ha : a s with ⟨cause | x, s'⟩
  · rw [run_bind_of_error ha] at h
    cases h
    exact .inl rfl
  · rw [run_bind_of_ok ha] at h
    exact .inr ⟨x, s', rfl, h⟩

/-- An action does the same when its result is left out. -/
theorem run_bind_pure {a : ExceptT Fault (StateM σ) α} (y : β) (s : σ) :
    ((a >>= fun _ => pure y) s).2 = (a s).2 := by
  rcases ha : a s with ⟨fault | x, s'⟩
  · rw [run_bind_of_error ha]
  · rw [run_bind_of_ok ha]
    rfl

/-! ## Invariants and faults -/

/-- The action leads from states with an invariant to such states, and fails there with faults of
some kind only. -/
def Keeps (I : σ → Prop) (E : Fault → Prop) (a : ExceptT Fault (StateM σ) α) : Prop :=
  ∀ s, I s → I (a s).2 ∧ ∀ fault, (a s).1 = .error fault → E fault

namespace Keeps

variable {I : σ → Prop} {E : Fault → Prop}

theorem pure (x : α) : Keeps I E (pure x : ExceptT Fault (StateM σ) α) :=
  fun _ hs => ⟨hs, fun _ h => by cases h⟩

theorem throw {fault : Fault} (h : E fault) :
    Keeps I E (throw fault : ExceptT Fault (StateM σ) α) := by
  refine fun s hs => ⟨hs, fun f hf => ?_⟩
  cases hf
  exact h

theorem get : Keeps I E (get : ExceptT Fault (StateM σ) σ) :=
  fun _ hs => ⟨hs, fun _ h => by cases h⟩

theorem modify {f : σ → σ} (h : ∀ s, I s → I (f s)) :
    Keeps I E (modify f : ExceptT Fault (StateM σ) PUnit) :=
  fun s hs => ⟨h s hs, fun _ h => by cases h⟩

/-- The second part of a sequence is only asked about what the first one can give. -/
theorem bind_of {a : ExceptT Fault (StateM σ) α} {f : α → ExceptT Fault (StateM σ) β}
    (ha : Keeps I E a) (hf : ∀ s x, I s → (a s).1 = .ok x → Keeps I E (f x)) :
    Keeps I E (a >>= f) := by
  intro s hs
  obtain ⟨hstate, hfault⟩ := ha s hs
  rcases hrun : a s with ⟨fault | x, s'⟩
  · rw [run_bind_of_error hrun]
    rw [hrun] at hstate hfault
    refine ⟨hstate, fun f hf => ?_⟩
    cases hf
    exact hfault fault rfl
  · rw [run_bind_of_ok hrun]
    rw [hrun] at hstate
    exact hf s x hs (by rw [hrun]) s' hstate

theorem bind {a : ExceptT Fault (StateM σ) α} {f : α → ExceptT Fault (StateM σ) β}
    (ha : Keeps I E a) (hf : ∀ x, Keeps I E (f x)) : Keeps I E (a >>= f) :=
  ha.bind_of fun _ x _ _ => hf x

/-- What is read is a state with the invariant. -/
theorem get_bind {f : σ → ExceptT Fault (StateM σ) α} (hf : ∀ s, I s → Keeps I E (f s)) :
    Keeps I E (MonadState.get >>= f) :=
  fun s hs => hf s hs s hs

theorem map {a : ExceptT Fault (StateM σ) α} (ha : Keeps I E a) (f : α → β) :
    Keeps I E (f <$> a) := by
  rw [← bind_pure_comp]
  exact ha.bind fun x => .pure (f x)

theorem tryCatch {a : ExceptT Fault (StateM σ) α} {f : Fault → ExceptT Fault (StateM σ) α}
    {E' : Fault → Prop} (ha : Keeps I E' a) (hf : ∀ fault, E' fault → Keeps I E (f fault)) :
    Keeps I E (tryCatch a f) := by
  intro s hs
  obtain ⟨hstate, hfault⟩ := ha s hs
  rcases hrun : a s with ⟨fault | x, s'⟩
  · rw [run_tryCatch_of_error hrun]
    rw [hrun] at hstate hfault
    exact hf fault (hfault fault rfl) s' hstate
  · rw [run_tryCatch_of_ok hrun]
    rw [hrun] at hstate
    exact ⟨hstate, fun _ h => by cases h⟩

/-- What is not caught fails as before. -/
theorem caught {a : ExceptT Fault (StateM σ) α} (ha : Keeps I E a) :
    Keeps I E (Fault.caught a) := by
  refine .tryCatch (ha.bind fun _ => .pure _) fun fault hfault => ?_
  split
  · exact .pure _
  · exact .throw hfault

theorem mono {E' : Fault → Prop} {a : ExceptT Fault (StateM σ) α} (h : Keeps I E a)
    (himp : ∀ fault, E fault → E' fault) : Keeps I E' a :=
  fun s hs => ⟨(h s hs).1, fun fault hf => himp fault ((h s hs).2 fault hf)⟩

/-- An action that keeps an invariant and fails in some way has both properties together. -/
theorem and_fault {E' : Fault → Prop} {a : ExceptT Fault (StateM σ) α} (h : Keeps I E a)
    (h' : Keeps (fun _ => True) E' a) : Keeps I E' a :=
  fun s hs => ⟨(h s hs).1, (h' s trivial).2⟩

end Keeps

/-! ## Two runs -/

/-- On any two states in a relation two actions give the same, or fail in the same way, and lead to
states in the relation. -/
def Simulates (R : σ → σ → Prop) (a b : ExceptT Fault (StateM σ) α) : Prop :=
  ∀ s t, R s t → (a s).1 = (b t).1 ∧ R (a s).2 (b t).2

namespace Simulates

variable {R : σ → σ → Prop}

theorem pure (x : α) : Simulates R (pure x : ExceptT Fault (StateM σ) α) (pure x) :=
  fun _ _ h => ⟨rfl, h⟩

theorem throw (fault : Fault) :
    Simulates R (throw fault : ExceptT Fault (StateM σ) α) (throw fault) :=
  fun _ _ h => ⟨rfl, h⟩

/-- Two sequences, run on two given states. -/
theorem run_bind {a b : ExceptT Fault (StateM σ) α} {f g : α → ExceptT Fault (StateM σ) β} {s t : σ}
    (h : (a s).1 = (b t).1 ∧ R (a s).2 (b t).2)
    (hfg : ∀ x s' t', a s = (.ok x, s') → R s' t' →
      (f x s').1 = (g x t').1 ∧ R (f x s').2 (g x t').2) :
    ((a >>= f) s).1 = ((b >>= g) t).1 ∧ R ((a >>= f) s).2 ((b >>= g) t).2 := by
  obtain ⟨hsame, hst'⟩ := h
  rcases hras : a s with ⟨fault | x, s'⟩ <;> rcases hrbt : b t with ⟨fault' | y, t'⟩ <;>
    rw [hras, hrbt] at hsame hst' <;> cases hsame
  · rw [run_bind_of_error hras, run_bind_of_error hrbt]
    exact ⟨rfl, hst'⟩
  · rw [run_bind_of_ok hras, run_bind_of_ok hrbt]
    exact hfg x s' t' hras hst'

theorem bind {a b : ExceptT Fault (StateM σ) α} {f g : α → ExceptT Fault (StateM σ) β}
    (h : Simulates R a b) (hfg : ∀ x, Simulates R (f x) (g x)) :
    Simulates R (a >>= f) (b >>= g) :=
  fun s t hst => run_bind (h s t hst) fun x s' t' _ hst' => hfg x s' t' hst'

theorem get_bind {f g : σ → ExceptT Fault (StateM σ) α}
    (h : ∀ s t, R s t → Simulates R (f s) (g t)) :
    Simulates R (MonadState.get >>= f) (MonadState.get >>= g) :=
  fun s t hst => h s t hst s t hst

theorem tryCatch {a b : ExceptT Fault (StateM σ) α} {f g : Fault → ExceptT Fault (StateM σ) α}
    (h : Simulates R a b) (hfg : ∀ fault, Simulates R (f fault) (g fault)) :
    Simulates R (tryCatch a f) (tryCatch b g) := by
  intro s t hst
  obtain ⟨hsame, hst'⟩ := h s t hst
  rcases hras : a s with ⟨fault | x, s'⟩ <;> rcases hrbt : b t with ⟨fault' | y, t'⟩ <;>
    rw [hras, hrbt] at hsame hst' <;> cases hsame
  · rw [run_tryCatch_of_error hras, run_tryCatch_of_error hrbt]
    exact hfg fault s' t' hst'
  · rw [run_tryCatch_of_ok hras, run_tryCatch_of_ok hrbt]
    exact ⟨rfl, hst'⟩

theorem caught {a b : ExceptT Fault (StateM σ) α} (h : Simulates R a b) :
    Simulates R (Fault.caught a) (Fault.caught b) := by
  refine .tryCatch (h.bind fun _ => .pure _) fun fault => ?_
  split
  · exact .pure _
  · exact .throw fault

end Simulates

/-- Two actions give the same, or fail in the same way, on any two states with an invariant, and lead
to such states. -/
def Agrees (I : σ → Prop) (a b : ExceptT Fault (StateM σ) α) : Prop :=
  ∀ s t, I s → I t → (a s).1 = (b t).1 ∧ I (a s).2 ∧ I (b t).2

theorem agrees_iff {I : σ → Prop} {a b : ExceptT Fault (StateM σ) α} :
    Agrees I a b ↔ Simulates (fun s t => I s ∧ I t) a b :=
  ⟨fun h s t hst => h s t hst.1 hst.2, fun h s t hs ht => h s t ⟨hs, ht⟩⟩

end Formula
