import Formula.Proofs.Evaluation.Failure
import Formula.Proofs.Member.Visible
import Formula.Proofs.Session.Reachable

set_option autoImplicit false

/-! # Hidden state stays hidden

In every session the member tables have public names only, and the table of a variable is the one
registered for its type. So an expression reads nothing under a hidden name of a variable, whatever
the classes, the instances and the scopes are: it fails as if the name were unknown. A method that is
not public cannot be called.

Main statement: `Session.evaluate_hidden`. -/

namespace Formula

/-! ## Steps -/

namespace Setting

variable {s : Setting} {parent name : String} {b : Binding} {σ : Store}

/-- A member that is hidden is not there. -/
theorem run_readMember_of_hides (hb : s.lookup parent = some b)
    (hpublic : (σ.table b.members).members.ArePublic)
    (hides : (σ.table b.members).Hides s.host σ.heap b.value name) :
    s.readMember parent name σ = (.error (.noMember name parent), σ) := by
  have hget : (get : Action Store) σ = (.ok σ, σ) := rfl
  unfold readMember
  rw [hb]
  simp only
  rw [run_bind_of_ok hget, hides.hasMember hpublic]
  by_cases hnone : b.value.isNone = true
  · rw [if_pos hnone]
    rfl
  · rw [if_neg hnone]
    have hread : Action.ofHost ((σ.table b.members).readMember? s.host b.value name) σ =
        (.ok none, σ) := by
      unfold Action.ofHost
      rw [hides.run_readMember? hpublic]
    rw [run_bind_of_ok hread]
    rfl

/-- A method that the type does not have is not there, whatever it is given. -/
theorem run_callMethod_of_not_hasMethod (hb : s.lookup parent = some b)
    (hmethod : (σ.table b.members).hasMethod name = false) (values : List Value) :
    s.callMethod parent name values σ = (.error (.noMethod name parent), σ) := by
  have hget : (get : Action Store) σ = (.ok σ, σ) := rfl
  unfold callMethod
  rw [hb]
  simp only
  rw [run_bind_of_ok hget, hmethod]
  rfl

end Setting

/-! ## Tables -/

namespace World

variable {w : World} {k j : Nat}

/-- All scopes of a chain have the same root. -/
theorem root_of_mem_chain (h : j ∈ w.chain k) : w.root j = w.root k := by
  induction k using Nat.strongRecOn with
  | ind k ih =>
      rw [chain] at h
      rw [w.root_eq k]
      cases hparent : (w.scope k).parent with
      | none =>
          simp only [hparent, List.mem_singleton] at h
          rw [h, root_eq, hparent]
      | some parent =>
          by_cases hlt : parent < k
          · simp only [hparent, if_pos hlt, List.mem_cons] at h ⊢
            rcases h with rfl | h
            · rw [root_eq, hparent]
              exact if_pos hlt
            · exact ih parent hlt h
          · simp only [hparent, if_neg hlt, List.mem_singleton] at h ⊢
            rw [h, root_eq, hparent]
            exact if_neg hlt

/-- The table of a variable is the one registered for its type, from wherever it is seen. -/
theorem IsConsistent.registered?_of_lookup (h : w.IsConsistent) {name : String} {b : Binding}
    (hb : w.lookup k name = some b) : w.registered? k b.type = some b.members := by
  obtain ⟨owner, howner, hfound⟩ := List.exists_of_findSome?_eq_some hb
  have htable := h.mapped hfound
  unfold registered? at htable ⊢
  rwa [← root_of_mem_chain howner]

theorem isLasting_arePublic (u : Universe) : IsLasting u fun w => w.store.ArePublic := by
  refine isLasting_ofStore ?_ fun σ t h => h.addTable u t
  constructor
  · intro σ heap h
    exact h
  · intro σ events h
    exact h
  · intro σ id method types h
    exact h.alike (σ.alike_resolve id method types)

end World

namespace Session

variable {host : Universe} {s : Session}

/-- Tables that were registered for another type have public names only as well. -/
theorem IsReachable.arePublic (h : s.IsReachable host) : s.world.store.ArePublic := by
  refine Arises.lasting (World.isLasting_arePublic host) Store.arePublic_empty ?_ h
  intro s scope t table _ _ hpublic
  rw [(World.onlyBinds_register _ scope scope t table).2.1]
  exact hpublic

/-! ## Expressions -/

/-- No expression reaches hidden state. In every session, let a scope bind a name to a variable, with
a value or only with a type. Its type has a registered member table, and from any later store, with
any heap, a member whose name is hidden is not found: the evaluation ends with the error that there
is no such member. A call of a method whose name is not public ends likewise, once its arguments have
values. -/
theorem evaluate_hidden (h : s.IsReachable host) {k : Nat} {p : String} {b : Binding}
    (hb : s.world.lookup k p = some b) (functions : FunctionTable) (traced : Bool) {σ : Store}
    (hσ : s.world.store.Alike host σ) :
    let view : Setting := ⟨host, functions, s.world.lookup k, traced⟩
    ∃ table, s.world.registered? k b.type = some table ∧
      (∀ n, (s.world.store.table table).Hides host σ.heap b.value n →
        (view.evaluate (.member p n) σ).1 =
          .error (.evaluation (Node.member p n).text (.noMember n p))) ∧
      ∀ n arguments, isPublic n = false →
        (∃ values, (view.evaluateAll arguments σ).1 = .ok values) →
        (view.evaluate (.call (some p) n arguments) σ).1 =
          .error (.evaluation (Node.call (some p) n arguments).text (.noMethod n p)) := by
  intro view
  have htables := h.arePublic.alike hσ
  refine ⟨b.members, h.isConsistent.world.registered?_of_lookup hb, ?_, ?_⟩
  · intro n hides
    have hread : view.readMember p n σ = (.error (.noMember n p), σ) := by
      refine Setting.run_readMember_of_hides hb (htables _) ?_
      unfold MemberTable.Hides at hides ⊢
      rwa [(hσ b.members).hasMember, (hσ b.members).hasMethod]
    rw [Setting.evaluate, Setting.complete_of_error hread]
    rfl
  · rintro n arguments hn ⟨values, hvalues⟩
    rcases harguments : view.evaluateAll arguments σ with ⟨result, τ⟩
    obtain rfl : result = .ok values := by simpa [harguments] using hvalues
    -- The arguments may leave other signatures in the tables, but no other members.
    have hkeeps : Keeps (s.world.store.Alike host) (fun _ => True)
        (view.evaluateAll arguments) :=
      Setting.keeps_evaluateAll fun n _ => view.keeps_evaluate_tables s.world.store n
    have hτ : s.world.store.Alike host τ := by
      have hafter := (hkeeps σ hσ).1
      rwa [harguments] at hafter
    have hmethod := MemberTable.hasMethod_of_not_isPublic (h.arePublic.alike hτ b.members) hn
    have hcall : (do
        let values ← view.evaluateAll arguments
        view.call (some p) n values : Action Value) σ = (.error (.noMethod n p), τ) := by
      rw [run_bind_of_ok harguments]
      exact Setting.run_callMethod_of_not_hasMethod hb hmethod values
    rw [Setting.evaluate, Setting.complete_of_error hcall]
    rfl

/-- A class in which everything has a private name. -/
def vault : Universe :=
  ⟨[⟨"Vault", [], none, [("_pin", .field (some (.type .int)) none),
    ("_code", .other (.property (.self "_pin"))),
    ("_open", .other (.method ⟨.ofInstance, [], .self "_pin", []⟩))]⟩], []⟩

/-- A session in which an instance is bound that has a private attribute, and one that can be
called. -/
def guarding : Session :=
  let attributes : Dictionary String Value := ⟨[("_pin", .int 1234), ("alarm", .function)]⟩
  let started := Session.empty.after vault [.makeInterpreter ⟨false, false, false⟩]
  (started.withHeap ⟨⟨[("v", attributes)]⟩, [], 0⟩).after vault
    [.assign 0 "vault" (.object ⟨"Vault", "v"⟩), .makeScope 0]

theorem isReachable_guarding : guarding.IsReachable vault := by
  have hstarted : (Session.empty.after vault [.makeInterpreter ⟨false, false, false⟩]).IsReachable
      vault := Arises.after .empty ⟨trivial, trivial⟩ fun _ _ _ => trivial
  have hfilled := Arises.heap ⟨⟨[("v", ⟨[("_pin", .int 1234), ("alarm", .function)]⟩)]⟩, [], 0⟩
    hstarted
  refine Arises.after hfilled (allows_of_isPossible hfilled.isConsistent ?_) fun _ _ _ => trivial
  intro c hc
  simp only [List.mem_cons, List.not_mem_nil, or_false] at hc
  rcases hc with rfl | rfl
  · exact Nat.zero_lt_one
  · exact Nat.zero_lt_one

unseal World.chain in
theorem evaluate_hidden_vault :
    let view : Setting := ⟨vault, .empty, guarding.world.lookup 1, false⟩
    let σ := guarding.world.store
    guarding.IsReachable vault ∧
      guarding.world.lookup 1 "vault" =
        some ⟨⟨.declared "Vault", .object ⟨"Vault", "v"⟩⟩, 0⟩ ∧
      (∀ n ∈ ["_pin", "_code", "_open", "alarm"], (view.evaluate (.member "vault" n) σ).1 =
        .error (.evaluation ("vault." ++ n) (.noMember n "vault"))) ∧
      (view.evaluate (.call (some "vault") "_open" []) σ).1 =
        .error (.evaluation "vault._open()" (.noMethod "_open" "vault")) := by
  intro view σ
  have hb : guarding.world.lookup 1 "vault" =
      some ⟨⟨.declared "Vault", .object ⟨"Vault", "v"⟩⟩, 0⟩ := by rfl
  obtain ⟨table, htable, hmembers, hmethods⟩ :=
    evaluate_hidden isReachable_guarding hb .empty false (.refl σ)
  obtain rfl : 0 = table := Option.some.inj htable
  refine ⟨isReachable_guarding, hb, ?_, hmethods "_open" [] rfl ⟨[], rfl⟩⟩
  intro n hn
  simp only [List.mem_cons, List.not_mem_nil, or_false] at hn
  rcases hn with rfl | rfl | rfl | rfl
  · exact hmembers "_pin" (.inl rfl)
  · exact hmembers "_code" (.inl rfl)
  · exact hmembers "_open" (.inl rfl)
  · exact hmembers "alarm" (.inr ⟨rfl, .inr (.inl rfl)⟩)

end Session

end Formula
