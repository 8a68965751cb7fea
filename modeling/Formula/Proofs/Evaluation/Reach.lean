import Formula.Proofs.Evaluation.Failure
import Formula.Proofs.Evaluation.Steps

set_option autoImplicit false

/-! # What an evaluation reaches

Evaluating a node starts the evaluation of parts of it: an argument after the arguments before it, a
right operand after the left one, one branch after the condition. `Setting.Starts` says which parts
these are and in which store each one starts, and `Setting.Reaches` follows them down the tree.

Main statements: `Setting.FailsIn.exists_reaches` (an evaluation that fails in a node reaches it, and
the node fails by itself there) and `Setting.FailsIn.exists_value_of_starts` (all parts that this node
started have values). -/

namespace Formula.Setting

variable {s : Setting} {σ τ υ : Store} {n m k : Node} {cause : Fault}

/-- The evaluation of a node in a store starts the evaluation of a part in another store, the one
that the parts before it leave. -/
inductive Starts (s : Setting) : Store → Node → Store → Node → Prop
  | argument {σ τ : Store} {parent : Option String} {n : String} {before after : List Node}
      {argument : Node} {values : List Value} :
      s.evaluateAll before σ = (.ok values, τ) →
      Starts s σ (.call parent n (before ++ argument :: after)) τ argument
  | left {σ : Store} {op : Operator} {left right : Node} :
      Starts s σ (.binary op left right) σ left
  | right {σ τ : Store} {op : Operator} {left right : Node} {a : Value} :
      s.evaluate left σ = (.ok a, τ) → right.items? = none →
      Starts s σ (.binary op left right) τ right
  | condition {σ : Store} {condition truthy falsy : Node} :
      Starts s σ (.conditional condition truthy falsy) σ condition
  | branch {σ τ : Store} {condition truthy falsy : Node} {v : Value} {b : Bool} :
      s.evaluate condition σ = (.ok v, τ) → Setting.holds v = .ok b →
      Starts s σ (.conditional condition truthy falsy) τ (if b then truthy else falsy)

/-- The evaluation of a tree in a store comes to a node, in another store. -/
inductive Reaches (s : Setting) : Store → Node → Store → Node → Prop
  | here {σ : Store} {n : Node} : Reaches s σ n σ n
  | part {σ τ υ : Store} {n k m : Node} :
      s.Starts σ n τ k → Reaches s τ k υ m → Reaches s σ n υ m

/-! ## Parts of the tree -/

theorem Starts.walk_subset (h : s.Starts σ n τ k) (hm : m ∈ k.walk) : m ∈ n.walk := by
  cases h with
  | argument _ => exact Node.mem_walk_call.2 (.inr ⟨_, by simp, hm⟩)
  | left => exact Node.mem_walk_binary.2 (.inr (.inl hm))
  | right _ _ => exact Node.mem_walk_binary.2 (.inr (.inr hm))
  | condition => exact Node.mem_walk_conditional.2 (.inr (.inl hm))
  | @branch _ _ _ _ _ b _ _ =>
      cases b with
      | true => exact Node.mem_walk_conditional.2 (.inr (.inr (.inl hm)))
      | false => exact Node.mem_walk_conditional.2 (.inr (.inr (.inr hm)))

/-- What an evaluation reaches is part of the tree. -/
theorem Reaches.mem_walk (h : s.Reaches σ n τ m) : m ∈ n.walk := by
  induction h with
  | here => exact Node.mem_walk_self _
  | part hstarts _ ih => exact hstarts.walk_subset ih

/-! ## Invariants -/

section Invariant

variable {I : Store → Prop}

/-- What all parts of a tree keep still holds where a part starts. -/
theorem Starts.keeps (h : s.Starts σ n τ k) (hkeeps : ∀ k ∈ n.walk, ∀ σ, I σ → I (s.evaluate k σ).2)
    (hσ : I σ) : I τ := by
  cases h with
  | left => exact hσ
  | condition => exact hσ
  | @argument _ parent n before after argument values hbefore =>
      have hall : Keeps I (fun _ => True) (s.evaluateAll before) := by
        refine keeps_evaluateAll fun k hk τ hτ => ⟨hkeeps k ?_ τ hτ, fun _ _ => trivial⟩
        exact Node.mem_walk_call.2 (.inr ⟨k, List.mem_append_left _ hk, Node.mem_walk_self k⟩)
      have hkept := (hall σ hσ).1
      rw [hbefore] at hkept
      exact hkept
  | @right _ op left right a ha _ =>
      have hkept := hkeeps left (Node.mem_walk_binary.2 (.inr (.inl (Node.mem_walk_self _)))) σ hσ
      rw [ha] at hkept
      exact hkept
  | @branch _ condition truthy falsy v b hv _ =>
      have hkept :=
        hkeeps condition (Node.mem_walk_conditional.2 (.inr (.inl (Node.mem_walk_self _)))) σ hσ
      rw [hv] at hkept
      exact hkept

/-- What all parts of a tree keep still holds wherever its evaluation comes. -/
theorem Reaches.keeps (h : s.Reaches σ n τ m)
    (hkeeps : ∀ k ∈ n.walk, ∀ σ, I σ → I (s.evaluate k σ).2) (hσ : I σ) : I τ := by
  induction h with
  | here => exact hσ
  | part hstarts _ ih =>
      exact ih (fun k hk => hkeeps k (hstarts.walk_subset hk)) (hstarts.keeps hkeeps hσ)

end Invariant

/-! ## Failures -/

/-- An evaluation that fails in a node comes to this node, which fails by itself there. -/
theorem FailsIn.exists_reaches {above : List Node} (h : s.FailsIn σ n above m cause) :
    ∃ τ, s.Reaches σ n τ m ∧ s.FailsIn τ m [] m cause := by
  induction h with
  | name h => exact ⟨_, .here, .name h⟩
  | member h => exact ⟨_, .here, .member h⟩
  | call hvalues h => exact ⟨_, .here, .call hvalues h⟩
  | apply ha hitems hb h => exact ⟨_, .here, .apply ha hitems hb h⟩
  | applyToItems ha hitems h => exact ⟨_, .here, .applyToItems ha hitems h⟩
  | holds hv h => exact ⟨_, .here, .holds hv h⟩
  | argument hbefore _ ih =>
      obtain ⟨τ, hreaches, hown⟩ := ih
      exact ⟨τ, .part (.argument hbefore) hreaches, hown⟩
  | left _ ih =>
      obtain ⟨τ, hreaches, hown⟩ := ih
      exact ⟨τ, .part .left hreaches, hown⟩
  | right ha hitems _ ih =>
      obtain ⟨τ, hreaches, hown⟩ := ih
      exact ⟨τ, .part (.right ha hitems) hreaches, hown⟩
  | condition _ ih =>
      obtain ⟨τ, hreaches, hown⟩ := ih
      exact ⟨τ, .part .condition hreaches, hown⟩
  | branch hv hb _ ih =>
      obtain ⟨τ, hreaches, hown⟩ := ih
      exact ⟨τ, .part (.branch hv hb) hreaches, hown⟩

/-- Where some trees have values, the one after the first of them has a value. -/
theorem exists_value_of_argument {before after : List Node} {argument : Node}
    {values all : List Value} (hbefore : s.evaluateAll before σ = (.ok values, τ))
    (hall : s.evaluateAll (before ++ argument :: after) σ = (.ok all, υ)) :
    ∃ v, (s.evaluate argument τ).1 = .ok v := by
  cases hargument : (s.evaluate argument τ).1 with
  | ok v => exact ⟨v, rfl⟩
  | error fault =>
      have hfails : (s.evaluateAll (before ++ argument :: after) σ).1 = .error fault :=
        evaluateAll_of_argument hbefore hargument
      rw [hall] at hfails
      cases hfails

/-- The parts that a node started before it failed by itself have values. -/
theorem FailsIn.exists_value_of_starts (h : s.FailsIn σ m [] m cause) (hstarts : s.Starts σ m τ k) :
    ∃ v, (s.evaluate k τ).1 = .ok v := by
  cases h with
  | name _ => cases hstarts
  | member _ => cases hstarts
  | @call _ _ _ _ arguments _ _ hvalues _ =>
      -- The arguments are split at the part that was started, which no case analysis finds out
      -- while the node is written with its list of arguments.
      generalize hm : Node.call _ _ arguments = m at hstarts
      cases hstarts with
      | argument hbefore =>
          cases hm
          exact exists_value_of_argument hbefore hvalues
      | _ => cases hm
  | apply ha _ hb _ =>
      cases hstarts with
      | left => exact ⟨_, congrArg Prod.fst ha⟩
      | right ha' _ =>
          rw [ha] at ha'
          cases ha'
          exact ⟨_, congrArg Prod.fst hb⟩
  | applyToItems ha hitems _ =>
      cases hstarts with
      | left => exact ⟨_, congrArg Prod.fst ha⟩
      | right _ hnone =>
          -- A list on the right is not evaluated by itself.
          rw [hitems] at hnone
          cases hnone
  | holds hv herror =>
      generalize hm : Node.conditional _ _ _ = m at hstarts
      cases hstarts with
      | condition =>
          cases hm
          exact ⟨_, congrArg Prod.fst hv⟩
      | branch hv' hb =>
          -- No branch was started, since the condition has no truth value.
          cases hm
          rw [hv] at hv'
          cases hv'
          rw [herror] at hb
          cases hb
      | _ => cases hm

end Formula.Setting
