import Formula.Proofs.Evaluation.Plain

set_option autoImplicit false

/-! # The lesser and the greater of many values

The functions for the lesser and the greater of two values are called on more values by nesting the
calls. Among integers, and among texts by their length, it does not matter how the calls are nested:
their result is the best of all arguments, and among those that rank alike the last one. An absent
argument changes nothing.

Main statements: `Extremum.isPick_best`, `Extremum.foldsFreely` and, for nested calls in an
expression, `Extremum.evaluate_grouping`. -/

namespace Formula

open Number (Numeric)

/-! ## Integers among numbers -/

namespace Number

/-- Places stay in order on a finer scale. -/
theorem Place.compare_mul {k : Int} (hk : 0 < k) (m n : Int) :
    ((units (m * k)).compare (units (n * k)) == .lt) = decide (m < n) := by
  have hscaled : m * k < n * k ↔ m < n := Int.mul_lt_mul_right hk
  rw [compare]
  by_cases hlt : m < n
  · rw [if_pos (hscaled.2 hlt), decide_eq_true hlt]
    rfl
  · rw [if_neg (mt hscaled.1 hlt), decide_eq_false hlt]
    split <;> rfl

theorem Numeric.less_int (m n : Int) : less (.int m) (.int n) = decide (m < n) :=
  Place.compare_mul (Int.natCast_pos.2 (powerOfTwo_pos unitExponent)) m n

end Number

/-! ## Which of two -/

/-- What is sought among some values. -/
inductive Extremum where
  | least
  | greatest
  deriving DecidableEq, Repr

namespace Extremum

/-- The function that gives it of two values. -/
def function : Extremum → StandardFunction
  | least => .least
  | greatest => .greatest

/-- Whether the first of two ranks is strictly closer to it. -/
def Precedes : Extremum → Int → Int → Prop
  | least, x, y => x < y
  | greatest, x, y => y < x

instance (e : Extremum) (x y : Int) : Decidable (e.Precedes x y) :=
  match e with
  | least => inferInstanceAs (Decidable (x < y))
  | greatest => inferInstanceAs (Decidable (y < x))

variable {e : Extremum} {x y z : Int}

theorem not_precedes_self (e : Extremum) (x : Int) : ¬ e.Precedes x x := by
  cases e <;> exact Int.lt_irrefl x

theorem Precedes.trans (hxy : e.Precedes x y) (hyz : e.Precedes y z) : e.Precedes x z := by
  cases e with
  | least => exact Int.lt_trans hxy hyz
  | greatest => exact Int.lt_trans hyz hxy

/-- Ranks that do not precede one another, one after the other, do not do so together. -/
theorem not_precedes_trans (hxy : ¬ e.Precedes x y) (hyz : ¬ e.Precedes y z) :
    ¬ e.Precedes x z := by
  cases e <;> simp only [Precedes] at * <;> omega

/-- Of different ranks one precedes the other. -/
theorem precedes_of_not_precedes (hxy : ¬ e.Precedes x y) (hne : y ≠ x) : e.Precedes y x := by
  cases e <;> simp only [Precedes] at * <;> omega

variable {α : Type} (e) (rank : α → Int)

/-- The better of two arguments, the second one unless the first one precedes it. An absent one
gives way. -/
def better : Option α → Option α → Option α
  | none, b => b
  | a, none => a
  | some a, some b => if e.Precedes (rank a) (rank b) then some a else some b

@[simp] theorem better_none_left (b : Option α) : e.better rank none b = b := by
  cases b <;> rfl

@[simp] theorem better_none_right (a : Option α) : e.better rank a none = a := by
  cases a <;> rfl

theorem better_assoc (a b c : Option α) :
    e.better rank (e.better rank a b) c = e.better rank a (e.better rank b c) := by
  cases a with
  | none => simp
  | some a =>
    cases b with
    | none => simp
    | some b =>
      cases c with
      | none => simp
      | some c =>
        by_cases hab : e.Precedes (rank a) (rank b) <;> by_cases hbc : e.Precedes (rank b) (rank c)
        · simp [better, hab, hbc, hab.trans hbc]
        · simp [better, hab, hbc]
        · simp [better, hab, hbc]
        · simp [better, hab, hbc, not_precedes_trans hab hbc]

/-! ## The best of many -/

/-- The best of some arguments. -/
def best (arguments : List (Option α)) : Option α := arguments.foldr (e.better rank) none

theorem best_append (as bs : List (Option α)) :
    e.best rank (as ++ bs) = e.better rank (e.best rank as) (e.best rank bs) := by
  induction as with
  | nil => simp [best]
  | cons a as ih =>
      show e.better rank a (e.best rank (as ++ bs)) = _
      rw [ih, ← better_assoc]
      rfl

/-- One of some arguments, as it is to be picked: no other precedes it, and none after it ranks the
same. It is absent only if all are. -/
structure IsPick (arguments : List (Option α)) (r : Option α) : Prop where
  mem : r ∈ arguments
  absent : r = none → ∀ a ∈ arguments, a = none
  first : ∀ a, r = some a → ∀ b, some b ∈ arguments → ¬ e.Precedes (rank b) (rank a)
  last : ∀ a, r = some a → ∃ before later, arguments = before ++ some a :: later ∧
    ∀ b, some b ∈ later → rank b ≠ rank a

variable {e rank}

theorem isPick_singleton (a : Option α) : e.IsPick rank [a] a where
  mem := List.mem_singleton_self a
  absent h b hb := by rw [List.mem_singleton.1 hb, h]
  first b hb c hc := by
    cases hb
    cases List.mem_singleton.1 hc
    exact e.not_precedes_self _
  last b hb := by
    cases hb
    exact ⟨[], [], rfl, by simp⟩

/-- A pick of the arguments before some others that it precedes is one of all. -/
theorem IsPick.append_left {as bs : List (Option α)} {a : α} (h : e.IsPick rank as (some a))
    (hbs : ∀ b, some b ∈ bs → e.Precedes (rank a) (rank b)) :
    e.IsPick rank (as ++ bs) (some a) where
  mem := List.mem_append_left bs h.mem
  absent hnone := by cases hnone
  first c hc b hb := by
    cases hc
    rcases List.mem_append.1 hb with hb | hb
    · exact h.first a rfl b hb
    · exact fun hba => e.not_precedes_self _ ((hbs b hb).trans hba)
  last c hc := by
    cases hc
    obtain ⟨before, later, rfl, hlater⟩ := h.last a rfl
    refine ⟨before, later ++ bs, by simp, fun b hb heq => ?_⟩
    rcases List.mem_append.1 hb with hb | hb
    · exact hlater b hb heq
    · exact e.not_precedes_self _ (heq ▸ hbs b hb)

/-- A pick of the arguments after some others that do not precede it is one of all. -/
theorem IsPick.append_right {as bs : List (Option α)} {b : α} (h : e.IsPick rank bs (some b))
    (has : ∀ a, some a ∈ as → ¬ e.Precedes (rank a) (rank b)) :
    e.IsPick rank (as ++ bs) (some b) where
  mem := List.mem_append_right as h.mem
  absent hnone := by cases hnone
  first c hc a ha := by
    cases hc
    rcases List.mem_append.1 ha with ha | ha
    · exact has a ha
    · exact h.first b rfl a ha
  last c hc := by
    cases hc
    obtain ⟨before, later, rfl, hlater⟩ := h.last b rfl
    exact ⟨as ++ before, later, by simp, hlater⟩

/-- The better of two picks is the pick of all. -/
theorem IsPick.append {as bs : List (Option α)} {a b : Option α} (ha : e.IsPick rank as a)
    (hb : e.IsPick rank bs b) : e.IsPick rank (as ++ bs) (e.better rank a b) := by
  cases a with
  | none =>
    have has : ∀ a ∈ as, a = none := ha.absent rfl
    rw [better_none_left]
    cases b with
    | none =>
      refine ⟨List.mem_append_left bs ha.mem, fun _ c hc => ?_, by simp, by simp⟩
      exact (List.mem_append.1 hc).elim (has c) (hb.absent rfl c)
    | some b => exact hb.append_right fun c hc => by cases has _ hc
  | some a =>
    cases b with
    | none => exact ha.append_left fun c hc => by cases hb.absent rfl _ hc
    | some b =>
      by_cases hab : e.Precedes (rank a) (rank b)
      · have hbetter : e.better rank (some a) (some b) = some a := if_pos hab
        rw [hbetter]
        refine ha.append_left fun c hc => Decidable.byContradiction fun hac => ?_
        exact not_precedes_trans hac (hb.first b rfl c hc) hab
      · have hbetter : e.better rank (some a) (some b) = some b := if_neg hab
        rw [hbetter]
        exact hb.append_right fun c hc => not_precedes_trans (ha.first a rfl c hc) hab

/-- The best of some arguments is the pick of them. -/
theorem isPick_best {as : List (Option α)} (h : as ≠ []) : e.IsPick rank as (e.best rank as) := by
  induction as with
  | nil => exact absurd rfl h
  | cons a as ih =>
    cases as with
    | nil =>
      have hsingle : e.best rank [a] = a := e.better_none_right rank a
      rw [hsingle]
      exact isPick_singleton a
    | cons b bs => exact (isPick_singleton a).append (ih (List.cons_ne_nil b bs))

end Extremum

/-! ## Calls of two arguments -/

/-- Values of one kind by which they are ranked. -/
structure Ranking (α : Type) where
  value : α → Value
  rank : α → Int

namespace Ranking

/-- The integers. -/
def ints : Ranking Int := ⟨.int, id⟩

/-- The texts, by their length. -/
def texts : Ranking String := ⟨.str, fun s => s.length⟩

variable {α : Type}

/-- The value of an argument, which may be absent. -/
def argument (k : Ranking α) : Option α → Value
  | none => .none
  | some a => k.value a

end Ranking

namespace Extremum

variable {α : Type}

/-- The function gives the better of two arguments. -/
def Decides (e : Extremum) (k : Ranking α) : Prop :=
  ∀ heap a b, e.function.call heap [k.argument a, k.argument b] =
    .ok (k.argument (e.better k.rank a b))

/-- Of two integers it takes the second one only if that is better, which between equals makes no
difference. -/
theorem decides_ints (e : Extremum) : e.Decides .ints := by
  intro heap a b
  cases a with
  | none => cases e <;> cases b <;> rfl
  | some m =>
    cases b with
    | none => cases e <;> rfl
    | some n =>
      have hcall : e.function.call heap [.int m, .int n] =
          .ok (if e.Precedes n m then .int n else .int m) := by
        cases e with
        | least =>
          show Except.ok (if Numeric.less (.int n) (.int m) then Value.int n else .int m) = _
          simp only [Numeric.less_int, decide_eq_true_eq, Precedes]
          rfl
        | greatest =>
          show Except.ok (if Numeric.less (.int m) (.int n) then Value.int n else .int m) = _
          simp only [Numeric.less_int, decide_eq_true_eq, Precedes]
          rfl
      refine hcall.trans (congrArg Except.ok ?_)
      show _ = Ranking.ints.argument (if e.Precedes m n then some m else some n)
      by_cases hmn : e.Precedes m n
      · rw [if_pos hmn, if_neg fun hnm => e.not_precedes_self _ (hmn.trans hnm)]
        rfl
      · by_cases heq : n = m
        · rw [heq, ite_self, ite_self]
          rfl
        · rw [if_neg hmn, if_pos (precedes_of_not_precedes hmn heq)]
          rfl

theorem decides_texts (e : Extremum) : e.Decides .texts := by
  intro heap a b
  cases a with
  | none => cases e <;> cases b <;> rfl
  | some s =>
    cases b with
    | none => cases e <;> rfl
    | some t =>
      show _ = Except.ok (Ranking.texts.argument
        (if e.Precedes s.length t.length then some s else some t))
      rw [apply_ite Ranking.texts.argument]
      cases e with
      | least =>
        show Except.ok (if decide (s.length < t.length) then Value.str s else .str t) = _
        simp only [decide_eq_true_eq, Precedes, Int.ofNat_lt]
        rfl
      | greatest =>
        show Except.ok (if decide (t.length < s.length) then Value.str s else .str t) = _
        simp only [decide_eq_true_eq, Precedes, Int.ofNat_lt]
        rfl

/-- A call of the function gives the better argument and leaves the heap alone. -/
theorem run_ofStandard {e : Extremum} {k : Ranking α} (h : e.Decides k) (u : Universe)
    (a b : Option α) (heap : Heap) :
    (FunctionDefinition.ofStandard e.function).call u [k.argument a, k.argument b] heap =
      (.ok (k.argument (e.better k.rank a b)), heap) := by
  have hrun : (FunctionDefinition.ofStandard e.function).call u [k.argument a, k.argument b] heap =
      (ofExcept (e.function.call heap [k.argument a, k.argument b]) : HostAction Value) heap := by
    cases e <;> rfl
  rw [hrun, h]
  rfl

theorem find?_standard (e : Extremum) :
    FunctionTable.standard.find? e.function.name = some (.ofStandard e.function) := by
  cases e <;> rfl

/-- A call of the function by its name in the standard table. -/
def call (u : Universe) (e : Extremum) (a b : Value) : HostAction Value :=
  FunctionTable.standard.call u e.function.name [a, b]

theorem run_call {e : Extremum} {k : Ranking α} (h : e.Decides k) (u : Universe) (a b : Option α)
    (heap : Heap) :
    e.call u (k.argument a) (k.argument b) heap =
      (.ok (k.argument (e.better k.rank a b)), heap) := by
  rw [call, FunctionTable.call, find?_standard]
  exact run_ofStandard h u a b heap

end Extremum

/-! ## Nested calls -/

/-- Some arguments, and how the calls of a function of two arguments put them together. -/
inductive Grouping (α : Type) where
  | argument (a : α)
  | call (left right : Grouping α)

namespace Grouping

variable {α : Type}

/-- The arguments from left to right. -/
def arguments : Grouping α → List α
  | argument a => [a]
  | call left right => left.arguments ++ right.arguments

theorem arguments_ne_nil (G : Grouping α) : G.arguments ≠ [] := by
  induction G with
  | argument a => exact List.cons_ne_nil a []
  | call left right ihl _ => exact List.append_ne_nil_of_left_ne_nil ihl _

/-- Runs the calls; of each, the left argument comes first. -/
def run (call : Value → Value → HostAction Value) (value : α → Value) :
    Grouping α → HostAction Value
  | argument a => return value a
  | .call left right => do
    let a ← left.run call value
    let b ← right.run call value
    call a b

end Grouping

namespace Extremum

variable {α : Type} {e : Extremum} {k : Ranking α}

/-- However the calls are nested, they give the best of the arguments. -/
theorem run_grouping (h : e.Decides k) (u : Universe) (G : Grouping (Option α)) (heap : Heap) :
    G.run (e.call u) k.argument heap = (.ok (k.argument (e.best k.rank G.arguments)), heap) := by
  induction G with
  | argument a =>
    show _ = (Except.ok (k.argument (e.better k.rank a none)), heap)
    rw [better_none_right]
    rfl
  | call left right ihl ihr =>
    unfold Grouping.run
    rw [run_bind_of_ok ihl, run_bind_of_ok ihr, run_call h, ← best_append]
    rfl

/-- Calls of the function can be regrouped: it is associative, an absent argument is neutral on
either side, nested calls depend on the sequence of the arguments alone, and their result is the
pick of these. -/
structure FoldsFreely (u : Universe) (e : Extremum) (k : Ranking α) : Prop where
  associative : ∀ (a b c : Option α) (heap : Heap),
    (do let ab ← e.call u (k.argument a) (k.argument b); e.call u ab (k.argument c)) heap =
      (do let bc ← e.call u (k.argument b) (k.argument c); e.call u (k.argument a) bc) heap
  absent_left : ∀ (a : Option α) (heap : Heap),
    e.call u .none (k.argument a) heap = (.ok (k.argument a), heap)
  absent_right : ∀ (a : Option α) (heap : Heap),
    e.call u (k.argument a) .none heap = (.ok (k.argument a), heap)
  regroup : ∀ G G' : Grouping (Option α), G.arguments = G'.arguments →
    G.run (e.call u) k.argument = G'.run (e.call u) k.argument
  picks : ∀ (G : Grouping (Option α)) (heap : Heap), ∃ r,
    G.run (e.call u) k.argument heap = (.ok (k.argument r), heap) ∧ e.IsPick k.rank G.arguments r

/-- A function that gives the better of two arguments can be regrouped. -/
theorem foldsFreely_of_decides (h : e.Decides k) (u : Universe) : e.FoldsFreely u k where
  associative a b c heap := by
    rw [run_bind_of_ok (run_call h u a b heap), run_bind_of_ok (run_call h u b c heap),
      run_call h, run_call h, better_assoc]
  absent_left a heap := by
    have hcall := run_call h u none a heap
    rwa [better_none_left] at hcall
  absent_right a heap := by
    have hcall := run_call h u a none heap
    rwa [better_none_right] at hcall
  regroup G G' harguments := by
    funext heap
    rw [run_grouping h, run_grouping h, harguments]
  picks G heap :=
    ⟨e.best k.rank G.arguments, run_grouping h u G heap, isPick_best G.arguments_ne_nil⟩

/-- The lesser and the greater of integers, and those of texts by their length, can be regrouped. -/
theorem foldsFreely (u : Universe) (e : Extremum) :
    e.FoldsFreely u .ints ∧ e.FoldsFreely u .texts :=
  ⟨foldsFreely_of_decides e.decides_ints u, foldsFreely_of_decides e.decides_texts u⟩

/-- Among texts of one length the last one is picked, also from a nested call. -/
example :
    (Grouping.call (.argument (some "ab")) (.call (.argument none) (.argument (some "xy")))).run
      (least.call ⟨[], []⟩) Ranking.texts.argument .empty = (.ok (.str "xy"), .empty) := rfl

end Extremum

/-! ## Expressions -/

/-- The expression of nested calls whose arguments are names. -/
def Grouping.toNode (function : String) : Grouping String → Node
  | argument name => .name name
  | call left right => .call none function [left.toNode function, right.toNode function]

namespace Extremum

variable {α : Type} {e : Extremum} {k : Ranking α} {s : Setting}

/-- A call in an expression gives the better of what its arguments give in every store. -/
theorem evaluate_call (h : e.Decides k)
    (hfunction : s.functions.find? e.function.name = some (.ofStandard e.function))
    {left right : Node} {a b : Option α}
    (hleft : ∀ σ, (s.evaluate left σ).1 = .ok (k.argument a))
    (hright : ∀ σ, (s.evaluate right σ).1 = .ok (k.argument b)) (σ : Store) :
    (s.evaluate (.call none e.function.name [left, right]) σ).1 =
      .ok (k.argument (e.better k.rank a b)) := by
  obtain ⟨σ₁, hl⟩ : ∃ σ₁, s.evaluate left σ = (.ok (k.argument a), σ₁) :=
    ⟨_, Prod.ext (hleft σ) rfl⟩
  obtain ⟨σ₂, hr⟩ : ∃ σ₂, s.evaluate right σ₁ = (.ok (k.argument b), σ₂) :=
    ⟨_, Prod.ext (hright σ₁) rfl⟩
  have harguments : s.evaluateAll [left, right] σ = (.ok [k.argument a, k.argument b], σ₂) := by
    rw [Setting.evaluateAll, run_bind_of_ok hl, Setting.evaluateAll]
    refine run_bind_of_ok (?_ : _ = (Except.ok [k.argument b], σ₂))
    rw [run_bind_of_ok hr, Setting.evaluateAll]
    rfl
  rw [Setting.evaluate, Setting.complete_eq, run_bind_of_ok harguments, Setting.call,
    Setting.callFunction, hfunction]
  simp only
  rw [run_bind_of_ok (s.run_trace _ _), Action.ofHost, run_ofStandard h]
  rfl

/-- So a nested call gives the best of what its names are bound to. -/
theorem evaluate_grouping (h : e.Decides k)
    (hfunction : s.functions.find? e.function.name = some (.ofStandard e.function))
    {value : String → Option α} {G : Grouping String}
    (hnames : ∀ n ∈ G.arguments, ∃ b, s.lookup n = some b ∧ b.value = k.argument (value n))
    (σ : Store) :
    (s.evaluate (G.toNode e.function.name) σ).1 =
      .ok (k.argument (e.best k.rank (G.arguments.map value))) := by
  induction G generalizing σ with
  | argument name =>
    obtain ⟨b, hlookup, hvalue⟩ := hnames name (List.mem_singleton_self name)
    have hbest : e.best k.rank [value name] = value name := e.better_none_right k.rank _
    show (s.evaluate (.name name) σ).1 = .ok (k.argument (e.best k.rank [value name]))
    rw [Setting.evaluate_name hlookup, hvalue, hbest]
  | call left right ihl ihr =>
    have hl := ihl fun n hn => hnames n (List.mem_append_left _ hn)
    have hr := ihr fun n hn => hnames n (List.mem_append_right _ hn)
    refine (evaluate_call h hfunction hl hr σ).trans ?_
    rw [← best_append, ← List.map_append]
    rfl

end Extremum

end Formula
