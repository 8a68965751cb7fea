import Formula.Proofs.Evaluation.Parts
import Formula.Proofs.Source.Composition
import Formula.Proofs.Validation.Alarms
import Mathlib.Data.List.Perm.Subperm

set_option autoImplicit false

/-! # How often a part is reported

A part of a text that fails is reported when it is checked by itself, and again for every call that
fails because of it. The conditionals around it add nothing: with pure host code they fail with the
fault that is known already. So a part is reported at most once for each node with its text, apart
from the calls that are masked by it.

Main statement: `Interpreter.validate_counts`. -/

namespace Formula

namespace Fault

/-- The expression part that a fault names. -/
def part? : Fault → Option String
  | evaluation part _ => some part
  | _ => none

variable {known faults : List Fault}

theorem mem_of_mem_fresh {fault : Fault} (h : fault ∈ fresh known faults) : fault ∈ faults := by
  induction faults generalizing known with
  | nil => cases h
  | cons first faults ih =>
      rw [fresh] at h
      split at h
      · exact List.mem_cons_of_mem _ (ih h)
      · rcases List.mem_cons.1 h with rfl | h
        · exact List.mem_cons_self
        · exact List.mem_cons_of_mem _ (ih h)

/-- What is fresh is not known. -/
theorem identity_ne_of_mem_fresh {fault f : Fault} (h : fault ∈ fresh known faults)
    (hf : f ∈ known) : f.identity ≠ fault.identity := by
  induction faults generalizing known with
  | nil => cases h
  | cons first faults ih =>
      rw [fresh] at h
      split at h
      next => exact ih h hf
      next hknown =>
        rcases List.mem_cons.1 h with rfl | h
        · intro hsame
          exact hknown (List.any_eq_true.2 ⟨f, hf, beq_iff_eq.2 hsame⟩)
        · exact ih h (List.mem_append_left _ hf)

theorem nodup_fresh (known faults : List Fault) : (fresh known faults).Nodup := by
  induction faults generalizing known with
  | nil => exact List.nodup_nil
  | cons first faults ih =>
      rw [fresh]
      split
      · exact ih known
      · refine List.nodup_cons.2 ⟨fun h => ?_, ih _⟩
        exact identity_ne_of_mem_fresh h (List.mem_append_right _ List.mem_cons_self) rfl

end Fault

/-! ## Visits -/

/-- Whether a node is a reference. -/
def Node.isReference (n : Node) : Bool := Expression.references.any fun c => n.isA c

theorem Node.find_references (tree : Node) :
    tree.find Expression.references true true = tree.walk.filter isReference := rfl

namespace Expression

variable {s : Setting}

theorem map_fst_visits (nodes : List Node) (σ : Store) :
    (visits s nodes σ).map Prod.fst = nodes := by
  induction nodes generalizing σ with
  | nil => rfl
  | cons node nodes ih => rw [visits, List.map_cons, ih]

/-- A property of stores that the evaluation of each of some trees keeps holds after all visits. -/
theorem of_afterVisits {I : Store → Prop} {nodes : List Node} {σ : Store}
    (hkeeps : ∀ n ∈ nodes, ∀ σ, I σ → I (s.evaluate n σ).2) (hσ : I σ) :
    I (afterVisits s nodes σ) := by
  induction nodes generalizing σ with
  | nil => exact hσ
  | cons node nodes ih =>
      exact ih (fun n hn => hkeeps n (List.mem_cons_of_mem _ hn))
        (hkeeps node List.mem_cons_self σ hσ)

end Expression

namespace Setting

variable {s : Setting} {J : Heap → Prop} {origin σ : Store} {tree n : Node} {fault : Fault}

/-- Whether a tree failed with the fault of another part: a call is masked by an argument. -/
def isMasked (s : Setting) (part : String) (visit : Node × Store) : Bool :=
  (s.faultAt? visit).any (·.part? == some part) && visit.1.text != part

theorem faultAt?_eq_some {visit : Node × Store} :
    s.faultAt? visit = some fault ↔ (s.evaluate visit.1 visit.2).1 = .error fault := by
  unfold faultAt?
  split
  next v hv => simp [hv]
  next other hother => simp [hother]

/-- Pure host code keeps the stores near in which the parts of a tree are evaluated. -/
theorem keeps_part (hpure : s.HostCode origin tree (HostAction.IsPure J)) (hn : n ∈ tree.walk)
    (hσ : Store.IsNear s.host J origin σ) : Store.IsNear s.host J origin (s.evaluate n σ).2 :=
  (keeps_of_isPure (hpure.part fun _ hk => Node.walk_subset hn hk) σ hσ).1

/-- With pure host code the part that a fault names fails with this very fault in every store. -/
theorem exists_part (hpure : s.HostCode origin tree (HostAction.IsPure J)) (hn : n ∈ tree.walk)
    (hσ : Store.IsNear s.host J origin σ) (h : (s.evaluate n σ).1 = .error fault) :
    ∃ m ∈ tree.walk, fault.part? = some m.text ∧
      ∀ τ, Store.IsNear s.host J origin τ → (s.evaluate m τ).1 = .error fault := by
  obtain ⟨above, m, cause, hfails, rfl⟩ := exists_failsIn h
  obtain ⟨hm, υ, hυ, hown⟩ := hfails.exists_own
    (fun k hk τ hτ => keeps_part hpure (Node.walk_subset hn hk) hτ) hσ
  have hwalk := Node.walk_subset hn hm
  refine ⟨m, hwalk, ?_, fun τ hτ => ?_⟩
  · rw [Fault.within, if_neg (by simp [hfails.isEvaluation])]
    rfl
  · have hcode := hpure.part fun k hk => Node.walk_subset hwalk hk
    have hsame := (agrees_of_isPure hcode s.traced τ υ hτ hυ).1
    exact hsame.trans (evaluate_of_failsIn hown)

end Setting

/-! ## Counting -/

namespace Interpreter

variable {i : Interpreter} {text : String} {types : Dictionary String ValueType} {w : World}
  {tree : Node} {J : Heap → Prop}

/-- The references report a part once for each reference with its text that fails, and once for each
call that it masks. -/
theorem countP_found_le (i : Interpreter) (types : Dictionary String ValueType) (w : World)
    (tree : Node) (part : String) :
    (i.found types w tree).countP (·.part? == some part) ≤
      tree.walk.countP (fun m => m.text == part && m.isReference) +
        (i.scan types w tree).countP ((i.checking types w).isMasked part) := by
  let named : Node × Store → Bool := fun visit =>
    ((i.checking types w).faultAt? visit).any (·.part? == some part)
  have hnamed : (i.found types w tree).countP (·.part? == some part) =
      (i.scan types w tree).countP named := by
    rw [found, List.countP_filterMap]
    refine List.countP_congr fun visit _ => ?_
    cases hfault : (i.checking types w).faultAt? visit <;> simp [named, hfault]
  have hown : ((i.scan types w tree).filter (·.1.text == part)).length =
      tree.walk.countP (fun m => m.text == part && m.isReference) := by
    rw [← List.countP_eq_length_filter, ← List.countP_filter, ← Node.find_references,
      ← Expression.map_fst_visits (s := i.checking types w)
        (tree.find Expression.references true true) (i.declaring types w).store, List.countP_map]
    rfl
  have hmasked : ((i.scan types w tree).filter (!·.1.text == part)).countP named =
      (i.scan types w tree).countP ((i.checking types w).isMasked part) :=
    List.countP_filter
  rw [hnamed, List.countP_eq_countP_filter_add _ named (·.1.text == part), ← hown, ← hmasked]
  exact Nat.add_le_add_right List.countP_le_length _

/-- With pure host code a fault that a conditional adds is that of a part which is no reference. -/
theorem exists_of_mem_added
    (hpure : (i.checking types w).HostCode (i.declaring types w).store tree (HostAction.IsPure J))
    (hheap : J w.store.heap) {fault : Fault} (h : fault ∈ i.added types w tree) :
    ∃ m ∈ tree.walk, m.isReference = false ∧ fault.part? = some m.text ∧
      (i.checking types w).faultAt? (m, (i.declaring types w).store) = some fault := by
  have hdeclared : Store.IsNear i.host J (i.declaring types w).store (i.declaring types w).store :=
    ⟨(i.heap_declaring types w).symm ▸ hheap, .refl _⟩
  have hkeeps {classes : List Node.Class} : ∀ n ∈ tree.find classes true true, ∀ σ,
      Store.IsNear i.host J (i.declaring types w).store σ →
        Store.IsNear i.host J (i.declaring types w).store ((i.checking types w).evaluate n σ).2 :=
    fun n hn _ hσ => Setting.keeps_part hpure (Node.mem_find.1 hn).1 hσ
  obtain ⟨⟨n, σ⟩, hvisit, hfails⟩ := List.mem_filterMap.1 (Fault.mem_of_mem_fresh h)
  obtain ⟨hn, hσ⟩ := Expression.of_mem_visits hkeeps
    (Expression.of_afterVisits hkeeps hdeclared) _ hvisit
  obtain ⟨m, hm, hnamed, hsame⟩ := Setting.exists_part hpure (Node.mem_find.1 hn).1 hσ
    (Setting.faultAt?_eq_some.1 hfails)
  refine ⟨m, hm, ?_, hnamed, Setting.faultAt?_eq_some.2 (hsame _ hdeclared)⟩
  -- A reference has this fault when it is checked by itself, so the fault would be known.
  refine Bool.eq_false_iff.2 fun href => ?_
  have hmem : m ∈ tree.find Expression.references true true := by
    rw [Node.find_references]
    exact List.mem_filter.2 ⟨hm, href⟩
  obtain ⟨τ, hτ⟩ := Expression.mem_visits (s := i.checking types w) hmem (i.declaring types w).store
  have hnear := (Expression.of_mem_visits hkeeps hdeclared _ hτ).2
  have hknown : fault ∈ i.found types w tree :=
    List.mem_filterMap.2 ⟨(m, τ), hτ, Setting.faultAt?_eq_some.2 (hsame τ hnear)⟩
  exact Fault.identity_ne_of_mem_fresh h hknown rfl

/-- The conditionals report a part at most once for each node with its text, and nothing about a
reference. -/
theorem countP_added_le
    (hpure : (i.checking types w).HostCode (i.declaring types w).store tree (HostAction.IsPure J))
    (hheap : J w.store.heap) (part : String) :
    (i.added types w tree).countP (·.part? == some part) ≤
      tree.walk.countP (fun m => m.text == part && !m.isReference) := by
  let outcome : Node → Option Fault := fun m =>
    (i.checking types w).faultAt? (m, (i.declaring types w).store)
  let others := tree.walk.filter fun m => m.text == part && !m.isReference
  have hsubset : (i.added types w tree).filter (·.part? == some part) ⊆ others.filterMap outcome := by
    intro fault hfault
    obtain ⟨hadded, hpart⟩ := List.mem_filter.1 hfault
    obtain ⟨m, hm, hother, hnamed, hfails⟩ := exists_of_mem_added hpure hheap hadded
    have htext : m.text = part := by
      rw [hnamed] at hpart
      simpa using hpart
    exact List.mem_filterMap.2 ⟨m, List.mem_filter.2 ⟨hm, by simp [htext, hother]⟩, hfails⟩
  have hnodup : ((i.added types w tree).filter (·.part? == some part)).Nodup :=
    (Fault.nodup_fresh _ _).filter _
  rw [List.countP_eq_length_filter, List.countP_eq_length_filter]
  exact Nat.le_trans (List.subperm_of_subset hnodup hsubset).length_le (List.length_filterMap_le _ _)

/-- A validation reports each part at most once for each node with its text, and once more for each
call that is masked by it. -/
theorem validate_counts (htext : readText i.config.strict text = .ok tree) (hheap : J w.store.heap)
    (hpure : (∃ m ∈ tree.walk, m.isA .conditional = true) →
      (i.checking types (i.reading text w)).HostCode (i.declaring types (i.reading text w)).store
        tree (HostAction.IsPure J)) :
    ∃ report w', i.validate text types w = (.ok report, w') ∧ ∀ part,
      report.faults.countP (·.part? == some part) ≤ tree.walk.countP (·.text == part) +
        (i.scan types (i.reading text w) tree).countP
          ((i.checking types (i.reading text w)).isMasked part) := by
  obtain ⟨report, w', hvalidate, hfaults⟩ :=
    i.faults_validateTree text tree types (i.reading text w)
  refine ⟨report, w', (Validation.run_validate types w htext).trans hvalidate, fun part => ?_⟩
  have hreferences := i.countP_found_le types (i.reading text w) tree part
  have hconditionals : (i.added types (i.reading text w) tree).countP (·.part? == some part) ≤
      tree.walk.countP (fun m => m.text == part && !m.isReference) := by
    by_cases hnone : tree.find [.conditional] true true = []
    · rw [added, scanConditionals, hnone]
      exact Nat.zero_le _
    · obtain ⟨m, hm⟩ := List.exists_mem_of_ne_nil _ hnone
      obtain ⟨hwalk, c, hc, hisA⟩ := Node.mem_find.1 hm
      rw [List.mem_singleton.1 hc] at hisA
      exact countP_added_le (hpure ⟨m, hwalk, hisA⟩) hheap part
  have hnodes := List.countP_eq_countP_filter_add tree.walk (·.text == part) Node.isReference
  rw [List.countP_filter, List.countP_filter] at hnodes
  rw [hfaults, List.countP_append, hnodes]
  omega

/-! ## Examples -/

theorem readText_choice : readText false "b if a else d" = .ok choiceTree := by
  have htokens : tokenize false "b if a else d" = .ok choiceTokens := by rfl
  have hshallow : isTooDeep choiceTokens = false := by rfl
  exact readText_eq_ok htokens readsAs_choice.tree hshallow

theorem validate_counts_choice :
    readText echoing.config.strict "b if a else d" = .ok choiceTree ∧
      ∃ report w', echoing.validate "b if a else d" .empty .single = (.ok report, w') ∧ ∀ part,
        report.faults.countP (·.part? == some part) ≤ choiceTree.walk.countP (·.text == part) +
          (echoing.scan .empty (echoing.reading "b if a else d" .single) choiceTree).countP
            ((echoing.checking .empty (echoing.reading "b if a else d" .single)).isMasked part) := by
  refine ⟨readText_choice, validate_counts (J := fun _ => True) readText_choice trivial fun _ => ?_⟩
  exact {
    function := fun hmem => by simp [choiceTree] at hmem
    member := fun hmem => by simp [choiceTree] at hmem
    method := fun hmem => by simp [choiceTree] at hmem }

/-- The tree of `echo(x)`. -/
def echoCallTree : Node := .call none "echo" [.name "x"]

theorem readText_echoCall : readText false "echo(x)" = .ok echoCallTree := by
  let tokens : List Token := [⟨.name, "echo", 0, "echo"⟩, ⟨.leftParen, "(", 1, "("⟩,
    ⟨.name, "x", 2, "x"⟩, ⟨.rightParen, ")", 3, ")"⟩]
  have htokens : tokenize false "echo(x)" = .ok tokens := by rfl
  have hparse : parseTokens tokens = .ok echoCallTree := by cbv
  have hdepth : Nesting.deepest [] tokens = 1 := by rfl
  have hshallow : isTooDeep tokens = false := by rw [isTooDeep, hdepth]; rfl
  exact readText_eq_ok htokens hparse hshallow

unseal World.chain in
/-- An argument that is not bound is reported twice. -/
theorem validate_repeats :
    readText echoing.config.strict "echo(x)" = .ok echoCallTree ∧
      echoCallTree.walk.countP (·.text == "x") = 1 ∧
      ∃ report, (echoing.validate "echo(x)" .empty .single).1 = .ok report ∧
        report.faults.countP (·.part? == some "x") = 2 := by
  have hvalidate : (echoing.validate "echo(x)" .empty .single).1 =
      .ok ⟨false, [.evaluation "x" (.unboundName "x"), .evaluation "x" (.unboundName "x")], none⟩ := by
    rw [Validation.run_validate _ _ readText_echoCall]
    rfl
  exact ⟨readText_echoCall, by rfl, _, hvalidate, by rfl⟩

end Interpreter

end Formula
