import Formula.Tree

set_option autoImplicit false

/-! # The nodes of a tree

The walk through a tree meets the node itself and whatever the walks through its parts meet, and
nothing else.

Main statement: `Node.parts` (a property that is passed on from the parts of a node to the node holds
of every tree). -/

namespace Formula.Node

/-! ## Induction -/

/-- A property of trees that each node takes over from its parts. -/
@[elab_as_elim]
theorem parts {motive : Node → Prop} (literal : ∀ value, motive (.literal value))
    (list : ∀ items, motive (.list items)) (name : ∀ n, motive (.name n))
    (member : ∀ parent n, motive (.member parent n))
    (call : ∀ parent n arguments, (∀ argument ∈ arguments, motive argument) →
      motive (.call parent n arguments))
    (binary : ∀ op left right, motive left → motive right → motive (.binary op left right))
    (conditional : ∀ condition truthy falsy, motive condition → motive truthy → motive falsy →
      motive (.conditional condition truthy falsy))
    (n : Node) : motive n :=
  @Node.rec motive (fun nodes => ∀ node ∈ nodes, motive node) literal list name member call binary
    conditional (fun _ h => by cases h)
    (fun _ _ hfirst hrest => List.forall_mem_cons.2 ⟨hfirst, hrest⟩) n

/-! ## Walks -/

theorem mem_walk_self (n : Node) : n ∈ n.walk := List.mem_cons_self

section

attribute [local simp] walk walkAll descendants

theorem mem_walkAll {m : Node} {ns : List Node} : m ∈ walkAll ns ↔ ∃ n ∈ ns, m ∈ n.walk := by
  induction ns with
  | nil => simp
  | cons n ns ih =>
      simp only [walk] at ih
      simp [ih, or_assoc]

@[simp] theorem mem_walk_literal {m : Node} {value : Scalar} :
    m ∈ walk (.literal value) ↔ m = .literal value := by
  simp

@[simp] theorem mem_walk_list {m : Node} {items : Items} :
    m ∈ walk (.list items) ↔ m = .list items := by
  simp

@[simp] theorem mem_walk_name {m : Node} {name : String} :
    m ∈ walk (.name name) ↔ m = .name name := by
  simp

@[simp] theorem mem_walk_member {m : Node} {parent name : String} :
    m ∈ walk (.member parent name) ↔ m = .member parent name := by
  simp

@[simp] theorem mem_walk_call {m : Node} {parent : Option String} {name : String}
    {arguments : List Node} :
    m ∈ walk (.call parent name arguments) ↔
      m = .call parent name arguments ∨ ∃ n ∈ arguments, m ∈ n.walk := by
  rw [← mem_walkAll]
  simp

@[simp] theorem mem_walk_binary {m : Node} {op : Operator} {left right : Node} :
    m ∈ walk (.binary op left right) ↔
      m = .binary op left right ∨ m ∈ left.walk ∨ m ∈ right.walk := by
  simp [or_assoc]

@[simp] theorem mem_walk_conditional {m condition truthy falsy : Node} :
    m ∈ walk (.conditional condition truthy falsy) ↔
      m = .conditional condition truthy falsy ∨ m ∈ condition.walk ∨ m ∈ truthy.walk ∨
        m ∈ falsy.walk := by
  simp [or_assoc]

end

/-- The walk through a part stays in the walk through the whole. -/
theorem walk_subset {m n k : Node} (hm : m ∈ n.walk) (hk : k ∈ m.walk) : k ∈ n.walk := by
  induction n using parts with
  | literal value =>
      rw [mem_walk_literal] at hm
      exact hm ▸ hk
  | list items =>
      rw [mem_walk_list] at hm
      exact hm ▸ hk
  | name n =>
      rw [mem_walk_name] at hm
      exact hm ▸ hk
  | member parent n =>
      rw [mem_walk_member] at hm
      exact hm ▸ hk
  | call parent n arguments ih =>
      rcases mem_walk_call.1 hm with rfl | ⟨argument, hargument, hm⟩
      · exact hk
      · exact mem_walk_call.2 (.inr ⟨argument, hargument, ih argument hargument hm⟩)
  | binary op left right ihl ihr =>
      rcases mem_walk_binary.1 hm with rfl | hm | hm
      · exact hk
      · exact mem_walk_binary.2 (.inr (.inl (ihl hm)))
      · exact mem_walk_binary.2 (.inr (.inr (ihr hm)))
  | conditional condition truthy falsy ihc iht ihf =>
      rcases mem_walk_conditional.1 hm with rfl | hm | hm | hm
      · exact hk
      · exact mem_walk_conditional.2 (.inr (.inl (ihc hm)))
      · exact mem_walk_conditional.2 (.inr (.inr (.inl (iht hm))))
      · exact mem_walk_conditional.2 (.inr (.inr (.inr (ihf hm))))

/-- What is sought in a tree is found among all its nodes. -/
theorem mem_find {m n : Node} {classes : List Class} :
    m ∈ n.find classes true true ↔ m ∈ n.walk ∧ ∃ c ∈ classes, m.isA c = true := by
  simp [find, under, walk]

/-! ## Names -/

/-- The variable that a node itself names: a name, or the parent of a member or a method. -/
def subject? : Node → Option String
  | name n => some n
  | member parent _ => some parent
  | call parent _ _ => parent
  | _ => none

end Formula.Node
