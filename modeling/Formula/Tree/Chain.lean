import Formula.Tree

set_option autoImplicit false

/-! # Operator chains

A chain is a row of operands with operators between them. It is grouped from left to right: a new
operator goes down the right edge of what has been grouped so far, past the operators that bind
less tightly, and takes what it finds there as its left operand. Operands are never looked into,
so a bracketed operation stays whole.

Main statement: `Chain.items_group` (the operands and operators, read in order, are the chain). -/

namespace Formula

/-- A grouped chain. -/
inductive Chain where
  | operand (node : Node)
  | apply (op : Operator) (left right : Chain)

namespace Chain

/-- The tree of a grouped chain. -/
def toNode : Chain → Node
  | operand node => node
  | apply op left right => .binary op left.toNode right.toNode

/-- Adds an operator and its right operand at the end of a grouped chain. -/
def attach (op : Operator) (node : Node) : Chain → Chain
  | operand first => apply op (operand first) (operand node)
  | apply o left right =>
    if o.precedence < op.precedence then apply o left (attach op node right)
    else apply op (apply o left right) (operand node)

/-- Groups a first operand and the operators and operands that follow it. -/
def group (first : Node) (links : List (Operator × Node)) : Chain :=
  links.foldl (fun chain (op, node) => attach op node chain) (operand first)

/-- The first operand of a grouped chain. -/
def head : Chain → Node
  | operand node => node
  | apply _ left _ => left.head

/-- The operators of a grouped chain with their right neighbours, in order. -/
def links : Chain → List (Operator × Node)
  | operand _ => []
  | apply op left right => left.links ++ (op, right.head) :: right.links

theorem head_attach (op : Operator) (node : Node) (chain : Chain) :
    (chain.attach op node).head = chain.head := by
  induction chain with
  | operand first => rfl
  | apply o left right ihl ihr =>
    simp only [attach]
    split <;> rfl

theorem links_attach (op : Operator) (node : Node) (chain : Chain) :
    (chain.attach op node).links = chain.links ++ [(op, node)] := by
  induction chain with
  | operand first => rfl
  | apply o left right ihl ihr =>
    simp only [attach]
    split
    · simp [links, ihr, head_attach]
    · simp [links, head]

/-- The operands and operators, read in order, are the chain. -/
theorem items_group (first : Node) (rest : List (Operator × Node)) :
    (group first rest).head = first ∧ (group first rest).links = rest := by
  suffices h : ∀ (chain : Chain),
      (rest.foldl (fun chain (x : Operator × Node) => attach x.1 x.2 chain) chain).head =
        chain.head ∧
      (rest.foldl (fun chain (x : Operator × Node) => attach x.1 x.2 chain) chain).links =
        chain.links ++ rest by
    simpa [group, head, links] using h (operand first)
  induction rest with
  | nil => simp
  | cons x rest ih =>
    intro chain
    have := ih (chain.attach x.1 x.2)
    simpa [links_attach, head_attach] using this

end Chain

end Formula
