import Formula.Proofs.Tree.Walk
import Formula.Tree.Chain
import Formula.Tree.Text

set_option autoImplicit false

/-! # Chains as the source of a tree shows them

The source of an operation shows its operands bare or in brackets. Taken apart at the bare ones it is
a chain (`Node.chain`), and the brackets are such that grouping this chain by precedence gives the
operation back.

Main statements: `Chain.group_eq_self` (a chain grouped by precedence is the grouping of its operands
and operators) and `Node.group_chain`. -/

namespace Formula

namespace Chain

/-! ## Grouped chains -/

/-- The outermost operator of a grouped chain, if it has one, is of at least the given precedence. -/
def BindsFrom (precedence : Nat) : Chain → Prop
  | operand _ => True
  | apply op _ _ => precedence ≤ op.precedence

/-- Every operation has operands that bind no less tightly than it does, and more tightly on its
right. -/
def IsGrouped : Chain → Prop
  | operand _ => True
  | apply op left right => left.IsGrouped ∧ right.IsGrouped ∧ left.BindsFrom op.precedence ∧
      right.BindsFrom (op.precedence + 1)

theorem BindsFrom.mono {p q : Nat} {c : Chain} (h : c.BindsFrom q) (hpq : p ≤ q) :
    c.BindsFrom p := by
  cases c with
  | operand node => trivial
  | apply op left right => exact Nat.le_trans hpq h

/-- No operator of a grouped chain binds less tightly than the outermost one. -/
theorem le_precedence_of_mem_links {c : Chain} {p : Nat} (hc : c.IsGrouped) (hp : c.BindsFrom p) :
    ∀ link ∈ c.links, p ≤ link.1.precedence := by
  induction c generalizing p with
  | operand node => simp [links]
  | apply op left right ihl ihr =>
      obtain ⟨hleft, hright, hbl, hbr⟩ := hc
      intro link hlink
      simp only [links, List.mem_append, List.mem_cons] at hlink
      rcases hlink with hlink | rfl | hlink
      · exact ihl hleft (hbl.mono hp) link hlink
      · exact hp
      · exact ihr hright (hbr.mono (Nat.le_succ_of_le hp)) link hlink

/-- Adding links one after the other. -/
def attachAll (c : Chain) (links : List (Operator × Node)) : Chain :=
  links.foldl (fun chain (op, node) => attach op node chain) c

theorem attachAll_append (c : Chain) (ks ls : List (Operator × Node)) :
    c.attachAll (ks ++ ls) = (c.attachAll ks).attachAll ls :=
  List.foldl_append

/-- Links that bind more tightly than an operation go into its right operand. -/
theorem attachAll_apply {op : Operator} {left c : Chain} {ls : List (Operator × Node)}
    (h : ∀ link ∈ ls, op.precedence < link.1.precedence) :
    (apply op left c).attachAll ls = apply op left (c.attachAll ls) := by
  induction ls generalizing c with
  | nil => rfl
  | cons link ls ih =>
      have hlink : op.precedence < link.1.precedence := h link (by simp)
      have hattach : (apply op left c).attach link.1 link.2 =
          apply op left (c.attach link.1 link.2) := by
        rw [attach, if_pos hlink]
      have hrest := @ih (c.attach link.1 link.2) fun l hl => h l (List.mem_cons_of_mem _ hl)
      simpa [attachAll, hattach] using hrest

/-- An operation that binds no less tightly becomes the left operand of a new one. -/
theorem attach_of_bindsFrom {op : Operator} {node : Node} {c : Chain}
    (h : c.BindsFrom op.precedence) : c.attach op node = apply op c (operand node) := by
  cases c with
  | operand first => rfl
  | apply o left right =>
      have hle : op.precedence ≤ o.precedence := h
      rw [attach, if_neg (by omega)]

/-- A grouped chain is what its operands and operators are grouped to. -/
theorem group_eq_self {c : Chain} (h : c.IsGrouped) : group c.head c.links = c := by
  induction c with
  | operand node => rfl
  | apply op left right ihl ihr =>
      obtain ⟨hleft, hright, hbl, hbr⟩ := h
      have hlinks : ∀ link ∈ right.links, op.precedence < link.1.precedence :=
        le_precedence_of_mem_links hright hbr
      have hl : (operand left.head).attachAll left.links = left := ihl hleft
      have hr : (operand right.head).attachAll right.links = right := ihr hright
      calc group (apply op left right).head (apply op left right).links
          = (operand left.head).attachAll (left.links ++ (op, right.head) :: right.links) := rfl
        _ = (left.attach op right.head).attachAll right.links := by
            rw [attachAll_append, hl]
            rfl
        _ = apply op left ((operand right.head).attachAll right.links) := by
            rw [attach_of_bindsFrom hbl, attachAll_apply hlinks]
        _ = apply op left right := by rw [hr]

/-! ## Operands -/

/-- The operands of a chain, in order. -/
def operands : Chain → List Node
  | operand node => [node]
  | apply _ left right => left.operands ++ right.operands

theorem operands_eq (c : Chain) : c.operands = c.head :: c.links.map Prod.snd := by
  induction c with
  | operand node => rfl
  | apply op left right ihl ihr => simp [operands, head, links, ihl, ihr]

theorem operands_group (first : Node) (links : List (Operator × Node)) :
    (group first links).operands = first :: links.map Prod.snd := by
  rw [operands_eq, (items_group first links).1, (items_group first links).2]

/-- The nodes of a grouped chain are its operations and the nodes of its operands. -/
theorem mem_walk_toNode {c : Chain} {m : Node} (h : m ∈ c.toNode.walk) :
    (∃ link ∈ c.links, ∃ left right, m = .binary link.1 left right) ∨
      ∃ n ∈ c.operands, m ∈ n.walk := by
  induction c with
  | operand node => exact .inr ⟨node, by simp [operands], h⟩
  | apply op left right ihl ihr =>
      rcases Node.mem_walk_binary.1 h with rfl | h | h
      · exact .inl ⟨(op, right.head), by simp [links], _, _, rfl⟩
      · rcases ihl h with ⟨link, hlink, hm⟩ | ⟨n, hn, hm⟩
        · exact .inl ⟨link, List.mem_append_left _ hlink, hm⟩
        · exact .inr ⟨n, List.mem_append_left _ hn, hm⟩
      · rcases ihr h with ⟨link, hlink, hm⟩ | ⟨n, hn, hm⟩
        · exact .inl ⟨link, List.mem_append_right _ (List.mem_cons_of_mem _ hlink), hm⟩
        · exact .inr ⟨n, List.mem_append_right _ hn, hm⟩

end Chain

namespace Node

/-! ## The chain of a tree -/

/-- Whether an operand is shown in brackets. -/
def isBracketed (op : Operator) (onRight : Bool) (operand : Node) : Bool :=
  bracketsAlways op || needsBrackets op.precedence onRight operand

/-- A tree taken apart at the operands that are shown without brackets. -/
def chain : Node → Chain
  | binary op left right =>
    .apply op (if isBracketed op false left then .operand left else chain left)
      (if isBracketed op true right then .operand right else chain right)
  | node => .operand node

theorem toNode_chain (n : Node) : n.chain.toNode = n := by
  fun_induction chain n with
  | case1 op left right ihl ihr =>
      have hleft : (if isBracketed op false left then Chain.operand left
          else chain left).toNode = left := by
        split
        · rfl
        · exact ihl
      have hright : (if isBracketed op true right then Chain.operand right
          else chain right).toNode = right := by
        split
        · rfl
        · exact ihr
      rw [Chain.toNode, hleft, hright]
  | case2 => rfl

/-- An operand that needs no brackets binds as tightly as its place asks for. -/
theorem bindsFrom_chain {op : Operator} {onRight : Bool} {n : Node}
    (h : isBracketed op onRight n = false) :
    n.chain.BindsFrom (if onRight then op.precedence + 1 else op.precedence) := by
  simp only [isBracketed, Bool.or_eq_false_iff] at h
  cases n with
  | binary o left right =>
      have hprecedence := h.2
      simp only [needsBrackets, Bool.or_eq_false_iff, decide_eq_false_iff_not] at hprecedence
      simp only [chain, Chain.BindsFrom]
      cases onRight with
      | false => simpa using hprecedence.1
      | true =>
          have hne : o.precedence ≠ op.precedence := by simpa using hprecedence.2
          have hge := hprecedence.1
          simp only [↓reduceIte]
          omega
  | literal | list | name | member | call | conditional => trivial

theorem isGrouped_chain (n : Node) : n.chain.IsGrouped := by
  fun_induction chain n with
  | case1 op left right ihl ihr =>
      refine ⟨?_, ?_, ?_, ?_⟩
      · split
        · trivial
        · exact ihl
      · split
        · trivial
        · exact ihr
      · split
        · trivial
        next h => exact @bindsFrom_chain op false left (by simpa using h)
      · split
        · trivial
        next h => exact @bindsFrom_chain op true right (by simpa using h)
  | case2 => trivial

/-- Grouping the chain of a tree gives the tree back. -/
theorem group_chain (n : Node) : (Chain.group n.chain.head n.chain.links).toNode = n := by
  rw [Chain.group_eq_self n.isGrouped_chain, toNode_chain]

end Node

end Formula
