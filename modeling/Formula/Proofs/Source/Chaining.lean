import Formula.Proofs.Source.RoundTrip

set_option autoImplicit false

/-! # The source of a tree where comparisons are chained

A language may put all comparisons and tests of membership on one level and read a row of them as one
comparison that goes on: `a < b < c` holds where `a < b` and `b < c` do. A row of operands and operators
has one reading in such a language too (`Reading.eq_group_iff`). The source of a tree is bracketed by
the precedence of its own language, so it keeps its grouping there if and only if no comparison stands
bare beside another one.

Main statement: `Node.group_source_iff`. -/

namespace Formula

namespace Operator

/-! ## Levels -/

/-- Whether an operator compares its operands or tests for membership. -/
def isRelational : Operator → Bool
  | member | absent | equal | unequal | greater | less | greaterOrEqual | lessOrEqual => true
  | _ => false

/-- How tightly an operator binds where all comparisons and tests of membership are on one level. -/
def level : Operator → Nat
  | either => 1
  | both => 2
  | member | absent | equal | unequal | greater | less | greaterOrEqual | lessOrEqual => 3
  | plus | minus => 4
  | times | dividedBy => 5

theorem level_le {op o : Operator} (h : op.precedence ≤ o.precedence) : op.level ≤ o.level := by
  revert h
  cases op <;> cases o <;> decide

/-- Only comparisons lose the order that precedence gives them. -/
theorem level_lt_iff {op o : Operator} (h : op.precedence < o.precedence) :
    op.level < o.level ↔ (op.isRelational && o.isRelational) = false := by
  revert h
  cases op <;> cases o <;> decide

end Operator

/-! ## Readings -/

/-- A row that was read: operands, and operations on what stands on the left and on the right. An
operation may go on with the comparison on its left, which is no operand of it then. -/
inductive Reading where
  | operand (node : Node)
  | apply (goesOn : Bool) (op : Operator) (left right : Reading)

namespace Reading

/-- Whether the reading is a comparison, or one that goes on. -/
def isRelational : Reading → Bool
  | operand _ => false
  | apply _ op _ _ => op.isRelational

/-- The first operand of a reading. -/
def head : Reading → Node
  | operand node => node
  | apply _ _ left _ => left.head

/-- The operators of a reading with their right neighbours, in order. -/
def links : Reading → List (Operator × Node)
  | operand _ => []
  | apply _ op left right => left.links ++ (op, right.head) :: right.links

/-- The outermost operator, if there is one, is at least on the given level. -/
def BindsFrom (level : Nat) : Reading → Prop
  | operand _ => True
  | apply _ op _ _ => level ≤ op.level

/-- What is on the left of an operator binds no less tightly, and what is on its right more tightly. A
comparison goes on with the one on its left, if there is one. -/
def Fits : Reading → Prop
  | operand _ => True
  | apply goesOn op left right => left.Fits ∧ right.Fits ∧ left.BindsFrom op.level ∧
      right.BindsFrom (op.level + 1) ∧ goesOn = (op.isRelational && left.isRelational)

/-- Adds an operator and its right operand at the end of a reading. -/
def attach (op : Operator) (node : Node) : Reading → Reading
  | operand first => apply false op (operand first) (operand node)
  | apply goesOn o left right =>
    if o.level < op.level then apply goesOn o left (attach op node right)
    else apply (op.isRelational && o.isRelational) op (apply goesOn o left right) (operand node)

/-- Adds links one after the other. -/
def attachAll (r : Reading) (links : List (Operator × Node)) : Reading :=
  links.foldl (fun reading (op, node) => attach op node reading) r

/-- Reads a first operand and the operators and operands that follow it. -/
def group (first : Node) (links : List (Operator × Node)) : Reading := (operand first).attachAll links

/-! ### Reading from left to right -/

theorem head_attach (op : Operator) (node : Node) (r : Reading) :
    (r.attach op node).head = r.head := by
  cases r with
  | operand first => rfl
  | apply goesOn o left right =>
      rw [attach]
      split <;> rfl

theorem links_attach (op : Operator) (node : Node) (r : Reading) :
    (r.attach op node).links = r.links ++ [(op, node)] := by
  induction r with
  | operand first => rfl
  | apply goesOn o left right _ ihr =>
      rw [attach]
      split
      · simp [links, ihr, head_attach]
      · simp [links, head]

theorem items_attachAll (r : Reading) (ls : List (Operator × Node)) :
    (r.attachAll ls).head = r.head ∧ (r.attachAll ls).links = r.links ++ ls := by
  induction ls generalizing r with
  | nil => exact ⟨rfl, (List.append_nil _).symm⟩
  | cons link ls ih =>
      obtain ⟨hhead, hlinks⟩ := ih (r.attach link.1 link.2)
      rw [head_attach] at hhead
      rw [links_attach, List.append_assoc] at hlinks
      exact ⟨hhead, hlinks⟩

theorem BindsFrom.mono {p q : Nat} {r : Reading} (h : r.BindsFrom q) (hpq : p ≤ q) :
    r.BindsFrom p := by
  cases r with
  | operand node => trivial
  | apply goesOn op left right => exact Nat.le_trans hpq h

theorem BindsFrom.attach {r : Reading} {p : Nat} {op : Operator} (h : r.BindsFrom p)
    (hop : p ≤ op.level) (node : Node) : (r.attach op node).BindsFrom p := by
  cases r with
  | operand first => exact hop
  | apply goesOn o left right =>
      rw [Reading.attach]
      split
      · exact h
      · exact hop

theorem Fits.attach {r : Reading} (h : r.Fits) (op : Operator) (node : Node) :
    (r.attach op node).Fits := by
  induction r with
  | operand first => exact ⟨trivial, trivial, trivial, trivial, (Bool.and_false _).symm⟩
  | apply goesOn o left right _ ihr =>
      obtain ⟨hl, hr, hbl, hbr, hgoesOn⟩ := h
      rw [Reading.attach]
      split
      next hlt => exact ⟨hl, ihr hr, hbl, hbr.attach hlt node, hgoesOn⟩
      next hle => exact ⟨⟨hl, hr, hbl, hbr, hgoesOn⟩, trivial, Nat.le_of_not_lt hle, trivial, rfl⟩

theorem Fits.attachAll {r : Reading} (h : r.Fits) (ls : List (Operator × Node)) :
    (r.attachAll ls).Fits := by
  induction ls generalizing r with
  | nil => exact h
  | cons link ls ih => exact ih (h.attach link.1 link.2)

/-! ### The only reading -/

theorem attachAll_append (r : Reading) (ks ls : List (Operator × Node)) :
    r.attachAll (ks ++ ls) = (r.attachAll ks).attachAll ls :=
  List.foldl_append

/-- No operator of a reading binds less tightly than the outermost one. -/
theorem le_level_of_mem_links {r : Reading} {p : Nat} (hr : r.Fits) (hp : r.BindsFrom p) :
    ∀ link ∈ r.links, p ≤ link.1.level := by
  induction r generalizing p with
  | operand node => simp [links]
  | apply goesOn op left right ihl ihr =>
      obtain ⟨hleft, hright, hbl, hbr, -⟩ := hr
      intro link hlink
      simp only [links, List.mem_append, List.mem_cons] at hlink
      rcases hlink with hlink | rfl | hlink
      · exact ihl hleft (hbl.mono hp) link hlink
      · exact hp
      · exact ihr hright (hbr.mono (Nat.le_succ_of_le hp)) link hlink

/-- Links that bind more tightly than an operation go into its right operand. -/
theorem attachAll_apply {goesOn : Bool} {op : Operator} {left r : Reading}
    {ls : List (Operator × Node)} (h : ∀ link ∈ ls, op.level < link.1.level) :
    (apply goesOn op left r).attachAll ls = apply goesOn op left (r.attachAll ls) := by
  induction ls generalizing r with
  | nil => rfl
  | cons link ls ih =>
      obtain ⟨hlink, hls⟩ := List.forall_mem_cons.1 h
      have hattach : (apply goesOn op left r).attach link.1 link.2 =
          apply goesOn op left (r.attach link.1 link.2) := by
        rw [attach, if_pos hlink]
      have hrest := @ih (r.attach link.1 link.2) hls
      simpa [attachAll, hattach] using hrest

/-- What binds no less tightly than a new operator comes to stand on its left. -/
theorem attach_of_bindsFrom {op : Operator} {node : Node} {r : Reading}
    (h : r.BindsFrom op.level) :
    r.attach op node = apply (op.isRelational && r.isRelational) op r (operand node) := by
  cases r with
  | operand first => rw [attach, isRelational, Bool.and_false]
  | apply goesOn o left right => rw [attach, if_neg (Nat.not_lt.2 h), isRelational]

theorem group_eq_self {r : Reading} (h : r.Fits) : group r.head r.links = r := by
  induction r with
  | operand node => rfl
  | apply goesOn op left right ihl ihr =>
      obtain ⟨hleft, hright, hbl, hbr, rfl⟩ := h
      have hlinks := le_level_of_mem_links hright hbr
      have hl : (operand left.head).attachAll left.links = left := ihl hleft
      have hr : (operand right.head).attachAll right.links = right := ihr hright
      calc (operand left.head).attachAll (left.links ++ (op, right.head) :: right.links)
          = (left.attach op right.head).attachAll right.links := by
            rw [attachAll_append, hl]
            rfl
        _ = apply _ op left ((operand right.head).attachAll right.links) := by
            rw [attach_of_bindsFrom hbl, attachAll_apply hlinks]
        _ = apply _ op left right := by rw [hr]

/-- A row has one reading. -/
theorem eq_group_iff {r : Reading} {first : Node} {ls : List (Operator × Node)} :
    group first ls = r ↔ r.head = first ∧ r.links = ls ∧ r.Fits := by
  constructor
  · rintro rfl
    obtain ⟨hhead, hlinks⟩ := (operand first).items_attachAll ls
    exact ⟨hhead, hlinks, Fits.attachAll (r := operand first) trivial ls⟩
  · rintro ⟨rfl, rfl, hfits⟩
    exact group_eq_self hfits

end Reading

/-! ## Grouped chains as readings -/

namespace Chain

/-- A grouped chain as a reading: every operation has both its operands. -/
def toReading : Chain → Reading
  | operand node => .operand node
  | apply op left right => .apply false op left.toReading right.toReading

/-- Whether the outermost operation of a chain is a comparison. -/
def isRelational : Chain → Bool
  | operand _ => false
  | apply op _ _ => op.isRelational

/-- No comparison has a comparison as its operand. -/
def IsUnchained : Chain → Prop
  | operand _ => True
  | apply op left right => left.IsUnchained ∧ right.IsUnchained ∧
      (op.isRelational && left.isRelational) = false ∧
      (op.isRelational && right.isRelational) = false

theorem head_toReading (c : Chain) : c.toReading.head = c.head := by
  induction c with
  | operand node => rfl
  | apply op left right ihl _ => exact ihl

theorem links_toReading (c : Chain) : c.toReading.links = c.links := by
  induction c with
  | operand node => rfl
  | apply op left right ihl ihr =>
      rw [toReading, Reading.links, links, ihl, ihr, head_toReading]

theorem isRelational_toReading (c : Chain) : c.toReading.isRelational = c.isRelational := by
  cases c <;> rfl

/-- On the left precedence leaves the order of levels as it is. -/
theorem BindsFrom.toReading_left {c : Chain} {op : Operator} (h : c.BindsFrom op.precedence) :
    c.toReading.BindsFrom op.level := by
  cases c with
  | operand node => trivial
  | apply o left right => exact Operator.level_le h

/-- On the right a comparison may be no tighter than the one beside it. -/
theorem BindsFrom.toReading_right {c : Chain} {op : Operator}
    (h : c.BindsFrom (op.precedence + 1)) :
    c.toReading.BindsFrom (op.level + 1) ↔ (op.isRelational && c.isRelational) = false := by
  cases c with
  | operand node => exact iff_of_true trivial (Bool.and_false _)
  | apply o left right => exact Operator.level_lt_iff h

/-- A chain that is grouped by precedence fits as a reading if no comparison has a comparison as its
operand, and only then. -/
theorem fits_toReading {c : Chain} (h : c.IsGrouped) : c.toReading.Fits ↔ c.IsUnchained := by
  induction c with
  | operand node => exact Iff.rfl
  | apply op left right ihl ihr =>
      obtain ⟨hl, hr, hbl, hbr⟩ := h
      rw [toReading, Reading.Fits, IsUnchained, ihl hl, ihr hr, hbr.toReading_right,
        isRelational_toReading, eq_comm (a := false)]
      refine and_congr_right fun _ => and_congr_right fun _ => ⟨?_, ?_⟩
      · rintro ⟨-, hright, hleft⟩
        exact ⟨hleft, hright⟩
      · rintro ⟨hleft, hright⟩
        exact ⟨hbl.toReading_left, hright, hleft⟩

end Chain

/-! ## The source of a tree -/

namespace Chain

/-- The text of a part beside an operator: an operand is in brackets if the operator asks for them. -/
def shown (op : Operator) (onRight : Bool) (text : String) : Chain → String
  | operand n => shownText (n.isBracketed op onRight) text
  | apply _ _ _ => text

/-- The source of a chain, whose parts are bare. -/
def source : Chain → String
  | operand n => n.source
  | apply op left right =>
    left.shown op false left.source ++ " " ++ op.symbol ++ " " ++ right.shown op true right.source

end Chain

namespace Node

theorem chain_binary (op : Operator) (left right : Node) :
    (binary op left right).chain = .apply op (shownChain (isBracketed op false left) left)
      (shownChain (isBracketed op true right) right) := rfl

theorem chain_eq_operand {n k : Node} (h : n.chain = .operand k) : k = n := by
  have htree := n.toNode_chain
  rw [h] at htree
  exact htree

theorem shown_shownChain {n : Node} (h : n.chain.source = n.source) (op : Operator) (onRight : Bool) :
    (shownChain (isBracketed op onRight n) n).shown op onRight
        (shownChain (isBracketed op onRight n) n).source =
      shownText (isBracketed op onRight n) n.source := by
  cases hb : isBracketed op onRight n with
  | true => simp [shownChain, Chain.shown, Chain.source, hb]
  | false =>
      show n.chain.shown op onRight n.chain.source = n.source
      rw [h]
      cases hchain : n.chain with
      | apply _ _ _ => rfl
      | operand k =>
          obtain rfl := chain_eq_operand hchain
          rw [Chain.shown, hb]
          rfl

/-- The source of a tree shows its chain. -/
theorem source_chain (n : Node) : n.chain.source = n.source := by
  induction n using parts with
  | binary op left right ihl ihr =>
      rw [chain_binary, Chain.source, shown_shownChain ihl, shown_shownChain ihr, source]
      rfl
  | literal | list | name | member | call | conditional => rfl

/-- Whether a node is a comparison or a test of membership. -/
def isRelational : Node → Bool
  | binary op _ _ => op.isRelational
  | _ => false

/-- Whether an operand is a comparison that stands bare beside another one. -/
def isChained (op : Operator) (onRight : Bool) (operand : Node) : Bool :=
  op.isRelational && operand.isRelational && !isBracketed op onRight operand

theorem isRelational_chain (n : Node) : n.chain.isRelational = n.isRelational := by
  cases n <;> rfl

theorem isRelational_shownChain (op : Operator) (onRight : Bool) (n : Node) :
    (op.isRelational && (shownChain (isBracketed op onRight n) n).isRelational) =
      isChained op onRight n := by
  rw [isChained]
  cases isBracketed op onRight n with
  | true => simp [shownChain, Chain.isRelational]
  | false => simp [shownChain, isRelational_chain]

/-- No comparison stands bare beside another one, as its operand. -/
def IsUnchained (tree : Node) : Prop :=
  ∀ op left right, .binary op left right ∈ tree.walk →
    isChained op false left = false ∧ isChained op true right = false

theorem IsUnchained.part {m n : Node} (h : n.IsUnchained) (hm : m ∈ n.walk) : m.IsUnchained :=
  fun op left right hk => h op left right (walk_subset hm hk)

theorem IsUnchained.chain {n : Node} (h : n.IsUnchained) : n.chain.IsUnchained := by
  induction n using parts with
  | binary op left right ihl ihr =>
      have shown {m : Node} (ih : m.chain.IsUnchained) (b : Bool) : (shownChain b m).IsUnchained := by
        cases b with
        | true => trivial
        | false => exact ih
      obtain ⟨hleft, hright⟩ := h op left right (mem_walk_self _)
      have hl := ihl (h.part (mem_walk_binary.2 (.inr (.inl (mem_walk_self _)))))
      have hr := ihr (h.part (mem_walk_binary.2 (.inr (.inr (mem_walk_self _)))))
      rw [chain_binary, Chain.IsUnchained, isRelational_shownChain, isRelational_shownChain]
      exact ⟨shown hl _, shown hr _, hleft, hright⟩
  | literal | list | name | member | call | conditional => trivial

theorem isUnchained_iff {tree : Node} :
    tree.IsUnchained ↔ ∀ m ∈ tree.walk, m.chain.IsUnchained := by
  constructor
  · exact fun h m hm => (h.part hm).chain
  · intro h op left right hm
    have hchain := h _ hm
    rw [chain_binary, Chain.IsUnchained, isRelational_shownChain, isRelational_shownChain] at hchain
    exact hchain.2.2

/-- Where comparisons are chained, the source of a tree is grouped as the tree if and only if no comparison
stands bare beside another one, as its operand. -/
theorem group_source_iff (tree : Node) :
    (∀ m ∈ tree.walk, m.source = m.chain.source) ∧
      ((∀ m ∈ tree.walk, Reading.group m.chain.head m.chain.links = m.chain.toReading) ↔
        tree.IsUnchained) := by
  refine ⟨fun m _ => m.source_chain.symm, ?_⟩
  rw [isUnchained_iff]
  refine forall₂_congr fun m _ => ?_
  rw [Reading.eq_group_iff, Chain.head_toReading, Chain.links_toReading,
    Chain.fits_toReading m.isGrouped_chain]
  exact ⟨fun h => h.2.2, fun h => ⟨rfl, rfl, h⟩⟩

end Node

/-- The tokens of `1 == 2 == 3`. -/
def equalTokens : List Token :=
  [⟨.number, "1", 0, "1"⟩, ⟨.operator, "==", 1, "=="⟩, ⟨.number, "2", 2, "2"⟩,
    ⟨.operator, "==", 3, "=="⟩, ⟨.number, "3", 4, "3"⟩]

/-- The tree of `1 == 2 == 3`. -/
def equalTree : Node :=
  .binary .equal (.binary .equal (.literal (.int 1)) (.literal (.int 2))) (.literal (.int 3))

/-- The first comparison of `1 == 2 == 3` is an operand of the second one, and stands bare in the source.
Where comparisons are chained, the second one goes on with the first. -/
theorem Node.group_source_equalTree :
    tokenize false "1 == 2 == 3" = .ok equalTokens ∧ parseTokens equalTokens = .ok equalTree ∧
      equalTree.source = "1 == 2 == 3" ∧ ¬ equalTree.IsUnchained ∧
      Reading.group equalTree.chain.head equalTree.chain.links =
        .apply true .equal
          (.apply false .equal (.operand (.literal (.int 1))) (.operand (.literal (.int 2))))
          (.operand (.literal (.int 3))) ∧
      Reading.group equalTree.chain.head equalTree.chain.links ≠ equalTree.chain.toReading := by
  have hgroup : Reading.group equalTree.chain.head equalTree.chain.links =
      .apply true .equal
        (.apply false .equal (.operand (.literal (.int 1))) (.operand (.literal (.int 2))))
        (.operand (.literal (.int 3))) := by rfl
  refine ⟨by rfl, by cbv, by rfl, fun hunchained => ?_, hgroup, ?_⟩
  · cases (hunchained _ _ _ (mem_walk_self equalTree)).1
  · rw [hgroup]
    intro hsame
    cases hsame

end Formula
