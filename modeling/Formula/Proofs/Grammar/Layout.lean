import Formula.Proofs.Grammar.Completeness
import Formula.Proofs.Grammar.Location
import Formula.Proofs.Grammar.Path
import Formula.Proofs.Tree.Walk

set_option autoImplicit false

/-! # The leaves of a tree in its text

A tree is laid out in the tokens that it was read from: the tokens of a leaf stand together, and those
of an operation, a call or a conditional around those of its parts. The walk through the tree meets
the same leaves as the text, each one once, and in the same order but for conditionals: the text puts
what is chosen before its condition, and the walk behind it.

Main statements: `Grammar.exists_lays` and `walk_leaves`. -/

namespace Formula

/-! ## Leaves -/

/-- Whether a node has no parts: a literal, a list, a name, a member, or a call without arguments. -/
def Node.isLeaf (n : Node) : Bool := n.children.isEmpty

theorem Node.isA_conditional_of_isLeaf {n : Node} (h : n.isLeaf = true) :
    n.isA .conditional = false := by
  cases n with
  | conditional _ _ _ => cases h
  | _ => rfl

/-- The leaves of a tree in the order of the walk. -/
def Node.leaves (n : Node) : List Node := n.walk.filter Node.isLeaf

section

attribute [local simp] Node.leaves Node.walk Node.walkAll Node.descendants Node.isLeaf Node.children

theorem Node.descendants_of_isLeaf {n : Node} (h : n.isLeaf = true) : n.descendants = [] := by
  cases n with
  | call parent name arguments => cases arguments <;> simp_all
  | binary op left right => simp at h
  | conditional condition truthy falsy => simp at h
  | literal | list | name | member => simp

theorem Node.leaves_of_isLeaf {n : Node} (h : n.isLeaf = true) : n.leaves = [n] := by
  rw [leaves, walk, descendants_of_isLeaf h, List.filter_cons_of_pos h, List.filter_nil]

theorem Node.filter_walkAll (nodes : List Node) :
    (walkAll nodes).filter isLeaf = nodes.flatMap leaves := by
  induction nodes with
  | nil => simp
  | cons n nodes ih => simp only [walkAll, walk, leaves, List.filter_append, List.flatMap_cons, ih]

theorem Node.leaves_call {parent : Option String} {name : String} {arguments : List Node}
    (h : arguments ≠ []) : (Node.call parent name arguments).leaves = arguments.flatMap leaves := by
  rw [← filter_walkAll]
  simp [h]

theorem Node.leaves_binary (op : Operator) (left right : Node) :
    (Node.binary op left right).leaves = left.leaves ++ right.leaves := by
  have hwalk : (binary op left right).walk = binary op left right :: (left.walk ++ right.walk) := by
    simp
  rw [leaves, hwalk, List.filter_cons_of_neg (by simp), List.filter_append]
  rfl

theorem Node.leaves_conditional (condition truthy falsy : Node) :
    (Node.conditional condition truthy falsy).leaves =
      condition.leaves ++ (truthy.leaves ++ falsy.leaves) := by
  have hwalk : (conditional condition truthy falsy).walk =
      conditional condition truthy falsy :: (condition.walk ++ (truthy.walk ++ falsy.walk)) := by
    simp
  rw [leaves, hwalk, List.filter_cons_of_neg (by simp), List.filter_append, List.filter_append]
  rfl

end

/-- A leaf of a tree with the tokens that it was read from. -/
structure Leaf where
  node : Node
  tokens : List Token

/-- The tokens of one leaf come before those of another. -/
def Leaf.IsBefore (a b : Leaf) : Prop := ∀ t ∈ a.tokens, ∀ u ∈ b.tokens, t.index < u.index

theorem Leaf.IsBefore.asymm {a b : Leaf} (h : a.IsBefore b) (ha : a.tokens ≠ [])
    (hb : b.tokens ≠ []) : ¬ b.IsBefore a := by
  intro h'
  obtain ⟨t, ht⟩ := List.exists_mem_of_ne_nil _ ha
  obtain ⟨u, hu⟩ := List.exists_mem_of_ne_nil _ hb
  exact absurd (h t ht u hu) (Nat.lt_asymm (h' u hu t ht))

namespace Grammar

/-- Some trees with commas between them are laid out in a row of tokens. The leaves are given twice:
in the order of the text, and in the order in which they are met by the walk. -/
inductive Lays : List Node → List Token → List Leaf → List Leaf → Prop
  | leaf {n : Node} {ts : List Token} :
      n.isLeaf = true → Derives (.operand n) ts → Lays [n] ts [⟨n, ts⟩] [⟨n, ts⟩]
  | brackets {n : Node} {left right : Token} {ts : List Token} {inText inWalk : List Leaf} :
      left.kind = .leftParen → Lays [n] ts inText inWalk → right.kind = .rightParen →
      Lays [n] (left :: (ts ++ [right])) inText inWalk
  | call {t left right : Token} {parent : Option String} {name : String} {arguments : List Node}
      {ts : List Token} {inText inWalk : List Leaf} :
      t.kind = .name → splitPath t = .ok (parent, name) → left.kind = .leftParen →
      Lays arguments ts inText inWalk → right.kind = .rightParen →
      Lays [.call parent name arguments] (t :: left :: (ts ++ [right])) inText inWalk
  | binary {op : Operator} {left right : Node} {o : Token} {ts us : List Token}
      {inText inWalk inText' inWalk' : List Leaf} :
      Lays [left] ts inText inWalk → o.operator? = some op → Lays [right] us inText' inWalk' →
      Lays [.binary op left right] (ts ++ o :: us) (inText ++ inText') (inWalk ++ inWalk')
  | conditional {condition truthy falsy : Node} {i e : Token} {ts us vs : List Token}
      {inText inWalk inText' inWalk' inText'' inWalk'' : List Leaf} :
      Lays [truthy] ts inText inWalk → i.isKeyword "if" = true →
      Lays [condition] us inText' inWalk' → e.isKeyword "else" = true →
      Lays [falsy] vs inText'' inWalk'' →
      Lays [.conditional condition truthy falsy] (ts ++ i :: (us ++ e :: vs))
        (inText ++ (inText' ++ inText'')) (inWalk' ++ (inWalk ++ inWalk''))
  | more {n : Node} {nodes : List Node} {comma : Token} {ts us : List Token}
      {inText inWalk inText' inWalk' : List Leaf} :
      Lays [n] ts inText inWalk → comma.kind = .comma → Lays nodes us inText' inWalk' →
      Lays (n :: nodes) (ts ++ comma :: us) (inText ++ inText') (inWalk ++ inWalk')

namespace Lays

variable {nodes : List Node} {ts : List Token} {inText inWalk : List Leaf}

/-! ## Leaves in the text -/

/-- The tokens of the leaves stand in the text one leaf after the other. -/
theorem sublist (h : Lays nodes ts inText inWalk) :
    (inText.flatMap Leaf.tokens).Sublist ts := by
  induction h with
  | leaf _ _ => simp
  | brackets _ _ _ ih => exact .cons _ (ih.trans (List.sublist_append_left _ _))
  | call _ _ _ _ _ ih => exact .cons _ (.cons _ (ih.trans (List.sublist_append_left _ _)))
  | binary _ _ _ ihl ihr =>
      rw [List.flatMap_append]
      exact ihl.append (.cons _ ihr)
  | conditional _ _ _ _ _ iht ihc ihf =>
      rw [List.flatMap_append, List.flatMap_append]
      exact iht.append (.cons _ (ihc.append (.cons _ ihf)))
  | more _ _ _ ihn ihs =>
      rw [List.flatMap_append]
      exact ihn.append (.cons _ ihs)

/-- So the leaves come in the order of their tokens. -/
theorem pairwise_inText (h : Lays nodes ts inText inWalk)
    (hts : ts.Pairwise (·.index < ·.index)) : inText.Pairwise Leaf.IsBefore :=
  (List.pairwise_flatMap.1 (hts.sublist h.sublist)).2

/-- The walk meets the leaves of the text, each one once. -/
theorem perm (h : Lays nodes ts inText inWalk) : inWalk.Perm inText := by
  induction h with
  | leaf _ _ => exact .refl _
  | brackets _ _ _ ih => exact ih
  | call _ _ _ _ _ ih => exact ih
  | binary _ _ _ ihl ihr => exact ihl.append ihr
  | conditional _ _ _ _ _ iht ihc ihf =>
      rw [← List.append_assoc, ← List.append_assoc]
      exact (List.perm_append_comm.trans (iht.append ihc)).append ihf
  | more _ _ _ ihn ihs => exact ihn.append ihs

/-! ## Leaves in the walk -/

theorem nodes_ne_nil (h : Lays nodes ts inText inWalk) : nodes ≠ [] := by
  cases h <;> exact List.cons_ne_nil _ _

theorem map_node_inWalk (h : Lays nodes ts inText inWalk) :
    inWalk.map Leaf.node = nodes.flatMap Node.leaves := by
  induction h with
  | leaf hleaf _ => simp [Node.leaves_of_isLeaf hleaf]
  | brackets _ _ _ ih => exact ih
  | call _ _ _ harguments _ ih => simp [Node.leaves_call harguments.nodes_ne_nil, ih]
  | binary _ _ _ ihl ihr => simp [Node.leaves_binary, ihl, ihr]
  | conditional _ _ _ _ _ iht ihc ihf => simp [Node.leaves_conditional, iht, ihc, ihf]
  | more _ _ _ ihn ihs => simp [ihn, ihs]

/-- Every tree has a leaf, and every leaf a token. -/
theorem inText_ne_nil (h : Lays nodes ts inText inWalk) : inText ≠ [] := by
  induction h with
  | leaf _ _ => exact List.cons_ne_nil _ _
  | brackets _ _ _ ih => exact ih
  | call _ _ _ _ _ ih => exact ih
  | binary _ _ _ ih _ => exact List.append_ne_nil_of_left_ne_nil ih _
  | conditional _ _ _ _ _ ih _ _ => exact List.append_ne_nil_of_left_ne_nil ih _
  | more _ _ _ ih _ => exact List.append_ne_nil_of_left_ne_nil ih _

theorem tokens_ne_nil (h : Lays nodes ts inText inWalk) : ∀ leaf ∈ inText, leaf.tokens ≠ [] := by
  induction h with
  | leaf _ hderives =>
      rintro leaf hmem
      obtain rfl := List.mem_singleton.1 hmem
      exact List.ne_nil_of_length_pos hderives.length_pos
  | brackets _ _ _ ih => exact ih
  | call _ _ _ _ _ ih => exact ih
  | binary _ _ _ ihl ihr => exact List.forall_mem_append.2 ⟨ihl, ihr⟩
  | conditional _ _ _ _ _ iht ihc ihf =>
      exact List.forall_mem_append.2 ⟨iht, List.forall_mem_append.2 ⟨ihc, ihf⟩⟩
  | more _ _ _ ihn ihs => exact List.forall_mem_append.2 ⟨ihn, ihs⟩

/-- Without conditionals the walk meets the leaves in the order of the text. -/
theorem inWalk_eq (h : Lays nodes ts inText inWalk)
    (hnone : ∀ n ∈ nodes, ∀ m ∈ n.walk, m.isA .conditional = false) : inWalk = inText := by
  induction h with
  | leaf _ _ => rfl
  | brackets _ _ _ ih => exact ih hnone
  | call _ _ _ _ _ ih =>
      refine ih fun n hn m hm => hnone _ List.mem_cons_self m ?_
      exact Node.mem_walk_call.2 (.inr ⟨n, hn, hm⟩)
  | binary _ _ _ ihl ihr =>
      simp only [List.forall_mem_singleton, Node.mem_walk_binary] at hnone ihl ihr
      rw [ihl fun m hm => hnone m (.inr (.inl hm)), ihr fun m hm => hnone m (.inr (.inr hm))]
  | conditional _ _ _ _ _ _ _ _ =>
      cases hnone _ List.mem_cons_self _ (Node.mem_walk_self _)
  | more _ _ _ ihn ihs =>
      obtain ⟨hn, hs⟩ := List.forall_mem_cons.1 hnone
      rw [ihn (List.forall_mem_singleton.2 hn), ihs hs]

/-- Where the walk meets the leaves in the order of the text there are no conditionals: the condition
would be met before what stands on its left. -/
theorem isA_conditional (h : Lays nodes ts inText inWalk) (hinText : inText.Pairwise Leaf.IsBefore)
    (hinWalk : inWalk.Pairwise Leaf.IsBefore) :
    ∀ n ∈ nodes, ∀ m ∈ n.walk, m.isA .conditional = false := by
  induction h with
  | @leaf n _ hleaf _ =>
      refine List.forall_mem_singleton.2 fun m hm => ?_
      have hm : m = n := by simpa [Node.walk, Node.descendants_of_isLeaf hleaf] using hm
      rw [hm]
      exact Node.isA_conditional_of_isLeaf hleaf
  | brackets _ _ _ ih => exact ih hinText hinWalk
  | call _ _ _ _ _ ih =>
      refine List.forall_mem_singleton.2 fun m hm => ?_
      rcases Node.mem_walk_call.1 hm with rfl | ⟨n, hn, hm⟩
      · rfl
      · exact ih hinText hinWalk n hn m hm
  | binary _ _ _ ihl ihr =>
      obtain ⟨hlText, hrText, -⟩ := List.pairwise_append.1 hinText
      obtain ⟨hlWalk, hrWalk, -⟩ := List.pairwise_append.1 hinWalk
      refine List.forall_mem_singleton.2 fun m hm => ?_
      rcases Node.mem_walk_binary.1 hm with rfl | hm | hm
      · rfl
      · exact ihl hlText hlWalk _ List.mem_cons_self m hm
      · exact ihr hrText hrWalk _ List.mem_cons_self m hm
  | conditional htruthy _ hcondition _ _ _ _ _ =>
      -- Both parts have leaves: one of the condition is met first, and stands behind the other one.
      obtain ⟨a, ha⟩ := List.exists_mem_of_ne_nil _ htruthy.inText_ne_nil
      obtain ⟨c, hc⟩ := List.exists_mem_of_ne_nil _ hcondition.inText_ne_nil
      have hac : a.IsBefore c := (List.pairwise_append.1 hinText).2.2 a ha c (by simp [hc])
      have hca : c.IsBefore a := by
        refine (List.pairwise_append.1 hinWalk).2.2 c (hcondition.perm.mem_iff.2 hc) a ?_
        exact List.mem_append_left _ (htruthy.perm.mem_iff.2 ha)
      exact absurd hca (hac.asymm (htruthy.tokens_ne_nil a ha) (hcondition.tokens_ne_nil c hc))
  | more _ _ _ ihn ihs =>
      obtain ⟨hnText, hsText, -⟩ := List.pairwise_append.1 hinText
      obtain ⟨hnWalk, hsWalk, -⟩ := List.pairwise_append.1 hinWalk
      obtain hn := ihn hnText hnWalk _ List.mem_cons_self
      exact List.forall_mem_cons.2 ⟨hn, ihs hsText hsWalk⟩

end Lays

/-! ## What is derived is laid out -/

/-- A chain of trees that are laid out, with the operators between them. -/
inductive LaysChain : Node → List (Operator × Node) → List Token → Prop
  | single {n : Node} {ts : List Token} {inText inWalk : List Leaf} :
      Lays [n] ts inText inWalk → LaysChain n [] ts
  | link {n m : Node} {op : Operator} {links : List (Operator × Node)} {o : Token}
      {ts us : List Token} {inText inWalk : List Leaf} :
      Lays [n] ts inText inWalk → o.operator? = some op → LaysChain m links us →
      LaysChain n ((op, m) :: links) (ts ++ o :: us)

namespace LaysChain

/-- A chain is cut at an operator. -/
theorem cut {n m : Node} {op : Operator} {ks ls : List (Operator × Node)} {ts : List Token}
    (h : LaysChain n (ks ++ (op, m) :: ls) ts) :
    ∃ us o vs, ts = us ++ o :: vs ∧ o.operator? = some op ∧ LaysChain n ks us ∧
      LaysChain m ls vs := by
  induction ks generalizing n ts with
  | nil =>
      cases h with
      | link hn ho hm => exact ⟨_, _, _, rfl, ho, .single hn, hm⟩
  | cons link ks ih =>
      cases h with
      | @link _ _ _ _ o ts us _ _ hn ho hm =>
          obtain ⟨vs, p, ws, rfl, hp, hks, hls⟩ := ih hm
          exact ⟨ts ++ o :: vs, p, ws, by simp, hp, .link hn ho hks, hls⟩

/-- However it is grouped, a chain is laid out as a tree. -/
theorem lays {c : Chain} {ts : List Token} (h : LaysChain c.head c.links ts) :
    ∃ inText inWalk, Lays [c.toNode] ts inText inWalk := by
  induction c generalizing ts with
  | operand n =>
      cases h with
      | single hn => exact ⟨_, _, hn⟩
  | apply op left right ihl ihr =>
      obtain ⟨us, o, vs, rfl, ho, hleft, hright⟩ := h.cut
      obtain ⟨inText, inWalk, hl⟩ := ihl hleft
      obtain ⟨inText', inWalk', hr⟩ := ihr hright
      exact ⟨_, _, .binary hl ho hr⟩

theorem group {first : Node} {links : List (Operator × Node)} {ts : List Token}
    (h : LaysChain first links ts) :
    ∃ inText inWalk, Lays [(Chain.group first links).toNode] ts inText inWalk := by
  obtain ⟨hhead, hlinks⟩ := Chain.items_group first links
  refine lays ?_
  rw [hhead, hlinks]
  exact h

end LaysChain

theorem isLeaf_of_readName {t : Token} {n : Node} (h : readName t = .ok n) : n.isLeaf = true := by
  rcases readName_cases h with ⟨b, rfl⟩ | ⟨parent, name, rfl, -⟩ | ⟨name, rfl, -⟩
  · rfl
  · rfl
  · rfl

/-- What a row of tokens stands for is laid out in it. -/
def Meaning.IsLaid : Meaning → List Token → Prop
  | .expression n, ts | .operand n, ts => ∃ inText inWalk, Lays [n] ts inText inWalk
  | .chain first links, ts => LaysChain first links ts
  | .arguments nodes, ts =>
    ∃ us right, ts = us ++ [right] ∧ right.kind = .rightParen ∧
      (nodes ≠ [] → ∃ inText inWalk, Lays nodes us inText inWalk)
  | .moreArguments nodes, ts =>
    ∃ us right, ts = us ++ [right] ∧ right.kind = .rightParen ∧
      ∀ {n : Node} {vs : List Token} {inText inWalk : List Leaf}, Lays [n] vs inText inWalk →
        ∃ inText inWalk, Lays (n :: nodes) (vs ++ us) inText inWalk

theorem Derives.isLaid {m : Meaning} {ts : List Token} (h : Derives m ts) : m.IsLaid ts := by
  induction h with
  | chain _ ih => exact ih.group
  | conditional _ hi _ _ he _ iht ihc ihf =>
      obtain ⟨_, _, ht⟩ := iht.group
      obtain ⟨_, _, hc⟩ := ihc
      obtain ⟨_, _, hf⟩ := ihf
      exact ⟨_, _, .conditional ht hi hc he hf⟩
  | single _ ih =>
      obtain ⟨_, _, hn⟩ := ih
      exact .single hn
  | link _ ho _ ihn ihs =>
      obtain ⟨_, _, hn⟩ := ihn
      exact .link hn ho ihs
  | string hk => exact ⟨_, _, .leaf rfl (.string hk)⟩
  | number hk hx => exact ⟨_, _, .leaf rfl (.number hk hx)⟩
  | signed hs hk hx => exact ⟨_, _, .leaf rfl (.signed hs hk hx)⟩
  | brackets hl _ hr ih =>
      obtain ⟨_, _, hn⟩ := ih
      exact ⟨_, _, .brackets hl hn hr⟩
  | name hk hname => exact ⟨_, _, .leaf (isLeaf_of_readName hname) (.name hk hname)⟩
  | @call t left parent name arguments ts hk hpath hl harguments ih =>
      obtain ⟨us, right, rfl, hright, hlaid⟩ := ih
      cases arguments with
      | nil => exact ⟨_, _, .leaf rfl (.call hk hpath hl harguments)⟩
      | cons n nodes =>
          obtain ⟨_, _, hnodes⟩ := hlaid (List.cons_ne_nil _ _)
          exact ⟨_, _, .call hk hpath hl hnodes hright⟩
  | list hl hrow => exact ⟨_, _, .leaf rfl (.list hl hrow)⟩
  | @noArguments right hr => exact ⟨[], right, rfl, hr, fun h => absurd rfl h⟩
  | @arguments _ _ ts _ _ _ ihn ihs =>
      obtain ⟨_, _, hn⟩ := ihn
      obtain ⟨us, right, rfl, hright, hlaid⟩ := ihs
      exact ⟨ts ++ us, right, (List.append_assoc _ _ _).symm, hright, fun _ => hlaid hn⟩
  | @lastArgument right hr =>
      refine ⟨[], right, rfl, hr, fun {n vs inText inWalk} hn => ⟨inText, inWalk, ?_⟩⟩
      rw [List.append_nil]
      exact hn
  | @nextArgument _ _ comma ts _ hc _ _ ihn ihs =>
      obtain ⟨_, _, hnext⟩ := ihn
      obtain ⟨us, right, rfl, hright, hlaid⟩ := ihs
      obtain ⟨_, _, hrest⟩ := hlaid hnext
      refine ⟨comma :: (ts ++ us), right, by simp, hright, fun hn => ⟨_, _, .more hn hc hrest⟩⟩

/-- Every tree that is read is laid out in the tokens that it was read from. -/
theorem exists_lays {ts : List Token} {tree : Node} (h : parseTokens ts = .ok tree) :
    ∃ inText inWalk, Lays [tree] ts inText inWalk :=
  (derives_of_parseTokens h).isLaid

end Grammar

/-! ## Main statement -/

section

variable {strict : Bool} {text : String} {tokens : List Token} {tree : Node}

/-- A text that is read is a layout of its tree. The walk meets the leaves that stand in the text, each
one once. It meets them in the order of the text if and only if there is no conditional. -/
theorem walk_leaves (htokens : tokenize strict text = .ok tokens)
    (htree : parseTokens tokens = .ok tree) :
    (∃ inText inWalk, Grammar.Lays [tree] tokens inText inWalk) ∧
      ∀ inText inWalk, Grammar.Lays [tree] tokens inText inWalk →
        inText.Pairwise Leaf.IsBefore ∧
        inWalk.map Leaf.node = tree.walk.filter Node.isLeaf ∧
        inWalk.Perm inText ∧
        (inWalk.Pairwise Leaf.IsBefore ↔ ∀ m ∈ tree.walk, m.isA .conditional = false) := by
  refine ⟨Grammar.exists_lays htree, fun inText inWalk hlays => ?_⟩
  have hinText := hlays.pairwise_inText (pairwise_index_of_tokenize htokens)
  refine ⟨hinText, ?_, hlays.perm, fun hinWalk => ?_, fun hnone => ?_⟩
  · rw [hlays.map_node_inWalk, List.flatMap_singleton]
    rfl
  · exact List.forall_mem_singleton.1 (hlays.isA_conditional hinText hinWalk)
  · rw [hlays.inWalk_eq (List.forall_mem_singleton.2 hnone)]
    exact hinText

end

/-- The tokens of `(1 + 2) * 3`. -/
def scaledTokens : List Token :=
  [⟨.leftParen, "(", 0, "("⟩, ⟨.number, "1", 1, "1"⟩, ⟨.operator, "+", 2, "+"⟩,
    ⟨.number, "2", 3, "2"⟩, ⟨.rightParen, ")", 4, ")"⟩, ⟨.operator, "*", 5, "*"⟩,
    ⟨.number, "3", 6, "3"⟩]

/-- The tree of `(1 + 2) * 3`. -/
def scaled : Node :=
  .binary .times (.binary .plus (.literal (.int 1)) (.literal (.int 2))) (.literal (.int 3))

/-- Operations are met in the order of the text. -/
theorem walk_leaves_scaled :
    tokenize false "(1 + 2) * 3" = .ok scaledTokens ∧ parseTokens scaledTokens = .ok scaled ∧
      ∃ inText inWalk, Grammar.Lays [scaled] scaledTokens inText inWalk ∧
        inWalk.map Leaf.node = [.literal (.int 1), .literal (.int 2), .literal (.int 3)] ∧
        inWalk.Pairwise Leaf.IsBefore := by
  have htokens : tokenize false "(1 + 2) * 3" = .ok scaledTokens := by rfl
  have htree : parseTokens scaledTokens = .ok scaled := by cbv
  obtain ⟨⟨inText, inWalk, hlays⟩, hall⟩ := walk_leaves htokens htree
  obtain ⟨-, hwalk, -, horder⟩ := hall inText inWalk hlays
  have hnone : ∀ m ∈ scaled.walk, m.isA .conditional = false := by
    intro m hm
    simp only [scaled, Node.mem_walk_binary, Node.mem_walk_literal] at hm
    rcases hm with rfl | (rfl | rfl | rfl) | rfl <;> rfl
  exact ⟨htokens, htree, inText, inWalk, hlays, hwalk, horder.2 hnone⟩

/-- The tokens of `1 if 2 else 3`. -/
def chosenTokens : List Token :=
  [⟨.number, "1", 0, "1"⟩, ⟨.name, "if", 1, "if"⟩, ⟨.number, "2", 2, "2"⟩,
    ⟨.name, "else", 3, "else"⟩, ⟨.number, "3", 4, "3"⟩]

/-- The tree of `1 if 2 else 3`. -/
def chosen : Node := .conditional (.literal (.int 2)) (.literal (.int 1)) (.literal (.int 3))

/-- The condition in the middle of `1 if 2 else 3` is met first. -/
theorem walk_chosen :
    tokenize false "1 if 2 else 3" = .ok chosenTokens ∧ parseTokens chosenTokens = .ok chosen ∧
      chosen.walk.filter Node.isLeaf = [.literal (.int 2), .literal (.int 1), .literal (.int 3)] ∧
      ∀ inText inWalk, Grammar.Lays [chosen] chosenTokens inText inWalk →
        ¬ inWalk.Pairwise Leaf.IsBefore := by
  refine ⟨by rfl, by cbv, rfl, fun inText inWalk hlays hinWalk => ?_⟩
  have hinText := hlays.pairwise_inText (by simp [chosenTokens])
  have hnone := hlays.isA_conditional hinText hinWalk chosen List.mem_cons_self chosen
  cases hnone (Node.mem_walk_self chosen)

end Formula
