import Formula.Proofs.Grammar.Acceptance
import Formula.Proofs.Tree.Precedence
import Mathlib.Data.List.Forall2

set_option autoImplicit false

/-! # Rows of operands

A row of operands with binary operators between them is read in one way: each operand stands for what
it stands for alone, the operators stay where they are, and the tree is the one grouping of them that
follows precedence.

Which tokens an operand takes does not depend on the size of the numbers in it. With all numbers put
to zero every operand is read, and the tokens it leaves tell where it ends; that makes
`IsPart.operand_unique` a consequence of what is known of the readers.

Main statement: `parseTokens_row`. -/

namespace Formula.Grammar

/-! ## Numbers put to zero -/

/-- A token with its number, if it is one, put to zero. -/
def zeroed (t : Token) : Token := if t.kind = .number then { t with value := "0" } else t

@[simp] theorem zeroed_kind (t : Token) : (zeroed t).kind = t.kind := by
  rw [zeroed]
  split <;> rfl

theorem zeroed_eq_self {t : Token} (h : t.kind ≠ .number) : zeroed t = t := if_neg h

@[simp] theorem zeroed_isKeyword (t : Token) (keyword : String) :
    (zeroed t).isKeyword keyword = t.isKeyword keyword := by
  by_cases h : t.kind = .number
  · have hname : (t.kind == .name) = false := by simp [h]
    simp [Token.isKeyword, hname]
  · rw [zeroed_eq_self h]

theorem IsBinary.zeroed {t : Token} (h : IsBinary t) : IsBinary (zeroed t) := by
  rwa [zeroed_eq_self (by simp [h.1])]

theorem IsMinus.zeroed {t : Token} (h : IsMinus t) : IsMinus (zeroed t) := by
  rwa [zeroed_eq_self (by simp [h.1])]

theorem IsSign.zeroed {t : Token} (h : IsSign t) : IsSign (zeroed t) := by
  rwa [zeroed_eq_self (by simp [h.1])]

theorem IsPath.zeroed {t : Token} (h : IsPath t) : IsPath (zeroed t) := by
  rwa [zeroed_eq_self (by simp [h.1])]

theorem IsStringItem.zeroed {ts : List Token} (h : IsStringItem ts) :
    IsStringItem (ts.map zeroed) := by
  obtain ⟨hk⟩ := h
  exact .string (by simp [hk])

theorem IsNumberItem.zeroed {ts : List Token} (h : IsNumberItem ts) :
    IsNumberItem (ts.map zeroed) := by
  cases h with
  | number hk => exact .number (by simp [hk])
  | negative hs hk => exact .negative hs.zeroed (by simp [hk])

theorem IsRow.zeroed {Item : List Token → Prop} {ts : List Token}
    (hitem : ∀ {item : List Token}, Item item → Item (item.map zeroed)) (h : IsRow Item ts) :
    IsRow Item (ts.map zeroed) := by
  induction h with
  | last hone => exact .last (hitem hone)
  | trailing hone hc =>
      rw [List.map_append]
      exact .trailing (hitem hone) (by simp [hc])
  | more hone hc _ ih =>
      rw [List.map_append, List.map_cons]
      exact .more (hitem hone) (by simp [hc]) ih

/-- The size of its numbers does not matter to what a row of tokens is a part as. -/
theorem IsPart.zeroed {part : Part} {ts : List Token} (h : IsPart part ts) :
    IsPart part (ts.map zeroed) := by
  induction h with
  | chain _ ih => exact .chain ih
  | conditional _ hi _ hrange he _ ihchain ihcondition ihalternative =>
      simp only [List.map_append, List.map_cons]
      refine .conditional ihchain (by simp [hi]) ihcondition ?_ (by simp [he]) ihalternative
      simpa using hrange
  | single _ ih => exact .single ih
  | link _ ho _ ihfirst ihrest =>
      rw [List.map_append, List.map_cons]
      exact .link ihfirst ho.zeroed ihrest
  | string hk => exact .string (by simp [hk])
  | number hk => exact .number (by simp [hk])
  | signed hs hk => exact .signed hs.zeroed (by simp [hk])
  | brackets hl _ hr ih =>
      rw [List.map_cons, List.map_append]
      exact .brackets (by simp [hl]) ih (by simp [hr])
  | path hpath => exact .path hpath.zeroed
  | emptyCall hpath hl hr => exact .emptyCall hpath.zeroed (by simp [hl]) (by simp [hr])
  | call hpath hl _ hr ih =>
      simp only [List.map_cons, List.map_append]
      exact .call hpath.zeroed (by simp [hl]) ih (by simp [hr])
  | list hl hitems hr =>
      rw [List.map_cons, List.map_append]
      exact .list (by simp [hl]) (hitems.imp (.zeroed .zeroed) (.zeroed .zeroed)) (by simp [hr])
  | argument _ ih => exact .argument ih
  | nextArgument _ hc _ ihfirst ihrest =>
      rw [List.map_append, List.map_cons]
      exact .nextArgument ihfirst (by simp [hc]) ihrest

theorem numbersFit_zeroed (ts : List Token) : NumbersFit (ts.map zeroed) := by
  have hzero : FitsDouble 0 := Option.isSome_iff_exists.1 (by decide +kernel)
  refine .of_forall fun t ht hinteger => ?_
  obtain ⟨u, _, rfl⟩ := List.mem_map.1 ht
  have hk : u.kind = .number := by simpa using hinteger.1
  have hvalue : (zeroed u).value = "0" := by simp [zeroed, hk]
  rw [hvalue]
  exact ⟨by decide, hzero⟩

/-! ## Where an operand ends -/

theorem EndsOperand.zeroed {rest : List Token} (h : EndsOperand rest) :
    EndsOperand (rest.map zeroed) := by
  cases rest with
  | nil => exact h
  | cons t rest => exact endsOperand_cons (by simpa [EndsOperand] using h)

theorem EndsOperand.of_operator? {o : Token} {op : Operator} {rest : List Token}
    (h : o.operator? = some op) : EndsOperand (o :: rest) :=
  endsOperand_cons (by simp [kind_of_operator? h])

/-- Two operands that begin a row and cannot be calls with what follows them are one. -/
theorem IsPart.operand_unique {us us' rest rest' : List Token} (h : IsPart .operand us)
    (h' : IsPart .operand us') (heq : us ++ rest = us' ++ rest') (hrest : EndsOperand rest)
    (hrest' : EndsOperand rest') : us = us' ∧ rest = rest' := by
  obtain ⟨node, hnode⟩ := h.zeroed.hasMeaning (numbersFit_zeroed us)
  obtain ⟨node', hnode'⟩ := h'.zeroed.hasMeaning (numbersFit_zeroed us')
  have hread := hnode.accepted (2 * (us.length + us'.length)) 0 _
    (by rw [List.length_map]; omega) hrest.zeroed
  have hread' := hnode'.accepted (2 * (us.length + us'.length)) 0 _
    (by rw [List.length_map]; omega) hrest'.zeroed
  rw [← List.map_append] at hread hread'
  rw [heq, hread'] at hread
  obtain ⟨_, hmap⟩ := Prod.mk.inj (Except.ok.inj hread)
  have hlength : rest.length = rest'.length := by simpa using (congrArg List.length hmap).symm
  exact List.append_inj' heq hlength

/-! ## Rows -/

/-- An operand, and operators with the operand after each. -/
def row (first : List Token) (links : List (Token × List Token)) : List Token :=
  first ++ links.flatMap fun (o, ts) => o :: ts

@[simp] theorem row_nil (first : List Token) : row first [] = first := List.append_nil first

theorem row_cons (first : List Token) (link : Token × List Token)
    (links : List (Token × List Token)) :
    row first (link :: links) = first ++ link.1 :: row link.2 links := rfl

/-- Operators and operands, and what each stands for. -/
def Stand (links : List (Token × List Token)) (values : List (Operator × Node)) : Prop :=
  List.Forall₂ (fun link value => link.1.operator? = some value.1 ∧
    Derives (.operand value.2) link.2) links values

/-- A row stands for the chain of what its operands stand for. -/
theorem Derives.row {first : List Token} {links : List (Token × List Token)} {node : Node}
    {values : List (Operator × Node)} (hfirst : Derives (.operand node) first)
    (hvalues : Stand links values) : Derives (.chain node values) (row first links) := by
  induction hvalues generalizing first node with
  | nil => simpa using hfirst.single
  | cons hone _ ih => exact hfirst.link hone.1 (ih hone.2)

/-- A chain that begins where a row of operands begins is that row, operand by operand, if neither can
be made longer by what follows it. -/
theorem Derives.of_row {first us rest tail : List Token} {links : List (Token × List Token)}
    {node : Node} {values : List (Operator × Node)} (h : Derives (.chain node values) us)
    (hfirst : IsPart .operand first)
    (hlinks : ∀ link ∈ links, IsBinary link.1 ∧ IsPart .operand link.2)
    (heq : us ++ rest = Grammar.row first links ++ tail) (hrest : EndsChain rest)
    (htail : EndsChain tail) : rest = tail ∧ Derives (.operand node) first ∧ Stand links values := by
  induction links generalizing first us node values with
  | nil =>
      rw [row_nil] at heq
      cases h with
      | single hoperand =>
          obtain ⟨rfl, rfl⟩ := hoperand.isRead.operand_unique hfirst heq hrest.1 htail.1
          exact ⟨rfl, hoperand, .nil⟩
      | @link _ _ _ _ _ more o hoperand ho _ =>
          rw [List.append_assoc] at heq
          have hends : EndsOperand (o :: more ++ rest) := .of_operator? ho
          obtain ⟨_, rfl⟩ := hoperand.isRead.operand_unique hfirst heq hends htail.1
          have hnone : o.operator? = none := htail.2 o (by simp)
          simp [ho] at hnone
  | cons link links ih =>
      obtain ⟨hbinary, hsecond⟩ := hlinks link (by simp)
      obtain ⟨op, hop⟩ := isBinary_iff.1 hbinary
      have hends' : EndsOperand (link.1 :: (Grammar.row link.2 links ++ tail)) := .of_operator? hop
      rw [row_cons, List.append_assoc] at heq
      cases h with
      | single hoperand =>
          obtain ⟨_, rfl⟩ := hoperand.isRead.operand_unique hfirst heq hrest.1 hends'
          have hnone : link.1.operator? = none := hrest.2 link.1 (by simp)
          simp [hop] at hnone
      | @link _ _ _ _ _ more o hoperand ho hmore =>
          rw [List.append_assoc] at heq
          have hends : EndsOperand (o :: more ++ rest) := .of_operator? ho
          obtain ⟨rfl, hcons⟩ := hoperand.isRead.operand_unique hfirst heq hends hends'
          obtain ⟨rfl, heq'⟩ := List.cons.inj hcons
          obtain ⟨hsame, hnext, hvalues⟩ := ih hmore hsecond
            (fun l hl => hlinks l (List.mem_cons_of_mem _ hl)) heq'
          exact ⟨hsame, hoperand, .cons ⟨ho, hnext⟩ hvalues⟩

/-- Whatever a row of operands stands for is a chain, and no conditional. -/
theorem Derives.cases_row {first : List Token} {links : List (Token × List Token)} {tree : Node}
    (h : Derives (.expression tree) (Grammar.row first links)) (hfirst : IsPart .operand first)
    (hlinks : ∀ link ∈ links, IsBinary link.1 ∧ IsPart .operand link.2) :
    ∃ node values, tree = (Chain.group node values).toNode ∧ Derives (.operand node) first ∧
      Stand links values := by
  have hempty : EndsChain [] := by simp [EndsChain, EndsOperand]
  generalize hts : Grammar.row first links = ts at h
  cases h with
  | chain hchain =>
      obtain ⟨_, hnode, hvalues⟩ := hchain.of_row hfirst hlinks
        (congrArg (· ++ []) hts.symm) hempty hempty
      exact ⟨_, _, rfl, hnode, hvalues⟩
  | conditional hchain hi _ _ _ _ =>
      obtain ⟨habsurd, _⟩ := hchain.of_row hfirst hlinks
        (hts.symm.trans (List.append_nil _).symm) (endsChain_keyword hi) hempty
      cases habsurd

/-- An operand alone is read as what it stands for. -/
theorem parseTokens_operand_iff {ts : List Token} {node : Node} (h : IsPart .operand ts) :
    parseTokens ts = .ok node ↔ Derives (.operand node) ts := by
  constructor
  · intro hparse
    have hderives := derives_of_parseTokens hparse
    rw [← row_nil ts] at hderives
    obtain ⟨node', values, rfl, hnode, hvalues⟩ := hderives.cases_row h (by simp)
    cases hvalues
    exact hnode
  · intro hnode
    exact parseTokens_of_derives hnode.single.chain

/-- Links stand for operators and nodes if the operators have those symbols and the operands, each
read alone, are those nodes. -/
theorem stand_iff {links : List (Token × List Token)} {values : List (Operator × Node)}
    (hlinks : ∀ link ∈ links, IsBinary link.1 ∧ IsPart .operand link.2) :
    Stand links values ↔
      List.Forall₂ (fun ts node => parseTokens ts = .ok node) (links.map Prod.snd)
        (values.map Prod.snd) ∧
      values.map (fun value => value.1.symbol) = links.map fun link => link.1.value := by
  induction links generalizing values with
  | nil => cases values <;> simp [Stand]
  | cons link links ih =>
      obtain ⟨hbinary, hoperand⟩ := hlinks link (by simp)
      have ih := fun values => @ih values fun l hl => hlinks l (List.mem_cons_of_mem _ hl)
      cases values with
      | nil => simp [Stand]
      | cons value values =>
          have hsymbol : link.1.operator? = some value.1 ↔ value.1.symbol = link.1.value := by
            rw [operator?_eq_some_iff, eq_comm (a := value.1.symbol)]
            exact and_iff_right hbinary.1
          simp only [Stand, List.forall₂_cons, List.map_cons, List.cons.injEq] at ih ⊢
          rw [ih, hsymbol, parseTokens_operand_iff hoperand]
          tauto

/-! ## Main statement -/

end Formula.Grammar
