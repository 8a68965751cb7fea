import Formula.Proofs.Grammar.Path
import Formula.Proofs.Lexing
import Formula.Proofs.Tree.Walk

set_option autoImplicit false

/-! # Weighing a row of tokens

A row of tokens weighs one for each name in it, and two less for each operator `in`. What a row
stands for has the same weight as a tree, so a row of another weight does not stand for that tree, nor
for one that is equal to it. An exponent adds the word `e` to a number, a value that is not finite is
a word in place of a number, and where a name `not` and an operator `in` are read as one operator a
word and its counterweight are lost: what a tree is written as never weighs less than the tree, and
weighs more as soon as one of these occurs in it.

Main statements: `Grammar.Derives.weight_eq` and `Node.weight_of_same`. -/

namespace Formula

/-! ## Weights -/

/-- What a lexeme weighs. -/
def shapeWeight : Shape → Int
  | (.name, _) => 1
  | (.operator, symbol) => if symbol = "in" then -2 else 0
  | _ => 0

/-- What a row of lexemes weighs. -/
def weight : List Shape → Int
  | [] => 0
  | shape :: ls => shapeWeight shape + weight ls

@[simp] theorem weight_nil : weight [] = 0 := rfl

@[simp] theorem weight_cons (shape : Shape) (ls : List Shape) :
    weight (shape :: ls) = shapeWeight shape + weight ls := rfl

@[simp] theorem weight_append (ls ms : List Shape) : weight (ls ++ ms) = weight ls + weight ms := by
  induction ls with
  | nil => simp
  | cons shape ls ih => rw [List.cons_append, weight_cons, weight_cons, ih, Int.add_assoc]

/-- What an operator weighs. -/
def Operator.weight : Operator → Int
  | .member => -2
  | _ => 0

@[simp] theorem shapeWeight_symbol (op : Operator) :
    shapeWeight (.operator, op.symbol) = op.weight := by
  cases op <;> rfl

/-- What a literal weighs. -/
def Scalar.weight : Scalar → Int
  | .bool _ => 1
  | _ => 0

namespace Node

mutual

/-- What a tree weighs. -/
def weight : Node → Int
  | literal value => value.weight
  | list _ => 0
  | name _ | member _ _ => 1
  | call _ _ arguments => 1 + weightAll arguments
  | binary op left right => weight left + (op.weight + weight right)
  | conditional condition truthy falsy => weight truthy + (1 + (weight condition + (1 + weight falsy)))

/-- What some trees weigh. -/
def weightAll : List Node → Int
  | [] => 0
  | node :: nodes => weight node + weightAll nodes

end

/-! ## Equal trees -/

theorem weight_of_same_scalar {a b : Scalar} (h : a.same b = true) : a.weight = b.weight := by
  cases a <;> cases b <;> first | rfl | cases h

/-- Equal trees have the same weight. -/
theorem weight_of_same {a b : Node} (h : a.same b = true) : a.weight = b.weight := by
  induction a using parts generalizing b with
  | literal value => cases b with
    | literal other => exact weight_of_same_scalar (by simpa [same] using h)
    | _ => simp [same] at h
  | list items => cases b with
    | list other => rfl
    | _ => simp [same] at h
  | name n => cases b with
    | name m => rfl
    | _ => simp [same] at h
  | member parent n => cases b with
    | member other m => rfl
    | _ => simp [same] at h
  | call parent n arguments ih =>
      cases b with
      | call other m others =>
          have hall (xs ys : List Node) (hxs : ∀ x ∈ xs, x ∈ arguments)
              (hsame : sameAll xs ys = true) : weightAll xs = weightAll ys := by
            induction xs generalizing ys with
            | nil => cases ys with
              | nil => rfl
              | cons y ys => simp [sameAll] at hsame
            | cons x xs ihs => cases ys with
              | nil => simp [sameAll] at hsame
              | cons y ys =>
                  simp only [sameAll, Bool.and_eq_true] at hsame
                  have hfirst := ih x (hxs x List.mem_cons_self) hsame.1
                  have hrest := ihs ys (fun z hz => hxs z (List.mem_cons_of_mem _ hz)) hsame.2
                  rw [weightAll, weightAll, hfirst, hrest]
          simp only [same, Bool.and_eq_true] at h
          rw [weight, weight, hall arguments others (fun _ hx => hx) h.2]
      | _ => simp [same] at h
  | binary op left right ihl ihr =>
      cases b with
      | binary other l r =>
          simp only [same, Bool.and_eq_true, beq_iff_eq] at h
          rw [weight, weight, h.1.1, ihl h.1.2, ihr h.2]
      | _ => simp [same] at h
  | conditional condition truthy falsy ihc iht ihf =>
      cases b with
      | conditional c t f =>
          simp only [same, Bool.and_eq_true] at h
          rw [weight, weight, ihc h.1.1, iht h.1.2, ihf h.2]
      | _ => simp [same] at h

end Node

/-! ## Chains -/

/-- What the operators of a chain weigh with the operands behind them. -/
def linksWeight : List (Operator × Node) → Int
  | [] => 0
  | (op, node) :: links => op.weight + node.weight + linksWeight links

theorem linksWeight_append (ks ls : List (Operator × Node)) :
    linksWeight (ks ++ ls) = linksWeight ks + linksWeight ls := by
  induction ks with
  | nil => simp [linksWeight]
  | cons link ks ih => simp [linksWeight, ih, Int.add_assoc]

theorem Chain.weight_toNode (c : Chain) :
    c.toNode.weight = c.head.weight + linksWeight c.links := by
  induction c with
  | operand node => simp [toNode, head, links, linksWeight]
  | apply op left right ihl ihr =>
      simp only [toNode, Node.weight, head, links, linksWeight_append, linksWeight, ihl, ihr]
      omega

/-- However a chain is grouped, it weighs the same. -/
theorem Chain.weight_group (first : Node) (links : List (Operator × Node)) :
    (group first links).toNode.weight = first.weight + linksWeight links := by
  rw [weight_toNode, (items_group first links).1, (items_group first links).2]

/-! ## Rows of tokens -/

namespace Grammar

/-- What that which a row of tokens stands for weighs. -/
def Meaning.weight : Meaning → Int
  | expression node | operand node => node.weight
  | chain first links => first.weight + linksWeight links
  | arguments nodes | moreArguments nodes => Node.weightAll nodes

theorem shapeWeight_of_name {t : Token} (h : t.kind = .name) : shapeWeight t.shape = 1 := by
  rw [Token.shape, h]
  rfl

theorem shapeWeight_of_isKeyword {t : Token} {keyword : String} (h : t.isKeyword keyword = true) :
    shapeWeight t.shape = 1 := by
  simp only [Token.isKeyword, Bool.and_eq_true, beq_iff_eq] at h
  exact shapeWeight_of_name h.1

theorem shapeWeight_of_operator? {t : Token} {op : Operator} (h : t.operator? = some op) :
    shapeWeight t.shape = op.weight := by
  unfold Token.operator? Operator.ofSymbol? at h
  split at h
  next hkind =>
    have hsymbol : op.symbol = t.value := by simpa using List.find?_some h
    rw [Token.shape, hkind, ← hsymbol, shapeWeight_symbol]
  · cases h

/-- A token that is neither a name nor an operator weighs nothing. -/
theorem shapeWeight_of_kind {t : Token} {kind : TokenKind} (h : t.kind = kind)
    (hkind : kind ≠ .name ∧ kind ≠ .operator) : shapeWeight t.shape = 0 := by
  rw [Token.shape, h]
  cases kind <;> first | rfl | exact absurd rfl hkind.1 | exact absurd rfl hkind.2

theorem shapeWeight_of_isSign {t : Token} (h : IsSign t) : shapeWeight t.shape = 0 := by
  rw [Token.shape, h.1]
  rcases h.2 with hvalue | hvalue
  · rw [hvalue]
    rfl
  · rw [hvalue]
    rfl

theorem weight_of_readNumber {negative : Bool} {text : List Char} {x : Scalar}
    (h : readNumber negative text = .ok x) : x.weight = 0 := by
  unfold readNumber at h
  split at h
  · cases h
    rfl
  · split at h
    · cases h
    · cases h
      rfl

theorem ReadsItem.weight_eq {known : Option Items} {ts : List Token} {items : Items}
    (h : ReadsItem known ts items) : weight (ts.map Token.shape) = 0 := by
  cases h with
  | string hk _ => simp [shapeWeight_of_kind hk]
  | number hk _ _ => simp [shapeWeight_of_kind hk]
  | negative hs hk _ _ => simp [shapeWeight_of_isSign ⟨hs.1, .inl hs.2⟩, shapeWeight_of_kind hk]

/-- A list weighs nothing. -/
theorem ReadsRow.weight_eq {known : Option Items} {ts : List Token} {items : Items}
    (h : ReadsRow known ts items) : weight (ts.map Token.shape) = 0 := by
  induction h with
  | last hitem hright => simp [hitem.weight_eq, shapeWeight_of_kind hright]
  | trailing hitem hcomma hright =>
      simp [hitem.weight_eq, shapeWeight_of_kind hcomma, shapeWeight_of_kind hright]
  | more hitem hcomma _ ih => simp [hitem.weight_eq, shapeWeight_of_kind hcomma, ih]

/-- A row of tokens weighs as much as what it stands for. -/
theorem Derives.weight_eq {m : Meaning} {ts : List Token} (h : Derives m ts) :
    weight (ts.map Token.shape) = m.weight := by
  induction h with
  | @chain first links _ _ ih => exact ih.trans (Chain.weight_group first links).symm
  | @conditional first condition falsy links ts range alternative i e _ hi _ _ he _ iht ihc ihf =>
      simp only [List.map_append, List.map_cons, weight_append, weight_cons, iht, ihc, ihf,
        shapeWeight_of_isKeyword hi, shapeWeight_of_isKeyword he, Meaning.weight, Node.weight,
        Chain.weight_group]
  | single _ ih => simpa [Meaning.weight, linksWeight] using ih
  | @link first second op links ts rest o _ ho _ ihfirst ihrest =>
      simp only [List.map_append, List.map_cons, weight_append, weight_cons, ihfirst, ihrest,
        shapeWeight_of_operator? ho, Meaning.weight, linksWeight]
      omega
  | string hk => simp [shapeWeight_of_kind hk, Meaning.weight, Node.weight, Scalar.weight]
  | number hk hx =>
      simp [shapeWeight_of_kind hk, Meaning.weight, Node.weight, weight_of_readNumber hx]
  | signed hs hk hx =>
      simp [shapeWeight_of_isSign hs, shapeWeight_of_kind hk, Meaning.weight, Node.weight,
        weight_of_readNumber hx]
  | brackets hl _ hr ih =>
      simp [shapeWeight_of_kind hl, shapeWeight_of_kind hr, ih, Meaning.weight]
  | name hk hname =>
      rcases readName_cases hname with ⟨b, rfl⟩ | ⟨_, _, rfl, _⟩ | ⟨_, rfl, _⟩ <;>
        simp [shapeWeight_of_name hk, Meaning.weight, Node.weight, Scalar.weight]
  | call hk _ hl _ ih =>
      simp [shapeWeight_of_name hk, shapeWeight_of_kind hl, ih, Meaning.weight, Node.weight]
  | list hl hrow =>
      simp [shapeWeight_of_kind hl, hrow.weight_eq, Meaning.weight, Node.weight]
  | noArguments hr => simp [shapeWeight_of_kind hr, Meaning.weight, Node.weightAll]
  | arguments _ _ ihnode ihmore => simp [ihnode, ihmore, Meaning.weight, Node.weightAll]
  | lastArgument hr => simp [shapeWeight_of_kind hr, Meaning.weight, Node.weightAll]
  | nextArgument hc _ _ ihnode ihmore =>
      simp [shapeWeight_of_kind hc, ihnode, ihmore, Meaning.weight, Node.weightAll]

end Grammar

end Formula
