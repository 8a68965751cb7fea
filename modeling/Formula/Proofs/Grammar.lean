import Formula.Tree.Parser

set_option autoImplicit false

/-! # The grammar of expressions

`IsPart` says which rows of tokens are expressions, without saying which tree they stand for:

* an expression is a chain, or a chain chosen by a condition, with another expression otherwise;
* a condition is an expression in which no `else` occurs, however deep;
* a chain is operands with binary operators between them;
* an operand is a literal, a path of at most two names, a call, a list, or an expression in
  brackets.

`Derives` is the same grammar with the tree that each row stands for, so that whoever writes a row
of tokens can say which tree must be read. A number is a part of the language whatever its size, but
stands for something only if it can be represented; that is the one difference between the two. -/

namespace Formula.Grammar

/-! ## Single tokens -/

/-- One of the binary operators. -/
def IsBinary (t : Token) : Prop := t.kind = .operator ∧ ∃ op : Operator, t.value = op.symbol

/-- A name, or two names with a point between them. -/
def IsPath (t : Token) : Prop := t.kind = .name ∧ t.value.toList.count '.' ≤ 1

/-- A minus sign. -/
def IsMinus (t : Token) : Prop := t.kind = .operator ∧ t.value = "-"

/-- A sign that can stand before a number. -/
def IsSign (t : Token) : Prop := t.kind = .operator ∧ (t.value = "-" ∨ t.value = "+")

/-! ## The language -/

/-- A string as the item of a list. -/
inductive IsStringItem : List Token → Prop
  | string {t : Token} : t.kind = .string → IsStringItem [t]

/-- A number as the item of a list, perhaps after a minus sign. -/
inductive IsNumberItem : List Token → Prop
  | number {n : Token} : n.kind = .number → IsNumberItem [n]
  | negative {s n : Token} : IsMinus s → n.kind = .number → IsNumberItem [s, n]

/-- At least one item of a form, commas between them, and perhaps a comma after the last. -/
inductive IsRow (Item : List Token → Prop) : List Token → Prop
  | last {item : List Token} : Item item → IsRow Item item
  | trailing {item : List Token} {comma : Token} :
      Item item → comma.kind = .comma → IsRow Item (item ++ [comma])
  | more {item rest : List Token} {comma : Token} :
      Item item → comma.kind = .comma → IsRow Item rest → IsRow Item (item ++ comma :: rest)

/-- What a row of tokens can be a part as. -/
inductive Part where
  | expression
  | chain
  | operand
  /-- At least one expression, with commas between them. -/
  | arguments

/-- The rows of tokens that are parts of a kind. -/
inductive IsPart : Part → List Token → Prop
  | chain {ts : List Token} : IsPart .chain ts → IsPart .expression ts
  | conditional {ts condition alternative : List Token} {i e : Token} :
      IsPart .chain ts → i.isKeyword "if" = true →
      IsPart .expression condition → (∀ t ∈ condition, t.isKeyword "else" = false) →
      e.isKeyword "else" = true → IsPart .expression alternative →
      IsPart .expression (ts ++ i :: (condition ++ e :: alternative))
  | single {ts : List Token} : IsPart .operand ts → IsPart .chain ts
  | link {ts rest : List Token} {o : Token} :
      IsPart .operand ts → IsBinary o → IsPart .chain rest → IsPart .chain (ts ++ o :: rest)
  | string {t : Token} : t.kind = .string → IsPart .operand [t]
  | number {n : Token} : n.kind = .number → IsPart .operand [n]
  | signed {s n : Token} : IsSign s → n.kind = .number → IsPart .operand [s, n]
  | brackets {left right : Token} {ts : List Token} :
      left.kind = .leftParen → IsPart .expression ts → right.kind = .rightParen →
      IsPart .operand (left :: (ts ++ [right]))
  | path {t : Token} : IsPath t → IsPart .operand [t]
  | emptyCall {t left right : Token} :
      IsPath t → left.kind = .leftParen → right.kind = .rightParen →
      IsPart .operand [t, left, right]
  | call {t left right : Token} {ts : List Token} :
      IsPath t → left.kind = .leftParen → IsPart .arguments ts → right.kind = .rightParen →
      IsPart .operand (t :: left :: (ts ++ [right]))
  | list {left right : Token} {ts : List Token} :
      left.kind = .leftBracket → IsRow IsStringItem ts ∨ IsRow IsNumberItem ts →
      right.kind = .rightBracket → IsPart .operand (left :: (ts ++ [right]))
  | argument {ts : List Token} : IsPart .expression ts → IsPart .arguments ts
  | nextArgument {ts rest : List Token} {comma : Token} :
      IsPart .expression ts → comma.kind = .comma → IsPart .arguments rest →
      IsPart .arguments (ts ++ comma :: rest)

/-! ## Derivations -/

/-- The tokens of one item of a list, and the items read before it and after it. -/
inductive ReadsItem : Option Items → List Token → Items → Prop
  | string {known : Option Items} {items : Items} {t : Token} :
      t.kind = .string → Items.addString (mixedAt t) known t.value = .ok items →
      ReadsItem known [t] items
  | number {known : Option Items} {items : Items} {n : Token} {x : Scalar} :
      n.kind = .number → readNumber false n.value.toList = .ok x →
      Items.addNumber (mixedAt n) known x = .ok items → ReadsItem known [n] items
  | negative {known : Option Items} {items : Items} {s n : Token} {x : Scalar} :
      IsMinus s → n.kind = .number → readNumber true n.value.toList = .ok x →
      Items.addNumber (mixedAt s) known x = .ok items → ReadsItem known [s, n] items

/-- The tokens of a list from some item to the closing bracket, the items read before them, and all
items of the list. -/
inductive ReadsRow : Option Items → List Token → Items → Prop
  | last {known : Option Items} {item : List Token} {right : Token} {items : Items} :
      ReadsItem known item items → right.kind = .rightBracket →
      ReadsRow known (item ++ [right]) items
  | trailing {known : Option Items} {item : List Token} {comma right : Token} {items : Items} :
      ReadsItem known item items → comma.kind = .comma → right.kind = .rightBracket →
      ReadsRow known (item ++ [comma, right]) items
  | more {known : Option Items} {item rest : List Token} {comma : Token} {items all : Items} :
      ReadsItem known item items → comma.kind = .comma → ReadsRow (some items) rest all →
      ReadsRow known (item ++ comma :: rest) all

/-- What a row of tokens stands for. -/
inductive Meaning where
  | expression (node : Node)
  | chain (first : Node) (links : List (Operator × Node))
  | operand (node : Node)
  /-- What follows the opening bracket of a call, the closing one included. -/
  | arguments (nodes : List Node)
  /-- What follows an argument of a call, the closing bracket included. -/
  | moreArguments (nodes : List Node)

/-- The rows of tokens that stand for something. -/
inductive Derives : Meaning → List Token → Prop
  | chain {first : Node} {links : List (Operator × Node)} {ts : List Token} :
      Derives (.chain first links) ts → Derives (.expression (Chain.group first links).toNode) ts
  | conditional {first condition falsy : Node} {links : List (Operator × Node)}
      {ts range alternative : List Token} {i e : Token} :
      Derives (.chain first links) ts → i.isKeyword "if" = true →
      Derives (.expression condition) range → (∀ t ∈ range, t.isKeyword "else" = false) →
      e.isKeyword "else" = true → Derives (.expression falsy) alternative →
      Derives (.expression (.conditional condition (Chain.group first links).toNode falsy))
        (ts ++ i :: (range ++ e :: alternative))
  | single {node : Node} {ts : List Token} :
      Derives (.operand node) ts → Derives (.chain node []) ts
  | link {first second : Node} {op : Operator} {links : List (Operator × Node)}
      {ts rest : List Token} {o : Token} :
      Derives (.operand first) ts → o.operator? = some op → Derives (.chain second links) rest →
      Derives (.chain first ((op, second) :: links)) (ts ++ o :: rest)
  | string {t : Token} : t.kind = .string → Derives (.operand (.literal (.string t.value))) [t]
  | number {n : Token} {x : Scalar} :
      n.kind = .number → readNumber false n.value.toList = .ok x →
      Derives (.operand (.literal x)) [n]
  | signed {s n : Token} {x : Scalar} :
      IsSign s → n.kind = .number →
      readNumber (decide (s.value = "-")) n.value.toList = .ok x →
      Derives (.operand (.literal x)) [s, n]
  | brackets {left right : Token} {node : Node} {ts : List Token} :
      left.kind = .leftParen → Derives (.expression node) ts → right.kind = .rightParen →
      Derives (.operand node) (left :: (ts ++ [right]))
  | name {t : Token} {node : Node} :
      t.kind = .name → readName t = .ok node → Derives (.operand node) [t]
  | call {t left : Token} {parent : Option String} {name : String} {arguments : List Node}
      {ts : List Token} :
      t.kind = .name → splitPath t = .ok (parent, name) → left.kind = .leftParen →
      Derives (.arguments arguments) ts →
      Derives (.operand (.call parent name arguments)) (t :: left :: ts)
  | list {left : Token} {items : Items} {ts : List Token} :
      left.kind = .leftBracket → ReadsRow none ts items →
      Derives (.operand (.list items)) (left :: ts)
  | noArguments {right : Token} : right.kind = .rightParen → Derives (.arguments []) [right]
  | arguments {node : Node} {nodes : List Node} {ts rest : List Token} :
      Derives (.expression node) ts → Derives (.moreArguments nodes) rest →
      Derives (.arguments (node :: nodes)) (ts ++ rest)
  | lastArgument {right : Token} :
      right.kind = .rightParen → Derives (.moreArguments []) [right]
  | nextArgument {node : Node} {nodes : List Node} {comma : Token} {ts rest : List Token} :
      comma.kind = .comma → Derives (.expression node) ts → Derives (.moreArguments nodes) rest →
      Derives (.moreArguments (node :: nodes)) (comma :: (ts ++ rest))

end Formula.Grammar
