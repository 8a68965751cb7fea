import Formula.Number.Order
import Formula.Operator

set_option autoImplicit false

/-! # Expression trees

The tree of an expression: literals, typed lists, names, members of named things, calls, binary
operations, and conditionals. Members and methods are one level deep: their parent is always a name.

The walk through a tree visits a node before its children and the children in their order. -/

namespace Formula

open Number (Binary64 Numeric)

/-! ## Literals -/

/-- A scalar literal. -/
inductive Scalar where
  | bool (b : Bool)
  | int (n : Int)
  | double (x : Binary64)
  | string (s : String)
  deriving DecidableEq

/-- The items of a list literal; all are of one kind. -/
inductive Items where
  | ints (items : List Int)
  | doubles (items : List Binary64)
  | strings (items : List String)
  deriving DecidableEq

/-- The items as scalars. -/
def Items.toList : Items → List Scalar
  | ints items => items.map .int
  | doubles items => items.map .double
  | strings items => items.map .string

/-! ## Trees -/

/-- An expression. The condition of a conditional comes first among its children. -/
inductive Node where
  | literal (value : Scalar)
  | list (items : Items)
  | name (name : String)
  | member (parent name : String)
  | call (parent : Option String) (name : String) (arguments : List Node)
  | binary (op : Operator) (left right : Node)
  | conditional (condition truthy falsy : Node)

namespace Node

/-- The direct parts of a node, the condition of a conditional first. -/
def children : Node → List Node
  | call _ _ arguments => arguments
  | binary _ left right => [left, right]
  | conditional condition truthy falsy => [condition, truthy, falsy]
  | _ => []

mutual

/-- All nodes below a node, each before its own children. -/
def descendants : Node → List Node
  | call _ _ arguments => walkAll arguments
  | binary _ left right => left :: descendants left ++ right :: descendants right
  | conditional condition truthy falsy =>
    condition :: descendants condition ++ truthy :: descendants truthy ++
      falsy :: descendants falsy
  | literal _ | list _ | name _ | member _ _ => []

/-- The given nodes and all nodes below them. -/
def walkAll : List Node → List Node
  | [] => []
  | node :: nodes => node :: descendants node ++ walkAll nodes

end

/-- A node and all nodes below it. -/
def walk (node : Node) : List Node := node :: descendants node

/-! ## Classes of nodes -/

/-- What nodes are sought. A call counts as access to a member. -/
inductive Class where
  | any
  | literal
  | list
  | name
  | member
  | call
  | binary
  | conditional
  deriving DecidableEq, Repr

/-- Whether a node belongs to a class. -/
def isA : Class → Node → Bool
  | .any, _ => true
  | .literal, .literal _ => true
  | .list, .list _ => true
  | .name, .name _ => true
  | .member, .member _ _ => true
  | .member, .call _ _ _ => true
  | .call, .call _ _ _ => true
  | .binary, .binary _ _ _ => true
  | .conditional, .conditional _ _ _ => true
  | _, _ => false

/-- The class that a node belongs to by its form. -/
def form : Node → Class
  | .literal _ => .literal
  | .list _ => .list
  | .name _ => .name
  | .member _ _ => .member
  | .call _ _ _ => .call
  | .binary _ _ _ => .binary
  | .conditional _ _ _ => .conditional

/-- The nodes below a node, or only its children. -/
def under (recursive : Bool) (node : Node) : List Node :=
  if recursive then descendants node else children node

/-- The nodes of the given classes, the node itself first if it is asked for. -/
def find (classes : List Class) (recursive includeRoot : Bool) (node : Node) : List Node :=
  let candidates := (if includeRoot then [node] else []) ++ under recursive node
  candidates.filter fun n => classes.any fun c => isA c n

end Node

/-! ## Equality of trees -/

/-- Equality of scalars of one kind; floating-point values are compared as numbers. -/
def Scalar.same : Scalar → Scalar → Bool
  | .bool a, .bool b => a == b
  | .int a, .int b => a == b
  | .double a, .double b => (Numeric.float a).same (.float b)
  | .string a, .string b => a == b
  | _, _ => false

/-- Equality of lists of one kind, item by item. -/
def Items.same (a b : Items) : Bool :=
  a.toList.length == b.toList.length && (a.toList.zip b.toList).all fun (x, y) => x.same y

mutual

/-- Equality of trees; floating-point literals are compared as numbers. -/
def Node.same : Node → Node → Bool
  | .literal a, .literal b => a.same b
  | .list a, .list b => a.same b
  | .name a, .name b => a == b
  | .member p a, .member q b => p == q && a == b
  | .call p a xs, .call q b ys => p == q && a == b && Node.sameAll xs ys
  | .binary o a b, .binary p c d => o == p && Node.same a c && Node.same b d
  | .conditional a b c, .conditional d e f => Node.same a d && Node.same b e && Node.same c f
  | _, _ => false

/-- Equality of two rows of trees. -/
def Node.sameAll : List Node → List Node → Bool
  | [], [] => true
  | x :: xs, y :: ys => Node.same x y && Node.sameAll xs ys
  | _, _ => false

end

end Formula
