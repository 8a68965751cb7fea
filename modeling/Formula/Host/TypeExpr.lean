import Formula.Tree.Text
import Formula.Value

set_option autoImplicit false

/-! # Type expressions

What host code says about a parameter or a field: a type, a union, a type variable, or something
that is not checked. A union is kept flat, and a union and a row of texts are kept without
repetitions. In a union, and among the types that a type variable is limited to, the absent value
stands for its type. -/

namespace Formula

/-- A type expression of a parameter or a field. -/
inductive TypeExpr where
  /-- Nothing was written. -/
  | missing
  | any
  /-- The absent value itself, which is not checked. -/
  | none
  | type (t : ValueType)
  /-- A type variable. -/
  | parameter (name : String)
  | union (alternatives : List TypeExpr)
  | list (item : TypeExpr)
  /-- Some texts; not checked. -/
  | literal (texts : List String)
  /-- Marks what belongs to the class and is no field. -/
  | classVar (inner : TypeExpr)
  /-- A name that was not resolved; not checked. -/
  | forward (name : String)

namespace TypeExpr

instance : Inhabited TypeExpr := ⟨missing⟩

mutual

/-- Equality of type expressions. The order of alternatives and of texts does not matter: neither
repeats itself, so they agree when there are as many of both and each of one is among the other. -/
def same : TypeExpr → TypeExpr → Bool
  | missing, missing => true
  | any, any => true
  | none, none => true
  | type a, type b => a == b
  | parameter a, parameter b => a == b
  | union as, union bs => as.length == bs.length && areAmong as bs
  | list a, list b => same a b
  | literal as, literal bs => as.length == bs.length && as.all bs.contains
  | classVar a, classVar b => same a b
  | forward a, forward b => a == b
  | _, _ => false

/-- Whether each of some type expressions equals one of others. -/
def areAmong : List TypeExpr → List TypeExpr → Bool
  | [], _ => true
  | a :: as, bs => bs.any (fun b => same a b) && areAmong as bs

end

/-- A type expression as it stands among others: there the absent value means its type. -/
def asMember : TypeExpr → TypeExpr
  | none => type .none
  | a => a

/-- The alternatives that a type expression contributes to a union. -/
def alternatives : TypeExpr → List TypeExpr
  | union as => as
  | a => [a.asMember]

/-- Keeps the first of equal type expressions. -/
def distinct (as : List TypeExpr) : List TypeExpr :=
  as.foldl (fun kept a => if kept.any a.same then kept else kept ++ [a]) []

/-- The union of some type expressions. The union of one is that one, except that a name stays in
its union: only a name that stands by itself is resolved. -/
def unionOf (as : List TypeExpr) : TypeExpr :=
  match distinct (as.flatMap alternatives) with
  | [forward name] => union [forward name]
  | [a] => a
  | as => union as

/-- Some texts, the first of equal ones kept. -/
def literalOf (texts : List String) : TypeExpr := literal texts.eraseDups

/-- The name of a type in a type expression. -/
def typeText : ValueType → String
  | .none => "None"
  | t => t.name

mutual

/-- The written form of a type expression. -/
def text : TypeExpr → String
  | missing => "<none>"
  | any => "Any"
  | none => "None"
  | type t => typeText t
  | parameter name => "~" ++ name
  | union as => " | ".intercalate (textAll as)
  | list a => "list[" ++ text a ++ "]"
  | literal texts => "Literal[" ++ commaSeparated texts ++ "]"
  | classVar a => "ClassVar[" ++ text a ++ "]"
  | forward name => "forward:" ++ name

/-- The written forms of some type expressions. -/
def textAll : List TypeExpr → List String
  | [] => []
  | a :: as => text a :: textAll as

end

/-- Whether a type expression marks what belongs to the class. -/
def isClassVar : TypeExpr → Bool
  | classVar _ => true
  | _ => false

end TypeExpr

/-- A type variable with an upper bound and the types it is limited to. -/
structure TypeParameter where
  name : String
  bound : Option TypeExpr
  /-- What the variable is limited to, if anything is given; the absent value means its type. -/
  constraints : List TypeExpr

end Formula
