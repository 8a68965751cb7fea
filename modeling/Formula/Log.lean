import Formula.Fault
import Formula.Tree.Text

set_option autoImplicit false

/-! # The log

What the library reports while it works: characters that were dropped, types whose members were
mapped, overloads passed over, calls made and values computed. Values are frozen when they are
reported. Every event belongs to one source, under whose name it is written. -/

namespace Formula

/-- Something that is reported. -/
inductive Event where
  /-- A stray character was dropped. -/
  | dropped (stray : Stray)
  /-- An expression is about to be evaluated. -/
  | evaluating (text : String)
  /-- A node was evaluated. -/
  | evaluated (node : Node) (value : Value)
  /-- A function is about to be called. -/
  | calling (function : String) (arguments : List Value)
  /-- A method is about to be called. -/
  | invoking (parent method : String) (arguments : List Value)
  /-- The members of a type were mapped. -/
  | mapped (type : String) (fields properties methods : Nat)
  /-- A generic overload does not fit the arguments. -/
  | skipped (type method : String) (fault : BindingFault)
  /-- An instantiated signature was kept. -/
  | remembered (type key : String)
  /-- A call that was tried failed. -/
  | failedCall (fault : Fault)
  /-- An expression did not pass validation. -/
  | invalid (text : String) (count : Nat)

namespace Event

/-- The name of the source of an event. -/
def source : Event → String
  | dropped _ => "plainexpr.expressions.lexer"
  | evaluating _ => "plainexpr.expressions.expression"
  | evaluated _ _ | calling _ _ | invoking _ _ _ => "plainexpr.expressions.evaluator"
  | mapped _ _ _ _ | skipped _ _ _ | remembered _ _ | failedCall _ =>
    "plainexpr.scoping.member_map"
  | invalid _ _ => "plainexpr.expressions.interpreter"

/-- The wording of an event. -/
def message : Event → String
  | dropped stray =>
    "Dropping unrecognized character " ++ Text.quoted (String.singleton stray.char) ++
      " at position " ++ toString stray.position
  | evaluating text => "Evaluating expression: " ++ text
  | evaluated node value => "Evaluated " ++ node.text ++ " => " ++ value.display
  | calling function arguments =>
    "Calling function " ++ function ++ " with " ++ (Value.list arguments).display
  | invoking parent method arguments =>
    "Invoking " ++ parent ++ "." ++ method ++ " with " ++ (Value.list arguments).display
  | mapped type fields properties methods =>
    "Mapped " ++ type ++ ": " ++ toString fields ++ " fields, " ++ toString properties ++
      " properties, " ++ toString methods ++ " methods"
  | skipped type method fault =>
    "Skipping overload of " ++ type ++ "." ++ method ++ ": " ++ fault.message
  | remembered type key => "Cached generic instantiation " ++ type ++ "." ++ key
  | failedCall fault => fault.message
  | invalid text count =>
    "Expression " ++ Text.quoted text ++ " failed validation with " ++ toString count ++
      " error(s)"

/-- The line that reports an event. -/
def line (e : Event) : String := e.source ++ ": " ++ e.message

end Event

end Formula
