import Formula.Tree.Parser
import Formula.Value

set_option autoImplicit false

/-! # Faults

Everything that can go wrong after lexing is one type of causes. `Fault.message` words a cause and
`Fault.kind` names the family it is reported under. A fault of an evaluation names the expression
part in which it arose and keeps its cause. -/

namespace Formula

/-- A text that gives no tree, as the interpreter reports it: either some token is at fault, or the
text is nested too deeply. -/
structure ReadError where
  source : String
  reason : String
  token : Option (Nat × String)
  deriving DecidableEq, Repr

/-- The wording of a text that gives no tree. -/
def ReadError.message (e : ReadError) : String :=
  "Exception while parsing expression \"" ++ e.source ++ "\"" ++
    (match e.token with
      | some (index, token) => " near token " ++ toString index ++ " (\"" ++ token ++ "\")"
      | none => "") ++ " Error: " ++ e.reason

/-- Why the arguments of a call cannot instantiate a generic signature. -/
inductive BindingFault where
  | tooMany (method : String) (count supplied : Nat)
  | conflict (parameter first second : String)
  | unsatisfied (type parameter : String)
  deriving DecidableEq, Repr

/-- The wording of a binding fault. -/
def BindingFault.message : BindingFault → String
  | tooMany method count supplied =>
    method ++ " takes " ++ toString count ++ " arguments, " ++ toString supplied ++ " supplied"
  | conflict parameter first second =>
    parameter ++ " bound to both " ++ first ++ " and " ++ second
  | unsatisfied type parameter => type ++ " does not satisfy ~" ++ parameter

/-- A cause of failure. -/
inductive Fault where
  /-- The text gives no tree. -/
  | unreadable (error : ReadError)
  /-- The text holds a number that cannot be read. -/
  | unreadableNumber (cause : Unreadable)
  /-- A name, or the parent of a method call, is not bound. -/
  | unboundName (name : String)
  /-- The parent of a member is not bound. -/
  | unboundParent (name : String)
  | noMember (member parent : String)
  | noMethod (method parent : String)
  | notRegistered (function : String)
  /-- No overload of a method accepts the arguments. -/
  | noOverload (method parent : String) (argumentTypes : List String)
  /-- A function was called with a number of arguments other than its arity. -/
  | argumentCount (expected actual : Nat) (function : String)
  /-- `if` was written like a call. -/
  | conditionalForm
  | conditionType
  /-- The left operand of a membership test has another type than the items. -/
  | itemType (left items : String)
  /-- A standard function is not defined for its arguments. -/
  | undefinedFor (function left right : String)
  /-- The result of an expression has another type than was asked for. -/
  | resultType (expression actual expected : String)
  /-- A new binding was given nothing to take its type from. -/
  | untypedBinding (name : String)
  /-- A variable was made from nothing. -/
  | untypedVariable
  | typeMismatch (expected actual : String)
  /-- The arguments of a call cannot instantiate a generic signature. -/
  | binding (fault : BindingFault)
  | divisionByZero (dividend : Int)
  | floatDivisionByZero
  | integerTooLarge
  | roundedTooLarge
  | noAbsoluteValue (type : String)
  /-- A prefix or suffix is neither a string nor a row of strings. -/
  | affixType (function type : String)
  /-- The function table has no such name. -/
  | unknownFunction (name : String)
  | noAttribute (type missing : String)
  /-- Host code raised an error of its own. -/
  | raised (kind message : String)
  /-- A method failed while it ran. -/
  | invocation (method type : String) (cause : Fault)
  /-- An expression part failed. -/
  | evaluation (part : String) (cause : Fault)

namespace Fault

/-- The family of errors that a cause is reported under. -/
def kind : Fault → String
  | unreadable _ => "ParseError"
  | unreadableNumber (.malformed _) => "ParseError"
  | unreadableNumber (.tooManyDigits _) => "ValueError"
  | unreadableNumber .tooLargeForDouble => "OverflowError"
  | unboundName _ | unboundParent _ => "ScopeError"
  | noMember _ _ | noMethod _ _ | notRegistered _ => "MemberError"
  | noOverload _ _ _ | argumentCount _ _ _ => "ArityError"
  | conditionalForm => "ExpressionSyntaxError"
  | conditionType | itemType _ _ | undefinedFor _ _ _ | resultType _ _ _ | untypedBinding _
  | untypedVariable | typeMismatch _ _ => "ExpressionTypeError"
  | binding _ => "GenericBindingError"
  | divisionByZero _ | floatDivisionByZero => "ZeroDivisionError"
  | integerTooLarge | roundedTooLarge => "OverflowError"
  | noAbsoluteValue _ | affixType _ _ => "TypeError"
  | unknownFunction _ => "KeyError"
  | noAttribute _ _ => "AttributeError"
  | raised kind _ => kind
  | invocation _ _ _ => "InvocationError"
  | evaluation _ _ => "EvaluationError"

/-- The wording of a cause. A missing key is shown in quotes. -/
def message : Fault → String
  | unreadable error => error.message
  | unreadableNumber cause => cause.message
  | unboundName name => "'" ++ name ++ "' is not a valid variable in scope"
  | unboundParent name => "Object '" ++ name ++ "' not found in scope."
  | noMember member parent => "Member '" ++ member ++ "' not found in " ++ parent ++ "."
  | noMethod method parent =>
    "Function/Method '" ++ method ++ "' was not found in " ++ parent ++ "."
  | notRegistered function => "'" ++ function ++ "' is not a registered function"
  | noOverload method parent argumentTypes =>
    "Function/Method '" ++ method ++ "' accepting [" ++ ", ".intercalate argumentTypes ++
      "] was not found in " ++ parent ++ "."
  | argumentCount expected actual _ =>
    "Expected " ++ toString expected ++ " arguments/parameters, got " ++ toString actual
  | conditionalForm =>
    "Invalid format for ternary statement. " ++
      "Expecting: \x60<Truthy Expression> if(<Condition>) else <Falsy Expression>\x60"
  | conditionType => "If condition must return a boolean value"
  | itemType left items =>
    "Left value type '" ++ left ++ "' does not match the list item type '" ++ items ++ "'"
  | undefinedFor function left right =>
    function ++ " is not defined for " ++ left ++ " and " ++ right
  | resultType expression actual expected =>
    "Expression '" ++ expression ++ "' returned " ++ actual ++ ", expected " ++ expected
  | untypedBinding name => "Cannot bind '" ++ name ++ "' to None without a declared type"
  | untypedVariable => "Cannot infer a variable type from None"
  | typeMismatch expected actual =>
    "Type mismatch: Expected " ++ expected ++ ", but got " ++ actual
  | binding fault => fault.message
  | divisionByZero dividend => "Fraction(" ++ toString dividend ++ ", 0)"
  | floatDivisionByZero => "float division by zero"
  | integerTooLarge => "int too large to convert to float"
  | roundedTooLarge => "rounded value too large to represent"
  | noAbsoluteValue type => "bad operand type for abs(): '" ++ type ++ "'"
  | affixType function type =>
    function ++ " first arg must be str or a tuple of str, not " ++ type
  | unknownFunction name => Text.quoted name
  | noAttribute type missing =>
    "'" ++ type ++ "' object has no attribute '" ++ missing ++ "'"
  | raised kind message => if kind = "KeyError" then Text.quoted message else message
  | invocation method type cause =>
    "Method '" ++ method ++ "' of " ++ type ++ " raised " ++ cause.kind ++ ": " ++ cause.message
  | evaluation part cause =>
    "Exception thrown for expression part \x60" ++ part ++ "\x60. Error: " ++ cause.message

/-- Whether a fault names an expression part. -/
def isEvaluation : Fault → Bool
  | evaluation _ _ => true
  | _ => false

/-- The innermost cause that names no expression part. -/
def root : Fault → Fault
  | evaluation _ cause => cause.root
  | fault => fault

/-- Whether a fault says that an attribute is missing. -/
def isMissingAttribute (fault : Fault) : Bool := fault.kind == "AttributeError"

/-- The fault of an evaluation that an action ends with, or nothing if it does not fail. A fault that
names no expression part is not caught. -/
def caught {σ α : Type} (action : ExceptT Fault (StateM σ) α) :
    ExceptT Fault (StateM σ) (Option Fault) :=
  tryCatch (do let _ ← action; return none) fun fault =>
    if fault.isEvaluation then return some fault else throw fault

end Fault

end Formula
