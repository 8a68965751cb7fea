import Formula.Dictionary
import Formula.Text.Blank
import Formula.Text.Case

set_option autoImplicit false

/-! # Configuration

The switches of an interpreter. Two of them can be set by environment variables, which turn a switch
on when they hold one of a few affirmative words. -/

namespace Formula

/-- The switches of an interpreter: whether stray characters are refused, whether expressions are
traced, and whether the standard functions are registered. -/
structure Configuration where
  strict : Bool
  debug : Bool
  builtins : Bool
  deriving DecidableEq, Repr

namespace Configuration

/-- The configuration when nothing is set. -/
def standard : Configuration := ⟨false, false, true⟩

/-- The words that turn a switch on. -/
def affirmations : List String := ["1", "true", "yes", "on"]

/-- Whether the value of an environment variable, if there is one, turns its switch on. -/
def isOn (value : Option String) : Bool :=
  match value with
  | none => false
  | some text => affirmations.contains (Text.lower (Text.trim text))

/-- The configuration that environment variables give. -/
def ofEnvironment (environment : Dictionary String String) : Configuration :=
  { standard with
    strict := isOn (environment.find? "PLAINEXPR_STRICT_LEXING")
    debug := isOn (environment.find? "PLAINEXPR_DEBUG") }

end Configuration

end Formula
