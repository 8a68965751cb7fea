import Formula.CommandLine.Similarity
import Formula.Text.Quoted
import Formula.Tree.Text

set_option autoImplicit false

/-! # Options and arguments

How the words of a command line are read. Words that begin with a dash are options, up to a lone
double dash; the others are arguments. An option is a flag, or takes the next word, or the text
after an equals sign, as its value. -/

namespace Formula.CommandLine

/-- What is wrong with the use of a command. -/
inductive UsageFault where
  | noSuchOption (name : String) (similar : List String)
  | valueMissing (option : String)
  | valueUnexpected (option : String)
  | commandMissing
  | noSuchCommand (name : String)
  | argumentMissing (name : String)
  | extraArguments (arguments : List String)
  | fileMissing (option path : String)
  | fileIsDirectory (option path : String)
  | assignmentExpected (option text : String)
  | unknownType (name : String) (known : List String)
  | mappingExpected
  deriving DecidableEq, Repr

/-- The wording of a usage fault. -/
def UsageFault.message : UsageFault → String
  | noSuchOption name similar =>
    "No such option: " ++ name ++
      (match similar with
        | [] => ""
        | [one] => " Did you mean " ++ one ++ "?"
        | several => " (Possible options: " ++ commaSeparated several ++ ")")
  | valueMissing option => "Option '" ++ option ++ "' requires an argument."
  | valueUnexpected option => "Option '" ++ option ++ "' does not take a value."
  | commandMissing => "Missing command."
  | noSuchCommand name => "No such command " ++ Text.quoted name ++ "."
  | argumentMissing name => "Missing argument '" ++ name ++ "'."
  | extraArguments arguments =>
    "Got unexpected extra argument" ++ (if arguments.length = 1 then "" else "s") ++ " (" ++
      " ".intercalate arguments ++ ")"
  | fileMissing option path =>
    "Invalid value for '" ++ option ++ "': File " ++ Text.quoted path ++ " does not exist."
  | fileIsDirectory option path =>
    "Invalid value for '" ++ option ++ "': File " ++ Text.quoted path ++ " is a directory."
  | assignmentExpected option text =>
    "Invalid value for " ++ option ++ ": expected name=value, got '" ++ text ++ "'"
  | unknownType name known =>
    "Invalid value for --type: unknown type '" ++ name ++ "' (expected one of: " ++
      commaSeparated known ++ ")"
  | mappingExpected =>
    "Invalid value for --vars-file: must contain a mapping of names to values"

/-- An option that a command knows. -/
structure OptionSpec where
  name : String
  takesValue : Bool
  deriving DecidableEq, Repr

/-- The options that were given, each with its value if it takes one, and the arguments. -/
structure Words where
  options : List (String × Option String)
  arguments : List String
  deriving DecidableEq, Repr

namespace Words

/-- No words. -/
def empty : Words := ⟨[], []⟩

/-- The words with one more option in front. -/
def withOption (w : Words) (name : String) (value : Option String) : Words :=
  { w with options := (name, value) :: w.options }

/-- The words with one more argument in front. -/
def withArgument (w : Words) (argument : String) : Words :=
  { w with arguments := argument :: w.arguments }

/-- Whether a flag was given. -/
def hasFlag (w : Words) (name : String) : Bool := w.options.any (·.1 == name)

/-- The values given to an option, in order. -/
def values (w : Words) (name : String) : List String :=
  w.options.filterMap fun (given, value) => if given = name then value else none

end Words

/-- The text before the first equals sign, and the text after it if there is one. -/
def cutAtEquals : List Char → List Char × Option (List Char)
  | [] => ([], none)
  | '=' :: cs => ([], some cs)
  | c :: cs =>
    let (name, value) := cutAtEquals cs
    (c :: name, value)

/-- Whether a word is written as an option. -/
def isOption (word : String) : Bool := word.toList.head? == some '-' && word != "-"

/-- The fault of an option that a command does not know. One with a single dash is named by its
first letter. -/
def unknownOption (known : List OptionSpec) (word name : String) : UsageFault :=
  match word.toList with
  | '-' :: '-' :: _ =>
    let similar := (known.map (·.name)).filter (Similarity.isSimilar · name)
    .noSuchOption name (similar.mergeSort fun a b => decide (a ≤ b))
  | cs => .noSuchOption (String.ofList (cs.take 2)) []

/-- Reads the words of a command. If `mixed` is false, the options end at the first argument. -/
def readWords (known : List OptionSpec) (mixed : Bool) : List String → Except UsageFault Words
  | [] => .ok .empty
  | "--" :: rest => .ok { Words.empty with arguments := rest }
  | word :: rest =>
    if isOption word then
      let (name, value) := cutAtEquals word.toList
      let name := String.ofList name
      match known.find? (·.name == name), value, rest with
      | none, _, _ => .error (unknownOption known word name)
      | some spec, some value, rest =>
        if spec.takesValue then do
          return (← readWords known mixed rest).withOption name (some (String.ofList value))
        else .error (.valueUnexpected name)
      | some spec, none, [] =>
        if spec.takesValue then .error (.valueMissing name)
        else .ok (Words.empty.withOption name none)
      | some spec, none, next :: rest =>
        if spec.takesValue then do
          return (← readWords known mixed rest).withOption name (some next)
        else do
          return (← readWords known mixed (next :: rest)).withOption name none
    else if mixed then do return (← readWords known mixed rest).withArgument word
    else .ok { Words.empty with arguments := word :: rest }
termination_by words => words.length

end Formula.CommandLine
