import Formula.CommandLine.Variables
import Formula.Interpreter.Validation
import Formula.Text.ControlSequence

set_option autoImplicit false

/-! # The command line

Four commands: to evaluate an expression, to validate one, to list its tokens, and to list the
standard functions. A command gives what is written to both outputs and the exit code: 0 when all is
well, 1 when the expression fails, and 2 when the command is used wrongly. The outputs are not
terminals, so control sequences are left out of what is written, except in the log. -/

namespace Formula.CommandLine

/-! ## Commands -/

/-- A command by its name. -/
inductive CommandName where
  | eval
  | functions
  | tokens
  | validate
  deriving DecidableEq, Repr

namespace CommandName

/-- All commands in the order of their names. -/
def all : List CommandName := [eval, functions, tokens, validate]

/-- The word that names a command. -/
def word : CommandName → String
  | eval => "eval"
  | functions => "functions"
  | tokens => "tokens"
  | validate => "validate"

/-- What a command does. -/
def description : CommandName → String
  | eval => "Evaluate EXPRESSION and print the result."
  | functions => "List the native functions available to expressions."
  | tokens => "Print the tokens EXPRESSION is read as."
  | validate => "Check EXPRESSION for syntax, scope and member errors."

/-- The command with the given name. -/
def named? (word : String) : Option CommandName := all.find? (·.word == word)

/-- Whether a command takes an expression. -/
def takesExpression : CommandName → Bool
  | functions => false
  | _ => true

/-- The options of a command, each with the written form of its value and with what it does. -/
def options (c : CommandName) : List (String × String × String) :=
  let bindingOptions :=
    [("--var", "NAME=VALUE", "Bind a variable; the value is read as a YAML scalar."),
      ("--vars-file", "FILE", "YAML file mapping variable names to values.")]
  let help := [("--help", "", "Show this message and exit.")]
  match c with
  | eval => bindingOptions ++ [("--debug", "", "Log each evaluation step.")] ++ help
  | validate =>
    bindingOptions ++
      [("--type", "NAME=TYPE", "Declare a variable by type only (int, float, str, bool).")] ++ help
  | tokens | functions => help

/-- How the use of a command begins. -/
def usage (c : CommandName) : String :=
  "plainexpr " ++ c.word ++ " [OPTIONS]" ++ if c.takesExpression then " EXPRESSION" else ""

end CommandName

/-- The options before the command. -/
def groupOptions : List (String × String × String) :=
  [("--strict", "", "Reject characters no token matches."),
    ("--help", "", "Show this message and exit.")]

/-- How the use of the whole program begins. -/
def groupUsage : String := "plainexpr [OPTIONS] COMMAND [ARGS]..."

/-- What is read of options. -/
def specs (options : List (String × String × String)) : List OptionSpec :=
  options.map fun (name, value, _) => ⟨name, !value.isEmpty⟩

/-! ## Layout -/

/-- A text filled up with blanks behind it. -/
def padRight (width : Nat) (s : String) : String :=
  s ++ String.ofList (List.replicate (width - s.length) ' ')

/-- A text filled up with blanks before it. -/
def padLeft (width : Nat) (s : String) : String :=
  String.ofList (List.replicate (width - s.length) ' ') ++ s

/-- Two columns, the first as wide as its widest text. -/
def columns (rows : List (String × String)) : List String :=
  let width := ((rows.map fun (left, _) => left.length).max?).getD 0
  rows.map fun (left, right) => "  " ++ padRight width left ++ "  " ++ right

/-- Texts, each on a line of its own. -/
def lines (texts : List String) : String := String.join (texts.map (· ++ "\n"))

/-- The rows that explain options. -/
def optionRows (options : List (String × String × String)) : List (String × String) :=
  options.map fun (name, value, what) =>
    (if value.isEmpty then name else name ++ " " ++ value, what)

/-- The help of the whole program. -/
def groupHelp : String :=
  lines (["Usage: " ++ groupUsage, "",
    "  plainexpr: evaluate and check expressions from the command line.", "", "Options:"] ++
    columns (optionRows groupOptions) ++ ["", "Commands:"] ++
    columns (CommandName.all.map fun c => (c.word, c.description)))

/-- The help of a command. -/
def CommandName.help (c : CommandName) : String :=
  lines (["Usage: " ++ c.usage, "", "  " ++ c.description, "", "Options:"] ++
    columns (optionRows c.options))

/-! ## Outcomes -/

/-- What a run leaves behind: the exit code, the text of both outputs, and the lines of the log,
which is kept whether or not it is written to an output. -/
structure Outcome where
  exit : Nat
  output : String
  errors : String
  log : List String
  deriving DecidableEq, Repr

namespace Outcome

/-- An outcome without the control sequences of its texts. -/
def written (exit : Nat) (output errors : String) : Outcome :=
  ⟨exit, Text.withoutControlSequences output, Text.withoutControlSequences errors, []⟩

/-- All is well. -/
def done (output : String) : Outcome := written 0 output ""

/-- The expression fails with a message. -/
def failed (message : String) : Outcome := written 1 "" ("Error: " ++ message ++ "\n")

/-- The run breaks off without a message. -/
def broken : Outcome := ⟨1, "", "", []⟩

/-- The program is used wrongly: how a command is used, where help is, and what is wrong. -/
def misused (command : Option CommandName) (fault : UsageFault) : Outcome :=
  let usage := (command.map (·.usage)).getD groupUsage
  let help := "plainexpr" ++ ((command.map fun c => " " ++ c.word).getD "") ++ " --help"
  written 2 "" (lines ["Usage: " ++ usage, "Try '" ++ help ++ "' for help.", "",
    "Error: " ++ fault.message])

/-- Nothing is asked for: the help stands in place of a fault. -/
def helpOnly : Outcome := written 2 "" groupHelp

/-- The outcome of a fault. A number that cannot be read breaks the run off. -/
def ofFault : Fault → Outcome
  | .unreadableNumber _ => broken
  | fault => failed fault.message

/-- The outcome of a command whose variables cannot be loaded. -/
def ofLoadFault (command : CommandName) : LoadFault → Outcome
  | .misuse fault => misused (some command) fault
  | .unreadable => broken

/-- The outcome of an action that may fail. -/
def ofResult {α : Type} (outcome : α → Outcome) : Except Fault α → Outcome
  | .ok a => outcome a
  | .error fault => ofFault fault

/-- An outcome with the log of what was reported on the way to it. -/
def reporting (events : List Event) (o : Outcome) : Outcome :=
  { o with log := events.map (·.line) }

/-- An outcome whose log is written before its errors. -/
def traced (o : Outcome) : Outcome := { o with errors := lines o.log ++ o.errors }

end Outcome

/-! ## Running commands -/

/-- A host without classes. -/
def bareHost : Universe := ⟨[], []⟩

/-- The result of an action on an empty world, and the world afterwards. -/
def start {α : Type} (action : WorldAction α) : Except Fault α × World := action.run World.empty

/-- The form in which a frozen result is printed. -/
def rendered : Value → String
  | .none => "null"
  | .bool b => if b then "true" else "false"
  | v => v.plain

/-- Evaluates an expression with some variables. The log is written if the run is traced. -/
def runEval (config : Configuration) (expression : String) (bindings : Bindings) (debug : Bool) :
    Outcome :=
  let (result, w) := start do
    let i ← Interpreter.make bareHost config
    let e ← Expression.ofText i expression
    let e := { e with debug := debug || config.debug }
    assignBindings i.host e.scope bindings
    e.evaluate i
  let value (v : Value) : Outcome := .done (rendered (w.store.heap.freeze v) ++ "\n")
  let outcome := (Outcome.ofResult value result).reporting w.store.log
  if debug then outcome.traced else outcome

/-- The outcome of a validation. -/
def reportOutcome (r : Report) : Outcome :=
  if r.isValid then .done "Expression is valid\n"
  else
    .written 1 (lines (r.faults.map fun fault => "  ✗ " ++ fault.message))
      ("\n" ++ toString r.faults.length ++ " error(s)\n")

/-- Validates an expression with some global variables and declarations. -/
def runValidate (config : Configuration) (expression : String) (bindings : Bindings)
    (declarations : List String) : Outcome :=
  let (made, w) := start do
    let i ← Interpreter.make bareHost config
    assignBindings i.host i.globals bindings
    return i
  match made with
  | .error fault => (Outcome.ofFault fault).reporting w.store.log
  | .ok i =>
    match loadTypes .empty declarations with
    | .error fault => (Outcome.misused (some .validate) fault).reporting w.store.log
    | .ok types =>
      let (result, w) := (i.validate expression types).run w
      (Outcome.ofResult reportOutcome result).reporting w.store.log

/-- The row that shows a token. -/
def tokenRow (t : Token) : String :=
  padLeft 3 (toString t.index) ++ "  " ++ padRight 9 t.kind.label ++ " " ++ t.value

/-- Lists the tokens of an expression. -/
def runTokens (config : Configuration) (expression : String) : Outcome :=
  let events := readingEvents config.strict expression
  match tokenize config.strict expression with
  | .error stray => (Outcome.failed stray.message).reporting events
  | .ok tokens => (Outcome.done (lines (tokens.map tokenRow))).reporting events

/-- Lists the standard functions. -/
def runFunctions : Outcome :=
  .done (lines (FunctionTable.standard.sorted.map fun f =>
    padRight 12 f.name ++ " " ++ padLeft 2 ((f.arity.map toString).getD "*") ++ "  [" ++
      f.category.label ++ "] " ++ f.description))

/-- Whether a path leads to a directory whatever files there are: it names the root, or only steps
that stay or lead upwards. -/
def isDirectory (path : String) : Bool :=
  !path.isEmpty && (path.splitOn "/").all ["", ".", ".."].contains

/-- What is wrong with the path of a file. -/
def pathFault (option path : String) : UsageFault :=
  if isDirectory path then .fileIsDirectory option path else .fileMissing option path

/-- Runs a command whose words have been read. -/
def runWords (config : Configuration) (files : Dictionary String String) (c : CommandName)
    (w : Words) : Outcome :=
  let path := (w.values "--vars-file").getLast?
  let file := path.bind files.find?
  if w.hasFlag "--help" then .done c.help
  else
    match path, file, w.arguments, c.takesExpression with
    | some path, none, _, _ => .misused (some c) (pathFault "--vars-file" path)
    | _, _, [], true => .misused (some c) (.argumentMissing "EXPRESSION")
    | _, _, _ :: more :: extra, true => .misused (some c) (.extraArguments (more :: extra))
    | _, _, extra :: more, false => .misused (some c) (.extraArguments (extra :: more))
    | _, _, [], false => runFunctions
    | _, file, [expression], true =>
      match c with
      | .tokens => runTokens config expression
      | .functions => runFunctions
      | .eval =>
        match loadVariables file (w.values "--var") with
        | .ok bindings => runEval config expression bindings (w.hasFlag "--debug")
        | .error fault => .ofLoadFault c fault
      | .validate =>
        match loadVariables file (w.values "--var") with
        | .ok bindings => runValidate config expression bindings (w.values "--type")
        | .error fault => .ofLoadFault c fault

/-- The outcome of a word that names no command. If it is written as an option, the options of the
whole program are read once more, starting with it. -/
def runUnknown (word : String) (rest : List String) : Outcome :=
  match readWords (specs groupOptions) false (word :: rest) with
  | .error fault => .misused none fault
  | .ok group =>
    if group.hasFlag "--help" then .done groupHelp else .misused none (.noSuchCommand word)

/-- Runs the program, given its environment and the texts of files. -/
def run (environment files : Dictionary String String) (arguments : List String) : Outcome :=
  match readWords (specs groupOptions) false arguments with
  | .error fault => .misused none fault
  | .ok group =>
    if group.hasFlag "--help" then .done groupHelp
    else
      match group.arguments with
      | [] => if arguments.isEmpty then .helpOnly else .misused none .commandMissing
      | word :: rest =>
        match CommandName.named? word with
        | none => runUnknown word rest
        | some c =>
          let config := Configuration.ofEnvironment environment
          let config := { config with strict := config.strict || group.hasFlag "--strict" }
          match readWords (specs c.options) true rest with
          | .error fault => .misused (some c) fault
          | .ok w => runWords config files c w

/-- The paths of the files that arguments name. -/
def filesNamed : List String → List String
  | [] => []
  | [word] => pathIn word
  | word :: next :: rest =>
    if word = "--vars-file" then next :: filesNamed rest
    else pathIn word ++ filesNamed (next :: rest)
where
  /-- The path that a word names after an equals sign. -/
  pathIn (word : String) : List String :=
    match cutAtEquals word.toList with
    | (name, some path) => if String.ofList name = "--vars-file" then [String.ofList path] else []
    | _ => []

end Formula.CommandLine
