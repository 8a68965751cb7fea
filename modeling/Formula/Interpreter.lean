import Formula.Interpreter.Configuration
import Formula.Evaluation
import Formula.Tree.Nesting

set_option autoImplicit false

/-! # Interpreters

An interpreter owns a scope of global variables and a table of functions, and reads texts into
trees. A text that cannot be read is reported with the token at fault; the place behind the last
token counts as the last token. Where the tokens read before a fault are nested too deeply, that is
what is reported. -/

namespace Formula

/-- An interpreter: the host it works for, its switches, the scope of its globals, and its
functions. -/
structure Interpreter where
  host : Universe
  config : Configuration
  globals : Nat
  functions : FunctionTable

namespace Interpreter

/-- A new interpreter with a scope of its own. -/
def make (host : Universe) (config : Configuration) : WorldAction Interpreter := do
  let globals ← WorldAction.newScope none
  return { host, config, globals,
           functions := if config.builtins then FunctionTable.standard else .empty }

/-- The interpreter with one more function. -/
def register (i : Interpreter) (f : FunctionDefinition) : Interpreter :=
  { i with functions := i.functions.register f }

/-- Gives global variables their values. -/
def assignGlobals (i : Interpreter) (values : Dictionary String Value) : WorldAction Unit :=
  WorldAction.assignAll i.host i.globals values.entries

end Interpreter

/-! ## Reading -/

namespace ReadError

/-- The report of a stray character that is refused. -/
def ofStray (source : String) (stray : Stray) : ReadError := ⟨source, stray.message, some (0, "")⟩

/-- The report of a syntax error in a source with the given tokens. -/
def ofSyntax (source : String) (tokens : List Token) (e : SyntaxError) : ReadError :=
  let index := if tokens.isEmpty then e.index else min e.index (tokens.length - 1)
  ⟨source, e.fault.message, some (index, (tokens[index]?.map (·.text)).getD "")⟩

/-- The report of a source that is nested too deeply. -/
def tooDeep (source : String) : ReadError := ⟨source, "Expression is nested too deeply", none⟩

end ReadError

/-- The tree of a sanitized source with the given tokens. -/
def readTokens (source : String) (tokens : List Token) : Except Fault Node :=
  match parseTokens tokens with
  | .ok node =>
    if isTooDeep tokens then .error (.unreadable (.tooDeep source)) else .ok node
  | .error (.malformed e) =>
    if isTooDeep (tokens.take e.index) then .error (.unreadable (.tooDeep source))
    else .error (.unreadable (.ofSyntax source tokens e))
  | .error cause => .error (.unreadableNumber cause)

/-- The tree of a text. -/
def readText (strict : Bool) (text : String) : Except Fault Node :=
  match tokenize strict text with
  | .error stray => .error (.unreadable (.ofStray (sanitize text) stray))
  | .ok tokens => readTokens (sanitize text) tokens

/-- A text is read as the tree of its tokens if these are not nested too deeply. -/
theorem readText_eq_ok {strict : Bool} {text : String} {tokens : List Token} {tree : Node}
    (htokens : tokenize strict text = .ok tokens) (htree : parseTokens tokens = .ok tree)
    (hshallow : isTooDeep tokens = false) : readText strict text = .ok tree := by
  rw [readText, htokens]
  simp only [readTokens, htree, hshallow]
  rfl

/-- What reading a text reports: the characters that lenient reading drops. -/
def readingEvents (strict : Bool) (text : String) : List Event :=
  if strict then [] else (lex text).strays.map .dropped

namespace Interpreter

/-- The tokens of a text. -/
def tokens (i : Interpreter) (text : String) : Action (Except Stray (List Token)) := do
  Action.report (readingEvents i.config.strict text)
  return tokenize i.config.strict text

/-- The tree of a text. -/
def read (i : Interpreter) (text : String) : Action Node := do
  Action.report (readingEvents i.config.strict text)
  Action.ofExcept (readText i.config.strict text)

end Interpreter

end Formula
