import Formula.Yaml.Node

set_option autoImplicit false

/-! # Documents

A document gives values under keys, or a value by itself. A text that holds a character that no
document may hold, or that has no row of tokens or no tree, is not a document. Mappings stand only
at the top. -/

namespace Formula.Yaml

/-- A document: values under keys in the order in which they are written, or a value by itself. -/
inductive Document where
  | mapping (entries : List (Value × Value))
  | value (v : Value)

/-- The key and the value of an entry. -/
def Node.entry? (e : Node × Node) : Option (Value × Value) := do
  return (← e.1.key?, ← e.2.value?)

/-- The document that a node is. -/
def Document.ofNode? : Node → Option Document
  | .mapping entries => (entries.mapM Node.entry?).map .mapping
  | node => node.value?.map .value

/-- Reads a document. -/
def read? (text : String) : Option Document := do
  let cs := text.toList
  if cs.all isDocumentChar then
    let tokens ← Token.readAll? cs
    Document.ofNode? (← Node.ofTokens? tokens)
  else none

/-- The value that a text gives by itself. -/
def value? (text : String) : Option Value :=
  match read? text with
  | some (.value v) => some v
  | _ => none

end Formula.Yaml
