import Formula.Function

set_option autoImplicit false

/-! # The catalogue of functions

What is shown of a function is all of its definition but the code that runs. The catalogue of a table
shows every function under its name, and once more among those of its category. -/

namespace Formula

/-- What is shown of a function. -/
structure FunctionEntry where
  name : String
  description : String
  category : String
  arity : Option Nat
  parameters : List FunctionParameter
  examples : List String
  deriving DecidableEq, Repr

/-- What is shown of a function as it is defined. -/
def FunctionDefinition.entry (f : FunctionDefinition) : FunctionEntry :=
  { name := f.name
    description := f.description
    category := f.category.label
    arity := f.arity
    parameters := f.parameters
    examples := f.examples }

/-- What is shown of all functions: by name, and by the label of the category. -/
structure Catalogue where
  functions : Dictionary String FunctionEntry
  byCategory : Dictionary String (List FunctionEntry)

namespace Catalogue

/-- The entries that are shown by category, each with the label that it stands under. -/
def listed (catalogue : Catalogue) : List (String × FunctionEntry) :=
  catalogue.byCategory.entries.flatMap fun group => group.2.map fun entry => (group.1, entry)

end Catalogue

/-- The catalogue of a table. -/
def FunctionTable.catalogue (table : FunctionTable) : Catalogue where
  functions := ⟨table.entries.map fun e => (e.1, e.2.entry)⟩
  byCategory := ⟨table.byCategory.entries.map fun group => (group.1.label, group.2.map (·.entry))⟩

end Formula
