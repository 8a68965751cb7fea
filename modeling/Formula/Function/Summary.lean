import Formula.Text.Blank

set_option autoImplicit false

/-! # Summaries of documentation

The summary of a documentation text is its first line once the text is cleaned: tabs become spaces,
the lines after the first lose the indentation that they share, and empty lines at the start are
dropped. -/

namespace Formula.Documentation

/-- Replaces each tab by the spaces up to the next column that is a multiple of eight. -/
def expandTabs (column : Nat) : List Char → List Char
  | [] => []
  | '\t' :: cs =>
    let width := 8 - column % 8
    List.replicate width ' ' ++ expandTabs (column + width) cs
  | '\n' :: cs => '\n' :: expandTabs 0 cs
  | '\r' :: cs => '\r' :: expandTabs 0 cs
  | c :: cs => c :: expandTabs (column + 1) cs

/-- The lines of a text. -/
def lines : List Char → List (List Char)
  | [] => [[]]
  | '\n' :: cs => [] :: lines cs
  | c :: cs =>
    match lines cs with
    | [] => [[c]]
    | line :: rest => (c :: line) :: rest

/-- The indentation of a line, unless the line is blank. -/
def indentation? (line : List Char) : Option Nat :=
  if line.all Text.isBlank then none else some (Text.takeBlanks line).length

/-- The lines with the shared indentation removed; the first line loses all of its own. -/
def dedent : List (List Char) → List (List Char)
  | [] => []
  | first :: rest =>
    Text.dropBlanks first ::
      match (rest.filterMap indentation?).min? with
      | some margin => rest.map (·.drop margin)
      | none => rest

/-- The first line of a documentation text. -/
def summary (text : String) : String :=
  String.ofList (((dedent (lines (expandTabs 0 text.toList))).find? (!·.isEmpty)).getD [])

end Formula.Documentation
