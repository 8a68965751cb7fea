import Formula.Yaml.Cursor

set_option autoImplicit false

/-! # Block scalars

A block scalar begins with a bar or an angle bracket; its text stands in the indented lines that
follow. A bar keeps the ends of lines; an angle bracket folds those between two lines that both
begin without a blank. The header may say how deep the lines are indented, and whether the ends of
lines behind the text are kept, stripped, or clipped to one. -/

namespace Formula.Yaml

/-- What becomes of the ends of lines behind the text of a block scalar. -/
inductive Chomping where
  | clip
  | strip
  | keep
  deriving DecidableEq, Repr

/-- What the header of a block scalar says. -/
structure BlockHeader where
  chomping : Chomping
  indentation : Option Nat
  deriving DecidableEq, Repr

namespace Cursor

/-! ## Headers -/

/-- Reads the sign of a header. -/
def chomping (c : Cursor) : Chomping × Cursor :=
  match c.rest with
  | '+' :: _ => (.keep, c.advance)
  | '-' :: _ => (.strip, c.advance)
  | _ => (.clip, c)

/-- Reads the digit of a header, which is not zero. -/
def indentation? (c : Cursor) : Option (Option Nat × Cursor) :=
  match c.rest with
  | '0' :: _ => none
  | d :: _ => if d.isDigit then some (some (d.toNat - '0'.toNat), c.advance) else some (none, c)
  | [] => some (none, c)

/-- Reads the rest of the line of a header, which may hold a comment behind a blank. -/
def restOfHeader? (c : Cursor) : Option Cursor :=
  match c.rest with
  | '#' :: _ => none
  | _ =>
    let c := c.skipWhile (· == ' ')
    let c := if c.rest.head? == some '#' then c.skipWhile (!isBreak ·) else c
    match c.rest, c.lineBreak? with
    | [], _ => some c
    | _, some (_, c) => some c
    | _, none => none

/-- Reads a header: the sign and the digit stand in either order. -/
def blockHeader? (c : Cursor) : Option (BlockHeader × Cursor) := do
  let (before, c) := c.chomping
  let (indentation, c) ← c.indentation?
  let (after, c) := if before = .clip ∧ indentation.isSome then c.chomping else (before, c)
  return (⟨after, indentation⟩, ← c.restOfHeader?)

/-! ## Lines -/

/-- The place behind the blanks that stand before a column. -/
def skipIndentation (column : Nat) (c : Cursor) : Cursor :=
  advanceBy (min (column - c.column) (c.rest.takeWhile (· == ' ')).length) c

/-- Reads the ends of empty lines, up to the first line with a text; `column` is the depth of the
text. -/
def emptyLines (column : Nat) : Nat → Cursor → List Char × Cursor
  | 0, c => ([], c)
  | fuel + 1, c =>
    let c := c.skipIndentation column
    match c.lineBreak? with
    | some (ch, c) =>
      let (more, c) := emptyLines column fuel c
      (ch :: more, c)
    | none => ([], c)

/-- Reads empty lines to find the depth of the text: the columns of the longest row of blanks. -/
def leadingLines (depth : Nat) : Nat → Cursor → List Char × Nat × Cursor
  | 0, c => ([], depth, c)
  | fuel + 1, c =>
    let c := c.skipWhile (· == ' ')
    let depth := max depth c.column
    match c.lineBreak? with
    | some (ch, c) =>
      let (more, depth, c) := leadingLines depth fuel c
      (ch :: more, depth, c)
    | none => ([], depth, c)

/-- Whether a line begins with a blank. -/
def startsBlank (line : List Char) : Bool := (line.take 1).any isBlank

/-- The ends of lines between a line that ends as given and one that is not empty. -/
def joint (isFolded : Bool) (line ending : List Char) (empty : List Char) (next : List Char) :
    List Char :=
  if isFolded && ending == ['\n'] && !startsBlank line && !startsBlank next then
    if empty.isEmpty then [' '] else empty
  else ending ++ empty

/-- Reads the lines of a text: what they give, the end of the last line, and the ends of the empty
lines behind it. -/
def blockLines (isFolded : Bool) (column : Nat) :
    Nat → Cursor → List Char × List Char × List Char × Cursor
  | 0, c => ([], [], [], c)
  | fuel + 1, c =>
    let line := c.rest.takeWhile (!isBreak ·)
    let c := c.skipWhile (!isBreak ·)
    let (ending, c) := match c.lineBreak? with
      | some (ch, c) => ([ch], c)
      | none => ([], c)
    let (empty, c) := c.emptyLines column (c.rest.length + 1)
    if c.column = column ∧ ¬c.rest.isEmpty then
      let (more, lastEnding, lastEmpty, last) := blockLines isFolded column fuel c
      (line ++ joint isFolded line ending empty c.rest ++ more, lastEnding, lastEmpty, last)
    else (line, ending, empty, c)

/-- Reads a block scalar, at whose first character the cursor stands; its lines stand at the column
`floor` or behind it. -/
def block? (isFolded : Bool) (floor : Nat) (c : Cursor) : Option (List Char × Cursor) := do
  let (header, c) ← c.advance.blockHeader?
  let floor := max floor 1
  let (empty, column, c) := match header.indentation with
    | some n =>
      let column := floor + n - 1
      let (empty, c) := c.emptyLines column (c.rest.length + 1)
      (empty, column, c)
    | none =>
      let (empty, depth, c) := c.leadingLines 0 (c.rest.length + 1)
      (empty, max floor depth, c)
  let (text, ending, behind, c) :=
    if c.column = column ∧ ¬c.rest.isEmpty then
      let (text, ending, behind, c) := c.blockLines isFolded column (c.rest.length + 1)
      (empty ++ text, ending, behind, c)
    else ([], [], empty, c)
  return (text ++ (match header.chomping with
    | .clip => ending
    | .strip => []
    | .keep => ending ++ behind), c)

end Cursor

end Formula.Yaml
