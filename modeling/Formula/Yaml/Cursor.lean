import Formula.Text.CharRange

set_option autoImplicit false

/-! # Places in a document

A cursor is a place in a text of several lines: what follows the place, how many characters come
before it, and its line and column. Lines and columns are counted from zero.

Main statements: `rest_advance`, `rest_advanceBy` and `rest_skipWhile` (a move drops characters from
the front of what follows), `rest_lineBreak?` (the end of a line takes one or two). -/

namespace Formula.Yaml

/-! ## Characters -/

/-- The code points of the characters that a document may hold. -/
def documentRanges : List (Nat × Nat) := [
  (9, 10), (13, 13), (32, 126), (133, 133), (160, 55295), (57344, 65533), (65536, 1114111)]

/-- Whether a document may hold a character. -/
def isDocumentChar (c : Char) : Bool := Text.inRanges documentRanges c.toNat

/-- Whether a character separates words within a line. -/
def isBlank (c : Char) : Bool := c == ' ' || c == '\t'

/-- Whether a character ends a line. -/
def isBreak (c : Char) : Bool :=
  c == '\n' || c == '\r' || c == '\u0085' || c == '\u2028' || c == '\u2029'

/-- Whether a text is over or goes on with a blank or the end of a line. -/
def endsWord : List Char → Bool
  | [] => true
  | c :: _ => isBlank c || isBreak c

/-! ## Moves -/

/-- A place in a document. -/
structure Cursor where
  rest : List Char
  index : Nat
  line : Nat
  column : Nat
  deriving DecidableEq, Repr

namespace Cursor

/-- The place at which a document begins; a byte order mark comes before it. -/
def start : List Char → Cursor
  | '\uFEFF' :: cs => ⟨cs, 1, 0, 0⟩
  | cs => ⟨cs, 0, 0, 0⟩

/-- The place one character on. A carriage return before a line feed does not end the line, and a
byte order mark takes no column. -/
def advance (c : Cursor) : Cursor :=
  match c.rest with
  | [] => c
  | ch :: rest =>
    if isBreak ch && !(ch == '\r' && rest.head? == some '\n') then
      ⟨rest, c.index + 1, c.line + 1, 0⟩
    else ⟨rest, c.index + 1, c.line, if ch == '\uFEFF' then c.column else c.column + 1⟩

/-- The place some characters on. -/
def advanceBy : Nat → Cursor → Cursor
  | 0, c => c
  | n + 1, c => advanceBy n c.advance

/-- The place behind all characters of a kind that come next. -/
def skipWhile (c : Cursor) (p : Char → Bool) : Cursor := advanceBy (c.rest.takeWhile p).length c

/-- Reads the end of a line. The separators of lines and of paragraphs stand for themselves, any
other for a line feed. -/
def lineBreak? (c : Cursor) : Option (Char × Cursor) :=
  match c.rest with
  | '\r' :: '\n' :: _ => some ('\n', advanceBy 2 c)
  | ch :: _ =>
    if isBreak ch then some (if ch == '\u2028' || ch == '\u2029' then ch else '\n', c.advance)
    else none
  | [] => none

/-- Whether a line begins with a character three times and nothing else up to a blank or its end. -/
def isAtMark (c : Cursor) (ch : Char) : Bool :=
  c.column == 0 && c.rest.take 3 == [ch, ch, ch] && endsWord (c.rest.drop 3)

/-- Whether a line begins with the mark of the start or of the end of a document. -/
def isAtDocumentMark (c : Cursor) : Bool := c.isAtMark '-' || c.isAtMark '.'

@[simp] theorem rest_advance (c : Cursor) : c.advance.rest = c.rest.tail := by
  unfold advance
  split
  · rename_i empty
    rw [empty, List.tail_nil]
  · rename_i ch rest nonempty
    rw [nonempty, List.tail_cons]
    split <;> rfl

@[simp] theorem rest_advanceBy (n : Nat) (c : Cursor) : (advanceBy n c).rest = c.rest.drop n := by
  induction n generalizing c with
  | zero => rfl
  | succ n ih => rw [advanceBy, ih, rest_advance, ← List.drop_one, List.drop_drop, Nat.add_comm]

theorem drop_length_takeWhile (p : Char → Bool) (cs : List Char) :
    cs.drop (cs.takeWhile p).length = cs.dropWhile p := by
  induction cs with
  | nil => rfl
  | cons c cs ih =>
    rw [List.takeWhile_cons, List.dropWhile_cons]
    split
    · rw [List.length_cons, List.drop_succ_cons, ih]
    · rfl

@[simp] theorem rest_skipWhile (c : Cursor) (p : Char → Bool) :
    (c.skipWhile p).rest = c.rest.dropWhile p := by
  rw [skipWhile, rest_advanceBy, drop_length_takeWhile]

/-- The end of a line takes one character or two. -/
theorem rest_lineBreak? {c next : Cursor} {ch : Char} (h : c.lineBreak? = some (ch, next)) :
    next.rest = c.rest.drop 1 ∨ next.rest = c.rest.drop 2 := by
  unfold lineBreak? at h
  split at h
  · cases h
    exact .inr (rest_advanceBy 2 c)
  · split at h
    · cases h
      exact .inl ((rest_advance c).trans List.drop_one.symm)
    · cases h
  · cases h

end Cursor

end Formula.Yaml
