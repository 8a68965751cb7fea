import Formula.Text.CharRange

set_option autoImplicit false

/-! # Blank characters

Blanks separate words and are trimmed from the ends of a text. They are the white space of
Unicode together with the four information separators; a zero-width space is not a blank.

Main statements: `takeBlanks_append_dropBlanks` (splitting off the leading blanks loses nothing)
and `isBlank_of_isWhitespace` (every blank of the core library is one). -/

namespace Formula.Text

/-- The code points of the blank characters. -/
def blankRanges : List (Nat × Nat) := [
  (9, 13), (28, 32), (133, 133), (160, 160), (5760, 5760), (8192, 8202), (8232, 8233), (8239, 8239),
  (8287, 8287), (12288, 12288)]

/-- Blanks separate words and are trimmed away at the ends. -/
def isBlank (c : Char) : Bool := inRanges blankRanges c.toNat

theorem isBlank_of_isWhitespace {c : Char} (h : c.isWhitespace = true) : isBlank c = true := by
  simp only [Char.isWhitespace, Bool.or_eq_true, decide_eq_true_eq] at h
  rcases h with ((rfl | rfl) | rfl) | rfl <;> rfl

/-- The leading blanks. -/
def takeBlanks (cs : List Char) : List Char := cs.takeWhile isBlank

/-- What follows the leading blanks. -/
def dropBlanks (cs : List Char) : List Char := cs.dropWhile isBlank

theorem takeBlanks_append_dropBlanks (cs : List Char) : takeBlanks cs ++ dropBlanks cs = cs :=
  List.takeWhile_append_dropWhile

/-- The text without the blanks at both ends. -/
def trimChars (cs : List Char) : List Char := (dropBlanks (dropBlanks cs).reverse).reverse

/-- The text without the blanks at both ends. -/
def trim (s : String) : String := String.ofList (trimChars s.toList)

/-- Cuts a text at its blanks; the word being read is kept in reverse. -/
def wordsFrom (word : List Char) : List Char → List (List Char)
  | [] => if word.isEmpty then [] else [word.reverse]
  | c :: cs =>
    if isBlank c then
      if word.isEmpty then wordsFrom [] cs else word.reverse :: wordsFrom [] cs
    else wordsFrom (c :: word) cs

/-- The non-empty runs of characters between blanks. -/
def words (cs : List Char) : List (List Char) := wordsFrom [] cs

end Formula.Text
