import Formula.Operator
import Formula.Text.Blank
import Formula.Text.Case
import Formula.Text.Word

set_option autoImplicit false

/-! # Operator phrases

An operator may be spelled with words: `is greater than or equal to` is `>=`. The phrases are listed
in the order in which they are tried, so that a longer phrase comes before its own beginning; at
least one blank stands between two words, letter case does not matter, and a phrase ends where no
word character follows.

`canonical` maps a spelling, however it was found, to the symbol of its operator.

Main statement: `Phrase.read?_append` (a phrase read and the rest are the text that was read). -/

namespace Formula

/-- A spelling of an operator by words. -/
structure Phrase where
  words : List (List Char)
  meaning : Operator
  deriving DecidableEq, Repr

namespace Phrase

/-! ## Reading a phrase -/

/-- Whether a character spells a lower-case letter. Both cases do; so do the two undotted or dotted
forms of `i` and the long form of `s`. -/
def spells (letter c : Char) : Bool :=
  c.toLower == letter || (letter == 'i' && (c == '\u0130' || c == '\u0131')) ||
    (letter == 's' && c == '\u017f')

/-- Reads a word, giving what was read and the rest. -/
def readWord? : List Char → List Char → Option (List Char × List Char)
  | [], cs => some ([], cs)
  | _ :: _, [] => none
  | w :: ws, c :: cs =>
    if spells w c then (readWord? ws cs).map fun (text, rest) => (c :: text, rest) else none

/-- Reads blanks and a word, for each of the given words. -/
def readWords? : List (List Char) → List Char → Option (List Char × List Char)
  | [], cs => some ([], cs)
  | w :: ws, cs =>
    if (Text.takeBlanks cs).isEmpty then none
    else do
      let (word, rest) ← readWord? w (Text.dropBlanks cs)
      let (more, rest) ← readWords? ws rest
      return (Text.takeBlanks cs ++ word ++ more, rest)

/-- Whether no word character follows. -/
def endsHere : List Char → Bool
  | [] => true
  | c :: _ => !Text.isWordChar c

/-- Reads a phrase up to its last word, giving what was read and the rest. -/
def read? (p : Phrase) (cs : List Char) : Option (List Char × List Char) :=
  match p.words with
  | [] => none
  | w :: ws => do
    let (word, rest) ← readWord? w cs
    let (more, rest) ← readWords? ws rest
    if endsHere rest then return (word ++ more, rest) else none

theorem readWord?_append {w cs text rest : List Char} (h : readWord? w cs = some (text, rest)) :
    text ++ rest = cs := by
  induction w generalizing cs text with
  | nil => simp [readWord?] at h; simp [h]
  | cons a w ih =>
    cases cs with
    | nil => simp [readWord?] at h
    | cons c cs =>
      simp only [readWord?] at h
      split at h
      · simp only [Option.map_eq_some_iff, Prod.mk.injEq] at h
        obtain ⟨⟨t, r⟩, ht, rfl, rfl⟩ := h
        simp [ih ht]
      · simp at h

theorem readWords?_append {ws : List (List Char)} {cs text rest : List Char}
    (h : readWords? ws cs = some (text, rest)) : text ++ rest = cs := by
  induction ws generalizing cs text with
  | nil => simp [readWords?] at h; simp [h]
  | cons w ws ih =>
    simp only [readWords?] at h
    split at h
    · simp at h
    · simp only [Option.bind_eq_bind, Option.bind_eq_some_iff, Prod.exists, Option.pure_def,
        Option.some.injEq, Prod.mk.injEq] at h
      obtain ⟨word, r, hw, more, r', hm, rfl, rfl⟩ := h
      rw [List.append_assoc, List.append_assoc, ih hm, readWord?_append hw,
        Text.takeBlanks_append_dropBlanks]

/-- What was read and the rest are the text that was read. -/
theorem read?_append {p : Phrase} {cs text rest : List Char}
    (h : p.read? cs = some (text, rest)) : text ++ rest = cs := by
  simp only [read?] at h
  split at h
  · simp at h
  · simp only [Option.bind_eq_bind, Option.bind_eq_some_iff, Prod.exists] at h
    obtain ⟨word, r, hw, more, r', hm, h⟩ := h
    split at h
    · simp only [Option.pure_def, Option.some.injEq, Prod.mk.injEq] at h
      obtain ⟨rfl, rfl⟩ := h
      rw [List.append_assoc, readWords?_append hm, readWord?_append hw]
    · simp at h

/-! ## The phrases -/

/-- A phrase from words separated by single spaces. -/
def of (spelling : String) (meaning : Operator) : Phrase := ⟨Text.words spelling.toList, meaning⟩

/-- The four tails of a comparison by size: the longest first. -/
def sizeTails (head : String) (strict loose : Operator) : List Phrase :=
  [of (head ++ " than or equal to") loose, of (head ++ " than") strict,
    of (head ++ " or equal to") loose, of head strict]

/-- Comparisons, equalities and identities, in the order in which they are tried. They come before
the symbols. -/
def comparisons : List Phrase :=
  sizeTails "is greater" .greater .greaterOrEqual ++ sizeTails "is less" .less .lessOrEqual ++
  sizeTails "greater" .greater .greaterOrEqual ++ sizeTails "less" .less .lessOrEqual ++
  [of "is not equals" .unequal, of "is not equal to" .unequal, of "is equals" .equal,
    of "is equal to" .equal, of "not equals" .unequal, of "not equal to" .unequal,
    of "equals" .equal, of "equal to" .equal, of "is not" .unequal, of "is" .equal]

/-- The operators that are words. They come after the symbols. -/
def connectives : List Phrase :=
  [of "not in" .absent, of "in" .member, of "and" .both, of "or" .either]

/-- The first of the phrases that can be read. -/
def firstOf (phrases : List Phrase) (cs : List Char) : Option (List Char) :=
  phrases.findSome? fun p => (p.read? cs).map Prod.fst

/-! ## Canonical symbols -/

/-- Words joined by single spaces. -/
def joinWords : List (List Char) → List Char
  | [] => []
  | [w] => w
  | w :: ws => w ++ ' ' :: joinWords ws

/-- Whether the words begin with `is`, or one of them begins with `equal`. -/
def statesEquality (words : List (List Char)) : Bool :=
  words.head? == some "is".toList || words.any fun w => "equal".toList.isPrefixOf w

/-- The canonical symbol of a spelling, letter case and the width of blanks aside. A spelling that
is none is given back as it stands. -/
def canonical (spelling : String) : String :=
  let words := Text.words (Text.lowerChars spelling.toList)
  let phrase := String.ofList (joinWords words)
  if phrase = "&&" then "and"
  else if phrase = "||" then "or"
  else if phrase = "and" ∨ phrase = "or" ∨ phrase = "in" ∨ phrase = "not in" then phrase
  else if "greater".toList ∈ words then if "equal".toList ∈ words then ">=" else ">"
  else if "less".toList ∈ words then if "equal".toList ∈ words then "<=" else "<"
  else if statesEquality words then if "not".toList ∈ words then "!=" else "=="
  else spelling

end Phrase

end Formula
