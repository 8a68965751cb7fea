import Formula.Yaml.Fold

set_option autoImplicit false

/-! # Plain scalars

A plain scalar is written without quotes: words in one line, or in several lines that are folded. It
ends before a colon that a blank follows, before a comment, and where a line is not indented deeper
than the collection around it. Between brackets it also ends at a bracket, a comma or a question
mark, and lines may begin anywhere. -/

namespace Formula.Yaml

/-- The characters that cannot begin a plain scalar, or only if a word goes on behind them. -/
def indicators : List Char := "-?:,[]\x7b\x7d#&*!|>'\"%@\x60".toList

/-- The characters that end a word between brackets. -/
def flowIndicators : List Char := ",?[]\x7b\x7d".toList

/-- The characters that may follow the colon of a key between brackets. -/
def afterFlowKey : List Char := ",[]\x7b\x7d".toList

/-- Whether a plain scalar begins with a text. -/
def startsPlain (bracketed : Bool) : List Char → Bool
  | [] => false
  | ch :: rest =>
    !(isBlank ch || isBreak ch || indicators.contains ch) ||
      (!endsWord rest && (ch == '-' || (!bracketed && (ch == '?' || ch == ':'))))

/-- Whether a colon that a text follows ends a key. -/
def endsKey (bracketed : Bool) (rest : List Char) : Bool :=
  endsWord rest || (bracketed && (rest.take 1).any afterFlowKey.contains)

/-- The word of a plain scalar that a text begins with. -/
def plainWord (bracketed : Bool) : List Char → List Char
  | [] => []
  | ch :: rest =>
    if isBlank ch || isBreak ch || (ch == ':' && endsKey bracketed rest) ||
        (bracketed && flowIndicators.contains ch) then []
    else ch :: plainWord bracketed rest

namespace Cursor

/-- Reads the words of a plain scalar behind its first, each with the gap before it. In a new line a
word may begin at the column `floor` or behind it. -/
def moreWords (bracketed : Bool) (floor : Nat) : Nat → Cursor → List Char × Cursor
  | 0, c => ([], c)
  | fuel + 1, c =>
    match c.gap? (· == ' ') with
    | none => ([], c)
    | some (gap, next) =>
      let word := plainWord bracketed next.rest
      if gap.isEmpty || word.isEmpty || next.rest.head? == some '#' ||
          (!bracketed && next.column < floor) then ([], c)
      else
        let (more, last) := moreWords bracketed floor fuel (advanceBy word.length next)
        (gap ++ word ++ more, last)

/-- Reads a plain scalar. -/
def plain (bracketed : Bool) (floor : Nat) (c : Cursor) : List Char × Cursor :=
  let word := plainWord bracketed c.rest
  let (more, last) := moreWords bracketed floor (c.rest.length + 1) (advanceBy word.length c)
  (word ++ more, last)

end Cursor

end Formula.Yaml
