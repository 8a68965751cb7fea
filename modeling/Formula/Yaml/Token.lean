import Formula.Yaml.Block
import Formula.Yaml.Plain
import Formula.Yaml.Quoted

set_option autoImplicit false

/-! # The tokens of a document

Besides the marks that are written, a row of tokens holds a start and an end for each collection
that indentation forms. Whether a text is a key shows only at the colon behind it: until then its
place is a candidate, and the colon puts a token in front of it.

Tags, anchors, aliases and directives are not read. -/

namespace Formula.Yaml

/-- A scalar as it is written: only a plain one may stand for something other than a text. -/
inductive Scalar where
  | plain (text : String)
  | quoted (text : String)
  deriving DecidableEq, Repr

/-- A token. -/
inductive Token where
  | documentStart
  | documentEnd
  | sequenceStart
  | mappingStart
  | blockEnd
  | dash
  | key
  | value
  | openBracket
  | closeBracket
  | openBrace
  | closeBrace
  | comma
  | scalar (s : Scalar)
  deriving DecidableEq, Repr

/-! ## Candidates for keys -/

/-- A place where a key may have begun, and the number of tokens before it. A token that stands at
the indentation of its mapping is required to be a key. -/
structure Candidate where
  position : Nat
  isRequired : Bool
  index : Nat
  line : Nat
  column : Nat
  deriving DecidableEq, Repr

namespace Candidate

/-- A key stands in one line with its colon, at most so many characters before it. -/
def reach : Nat := 1024

/-- The candidate, unless its key can no longer end; a required one must not get lost. -/
def keep? (c : Cursor) : Option Candidate → Option (Option Candidate)
  | none => some none
  | some k =>
    if k.line = c.line ∧ c.index - k.index ≤ reach then some (some k)
    else if k.isRequired then none
    else some none

end Candidate

/-! ## Reading -/

/-- What has been read: the tokens, the last one first, the columns of the open collections, the
innermost first, whether a key may begin at the cursor, and the candidates within the innermost
brackets and around them. -/
structure Scan where
  cursor : Cursor
  tokens : List Token
  columns : List Nat
  keyAllowed : Bool
  candidate : Option Candidate
  enclosing : List (Option Candidate)
  deriving DecidableEq, Repr

namespace Scan

/-- Nothing has been read of a document. -/
def start (cs : List Char) : Scan := ⟨.start cs, [], [], true, none, []⟩

/-- Whether the cursor is between brackets. -/
def isBracketed (s : Scan) : Bool := !s.enclosing.isEmpty

/-- The least column at which a line of the innermost collection goes on. -/
def floor (s : Scan) : Nat := match s.columns with
  | [] => 0
  | column :: _ => column + 1

/-- The state with one more token. -/
def push (s : Scan) (t : Token) : Scan := { s with tokens := t :: s.tokens }

/-- The state behind a mark of so many characters. -/
def pushMark (s : Scan) (t : Token) (length : Nat) : Scan :=
  { s.push t with cursor := Cursor.advanceBy length s.cursor }

/-! ### Blanks and comments -/

/-- Passes over blanks, comments and ends of lines. A key may begin in a new line. -/
def skipLines : Nat → Scan → Scan
  | 0, s => s
  | fuel + 1, s =>
    let c := s.cursor.skipWhile (· == ' ')
    let c := if c.rest.head? == some '#' then c.skipWhile (!isBreak ·) else c
    match c.lineBreak? with
    | some (_, c) =>
      skipLines fuel { s with cursor := c, keyAllowed := s.keyAllowed || !s.isBracketed }
    | none => { s with cursor := c }

/-- The state without the candidates that the cursor has left behind. -/
def dropStale? (s : Scan) : Option Scan := do
  let candidate ← Candidate.keep? s.cursor s.candidate
  let enclosing ← s.enclosing.mapM (Candidate.keep? s.cursor)
  return { s with candidate, enclosing }

/-! ### Collections by indentation -/

/-- The state in which the collections whose columns are given up are closed. Between brackets
indentation does not count. -/
def close (s : Scan) (isGivenUp : Nat → Bool) : Scan :=
  if s.isBracketed then s
  else
    { s with
      tokens := (s.columns.takeWhile isGivenUp).map (fun _ => Token.blockEnd) ++ s.tokens
      columns := s.columns.dropWhile isGivenUp }

/-- Whether a column is deeper than the innermost collection. -/
def isDeeper (s : Scan) (column : Nat) : Bool := s.floor ≤ column

/-- The state in which a mark at the cursor has opened a collection if it stands deeper. Outside
brackets the mark may stand only where a key may. -/
def openBlock? (s : Scan) (t : Token) : Option Scan :=
  if s.isBracketed then some s
  else if !s.keyAllowed then none
  else if s.isDeeper s.cursor.column then
    some { s.push t with columns := s.cursor.column :: s.columns }
  else some s

/-! ### Keys -/

/-- The state without the candidate, which must not be required. -/
def forget? (s : Scan) : Option Scan :=
  if s.candidate.any (·.isRequired) then none else some { s with candidate := none }

/-- The state in which a key may begin at the cursor. -/
def propose? (s : Scan) : Option Scan :=
  if s.keyAllowed then do
    let s ← s.forget?
    let c := s.cursor
    let isRequired := !s.isBracketed && s.columns.head? == some c.column
    return { s with
      candidate := some ⟨s.tokens.length, isRequired, c.index, c.line, c.column⟩ }
  else some s

/-- The state in which a candidate is known to be a key: a token stands before it, and the start of
a mapping if none is open at its column. -/
def confirm (s : Scan) (k : Candidate) : Scan :=
  let behind := s.tokens.take (s.tokens.length - k.position)
  let before := s.tokens.drop (s.tokens.length - k.position)
  if !s.isBracketed && s.isDeeper k.column then
    { s with
      tokens := behind ++ .key :: .mappingStart :: before
      columns := k.column :: s.columns
      candidate := none }
  else { s with tokens := behind ++ .key :: before, candidate := none }

/-! ### Marks -/

/-- Reads the mark of the start or the end of a document. -/
def documentMark? (s : Scan) (t : Token) : Option Scan := do
  let s ← (s.close fun _ => true).forget?
  return { s with keyAllowed := false }.pushMark t 3

/-- Reads an opening bracket or brace, which may begin a key. -/
def opening? (s : Scan) (t : Token) : Option Scan := do
  let s ← s.propose?
  return { s with
    candidate := none, enclosing := s.candidate :: s.enclosing, keyAllowed := true }.pushMark t 1

/-- Reads a closing bracket or brace. -/
def closing? (s : Scan) (t : Token) : Option Scan := do
  let s ← s.forget?
  match s.enclosing with
  | [] => none
  | candidate :: enclosing =>
    return { s with candidate, enclosing, keyAllowed := false }.pushMark t 1

/-- Reads a comma. -/
def comma? (s : Scan) : Option Scan := do
  let s ← s.forget?
  return { s with keyAllowed := true }.pushMark .comma 1

/-- Reads the dash of an item. -/
def dash? (s : Scan) : Option Scan := do
  let s ← s.openBlock? .sequenceStart
  let s ← s.forget?
  return { s with keyAllowed := true }.pushMark .dash 1

/-- Reads the question mark of a key. -/
def questionMark? (s : Scan) : Option Scan := do
  let s ← s.openBlock? .mappingStart
  let s ← s.forget?
  return { s with keyAllowed := !s.isBracketed }.pushMark .key 1

/-- Reads the colon of a value. -/
def colon? (s : Scan) : Option Scan := do
  match s.candidate with
  | some k => return { s.confirm k with keyAllowed := false }.pushMark .value 1
  | none =>
    let s ← s.openBlock? .mappingStart
    return { s with keyAllowed := !s.isBracketed }.pushMark .value 1

/-! ### Scalars -/

/-- Reads a scalar within its line or between quotes, which may be a key. -/
def scalar? (s : Scan) (make : String → Scalar)
    (read : Cursor → Option (List Char × Cursor)) : Option Scan := do
  let s ← s.propose?
  let (text, cursor) ← read s.cursor
  return { s.push (.scalar (make (String.ofList text))) with cursor, keyAllowed := false }

/-- Reads a block scalar. -/
def block? (s : Scan) (isFolded : Bool) : Option Scan := do
  let s ← s.forget?
  let (text, cursor) ← s.cursor.block? isFolded s.floor
  return { s.push (.scalar (.quoted (String.ofList text))) with cursor, keyAllowed := true }

/-! ### Rows of tokens -/

/-- Reads the token at the cursor. -/
def next? (s : Scan) : Option Scan :=
  if s.cursor.isAtMark '-' then s.documentMark? .documentStart
  else if s.cursor.isAtMark '.' then s.documentMark? .documentEnd
  else
    match s.cursor.rest with
    | [] => none
    | ch :: rest =>
      if ch = '[' then s.opening? .openBracket
      else if ch = '\x7b' then s.opening? .openBrace
      else if ch = ']' then s.closing? .closeBracket
      else if ch = '\x7d' then s.closing? .closeBrace
      else if ch = ',' then s.comma?
      else if ch = '-' ∧ endsWord rest then s.dash?
      else if ch = '?' ∧ (s.isBracketed ∨ endsWord rest) then s.questionMark?
      else if ch = ':' ∧ (s.isBracketed ∨ endsWord rest) then s.colon?
      else if ch = '|' ∧ ¬s.isBracketed then s.block? false
      else if ch = '>' ∧ ¬s.isBracketed then s.block? true
      else if ch = '\'' then s.scalar? .quoted (Cursor.quoted? .single)
      else if ch = '"' then s.scalar? .quoted (Cursor.quoted? .double)
      else if startsPlain s.isBracketed (ch :: rest) then
        s.scalar? .plain fun c => some (c.plain s.isBracketed s.floor)
      else none

/-- Reads tokens up to the end of the document. -/
def finish? : Nat → Scan → Option (List Token)
  | 0, _ => none
  | fuel + 1, s => do
    let s ← (skipLines (s.cursor.rest.length + 1) s).dropStale?
    let column := s.cursor.column
    let s := s.close (column < ·)
    if s.cursor.rest.isEmpty then
      let s ← (s.close fun _ => true).forget?
      return s.tokens.reverse
    else finish? fuel (← s.next?)

end Scan

/-- The tokens of a document, if it has a row of tokens at all. -/
def Token.readAll? (cs : List Char) : Option (List Token) :=
  (Scan.start cs).finish? (cs.length + 1)

end Formula.Yaml
