import Formula.Text.Radix
import Formula.Yaml.Fold

set_option autoImplicit false

/-! # Quoted scalars

A scalar in single quotes holds a quote written twice and nothing else that is special. In double
quotes a backslash begins an escape, or joins a line to the next without a blank. Both kinds may go
on over several lines, which are folded. -/

namespace Formula.Yaml

/-- The kinds of quotes. -/
inductive Quote where
  | single
  | double
  deriving DecidableEq, Repr

/-- The character of a quote. -/
def Quote.mark : Quote → Char
  | .single => '\''
  | .double => '"'

/-! ## Escapes -/

/-- The character that a character behind a backslash stands for. -/
def escaped? : Char → Option Char
  | '0' => some '\x00'
  | 'a' => some '\x07'
  | 'b' => some '\x08'
  | 't' => some '\t'
  | '\t' => some '\t'
  | 'n' => some '\n'
  | 'v' => some '\x0b'
  | 'f' => some '\x0c'
  | 'r' => some '\r'
  | 'e' => some '\x1b'
  | ' ' => some ' '
  | '"' => some '"'
  | '\\' => some '\\'
  | '/' => some '/'
  | 'N' => some '\u0085'
  | '_' => some '\u00a0'
  | 'L' => some '\u2028'
  | 'P' => some '\u2029'
  | _ => none

/-- The number of digits of the code point behind a backslash and a letter. -/
def codeWidth? : Char → Option Nat
  | 'x' => some 2
  | 'u' => some 4
  | 'U' => some 8
  | _ => none

/-- The character whose code point the first digits of a text give in base sixteen. -/
def charOfCode? (width : Nat) (cs : List Char) : Option Char :=
  let digits := cs.take width
  let code := Text.readIn 16 digits
  if digits.length = width ∧ digits.all Text.isHexDigit ∧ code.isValidChar then
    some (Char.ofNat code)
  else none

namespace Cursor

/-- Reads an escape, whose backslash has been read. -/
def escape? (c : Cursor) : Option (List Char × Cursor) :=
  match c.rest with
  | [] => none
  | ch :: rest =>
    match escaped? ch, codeWidth? ch, c.lineBreak? with
    | some meant, _, _ => some ([meant], c.advance)
    | none, some width, _ =>
      (charOfCode? width rest).map fun meant => ([meant], advanceBy (width + 1) c)
    | none, none, some (_, c) => lineBreaks? isBlank (c.rest.length + 1) c
    | none, none, none => none

/-! ## Scalars -/

/-- Reads a quoted scalar from behind its opening quote to behind its closing one. -/
def quotedFrom? (quote : Quote) : Nat → Cursor → Option (List Char × Cursor)
  | 0, _ => none
  | fuel + 1, c =>
    let goOn (piece : List Char) (c : Cursor) :=
      (quotedFrom? quote fuel c).map fun (more, c) => (piece ++ more, c)
    match quote, c.rest with
    | _, [] => none
    | .single, '\'' :: '\'' :: _ => goOn ['\''] (advanceBy 2 c)
    | .double, '\\' :: _ => do
      let (piece, c) ← c.advance.escape?
      goOn piece c
    | _, ch :: _ =>
      if ch = quote.mark then some ([], c.advance)
      else if isBlank ch || isBreak ch then do
        let (piece, c) ← c.gap? isBlank
        goOn piece c
      else goOn [ch] c.advance

/-- Reads a quoted scalar, at whose opening quote the cursor stands. -/
def quoted? (quote : Quote) (c : Cursor) : Option (List Char × Cursor) :=
  quotedFrom? quote (c.rest.length + 1) c.advance

end Cursor

end Formula.Yaml
