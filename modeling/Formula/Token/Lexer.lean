import Formula.Token
import Formula.Token.Phrase
import Formula.Text.Digit

set_option autoImplicit false

/-! # From text to tokens

A text is cut into pieces: runs of blanks, lexemes, and stray characters that start no lexeme. Every
piece is a non-empty beginning of what is left, so the pieces make up the text. Lenient reading
drops the stray characters; strict reading refuses the first of them. -/

namespace Formula

/-! ## Typographic quotes -/

/-- Typographic quotes are read as plain ones. -/
def plainQuote (c : Char) : Char :=
  if c = '\u2018' ∨ c = '\u2019' then '\''
  else if c = '\u201c' ∨ c = '\u201d' then '"'
  else c

/-- A text with plain quotes in place of typographic ones. -/
def sanitize (source : String) : String := String.ofList (source.toList.map plainQuote)

/-! ## Pieces -/

/-- A part of a source text. -/
inductive Piece where
  | blank (text : List Char)
  | lexeme (kind : TokenKind) (text : List Char)
  | stray (c : Char)
  deriving DecidableEq, Repr

namespace Piece

/-- The characters of a piece. -/
def text : Piece → List Char
  | blank text => text
  | lexeme _ text => text
  | stray c => [c]

/-- The symbols for comparison and the doubled connectives; a longer one comes before its own
beginning. -/
def symbols : List (List Char) :=
  [['=', '='], ['!', '='], ['>', '='], ['<', '='], ['>'], ['<'], ['&', '&'], ['|', '|']]

/-- The kinds of the single characters that are lexemes. -/
def punctuation : List (Char × TokenKind) :=
  [('(', .leftParen), (')', .rightParen), ('[', .leftBracket), (']', .rightBracket), (',', .comma),
    ('+', .operator), ('-', .operator), ('*', .operator), ('/', .operator)]

/-- A quoted string after its opening quote: the content and the closing quote. -/
def quotedRest? (quote : Char) : List Char → Option (List Char)
  | [] => none
  | c :: cs => if c = quote then some [c] else (quotedRest? quote cs).map (c :: ·)

/-- A quoted string. -/
def quoted? : List Char → Option (List Char)
  | [] => none
  | c :: cs => if c = '"' ∨ c = '\'' then (quotedRest? c cs).map (c :: ·) else none

/-- Digits, perhaps with a point after them and more digits after that. -/
def number (cs : List Char) : List Char :=
  let whole := cs.takeWhile Text.isDecimalDigit
  match cs.dropWhile Text.isDecimalDigit with
  | '.' :: rest => whole ++ '.' :: rest.takeWhile Text.isDecimalDigit
  | _ => whole

/-- The segments of a dotted path after the first: each a point and at least one word character. The
number of characters still to be passed over is `skip`. -/
def pathRest : Nat → List Char → List Char
  | _, [] => []
  | skip + 1, c :: cs => c :: pathRest skip cs
  | 0, c :: cs =>
    let word := cs.takeWhile Text.isWordChar
    if c = '.' ∧ word ≠ [] then c :: pathRest word.length cs else []

/-- A dotted path of words. -/
def path (cs : List Char) : List Char :=
  let word := cs.takeWhile Text.isWordChar
  word ++ pathRest 0 (cs.dropWhile Text.isWordChar)

/-- The symbol that the text begins with. -/
def symbol? (cs : List Char) : Option (List Char) := symbols.find? (·.isPrefixOf cs)

/-- The piece at the beginning of a text that starts with the character `c`. -/
def first (c : Char) (cs : List Char) : Piece :=
  if Text.isBlank c then blank (c :: Text.takeBlanks cs)
  else if let some text := Phrase.firstOf Phrase.comparisons (c :: cs) then lexeme .operator text
  else if let some text := symbol? (c :: cs) then lexeme .operator text
  else if let some text := Phrase.firstOf Phrase.connectives (c :: cs) then lexeme .operator text
  else if let some text := quoted? (c :: cs) then lexeme .string text
  else if Text.isDecimalDigit c then lexeme .number (number (c :: cs))
  else if Text.isWordChar c then lexeme .name (path (c :: cs))
  else if let some kind := punctuation.lookup c then lexeme kind [c]
  else stray c

end Piece

/-- Cuts a text into pieces; `skip` characters belong to the piece before. -/
def scanFrom : Nat → List Char → List Piece
  | _, [] => []
  | skip + 1, _ :: cs => scanFrom skip cs
  | 0, c :: cs =>
    let piece := Piece.first c cs
    piece :: scanFrom (piece.text.length - 1) cs

/-- The pieces of a text, in order. -/
def scan (cs : List Char) : List Piece := scanFrom 0 cs

/-! ## Tokens -/

/-- The value of a lexeme. -/
def lexemeValue (kind : TokenKind) (text : List Char) : String :=
  match kind with
  | .operator => Phrase.canonical (String.ofList text)
  | .string => String.ofList (text.drop 1).dropLast
  | _ => String.ofList text

/-- The lexemes among the pieces, numbered from `index`. -/
def tokensFrom (index : Nat) : List Piece → List Token
  | [] => []
  | .lexeme kind text :: pieces =>
    ⟨kind, lexemeValue kind text, index, String.ofList text⟩ :: tokensFrom (index + 1) pieces
  | _ :: pieces => tokensFrom index pieces

/-- A character that starts no lexeme, and its position in the source. -/
structure Stray where
  char : Char
  position : Nat
  deriving DecidableEq, Repr

/-- The stray characters among the pieces, the first piece being at `position`. -/
def straysFrom (position : Nat) : List Piece → List Stray
  | [] => []
  | .stray c :: pieces => ⟨c, position⟩ :: straysFrom (position + 1) pieces
  | piece :: pieces => straysFrom (position + piece.text.length) pieces

/-- The tokens of a source text and the characters that were dropped from it. -/
structure Lexed where
  tokens : List Token
  strays : List Stray
  deriving DecidableEq, Repr

/-- Reads a source text, dropping stray characters. -/
def lex (source : String) : Lexed :=
  let pieces := scan (sanitize source).toList
  ⟨tokensFrom 0 pieces, straysFrom 0 pieces⟩

/-- Reads a source text; strict reading gives the first stray character instead of tokens. -/
def tokenize (strict : Bool) (source : String) : Except Stray (List Token) :=
  let lexed := lex source
  match strict, lexed.strays with
  | true, stray :: _ => .error stray
  | _, _ => .ok lexed.tokens

/-- The text of the error that a stray character gives. -/
def Stray.message (s : Stray) : String :=
  "Unexpected character '" ++ String.singleton s.char ++ "' at position " ++ toString s.position

end Formula
