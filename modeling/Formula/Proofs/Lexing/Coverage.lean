import Formula.Proofs.Lexing.Matching

set_option autoImplicit false

/-! # Every character is accounted for

A source text is cut into pieces that make it up again, each matched where it stands. The lexemes
among them are the tokens, in their order and numbered from zero; the stray characters are what is
dropped. Strict reading gives the same tokens, or refuses the first stray character at its place.

Main statement: `tokenize_accounts`. -/

namespace Formula

/-- The kind and the text of a lexeme. -/
def Piece.lexeme? : Piece → Option (TokenKind × List Char)
  | lexeme kind text => some (kind, text)
  | _ => none

/-! ## Cutting -/

/-- The pieces of a text, cut off behind another text, make it up and are matched where they
stand. -/
theorem scan_isMatched (cs context : List Char) :
    (scan cs).flatMap Piece.text = cs ∧ ∀ before piece after, scan cs = before ++ piece :: after →
      piece.IsMatched (context ++ before.flatMap Piece.text) (after.flatMap Piece.text) := by
  -- The induction is on the length, since a piece may take any number of characters. The context
  -- grows by the piece that was cut off.
  induction hn : cs.length using Nat.strongRecOn generalizing cs context with
  | ind n ih =>
      cases cs with
      | nil => exact ⟨rfl, fun before piece after h => by cases before <;> cases h⟩
      | cons c cs =>
          obtain ⟨rest, htext, hmatched⟩ := Piece.exists_isMatched context c cs
          obtain ⟨d, more, hfirst⟩ := List.exists_cons_of_ne_nil hmatched.text_ne_nil
          rw [hfirst, List.cons_append] at htext
          obtain ⟨rfl, rfl⟩ := List.cons.inj htext
          have hscan := scan_of_first rfl hfirst
          have hshorter : rest.length < n := by
            rw [← hn, List.length_cons, List.length_append]
            omega
          obtain ⟨hrest, hmatches⟩ := ih rest.length hshorter rest (context ++ d :: more) rfl
          refine ⟨by rw [hscan, List.flatMap_cons, hrest, hfirst, List.cons_append], ?_⟩
          intro before piece after h
          rw [hscan] at h
          -- The piece is the first one, or one of those that the rest is cut into.
          cases before with
          | nil =>
              obtain ⟨rfl, rfl⟩ := List.cons.inj h
              rw [hrest, List.flatMap_nil, List.append_nil]
              exact hmatched
          | cons p before =>
              obtain ⟨rfl, hbehind⟩ := List.cons.inj h
              rw [List.flatMap_cons, hfirst, ← List.append_assoc]
              exact hmatches before piece after hbehind

/-! ## Tokens and stray characters -/

theorem map_text_tokensFrom (index : Nat) (pieces : List Piece) :
    (tokensFrom index pieces).map (fun t => (t.kind, t.text.toList)) =
      pieces.filterMap Piece.lexeme? := by
  induction pieces generalizing index with
  | nil => rfl
  | cons p pieces ih => cases p <;> simp [tokensFrom, Piece.lexeme?, List.filterMap_cons, ih]

/-- Tokens are numbered in their order. -/
theorem index_of_getElem?_tokensFrom {index i : Nat} {pieces : List Piece} {t : Token}
    (h : (tokensFrom index pieces)[i]? = some t) : t.index = index + i := by
  induction pieces generalizing index i with
  | nil => simp [tokensFrom] at h
  | cons p pieces ih =>
      cases p with
      | blank text => exact ih h
      | stray c => exact ih h
      | lexeme kind text =>
          cases i with
          | zero =>
              cases h
              rfl
          | succ i =>
              rw [ih h]
              omega

theorem straysFrom_append (position : Nat) (ps qs : List Piece) :
    straysFrom position (ps ++ qs) =
      straysFrom position ps ++ straysFrom (position + (ps.flatMap Piece.text).length) qs := by
  induction ps generalizing position with
  | nil => rfl
  | cons p ps ih =>
      cases p <;>
        simp [straysFrom, ih, Piece.text, Nat.add_assoc, Nat.add_comm]

/-- Every character of a source is part of a token, a blank, or dropped: the pieces make up the
sanitized source, the lexemes among them are the tokens of lenient reading in their order, and only
where no pattern matches is a character stray. Strict reading gives the same tokens if nothing is
stray, and otherwise refuses the first stray character at its position. -/
theorem tokenize_accounts (source : String) : ∃ (pieces : List Piece) (tokens : List Token),
    pieces.flatMap Piece.text = (sanitize source).toList ∧
    (∀ before piece after, pieces = before ++ piece :: after → piece.text ≠ [] ∧
      piece.IsMatched (before.flatMap Piece.text) (after.flatMap Piece.text)) ∧
    tokenize false source = .ok tokens ∧
    tokens.map (fun t => (t.kind, t.text.toList)) = pieces.filterMap Piece.lexeme? ∧
    (∀ (i : Nat) (t : Token), tokens[i]? = some t → t.index = i) ∧
    ((∀ c, .stray c ∉ pieces) → tokenize true source = .ok tokens) ∧
    ∀ before c after, pieces = before ++ .stray c :: after → (∀ d, .stray d ∉ before) →
      tokenize true source = .error ⟨c, (before.flatMap Piece.text).length⟩ := by
  obtain ⟨hmade, hmatched⟩ := scan_isMatched (sanitize source).toList []
  refine ⟨scan (sanitize source).toList, (lex source).tokens, hmade, ?_, rfl,
    map_text_tokensFrom _ _, ?_, ?_, ?_⟩
  · intro before piece after h
    have hpiece := hmatched before piece after h
    rw [List.nil_append] at hpiece
    exact ⟨hpiece.text_ne_nil, hpiece⟩
  · intro i t h
    rw [index_of_getElem?_tokensFrom h, Nat.zero_add]
  · intro h
    have hstrays : (lex source).strays = [] := straysFrom_eq_nil h 0
    unfold tokenize
    simp only [hstrays]
  · intro before c after h hbefore
    have hstrays : (lex source).strays = ⟨c, (before.flatMap Piece.text).length⟩ ::
        straysFrom ((before.flatMap Piece.text).length + 1) after := by
      rw [lex, h, straysFrom_append, straysFrom_eq_nil hbefore, List.nil_append, straysFrom,
        Nat.zero_add]
    unfold tokenize
    simp only [hstrays]

/-- A single `=` is dropped, and so is a quote that is not closed. -/
example : (lex "a = 'b").strays = [⟨'=', 2⟩, ⟨'\'', 4⟩] := by decide +kernel

end Formula
