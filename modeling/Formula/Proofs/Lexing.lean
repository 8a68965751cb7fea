import Formula.Token.Lexer

set_option autoImplicit false

/-! # Cutting a text piece by piece

A text that was put together from lexemes and blanks is cut into them again, if each of them is the
piece that is cut off where it stands. `Lexes` says so of a text and what follows it, and is closed
under putting texts together.

Of a lexeme only the shape matters for what is read: its kind and its value.

Main statements: `Lexes.append`, `Lexes.tokenize`, and `exists_first_of_mem_scan` (every piece is cut
off somewhere). -/

namespace Formula

/-! ## Listed characters

What is said of listed characters is decided on the list, not on all characters there are. -/

section Listed

variable (p : Char → Prop) [DecidablePred p]

instance (priority := 2000) decidableForallMem (cs : List Char) : Decidable (∀ c ∈ cs, p c) :=
  List.decidableBAll p cs

instance (priority := 2000) decidableExistsMem (cs : List Char) : Decidable (∃ c ∈ cs, p c) :=
  List.decidableBEx p cs

instance (priority := 2000) decidableForallMemOption (o : Option Char) : Decidable (∀ c ∈ o, p c) :=
  decidable_of_iff (∀ c ∈ o.toList, p c) (by simp)

end Listed

/-! ## Shapes -/

/-- What a token is read by: its kind and its value. -/
abbrev Shape := TokenKind × String

/-- The shape of a token. -/
def Token.shape (t : Token) : Shape := (t.kind, t.value)

/-- The shapes of the lexemes among some pieces. -/
def shapes : List Piece → List Shape
  | [] => []
  | .lexeme kind text :: pieces => (kind, lexemeValue kind text) :: shapes pieces
  | _ :: pieces => shapes pieces

theorem shapes_append (ps qs : List Piece) : shapes (ps ++ qs) = shapes ps ++ shapes qs := by
  induction ps with
  | nil => rfl
  | cons p ps ih => cases p <;> simp [shapes, ih]

theorem map_shape_tokensFrom (index : Nat) (pieces : List Piece) :
    (tokensFrom index pieces).map Token.shape = shapes pieces := by
  induction pieces generalizing index with
  | nil => rfl
  | cons p pieces ih => cases p <;> simp [tokensFrom, shapes, Token.shape, ih]

theorem straysFrom_eq_nil {pieces : List Piece} (h : ∀ c, Piece.stray c ∉ pieces)
    (position : Nat) : straysFrom position pieces = [] := by
  induction pieces generalizing position with
  | nil => rfl
  | cons p pieces ih =>
      have hrest : ∀ c, Piece.stray c ∉ pieces := fun c hc => h c (List.mem_cons_of_mem _ hc)
      cases p with
      | blank text => exact ih hrest _
      | lexeme kind text => exact ih hrest _
      | stray c => exact absurd List.mem_cons_self (h c)

theorem stray_not_mem_of_straysFrom {pieces : List Piece} {position : Nat}
    (h : straysFrom position pieces = []) (c : Char) : Piece.stray c ∉ pieces := by
  induction pieces generalizing position with
  | nil => simp
  | cons p pieces ih =>
      cases p with
      | blank text => simpa using ih h
      | lexeme kind text => simpa using ih h
      | stray d => cases h

/-- A text without typographic quotes is read as it is. -/
theorem sanitize_of_plain {s : String} (h : ∀ c ∈ s.toList, plainQuote c = c) : sanitize s = s := by
  rw [sanitize, List.map_congr_left h, List.map_id', String.ofList_toList]

/-- A text without stray characters is read in the same way by both ways of reading. -/
theorem tokenize_eq_ok {s : String} (h : ∀ c, Piece.stray c ∉ scan (sanitize s).toList)
    (strict : Bool) : tokenize strict s = .ok (tokensFrom 0 (scan (sanitize s).toList)) := by
  have hlex : lex s = ⟨tokensFrom 0 (scan (sanitize s).toList), []⟩ := by
    rw [lex, straysFrom_eq_nil h]
  unfold tokenize
  rw [hlex]
  cases strict <;> rfl

/-- The tokens are the lexemes of the source, in both ways of reading. -/
theorem eq_tokensFrom_of_tokenize {strict : Bool} {s : String} {ts : List Token}
    (h : tokenize strict s = .ok ts) : ts = tokensFrom 0 (scan (sanitize s).toList) := by
  unfold tokenize at h
  simp only at h
  split at h
  · cases h
  · cases h
    rfl

/-- What strict reading accepts has no stray characters. -/
theorem stray_not_mem_of_tokenize {s : String} {ts : List Token} (h : tokenize true s = .ok ts) :
    ts = tokensFrom 0 (scan (sanitize s).toList) ∧
      ∀ c, Piece.stray c ∉ scan (sanitize s).toList := by
  refine ⟨eq_tokensFrom_of_tokenize h, ?_⟩
  unfold tokenize at h
  simp only at h
  split at h
  · cases h
  next hstrays =>
    have hnone : straysFrom 0 (scan (sanitize s).toList) = [] := by
      cases hlist : (lex s).strays with
      | nil => exact hlist
      | cons stray strays => exact absurd hlist (hstrays stray strays rfl)
    exact stray_not_mem_of_straysFrom hnone

/-! ## Scanning -/

theorem scanFrom_append (cs rest : List Char) : scanFrom cs.length (cs ++ rest) = scan rest := by
  induction cs with
  | nil => rfl
  | cons c cs ih => exact ih

/-- The first piece of a text, and the pieces of the rest. -/
theorem scan_of_first {c : Char} {cs rest : List Char} {piece : Piece}
    (h : Piece.first c (cs ++ rest) = piece) (htext : piece.text = c :: cs) :
    scan (c :: (cs ++ rest)) = piece :: scan rest := by
  have hlength : piece.text.length - 1 = cs.length := by simp [htext]
  rw [scan, scanFrom]
  simp only [h, hlength, scanFrom_append]

/-- Every piece of a text is cut off in front of some part of it. -/
theorem exists_first_of_mem_scanFrom {skip : Nat} {cs : List Char} {piece : Piece}
    (h : piece ∈ scanFrom skip cs) : ∃ c ds, c :: ds <:+ cs ∧ piece = Piece.first c ds := by
  induction cs generalizing skip with
  | nil => cases skip <;> cases h
  | cons c cs ih =>
      cases skip with
      | zero =>
          rcases List.mem_cons.1 h with rfl | h
          · exact ⟨c, cs, List.suffix_refl _, rfl⟩
          · obtain ⟨d, ds, hds, hpiece⟩ := ih h
            exact ⟨d, ds, hds.trans (List.suffix_cons c cs), hpiece⟩
      | succ skip =>
          obtain ⟨d, ds, hds, hpiece⟩ := ih h
          exact ⟨d, ds, hds.trans (List.suffix_cons c cs), hpiece⟩

theorem exists_first_of_mem_scan {cs : List Char} {piece : Piece} (h : piece ∈ scan cs) :
    ∃ c ds, c :: ds <:+ cs ∧ piece = Piece.first c ds :=
  exists_first_of_mem_scanFrom h

/-- Every token was cut off as a lexeme. -/
theorem exists_lexeme_of_mem_tokensFrom {index : Nat} {pieces : List Piece} {t : Token}
    (h : t ∈ tokensFrom index pieces) :
    ∃ text, Piece.lexeme t.kind text ∈ pieces ∧ t.value = lexemeValue t.kind text ∧
      t.text = String.ofList text := by
  induction pieces generalizing index with
  | nil => cases h
  | cons p pieces ih =>
      cases p with
      | blank text =>
          obtain ⟨text, hmem, ht⟩ := ih h
          exact ⟨text, List.mem_cons_of_mem _ hmem, ht⟩
      | stray c =>
          obtain ⟨text, hmem, ht⟩ := ih h
          exact ⟨text, List.mem_cons_of_mem _ hmem, ht⟩
      | lexeme kind text =>
          rcases List.mem_cons.1 h with rfl | h
          · exact ⟨text, List.mem_cons_self, rfl, rfl⟩
          · obtain ⟨text, hmem, ht⟩ := ih h
            exact ⟨text, List.mem_cons_of_mem _ hmem, ht⟩

/-! ## Texts that are cut as intended -/

/-- A text with the given rest behind it is cut into blanks and lexemes of the given shapes. -/
def Lexes (cs : List Char) (ls : List Shape) (rest : List Char) : Prop :=
  ∃ pieces, scan (cs ++ rest) = pieces ++ scan rest ∧ shapes pieces = ls ∧
    (∀ c, Piece.stray c ∉ pieces) ∧ ∀ c ∈ cs, plainQuote c = c

namespace Lexes

theorem nil (rest : List Char) : Lexes [] [] rest :=
  ⟨[], rfl, rfl, by simp, by simp⟩

theorem append {as bs rest : List Char} {ls ms : List Shape} (ha : Lexes as ls (bs ++ rest))
    (hb : Lexes bs ms rest) : Lexes (as ++ bs) (ls ++ ms) rest := by
  obtain ⟨ps, hps, hls, hstrayp, hplaina⟩ := ha
  obtain ⟨qs, hqs, hms, hstrayq, hplainb⟩ := hb
  refine ⟨ps ++ qs, ?_, ?_, ?_, ?_⟩
  · rw [List.append_assoc, hps, hqs, List.append_assoc]
  · rw [shapes_append, hls, hms]
  · intro c hc
    rcases List.mem_append.1 hc with hc | hc
    · exact hstrayp c hc
    · exact hstrayq c hc
  · intro c hc
    rcases List.mem_append.1 hc with hc | hc
    · exact hplaina c hc
    · exact hplainb c hc

/-- A single lexeme. -/
theorem lexeme {c : Char} {cs rest : List Char} {kind : TokenKind}
    (h : Piece.first c (cs ++ rest) = .lexeme kind (c :: cs))
    (hplain : ∀ d ∈ c :: cs, plainQuote d = d) :
    Lexes (c :: cs) [(kind, lexemeValue kind (c :: cs))] rest :=
  ⟨[.lexeme kind (c :: cs)], scan_of_first h rfl, rfl, by simp, hplain⟩

/-- A single space before something else. -/
theorem space {rest : List Char} (h : Text.takeBlanks rest = []) : Lexes [' '] [] rest := by
  have hfirst : Piece.first ' ' ([] ++ rest) = .blank (' ' :: []) := by
    have hblank : Text.isBlank ' ' = true := by decide
    rw [List.nil_append, Piece.first, if_pos hblank, h]
  exact ⟨[.blank [' ']], scan_of_first hfirst rfl, rfl, by simp, by decide⟩

/-- A whole text that is cut as intended gives tokens of the intended shapes. -/
theorem tokenize {s : String} {ls : List Shape} (h : Lexes s.toList ls []) (strict : Bool) :
    ∃ ts, Formula.tokenize strict s = .ok ts ∧ ts.map Token.shape = ls := by
  obtain ⟨pieces, hscan, hls, hstray, hplain⟩ := h
  have hpieces : scan (sanitize s).toList = pieces := by
    rw [sanitize_of_plain hplain]
    rw [List.append_nil] at hscan
    rw [hscan, scan, scanFrom, List.append_nil]
  rw [← hpieces] at hls hstray
  exact ⟨_, tokenize_eq_ok hstray strict, by rw [map_shape_tokensFrom, hls]⟩

end Lexes

end Formula
