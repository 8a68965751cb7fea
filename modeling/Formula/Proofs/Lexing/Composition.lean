import Formula.Proofs.Lexing.Spelling

set_option autoImplicit false

/-! # Texts put together from texts

A text without stray characters is cut into the same lexemes in front of a space or a closing bracket,
if no phrase that begins in the text goes on behind it: neither of the two continues a word, a number
or a symbol. No phrase goes on into ` if(`, since none has the word `if`. Blanks at the end may run
together with a blank that follows, which is why only the other pieces are compared.

Main statements: `solid_scan_append_of`, `solid_scan_append` and `Adds.tokenize`. -/

namespace Formula

/-! ## What follows a text -/

/-- What ends every lexeme that is no phrase: nothing, a closing bracket or a space. -/
def EndsLexeme (rest : List Char) : Prop := ∀ c ∈ rest.head?, c = ')' ∨ c = ' '

namespace EndsLexeme

variable {rest : List Char}

theorem stopsPath (h : EndsLexeme rest) : StopsPath rest := by
  intro c hc
  rcases h c hc with rfl | rfl <;> decide

theorem stopsWord (h : EndsLexeme rest) : StopsWord rest := fun c hc => (h.stopsPath c hc).1

theorem stopsNumber (h : EndsLexeme rest) : StopsNumber rest := by
  intro c hc
  rcases h c hc with rfl | rfl <;> decide

end EndsLexeme

/-- What may follow a text that is part of another: nothing, a closing bracket, or ` if(`. -/
def Delimits (rest : List Char) : Prop :=
  rest = [] ∨ (∃ more, rest = ')' :: more) ∨ ∃ more, rest = ' ' :: 'i' :: 'f' :: '(' :: more

namespace Delimits

variable {rest : List Char}

theorem endsLexeme (h : Delimits rest) : EndsLexeme rest := by
  rcases h with rfl | ⟨more, rfl⟩ | ⟨more, rfl⟩ <;> simp [EndsLexeme]

/-- No phrase has the word `if`. -/
theorem noIf_checked : ∀ p ∈ Phrase.comparisons ++ Phrase.connectives, ['i', 'f'] ∉ p.words := by
  decide

/-- No phrase goes on into what follows. -/
theorem not_crosses (h : Delimits rest) {p : Phrase}
    (hp : p ∈ Phrase.comparisons ++ Phrase.connectives) (cs : List Char) :
    ¬ CrossesInto p.words cs rest := by
  rintro ⟨us, vs, t, blanks, hwords, hvs, -, hblanks, -, hreads⟩
  obtain ⟨-, hreads⟩ := (readsOn_iff hvs).1 hreads
  obtain ⟨v, vs, rfl⟩ := List.exists_cons_of_ne_nil hvs
  obtain ⟨word, more, hword, hdrop, hmore⟩ := readsAt_cons.1 hreads
  rw [Text.dropBlanks, List.dropWhile_append_of_pos hblanks, ← Text.dropBlanks] at hdrop
  have hhead := hword.head more
  rw [← hdrop] at hhead
  rcases h with rfl | ⟨after, rfl⟩ | ⟨after, rfl⟩
  · exact hword.word_ne_nil (List.append_eq_nil_iff.1 hdrop.symm).1
  · exact absurd (hhead ')' rfl) (by decide)
  · -- The next word would be `if`.
    have hif : ['i', 'f'] ++ ('(' :: after) = word ++ more := hdrop
    obtain ⟨rfl, -⟩ := append_inj_of_class hif (by decide) (by simp; decide) hword.isWordChar
      hmore.stopsWord
    have hv : v = ['i', 'f'] := hword.eq_map
    exact noIf_checked p hp (by simp [hwords, hv])

/-- Phrases are read in a text as they are without what follows it. -/
theorem firstOf_append (h : Delimits rest) {ps : List Phrase}
    (hps : ps ⊆ Phrase.comparisons ++ Phrase.connectives) (cs : List Char) :
    Phrase.firstOf ps (cs ++ rest) = Phrase.firstOf ps cs :=
  firstOf_append_of_not_crosses hps h.endsLexeme.stopsWord fun _ hp => h.not_crosses (hps hp) cs

end Delimits

/-! ## Other lexemes -/

section Lexemes

variable {rest : List Char}

theorem isPrefixOf_append {s : List Char} (h : ∀ c ∈ rest.head?, c ∉ s) (cs : List Char) :
    s.isPrefixOf (cs ++ rest) = s.isPrefixOf cs := by
  induction s generalizing cs with
  | nil => simp [List.isPrefixOf]
  | cons a s ih =>
      have ih := ih fun c hc => fun hmem => h c hc (List.mem_cons_of_mem _ hmem)
      cases cs with
      | nil =>
          cases rest with
          | nil => rfl
          | cons c rest =>
              have hne : a ≠ c := fun hac => h c (by simp) (by simp [hac])
              simp [List.isPrefixOf, hne]
      | cons c cs => simp [List.isPrefixOf, ih]

theorem symbol?_append (h : EndsLexeme rest) (cs : List Char) :
    Piece.symbol? (cs ++ rest) = Piece.symbol? cs := by
  have hall : ∀ s ∈ Piece.symbols, ')' ∉ s ∧ ' ' ∉ s := by decide
  have hsame : ∀ s ∈ Piece.symbols, s.isPrefixOf (cs ++ rest) = s.isPrefixOf cs := by
    intro s hs
    refine isPrefixOf_append (fun c hc => ?_) cs
    rcases h c hc with rfl | rfl
    · exact (hall s hs).1
    · exact (hall s hs).2
  unfold Piece.symbol?
  generalize Piece.symbols = symbols at hsame
  induction symbols with
  | nil => rfl
  | cons s symbols ih =>
      have ih := ih fun t ht => hsame t (List.mem_cons_of_mem _ ht)
      rw [List.find?_cons, List.find?_cons, ih, hsame s (by simp)]

/-- A quote that is closed in a text is closed there whatever follows. -/
theorem quotedRest?_append_right {quote : Char} {cs text : List Char}
    (h : Piece.quotedRest? quote cs = some text) (rest : List Char) :
    Piece.quotedRest? quote (cs ++ rest) = some text := by
  induction cs generalizing text with
  | nil => simp [Piece.quotedRest?] at h
  | cons c cs ih =>
      rw [List.cons_append, Piece.quotedRest?]
      rw [Piece.quotedRest?] at h
      split
      next hc => rwa [if_pos hc] at h
      next hc =>
        rw [if_neg hc] at h
        obtain ⟨more, hmore, rfl⟩ := Option.map_eq_some_iff.1 h
        rw [ih hmore]
        rfl

/-- Only a quote that is not closed in a text can be read differently with more behind it. -/
theorem quoted?_append (c : Char) (cs rest : List Char) :
    Piece.quoted? (c :: (cs ++ rest)) = Piece.quoted? (c :: cs) ∨
      ((c = '"' ∨ c = '\'') ∧ Piece.quoted? (c :: cs) = none) := by
  by_cases hquote : c = '"' ∨ c = '\''
  · cases hrest : Piece.quotedRest? c cs with
    | none => exact .inr ⟨hquote, by simp [Piece.quoted?, hrest]⟩
    | some text =>
        refine .inl ?_
        rw [Piece.quoted?, Piece.quoted?, if_pos hquote, if_pos hquote, hrest,
          quotedRest?_append_right hrest]
  · exact .inl (by rw [Piece.quoted?, Piece.quoted?, if_neg hquote, if_neg hquote])

theorem number_append (h : StopsNumber rest) (cs : List Char) :
    Piece.number (cs ++ rest) = Piece.number cs := by
  have hdigit : ∀ c ∈ rest.head?, Text.isDecimalDigit c = false := fun c hc => (h c hc).1
  unfold Piece.number
  simp only [takeWhile_append_of_head hdigit, dropWhile_append_of_head hdigit]
  cases cs.dropWhile Text.isDecimalDigit with
  | nil =>
      cases rest with
      | nil => rfl
      | cons c rest =>
          have hc : c ≠ '.' := (h c (by simp)).2
          simp [hc]
  | cons c more =>
      by_cases hc : c = '.'
      · subst hc
        simp [takeWhile_append_of_head hdigit]
      · simp [hc]

theorem pathRest_append_right (h : StopsPath rest) {skip : Nat} {cs : List Char}
    (hskip : skip ≤ cs.length) : Piece.pathRest skip (cs ++ rest) = Piece.pathRest skip cs := by
  have hword : ∀ c ∈ rest.head?, Text.isWordChar c = false := fun c hc => (h c hc).1
  induction cs generalizing skip with
  | nil =>
      obtain rfl : skip = 0 := by simpa using hskip
      exact pathRest_of_stops h
  | cons c cs ih =>
      cases skip with
      | succ skip => simp [Piece.pathRest, ih (by simpa using hskip)]
      | zero =>
          have hlength : (cs.takeWhile Text.isWordChar).length ≤ cs.length :=
            (List.takeWhile_prefix _).length_le
          simp only [List.cons_append, Piece.pathRest, takeWhile_append_of_head hword, ih hlength]

theorem path_append_right (h : StopsPath rest) (cs : List Char) :
    Piece.path (cs ++ rest) = Piece.path cs := by
  have hword : ∀ c ∈ rest.head?, Text.isWordChar c = false := fun c hc => (h c hc).1
  simp only [Piece.path, takeWhile_append_of_head hword, dropWhile_append_of_head hword,
    pathRest_append_right h (Nat.zero_le _)]

/-- A lexeme that is cut off from a text is cut off in front of what ends lexemes, if the same phrases
are read there. -/
theorem first_append (h : EndsLexeme rest) {c : Char} {cs : List Char}
    (hphrases : ∀ ps ⊆ Phrase.comparisons ++ Phrase.connectives,
      Phrase.firstOf ps (c :: cs ++ rest) = Phrase.firstOf ps (c :: cs))
    (hblank : Text.isBlank c = false) (hstray : ∀ d, Piece.first c cs ≠ .stray d) :
    Piece.first c (cs ++ rest) = Piece.first c cs := by
  have hcomparison := hphrases _ (List.subset_append_left _ Phrase.connectives)
  have hconnective := hphrases _ (List.subset_append_right Phrase.comparisons _)
  have hsymbol := symbol?_append h (c :: cs)
  have hnumber := number_append h.stopsNumber (c :: cs)
  have hpath := path_append_right h.stopsPath (c :: cs)
  rw [List.cons_append] at hcomparison hconnective hsymbol hnumber hpath
  rcases quoted?_append c cs rest with hquoted | ⟨hquote, hnone⟩
  · simp only [Piece.first, hcomparison, hconnective, hsymbol, hquoted, hnumber, hpath, hblank]
    rfl
  · -- A quote that is not closed in the text is stray there, or no lexeme begins with it.
    have hplain : Text.isDecimalDigit c = false ∧ Text.isWordChar c = false ∧
        Piece.punctuation.lookup c = none := by
      rcases hquote with rfl | rfl <;> decide
    obtain ⟨hdigit, hword, hkind⟩ := hplain
    have hsame : Piece.first c cs ≠ .stray c := hstray c
    simp only [Piece.first, hcomparison, hconnective, hsymbol, hblank, hnone, hdigit, hword,
      hkind] at hsame ⊢
    cases hc : Phrase.firstOf Phrase.comparisons (c :: cs) with
    | some text => simp
    | none =>
        cases hs : Piece.symbol? (c :: cs) with
        | some text => simp
        | none =>
            cases hn : Phrase.firstOf Phrase.connectives (c :: cs) with
            | some text => simp
            | none => simp [hc, hs, hn] at hsame

end Lexemes

/-! ## Pieces other than blanks -/

/-- Whether a piece is a run of blanks. -/
def Piece.isBlank : Piece → Bool
  | blank _ => true
  | _ => false

/-- The pieces that are no blanks. -/
def solid (pieces : List Piece) : List Piece := pieces.filter fun p => !p.isBlank

@[simp] theorem solid_append (ps qs : List Piece) : solid (ps ++ qs) = solid ps ++ solid qs :=
  List.filter_append ps qs

@[simp] theorem solid_blank (text : List Char) (ps : List Piece) :
    solid (.blank text :: ps) = solid ps := rfl

theorem shapes_solid (pieces : List Piece) : shapes (solid pieces) = shapes pieces := by
  induction pieces with
  | nil => rfl
  | cons p pieces ih =>
      cases p with
      | blank text => exact ih
      | lexeme kind text => exact congrArg (_ :: ·) ih
      | stray c => exact ih

theorem tokensFrom_solid (index : Nat) (pieces : List Piece) :
    tokensFrom index (solid pieces) = tokensFrom index pieces := by
  induction pieces generalizing index with
  | nil => rfl
  | cons p pieces ih =>
      cases p with
      | blank text => exact ih index
      | lexeme kind text => exact congrArg (_ :: ·) (ih (index + 1))
      | stray c => exact ih index

theorem stray_mem_solid {c : Char} {pieces : List Piece} :
    .stray c ∈ solid pieces ↔ .stray c ∈ pieces := by
  simp [solid, Piece.isBlank]

theorem scan_of_isBlank {c : Char} (h : Text.isBlank c = true) (cs : List Char) :
    scan (c :: cs) = .blank (c :: Text.takeBlanks cs) :: scan (Text.dropBlanks cs) := by
  have hsplit := Text.takeBlanks_append_dropBlanks cs
  have hfirst : Piece.first c (Text.takeBlanks cs ++ Text.dropBlanks cs) =
      .blank (c :: Text.takeBlanks cs) := by
    rw [hsplit, Piece.first, if_pos h]
  have hscan := scan_of_first hfirst rfl
  rwa [hsplit] at hscan

/-- Blanks in front of a text add nothing to it. -/
theorem solid_scan_dropBlanks (cs : List Char) :
    solid (scan (Text.dropBlanks cs)) = solid (scan cs) := by
  cases cs with
  | nil => rfl
  | cons c cs =>
      by_cases h : Text.isBlank c = true
      · have hdrop : Text.dropBlanks (c :: cs) = Text.dropBlanks cs := by
          simp [Text.dropBlanks, h]
        rw [hdrop, scan_of_isBlank h, solid_blank]
      · have hdrop : Text.dropBlanks (c :: cs) = c :: cs := by simp [Text.dropBlanks, h]
        rw [hdrop]

theorem solid_scan_of_isBlank {c : Char} (h : Text.isBlank c = true) (cs : List Char) :
    solid (scan (c :: cs)) = solid (scan cs) := by
  rw [scan_of_isBlank h, solid_blank, solid_scan_dropBlanks]

/-- Blanks in front of a text add nothing to it, how many they are. -/
theorem solid_scan_blanks {blanks : List Char} (h : ∀ c ∈ blanks, Text.isBlank c = true)
    (cs : List Char) : solid (scan (blanks ++ cs)) = solid (scan cs) := by
  induction blanks with
  | nil => rfl
  | cons b blanks ih =>
      rw [List.cons_append, solid_scan_of_isBlank (h b List.mem_cons_self),
        ih fun c hc => h c (List.mem_cons_of_mem _ hc)]

/-- A text without stray characters is cut into the same lexemes in front of what ends lexemes, if the
same phrases are read in both places wherever a piece begins. -/
theorem solid_scan_append_of {rest : List Char} (h : EndsLexeme rest) (cs : List Char)
    (hstray : ∀ d, .stray d ∉ scan cs)
    (hphrases : ∀ before c ds, scan cs = before ++ scan (c :: ds) →
      ∀ ps ⊆ Phrase.comparisons ++ Phrase.connectives,
        Phrase.firstOf ps (c :: ds ++ rest) = Phrase.firstOf ps (c :: ds)) :
    solid (scan (cs ++ rest)) = solid (scan cs) ++ solid (scan rest) := by
  -- By induction on the length: the first piece is the same, and what it leaves is shorter.
  induction hn : cs.length using Nat.strongRecOn generalizing cs with
  | ind n ih =>
      subst hn
      cases cs with
      | nil => rfl
      | cons c cs =>
          obtain ⟨after, htext, hscan, hshorter⟩ := exists_scan_cons c cs
          have hlater := ih after.length hshorter after
            (fun d hd => hstray d (by rw [hscan]; exact List.mem_cons_of_mem _ hd))
            (fun before d ds hds => hphrases (Piece.first c cs :: before) d ds (by rw [hscan, hds]; rfl))
            rfl
          have hpiece : solid (scan (c :: cs ++ rest)) =
              solid [Piece.first c cs] ++ solid (scan (after ++ rest)) := by
            by_cases hblank : Text.isBlank c = true
            · have hfirst : Piece.first c cs = .blank (c :: Text.takeBlanks cs) := if_pos hblank
              have hblanks : ∀ d ∈ c :: Text.takeBlanks cs, Text.isBlank d = true := by
                simp only [List.forall_mem_cons]
                exact ⟨hblank, fun d hd => List.all_eq_true.1 List.all_takeWhile d hd⟩
              rw [hfirst, Piece.text] at htext
              rw [hfirst, ← htext, List.append_assoc, solid_scan_blanks hblanks]
              rfl
            · have hsame : Piece.first c (cs ++ rest) = Piece.first c cs :=
                first_append h (hphrases [] c cs rfl) (by simpa using hblank)
                  fun d hd => hstray d (by rw [hscan, hd]; exact List.mem_cons_self)
              obtain ⟨b, more, hmore⟩ := List.exists_cons_of_ne_nil (Piece.text_first_ne_nil c cs)
              rw [hmore] at htext
              obtain ⟨rfl, rfl⟩ : b = c ∧ more ++ after = cs := by simpa using htext
              rw [List.append_assoc] at hsame
              rw [List.cons_append, List.append_assoc, scan_of_first hsame hmore,
                ← List.singleton_append, solid_append]
          rw [hpiece, hlater, hscan, ← List.append_assoc, ← solid_append, List.singleton_append]

/-- A text without stray characters is cut into the same lexemes in front of a delimiter. -/
theorem solid_scan_append {rest : List Char} (h : Delimits rest) (cs : List Char)
    (hstray : ∀ d, .stray d ∉ scan cs) :
    solid (scan (cs ++ rest)) = solid (scan cs) ++ solid (scan rest) :=
  solid_scan_append_of h.endsLexeme cs hstray fun _ c ds _ _ hps => h.firstOf_append hps (c :: ds)

/-! ## Composed texts -/

/-- A text with the given rest behind it adds lexemes of the given shapes to those of the rest. -/
def Adds (cs : List Char) (ls : List Shape) (rest : List Char) : Prop :=
  ∃ pieces, solid (scan (cs ++ rest)) = pieces ++ solid (scan rest) ∧ shapes pieces = ls ∧
    ∀ c, Piece.stray c ∉ pieces

/-- A text that is cut as intended adds its lexemes. -/
theorem Lexes.adds {cs rest : List Char} {ls : List Shape} (h : Lexes cs ls rest) :
    Adds cs ls rest := by
  obtain ⟨pieces, hscan, hls, hstray, _⟩ := h
  refine ⟨solid pieces, by rw [hscan, solid_append], by rw [shapes_solid, hls], fun c hc => ?_⟩
  exact hstray c (stray_mem_solid.1 hc)

namespace Adds

theorem append {as bs rest : List Char} {ls ms : List Shape} (ha : Adds as ls (bs ++ rest))
    (hb : Adds bs ms rest) : Adds (as ++ bs) (ls ++ ms) rest := by
  obtain ⟨ps, hps, hls, hstrayp⟩ := ha
  obtain ⟨qs, hqs, hms, hstrayq⟩ := hb
  refine ⟨ps ++ qs, ?_, ?_, ?_⟩
  · rw [List.append_assoc, hps, hqs, List.append_assoc]
  · rw [shapes_append, hls, hms]
  · intro c hc
    rcases List.mem_append.1 hc with hc | hc
    · exact hstrayp c hc
    · exact hstrayq c hc

/-- A single space, whatever follows it. -/
theorem space (rest : List Char) : Adds [' '] [] rest :=
  ⟨[], solid_scan_of_isBlank (by decide) rest, rfl, by simp⟩

/-- The tokens of a text that strict reading accepts, in front of a delimiter. -/
theorem text {s : String} {ts : List Token} {rest : List Char} (h : Formula.tokenize true s = .ok ts)
    (hrest : Delimits rest) : Adds (sanitize s).toList (ts.map Token.shape) rest := by
  obtain ⟨hts, hstray⟩ := stray_not_mem_of_tokenize h
  refine ⟨_, solid_scan_append hrest _ hstray, ?_, fun c hc => hstray c (stray_mem_solid.1 hc)⟩
  rw [hts, map_shape_tokensFrom, shapes_solid]

/-- A text that adds the lexemes it was put together from is read as tokens of their shapes. -/
theorem tokenize {s : String} {ls : List Shape} (h : Adds (sanitize s).toList ls [])
    (strict : Bool) : ∃ ts, Formula.tokenize strict s = .ok ts ∧ ts.map Token.shape = ls := by
  obtain ⟨pieces, hscan, hls, hstray⟩ := h
  have hempty : solid (scan []) = [] := rfl
  rw [List.append_nil, hempty, List.append_nil] at hscan
  have hnone : ∀ c, .stray c ∉ scan (sanitize s).toList := by
    intro c hc
    have hmem := stray_mem_solid.2 hc
    rw [hscan] at hmem
    exact hstray c hmem
  refine ⟨tokensFrom 0 (scan (sanitize s).toList), tokenize_eq_ok hnone strict, ?_⟩
  rw [map_shape_tokensFrom, ← shapes_solid, hscan, hls]

end Adds

end Formula
