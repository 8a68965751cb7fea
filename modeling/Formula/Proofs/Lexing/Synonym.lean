import Formula.Proofs.Lexing.Canonical
import Formula.Proofs.Lexing.Spacing

set_option autoImplicit false

/-! # Operators between texts

A spelling of an operator between two texts, with a space on each side, is read as one operator, and
the texts are read as they are alone: no phrase is begun in the left text and ended in the spelling,
and none is begun in the spelling and ended in the right text. The words that could join a spelling
are read as operators themselves, all but two: `not` before it, and `not` or `than` behind it.

Main statement: `tokenize_operator`. -/

namespace Formula

/-! ## Words that could join -/

/-- The rows of words in front of which a phrase may be read that was begun with them. -/
def OpensPhrase (us : List (List Char)) : Prop :=
  (∃ p ∈ Phrase.comparisons ++ Phrase.connectives, p.words = us) ∨ us = ["not".toList] ∨
    us.getLast? = some "or".toList ∧
      ∃ p ∈ Phrase.comparisons ++ Phrase.connectives, p.words = us.dropLast

instance (us : List (List Char)) : Decidable (OpensPhrase us) :=
  inferInstanceAs (Decidable (_ ∨ _))

/-- Words of a phrase that stand before the beginning of another phrase. -/
theorem opensPhrase_checked : ∀ q ∈ Phrase.comparisons ++ Phrase.connectives,
    ∀ p ∈ Phrase.comparisons ++ Phrase.connectives, ∀ n < q.words.length, n ≠ 0 →
      (q.words.drop n).head? = p.words.head? → OpensPhrase (q.words.take n) := by
  decide +kernel

/-- Words that make a longer phrase of a phrase begin with a phrase, or with one of two words. -/
theorem continues_checked : ∀ q ∈ Phrase.comparisons ++ Phrase.connectives,
    ∀ p ∈ Phrase.comparisons ++ Phrase.connectives, p.words <+: q.words →
      p.words.length < q.words.length →
        (∃ w ∈ (q.words.drop p.words.length).head?, w = "not".toList ∨ w = "than".toList) ∨
        ∃ r ∈ Phrase.comparisons ++ Phrase.connectives, r.words <+: q.words.drop p.words.length := by
  decide +kernel

/-- The word `not` alone begins no phrase that it is all of, and only `or` alone ends with `or`. -/
theorem alone_checked : ∀ p ∈ Phrase.comparisons ++ Phrase.connectives,
    ¬ p.words <+: ["not".toList] ∧
      (p.words.getLast? = some "or".toList → p.words = ["or".toList]) := by
  decide

/-! ## Lexemes of a phrase -/

section Lexemes

variable {c : Char} {cs rest blanks : List Char}

theorem solid_scan_lexeme {kind : TokenKind} (h : Piece.first c (cs ++ rest) = .lexeme kind (c :: cs)) :
    solid (scan (c :: cs ++ rest)) = .lexeme kind (c :: cs) :: solid (scan rest) := by
  rw [List.cons_append, scan_of_first h rfl]
  rfl

theorem solid_scan_only_blanks (h : ∀ b ∈ blanks, Text.isBlank b = true) :
    solid (scan blanks) = [] := by
  have hscan := solid_scan_blanks h []
  rwa [List.append_nil] at hscan

/-- A phrase in front of what does not make a longer phrase of it. -/
theorem solid_scan_phrase {p : Phrase} (hp : p ∈ Phrase.comparisons ++ Phrase.connectives)
    {t : List Char} (ht : Spells p.words t) (hrest : StopsWord rest)
    (hlonger : ∀ q ∈ Phrase.comparisons ++ Phrase.connectives, ∀ vs, q.words = p.words ++ vs →
      vs ≠ [] → ¬ ReadsOn vs rest) :
    solid (scan (t ++ rest)) = .lexeme .operator t :: solid (scan rest) := by
  obtain ⟨c, cs, rfl⟩ := List.exists_cons_of_ne_nil ht.text_ne_nil
  exact solid_scan_lexeme (Piece.first_of_spells hp ht hrest hlonger)

/-- A phrase in front of blanks. -/
theorem solid_scan_phrase_blanks {p : Phrase} (hp : p ∈ Phrase.comparisons ++ Phrase.connectives)
    {t : List Char} (ht : Spells p.words t) (hblanks : ∀ b ∈ blanks, Text.isBlank b = true) :
    solid (scan (t ++ blanks)) = [.lexeme .operator t] := by
  rw [solid_scan_phrase hp ht (.of_blanks hblanks), solid_scan_only_blanks hblanks]
  intro q _ vs _ hvs hreads
  have hnil : vs <+: [] := ReadsOn.words_prefix (t := []) hreads .nil hblanks
  exact hvs (List.prefix_nil.1 hnil)

/-- Where a text begins with the spelling of a word, an operator is cut off, or a path. -/
theorem first_of_spellsWord {w : List Char} (h : SpellsWord w (c :: cs)) (hrest : StopsWord rest) :
    (∃ p ∈ Phrase.comparisons ++ Phrase.connectives, ReadsAt p.words (c :: cs ++ rest) ∧
      ∃ text, Piece.first c (cs ++ rest) = .lexeme .operator text) ∨
    Piece.first c (cs ++ rest) = .lexeme .name (c :: cs ++ Piece.pathRest 0 rest) := by
  have hword := h.isWordChar c List.mem_cons_self
  cases hfirst : Phrase.firstOf (Phrase.comparisons ++ Phrase.connectives) (c :: cs ++ rest) with
  | some text =>
      obtain ⟨p, hp, left, hread⟩ := exists_read?_of_firstOf hfirst
      refine .inl ⟨p, hp, (isSome_read?_iff (phrases_worded p hp)).1 (by rw [hread]; rfl), text, ?_⟩
      exact Piece.first_of_firstOf hfirst
  | none =>
      have hcuts : CutsName c (cs ++ rest) := cutsName_iff.2
        ⟨hword, not_isDecimalDigit_of_spells (h.letterOf_mem List.mem_cons_self) (spells_letterOf c),
          firstOf_eq_none_iff.1 hfirst⟩
      rw [hcuts.first, ← List.cons_append, path_append_of_word h.isWordChar hrest]
      exact .inr rfl

end Lexemes

/-! ## The end of the left text -/

/-- A lexeme that could be joined by a phrase behind it. -/
def JoinsBehind (kind : TokenKind) (text : List Char) : Prop :=
  kind = .operator ∨ kind = .name ∧ Text.lowerChars text = "not".toList

/-- No phrase is the word `not` alone, so that it is a name in front of blanks. -/
theorem solid_scan_not {word blanks : List Char} (h : SpellsWord "not".toList word)
    (hblanks : ∀ b ∈ blanks, Text.isBlank b = true) :
    solid (scan (word ++ blanks)) = [.lexeme .name word] := by
  obtain ⟨c, cs, rfl⟩ := List.exists_cons_of_ne_nil h.word_ne_nil
  have hspells : Spells ["not".toList] (c :: cs) := ⟨c :: cs, [], h, .nil, by simp⟩
  have hstop := StopsWord.of_blanks hblanks
  have hends : Piece.pathRest 0 blanks = [] := by
    refine pathRest_of_stops fun b hb => ⟨hstop b hb, ?_⟩
    rintro rfl
    have hpoint := hblanks '.' (List.mem_of_mem_head? hb)
    revert hpoint
    decide
  have hname : Piece.first c (cs ++ blanks) = .lexeme .name (c :: cs) := by
    rcases first_of_spellsWord h hstop with ⟨p, hp, hreads, -⟩ | hname
    · exact absurd (hreads.words_prefix hspells hblanks) (alone_checked p hp).1
    · rwa [hends, List.append_nil] at hname
  rw [solid_scan_lexeme hname, solid_scan_only_blanks hblanks]

/-- No longer phrase ends with the word `or`, so that it is an operator of its own behind a phrase. -/
theorem solid_scan_or {p : Phrase} (hp : p ∈ Phrase.comparisons ++ Phrase.connectives)
    {t blanks : List Char} (ht : Spells (p.words ++ ["or".toList]) t)
    (hblanks : ∀ b ∈ blanks, Text.isBlank b = true) :
    ∃ phrase word, solid (scan (t ++ blanks)) = [.lexeme .operator phrase, .lexeme .operator word] := by
  have hne : p.words ≠ [] := fun hnil => (alone_checked p hp).1 (by rw [hnil]; exact List.nil_prefix)
  obtain ⟨phrase, u, rfl, hphrase, hu⟩ := ht.split hne
  have hlonger : ∀ q ∈ Phrase.comparisons ++ Phrase.connectives, ∀ vs, q.words = p.words ++ vs →
      vs ≠ [] → ¬ ReadsOn vs (u ++ blanks) := by
    intro q hq vs hwords hvs hreads
    obtain ⟨more, rfl, hmore⟩ :=
      (List.prefix_cons_iff.1 (hreads.words_prefix hu hblanks)).resolve_left hvs
    rw [List.prefix_nil.1 hmore] at hwords
    have hor := (alone_checked q hq).2 (by simp [hwords])
    rw [hwords] at hor
    exact hne (by simpa using hor)
  have hfirst := solid_scan_phrase hp hphrase (hu.stopsWord (.of_blanks hblanks)) hlonger
  cases hu with
  | @cons _ word bs more _ _ hbs hword hmore =>
      cases hmore
      have hor : Spells ["or".toList] word := ⟨word, [], hword, .nil, by simp⟩
      have hlast := solid_scan_phrase_blanks (p := ⟨["or".toList], .either⟩) (by decide) hor hblanks
      refine ⟨phrase, word, ?_⟩
      rw [List.append_assoc, hfirst, List.append_nil, List.append_assoc, solid_scan_blanks hbs, hlast]

/-- Where a phrase may be begun, the last lexeme is an operator or the name `not`. -/
theorem OpensPhrase.exists_last {us : List (List Char)} {t blanks : List Char} (h : OpensPhrase us)
    (ht : Spells us t) (hblanks : ∀ b ∈ blanks, Text.isBlank b = true) :
    ∃ pieces kind text, solid (scan (t ++ blanks)) = pieces ++ [.lexeme kind text] ∧
      JoinsBehind kind text := by
  rcases h with ⟨p, hp, rfl⟩ | rfl | ⟨hor, p, hp, hwords⟩
  · exact ⟨[], .operator, t, solid_scan_phrase_blanks hp ht hblanks, .inl rfl⟩
  · have hword : SpellsWord "not".toList t := by
      obtain ⟨word, _, hword, ⟨⟩, rfl⟩ := ht
      rwa [List.append_nil]
    exact ⟨[], .name, t, solid_scan_not hword hblanks, .inr ⟨rfl, hword.lowerChars_eq (by decide)⟩⟩
  · rw [← List.dropLast_append_getLast? _ hor, ← hwords] at ht
    obtain ⟨phrase, word, hscan⟩ := solid_scan_or hp ht hblanks
    exact ⟨[.lexeme .operator phrase], .operator, word, hscan, .inl rfl⟩

/-- A phrase that is begun in a text and goes on into a spelling behind it is begun with the lexeme
that the text ends with. -/
theorem exists_last_of_crosses {q : Phrase} (hq : q ∈ Phrase.comparisons ++ Phrase.connectives)
    {op : Operator} {text : String} (hwritten : op.IsWrittenAs text) {cs rest : List Char}
    (hrest : StopsWord rest) (h : CrossesInto q.words cs (' ' :: (text.toList ++ rest))) :
    ∃ pieces kind text, solid (scan cs) = pieces ++ [.lexeme kind text] ∧ JoinsBehind kind text := by
  obtain ⟨us, vs, t, blanks, hwords, hvs, rfl, hblanks, hus, hreads⟩ := h
  obtain ⟨v, vs, rfl⟩ := List.exists_cons_of_ne_nil hvs
  refine OpensPhrase.exists_last ?_ hus hblanks
  have hspace : ∀ b ∈ blanks ++ [' '], Text.isBlank b = true := by
    intro b hb
    rcases List.mem_append.1 hb with hb | hb
    · exact hblanks b hb
    · rw [List.mem_singleton.1 hb]
      decide
  have hbehind : blanks ++ ' ' :: (text.toList ++ rest) = (blanks ++ [' ']) ++ (text.toList ++ rest) := by
    simp
  rw [hbehind, readsOn_iff hvs] at hreads
  rcases hwritten with hsymbol | ⟨ws, hws, hspells⟩
  · -- A symbol begins no word.
    obtain ⟨-, hne, hhead⟩ := Operator.symbols_checked.1 op op.mem_all text hsymbol
    obtain ⟨c, ds, htext⟩ := List.exists_cons_of_ne_nil hne
    obtain ⟨hword, hblank⟩ := hhead c (by simp [htext])
    rw [htext, List.cons_append, (blanks_append hspace (by simpa [BeginsSolid] using hblank)).2] at hreads
    obtain ⟨_, _, hcons, a, ha, hletter⟩ := hreads.2.exists_cons
    obtain ⟨rfl, -⟩ := List.cons.inj hcons
    rw [isWordChar_of_spells ha hletter] at hword
    cases hword
  · -- The next word is the first one of the spelling.
    have hp := Operator.wordings_checked.1 op op.mem_all ws hws
    have hsolid : BeginsSolid (text.toList ++ rest) :=
      fun c hc => not_isBlank_of_isWordChar (hspells.head rest c hc)
    rw [(blanks_append hspace hsolid).2, readsAt_cons] at hreads
    obtain ⟨word, more, hword, hsplit, hmore⟩ := hreads.2
    obtain ⟨w, ws', hws'⟩ := List.exists_cons_of_ne_nil hspells.ne_nil
    rw [hws'] at hspells
    obtain ⟨word', more', hword', hmore', htext⟩ := hspells
    rw [htext, List.append_assoc] at hsplit
    obtain ⟨rfl, -⟩ := append_inj_of_class hsplit hword'.isWordChar (hmore'.stopsWord hrest)
      hword.isWordChar hmore.stopsWord
    have hopens := opensPhrase_checked q hq _ hp us.length (by simp [hwords])
      (by simpa using hus.ne_nil) (by simp [hwords, hws', hword.unique hword'])
    rwa [hwords, List.take_left] at hopens

/-! ## The beginning of the right text -/

/-- A lexeme that could be joined by a phrase in front of it. -/
def JoinsBefore (kind : TokenKind) (text : List Char) : Prop :=
  kind = .operator ∨ kind = .name ∧
    (Text.lowerChars (text.takeWhile (· ≠ '.')) = "not".toList ∨
      Text.lowerChars (text.takeWhile (· ≠ '.')) = "than".toList)

/-- Where words are read that make a longer phrase of a phrase, the first lexeme is an operator or a
name that begins with one of two words. -/
theorem exists_first_of_continues {p q : Phrase}
    (hp : p ∈ Phrase.comparisons ++ Phrase.connectives)
    (hq : q ∈ Phrase.comparisons ++ Phrase.connectives) {vs : List (List Char)}
    (hwords : q.words = p.words ++ vs) (hvs : vs ≠ []) {rest : List Char}
    (h : ReadsOn vs (' ' :: rest)) :
    ∃ kind text pieces, solid (scan rest) = .lexeme kind text :: pieces ∧ JoinsBefore kind text := by
  obtain ⟨-, hreads⟩ := (readsOn_iff hvs).1 h
  have hdrop : Text.dropBlanks (' ' :: rest) = Text.dropBlanks rest := by
    simp [Text.dropBlanks, show Text.isBlank ' ' = true by decide]
  rw [hdrop] at hreads
  rw [← solid_scan_dropBlanks]
  generalize Text.dropBlanks rest = ds at hreads
  obtain ⟨v, vs, rfl⟩ := List.exists_cons_of_ne_nil hvs
  obtain ⟨word, more, hword, rfl, hmore⟩ := readsAt_cons.1 hreads
  obtain ⟨c, cs, rfl⟩ := List.exists_cons_of_ne_nil hword.word_ne_nil
  have hcut {kind : TokenKind} {text : List Char} (hfirst : Piece.first c (cs ++ more) = .lexeme kind text) :
      ∃ pieces, solid (scan (c :: cs ++ more)) = .lexeme kind text :: pieces := by
    obtain ⟨left, -, hscan, -⟩ := exists_scan_cons c (cs ++ more)
    rw [List.cons_append, hscan, hfirst]
    exact ⟨_, rfl⟩
  have hchecked := continues_checked q hq p hp ⟨_, hwords.symm⟩ (by simp [hwords])
  rw [hwords, List.drop_left] at hchecked
  rcases hchecked with ⟨w, hw, hjoins⟩ | ⟨r, hr, us, hus⟩
  · obtain rfl : v = w := by simpa using hw
    rcases first_of_spellsWord hword hmore.stopsWord with ⟨-, -, -, text, hfirst⟩ | hfirst
    · obtain ⟨pieces, hscan⟩ := hcut hfirst
      exact ⟨_, _, pieces, hscan, .inl rfl⟩
    · obtain ⟨pieces, hscan⟩ := hcut hfirst
      have hpoint : ∀ d ∈ c :: cs, (decide (d ≠ '.')) = true := by
        intro d hd
        have hd := hword.isWordChar d hd
        simp only [decide_eq_true_eq]
        rintro rfl
        revert hd
        decide
      have hsegment : (c :: cs ++ Piece.pathRest 0 more).takeWhile (· ≠ '.') = c :: cs :=
        takeWhile_append_of_all hpoint fun d hd => by simp [head_pathRest more d hd]
      refine ⟨_, _, pieces, hscan, .inr ⟨rfl, ?_⟩⟩
      rw [hsegment]
      rcases hjoins with rfl | rfl
      · exact .inl (hword.lowerChars_eq (by decide))
      · exact .inr (hword.lowerChars_eq (by decide))
  · rw [← hus] at hreads
    have hne : r.words ≠ [] := fun hnil => (alone_checked r hr).1 (by rw [hnil]; exact List.nil_prefix)
    have hread := (isSome_read?_iff (phrases_worded r hr)).2 (hreads.of_append hne)
    obtain ⟨⟨_, _⟩, hread⟩ := Option.isSome_iff_exists.1 hread
    obtain ⟨text, hfirst, -⟩ := Piece.exists_operator_of_read? hr hread
    obtain ⟨pieces, hscan⟩ := hcut hfirst
    exact ⟨_, _, pieces, hscan, .inl rfl⟩

/-! ## The spelling -/

/-- A spelling of an operator is cut off as one lexeme, in front of a space and a text that no phrase
goes on into. -/
theorem solid_scan_written {op : Operator} {text : String} (h : op.IsWrittenAs text)
    {rest : List Char} (hnext : ∀ kind t pieces, solid (scan rest) = .lexeme kind t :: pieces →
      ¬ JoinsBefore kind t) :
    solid (scan (text.toList ++ ' ' :: rest)) =
      .lexeme .operator text.toList :: solid (scan rest) := by
  have hend : EndsLexeme (' ' :: rest) := by simp [EndsLexeme]
  rw [← solid_scan_of_isBlank (by decide : Text.isBlank ' ' = true) rest]
  rcases h with hsymbol | ⟨ws, hws, hspells⟩
  · rcases Operator.symbols_checked.2.1 op op.mem_all text hsymbol with hmem | ⟨⟨c, _⟩, hmem, rfl, htext⟩
    · obtain ⟨-, hne, -⟩ := Operator.symbols_checked.1 op op.mem_all text hsymbol
      obtain ⟨c, cs, htext⟩ := List.exists_cons_of_ne_nil hne
      rw [htext] at hmem ⊢
      have hcut : Piece.symbol? (c :: (cs ++ ' ' :: rest)) = some (c :: cs) := by
        rw [← List.cons_append, symbol?_append hend, symbols_checked _ hmem]
      have hsign := signs_checked.2 c (signs_checked.1 _ hmem c rfl)
      exact solid_scan_lexeme (first_of_symbol? hsign.2 hcut)
    · rw [htext]
      exact solid_scan_lexeme (first_of_mem_punctuation hmem (' ' :: rest))
  · have hp := Operator.wordings_checked.1 op op.mem_all ws hws
    refine solid_scan_phrase hp hspells hend.stopsWord fun q hq vs hwords hvs hreads => ?_
    obtain ⟨kind, t, pieces, hscan, hjoins⟩ := exists_first_of_continues hp hq hwords hvs hreads
    exact hnext kind t pieces hscan hjoins

/-- A spelling between two texts is cut off as one lexeme between theirs. -/
theorem solid_scan_between {op : Operator} {text : String} (h : op.IsWrittenAs text)
    {cs rest : List Char} (hstray : ∀ c, .stray c ∉ scan cs)
    (hlast : ∀ pieces kind t, solid (scan cs) = pieces ++ [.lexeme kind t] → ¬ JoinsBehind kind t)
    (hnext : ∀ kind t pieces, solid (scan rest) = .lexeme kind t :: pieces → ¬ JoinsBefore kind t) :
    solid (scan (cs ++ ' ' :: (text.toList ++ ' ' :: rest))) =
      solid (scan cs) ++ .lexeme .operator text.toList :: solid (scan rest) := by
  have hend : EndsLexeme (' ' :: (text.toList ++ ' ' :: rest)) := by simp [EndsLexeme]
  have hspace : StopsWord (' ' :: rest) := (EndsLexeme.stopsWord (by simp [EndsLexeme]))
  rw [solid_scan_append_of hend cs hstray, solid_scan_of_isBlank (by decide),
    solid_scan_written h hnext]
  intro before c ds hscan ps hps
  refine firstOf_append_of_not_crosses hps hend.stopsWord fun q hq hcross => ?_
  obtain ⟨pieces, kind, t, hsolid, hjoins⟩ := exists_last_of_crosses (hps hq) h hspace hcross
  refine hlast (solid before ++ pieces) kind t ?_ hjoins
  rw [hscan, solid_append, hsolid, List.append_assoc]

/-! ## Tokens -/

theorem tokensFrom_append (index : Nat) (ps qs : List Piece) :
    tokensFrom index (ps ++ qs) =
      tokensFrom index ps ++ tokensFrom (index + (tokensFrom index ps).length) qs := by
  induction ps generalizing index with
  | nil => rfl
  | cons p ps ih =>
      cases p with
      | blank text => exact ih index
      | lexeme kind text => simp [tokensFrom, ih, Nat.add_assoc, Nat.add_comm 1]
      | stray c => exact ih index

/-- The token with a number that is higher by `n`. -/
def Token.shift (n : Nat) (t : Token) : Token := { t with index := n + t.index }

theorem tokensFrom_add (n index : Nat) (pieces : List Piece) :
    tokensFrom (n + index) pieces = (tokensFrom index pieces).map (Token.shift n) := by
  induction pieces generalizing index with
  | nil => rfl
  | cons p pieces ih =>
      cases p with
      | blank text => exact ih index
      | lexeme kind text => simp [tokensFrom, ← ih, Token.shift, Nat.add_assoc]
      | stray c => exact ih index

/-- The part of a path before its first point. -/
def firstSegment (path : String) : String := String.ofList (path.toList.takeWhile (· ≠ '.'))

section Ascii

variable {text : String}

/-- A spelling in ASCII is mapped to the symbol of its operator. -/
theorem canonical_of_ascii {op : Operator} (h : op.IsWrittenAs text)
    (hascii : ∀ c ∈ text.toList, Text.isBlank c = true ∨ c.toNat < 128) :
    Phrase.canonical text = op.symbol := by
  have hlike : ∀ c ∈ lookalikes, ¬ (Text.isBlank c = true ∨ c.toNat < 128) := by decide
  refine h.canonical_eq_iff.2 (Operator.isToldBy_of_plain fun c hc hmem => ?_)
  exact hlike c hmem (hascii c hc)

theorem plainQuote_of_ascii {c : Char} (h : Text.isBlank c = true ∨ c.toNat < 128) :
    plainQuote c = c := by
  have hquotes : ∀ d ∈ ['\u2018', '\u2019', '\u201c', '\u201d'],
      ¬ (Text.isBlank d = true ∨ d.toNat < 128) := by
    decide
  have hne {d : Char} (hd : d ∈ ['\u2018', '\u2019', '\u201c', '\u201d']) : c ≠ d := by
    rintro rfl
    exact hquotes c hd h
  simp [plainQuote, hne (d := '\u2018'), hne (d := '\u2019'), hne (d := '\u201c'), hne (d := '\u201d')]

end Ascii

section Between

variable {index : Nat} {pieces : List Piece} {kind : TokenKind} {text : List Char}

/-- What a text ends with cannot be joined, if its last token is neither an operator nor `not`. -/
theorem not_joinsBehind {before : List Piece} (hsolid : solid pieces = before ++ [.lexeme kind text])
    (hlast : ∀ t ∈ (tokensFrom index pieces).getLast?,
      t.kind ≠ .operator ∧ t.isKeyword "not" = false) : ¬ JoinsBehind kind text := by
  rw [← tokensFrom_solid, hsolid, tokensFrom_append, tokensFrom, tokensFrom,
    List.getLast?_concat] at hlast
  obtain ⟨hoperator, hnot⟩ := hlast _ rfl
  rintro (hkind | ⟨rfl, hlower⟩)
  · exact hoperator hkind
  · have hkeyword : Text.lower (lexemeValue .name text) = "not" := by
      change Text.lower (String.ofList text) = "not"
      rw [Text.lower, String.toList_ofList, hlower, String.ofList_toList]
    simp [Token.isKeyword, hkeyword] at hnot

/-- What a text begins with cannot be joined, if its first token is neither an operator nor a path
that begins with one of two words. -/
theorem not_joinsBefore {after : List Piece} (hsolid : solid pieces = .lexeme kind text :: after)
    (hnext : ∀ t ∈ (tokensFrom index pieces).head?, t.kind ≠ .operator ∧
      (t.kind = .name → Text.lower (firstSegment t.value) ∉ ["not", "than"])) :
    ¬ JoinsBefore kind text := by
  rw [← tokensFrom_solid, hsolid, tokensFrom, List.head?_cons] at hnext
  obtain ⟨hoperator, hname⟩ := hnext _ rfl
  rintro (hkind | ⟨rfl, hlower⟩)
  · exact hoperator hkind
  · have hsegment : Text.lower (firstSegment (lexemeValue .name text)) =
        String.ofList (Text.lowerChars (text.takeWhile (· ≠ '.'))) := by
      change Text.lower (firstSegment (String.ofList text)) = _
      rw [firstSegment, Text.lower, String.toList_ofList, String.toList_ofList]
    refine hname rfl ?_
    rw [hsegment]
    rcases hlower with hlower | hlower
    · rw [hlower, String.ofList_toList]
      exact List.mem_cons_self
    · rw [hlower, String.ofList_toList]
      exact List.mem_cons_of_mem _ List.mem_cons_self

end Between

/-- Every spelling of an operator is a synonym in any context: between two texts, with a space on each
side, it is read as one token with the symbol of the operator, and the texts as they are alone. The
left text must not end with an operator or the name `not`, nor the right one begin with an operator or
a path whose first segment is `not` or `than`. -/
theorem tokenize_operator {left right spelling : String} {op : Operator} {ls rs : List Token}
    (hleft : tokenize true left = .ok ls) (hright : tokenize true right = .ok rs)
    (hspelling : op.IsWrittenAs spelling)
    (hascii : ∀ c ∈ spelling.toList, Text.isBlank c = true ∨ c.toNat < 128)
    (hlast : ∀ t ∈ ls.getLast?, t.kind ≠ .operator ∧ t.isKeyword "not" = false)
    (hnext : ∀ t ∈ rs.head?, t.kind ≠ .operator ∧
      (t.kind = .name → Text.lower (firstSegment t.value) ∉ ["not", "than"])) (strict : Bool) :
    tokenize strict (left ++ " " ++ spelling ++ " " ++ right) =
      .ok (ls ++ ⟨.operator, op.symbol, ls.length, spelling⟩ :: rs.map (Token.shift (ls.length + 1))) := by
  obtain ⟨hls, hstrayLeft⟩ := stray_not_mem_of_tokenize hleft
  obtain ⟨hrs, hstrayRight⟩ := stray_not_mem_of_tokenize hright
  have hplain : spelling.toList.map plainQuote = spelling.toList := by
    rw [List.map_congr_left fun c hc => plainQuote_of_ascii (hascii c hc), List.map_id']
  have hsanitize : (sanitize (left ++ " " ++ spelling ++ " " ++ right)).toList =
      (sanitize left).toList ++ ' ' :: (spelling.toList ++ ' ' :: (sanitize right).toList) := by
    simp [sanitize, hplain, plainQuote]
  have hsolid : solid (scan (sanitize (left ++ " " ++ spelling ++ " " ++ right)).toList) =
      solid (scan (sanitize left).toList) ++
        .lexeme .operator spelling.toList :: solid (scan (sanitize right).toList) := by
    rw [hsanitize]
    refine solid_scan_between hspelling hstrayLeft (fun pieces kind t hpieces => ?_)
      fun kind t pieces hpieces => ?_
    · exact not_joinsBehind hpieces (by rwa [← hls])
    · exact not_joinsBefore hpieces (by rwa [← hrs])
  have htokens : tokensFrom 0 (scan (sanitize (left ++ " " ++ spelling ++ " " ++ right)).toList) =
      ls ++ ⟨.operator, op.symbol, ls.length, spelling⟩ :: rs.map (Token.shift (ls.length + 1)) := by
    have hvalue : lexemeValue .operator spelling.toList = op.symbol := by
      rw [lexemeValue, String.ofList_toList, canonical_of_ascii hspelling hascii]
    rw [← tokensFrom_solid, hsolid, tokensFrom_append, tokensFrom, tokensFrom_solid,
      tokensFrom_solid, ← hls, Nat.zero_add, hvalue, String.ofList_toList, hrs,
      ← tokensFrom_add, Nat.add_zero]
  have hstray : ∀ c, .stray c ∉ scan (sanitize (left ++ " " ++ spelling ++ " " ++ right)).toList := by
    intro c hc
    rw [← stray_mem_solid, hsolid] at hc
    rcases List.mem_append.1 hc with hc | hc
    · exact hstrayLeft c (stray_mem_solid.1 hc)
    · exact hstrayRight c (stray_mem_solid.1 (by simpa using hc))
  rw [tokenize_eq_ok hstray, htokens]

/-- Names that only begin or end like a word of a phrase do not join it. -/
theorem tokenize_operator_thanks :
    tokenize false "x.not IS Greater\tthan  thanks.not" =
      .ok [⟨.name, "x.not", 0, "x.not"⟩, ⟨.operator, ">", 1, "IS Greater\tthan"⟩,
        ⟨.name, "thanks.not", 2, "thanks.not"⟩] := by
  have hleft : tokenize true "x.not" = .ok [⟨.name, "x.not", 0, "x.not"⟩] := by rfl
  have hright : tokenize true " thanks.not" = .ok [⟨.name, "thanks.not", 0, "thanks.not"⟩] := by rfl
  have hread : Phrase.read? ⟨["is".toList, "greater".toList, "than".toList], .greater⟩
      "IS Greater\tthan".toList = some ("IS Greater\tthan".toList, []) := by decide
  have hwritten := Phrase.isWrittenAs_of_read? (by decide) hread
  rw [String.ofList_toList] at hwritten
  exact tokenize_operator hleft hright hwritten (by decide) (by decide) (by decide) false

end Formula
