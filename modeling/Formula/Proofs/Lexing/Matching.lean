import Formula.Proofs.Lexing.Lexeme
import Formula.Proofs.Lexing.Pattern

set_option autoImplicit false

/-! # What is cut off is matched

A piece that is cut off a text is matched there by a pattern of its kind, and a character is stray
only where no pattern matches anything. For the first, every piece is read as a row of parts of some
pattern; for the second, every row begins with a character that a stray one is not, is one of the
symbols, or is a text in quotes.

Main statements: `Piece.exists_isMatched` and `exists_scan_cons`. -/

namespace Formula

open Pattern (all one many boundary)

/-- Some pattern for tokens of the kind has the row of parts. -/
def HasRow (kind : Option TokenKind) (row : List Pattern) : Prop :=
  ∃ e ∈ lexemePatterns, e.1 = kind ∧ row ∈ e.2.rows

instance (kind : Option TokenKind) (row : List Pattern) : Decidable (HasRow kind row) :=
  inferInstanceAs (Decidable (∃ e ∈ lexemePatterns, _))

/-- What a piece is, between what stands before it and behind it: blanks and lexemes are matched by a
pattern of their kind, and from a stray character on no pattern matches anything. -/
def Piece.IsMatched (before after : List Char) : Piece → Prop
  | blank text => ∃ p, (none, p) ∈ lexemePatterns ∧ p.Matches before text after
  | lexeme kind text => ∃ p, (some kind, p) ∈ lexemePatterns ∧ p.Matches before text after
  | stray c => ∀ e ∈ lexemePatterns, ∀ text rest, text ++ rest = c :: after →
      e.2.Matches before text rest → text = []

theorem HasRow.exists_matches {kind : Option TokenKind} {row : List Pattern}
    {before text after : List Char} (hrow : HasRow kind row)
    (h : (all row).Matches before text after) :
    ∃ p, (kind, p) ∈ lexemePatterns ∧ p.Matches before text after := by
  obtain ⟨⟨k, p⟩, hmem, rfl, hrow⟩ := hrow
  exact ⟨p, hmem, Pattern.matches_iff_rows.2 ⟨row, hrow, h⟩⟩

/-! ## Phrases -/

/-- The parts of a word in any case. -/
def spelledParts (w : List Char) : List Pattern := w.map fun a => one (.letter a)

/-- The parts of white space. -/
def blankParts : List Pattern := [one .blank, many (one .blank)]

/-- The parts of words with white space before each. -/
def moreParts (ws : List (List Char)) : List Pattern :=
  ws.flatMap fun w => blankParts ++ spelledParts w

/-- The parts of a phrase. -/
def Phrase.parts (p : Phrase) : List Pattern :=
  match p.words with
  | [] => []
  | w :: ws => spelledParts w ++ (moreParts ws ++ [boundary])

theorem phrases_haveRows : ∀ p ∈ Phrase.comparisons ++ Phrase.connectives,
    HasRow (some .operator) p.parts ∧ ∀ w ∈ p.words, w ≠ [] := by
  decide +kernel

section Phrases

variable {before text after cs rest : List Char}

theorem matches_spelledParts {w : List Char}
    (h : List.Forall₂ (fun a c => Phrase.spells a c = true) w text) :
    (all (spelledParts w)).Matches before text after := by
  induction h generalizing before with
  | nil => rfl
  | cons hc _ ih => exact .cons hc ih

theorem matches_blankParts (h : (Text.takeBlanks cs).isEmpty = false) :
    (all blankParts).Matches before (Text.takeBlanks cs) after := by
  cases cs with
  | nil => cases h
  | cons c cs =>
      unfold Text.takeBlanks at h ⊢
      rw [List.takeWhile_cons] at h ⊢
      split at h
      next hc =>
        rw [if_pos hc]
        have hblanks : ∀ d ∈ cs.takeWhile Text.isBlank, Text.isBlank d = true :=
          fun d hd => List.all_eq_true.1 List.all_takeWhile d hd
        exact .cons hc
          (Pattern.matches_all_singleton.2 (Pattern.matches_many_one hblanks))
      · cases h

theorem matches_moreParts {ws : List (List Char)}
    (h : Phrase.readWords? ws cs = some (text, rest)) :
    (all (moreParts ws)).Matches before text after := by
  induction ws generalizing before cs text with
  | nil =>
      rw [Phrase.readWords?] at h
      cases h
      rfl
  | cons w ws ih =>
      rw [Phrase.readWords?] at h
      split at h
      · cases h
      next hblanks =>
        obtain ⟨⟨word, left⟩, hword, h⟩ := Option.bind_eq_some_iff.1 h
        obtain ⟨⟨more, left'⟩, hmore, h⟩ := Option.bind_eq_some_iff.1 h
        cases h
        rw [moreParts, List.flatMap_cons]
        refine Pattern.matches_all_append.2 ⟨_, more, rfl, ?_, ih hmore⟩
        have hspelled := (readWord?_eq_some_iff.1 hword).1
        refine Pattern.matches_all_append.2 ⟨_, word, rfl, ?_, matches_spelledParts hspelled⟩
        exact matches_blankParts (by simpa using hblanks)

/-- The last character of a text is a word character. -/
def EndsInWord (text : List Char) : Prop := ∃ c ∈ text.getLast?, Text.isWordChar c = true

theorem EndsInWord.append_left (h : EndsInWord text) (before : List Char) :
    EndsInWord (before ++ text) := by
  obtain ⟨c, hc, hword⟩ := h
  exact ⟨c, by simp [List.getLast?_append, Option.mem_def.1 hc], hword⟩

theorem EndsInWord.isBoundary (h : EndsInWord before) (hend : Phrase.endsHere after = true) :
    Pattern.IsBoundary before after := by
  obtain ⟨c, hc, hword⟩ := h
  have hafter : after.head?.any Text.isWordChar = false := by
    cases after with
    | nil => rfl
    | cons d after => simpa [Phrase.endsHere] using hend
  simp [Pattern.IsBoundary, Option.mem_def.1 hc, hword, hafter]

theorem endsInWord_of_readWord? {w : List Char} (hne : w ≠ []) (hw : ∀ a ∈ w, a ∈ letters)
    (h : Phrase.readWord? w cs = some (text, rest)) : EndsInWord text := by
  have hspelled := (readWord?_eq_some_iff.1 h).1
  have htext : text ≠ [] := by
    rintro rfl
    exact hne (List.forall₂_nil_right_iff.1 hspelled)
  exact ⟨text.getLast htext, by simp [List.getLast?_eq_some_getLast htext],
    isWordChar_of_spelled hw hspelled _ (List.getLast_mem htext)⟩

theorem endsInWord_of_readWords? {ws : List (List Char)}
    (hws : ∀ w ∈ ws, w ≠ [] ∧ ∀ a ∈ w, a ∈ letters)
    (h : Phrase.readWords? ws cs = some (text, rest)) : text = [] ∨ EndsInWord text := by
  induction ws generalizing cs text with
  | nil =>
      rw [Phrase.readWords?] at h
      cases h
      exact .inl rfl
  | cons w ws ih =>
      rw [Phrase.readWords?] at h
      split at h
      · cases h
      · obtain ⟨⟨word, left⟩, hword, h⟩ := Option.bind_eq_some_iff.1 h
        obtain ⟨⟨more, left'⟩, hmore, h⟩ := Option.bind_eq_some_iff.1 h
        cases h
        obtain ⟨hne, hletters⟩ := hws w List.mem_cons_self
        refine .inr ?_
        rcases ih (fun v hv => hws v (List.mem_cons_of_mem _ hv)) hmore with rfl | hends
        · rw [List.append_nil]
          exact (endsInWord_of_readWord? hne hletters hword).append_left _
        · exact hends.append_left _

/-- A phrase that is read is matched as the row of its parts. -/
theorem Phrase.matches_parts {p : Phrase} (hletters : p.IsLettered) (hne : ∀ w ∈ p.words, w ≠ [])
    (h : p.read? cs = some (text, rest)) : (all p.parts).Matches before text rest := by
  unfold Phrase.read? at h
  unfold Phrase.parts
  cases hp : p.words with
  | nil =>
      rw [hp] at h
      cases h
  | cons w ws =>
      have hws : ∀ v ∈ w :: ws, v ≠ [] ∧ ∀ a ∈ v, a ∈ letters := by
        intro v hv
        rw [← hp] at hv
        exact ⟨hne v hv, hletters v hv⟩
      rw [hp] at h
      obtain ⟨⟨word, left⟩, hword, h⟩ := Option.bind_eq_some_iff.1 h
      obtain ⟨⟨more, left'⟩, hmore, h⟩ := Option.bind_eq_some_iff.1 h
      simp only at h
      split at h
      next hend =>
        cases h
        have hspelled := (readWord?_eq_some_iff.1 hword).1
        refine Pattern.matches_all_append.2 ⟨word, more, rfl, matches_spelledParts hspelled, ?_⟩
        refine Pattern.matches_all_append.2 ⟨more, [], by simp, matches_moreParts hmore, ?_⟩
        refine Pattern.matches_all_singleton.2 ⟨rfl, EndsInWord.isBoundary ?_ hend⟩
        -- The last word ends the text: the first one, if there are no others.
        rcases endsInWord_of_readWords? (fun v hv => hws v (List.mem_cons_of_mem _ hv)) hmore with
          rfl | hends
        · obtain ⟨hne, hletters⟩ := hws w List.mem_cons_self
          rw [List.append_nil]
          exact (endsInWord_of_readWord? hne hletters hword).append_left _
        · exact hends.append_left _
      · cases h

end Phrases

/-! ## Strings, numbers and names -/

/-- The parts of a text between two quotes. -/
def quotedParts (quote : Char) : List Pattern :=
  [one (.exactly quote), many (one (.otherThan quote)), one (.exactly quote)]

/-- A point and at least one word character. -/
def segment : Pattern := .seq (one (.exactly '.')) (.atLeastOne (one .word))

theorem lexemes_haveRows :
    HasRow none blankParts ∧
    (∀ s ∈ Piece.symbols, HasRow (some .operator) (s.map fun c => one (.exactly c))) ∧
    (∀ quote ∈ ['"', '\''], HasRow (some .string) (quotedParts quote)) ∧
    HasRow (some .number) [one .digit, many (one .digit), many (one .digit)] ∧
    HasRow (some .number)
      [one .digit, many (one .digit), one (.exactly '.'), many (one .digit)] ∧
    HasRow (some .name) [one .word, many (one .word), many segment] ∧
    ∀ p ∈ Piece.punctuation, HasRow (some p.2) [one (.exactly p.1)] := by
  decide +kernel

section Lexemes

variable {c : Char} {before text after cs rest : List Char}

theorem exists_rest_of_quotedRest? {quote : Char} (h : Piece.quotedRest? quote cs = some text) :
    ∃ rest, text ++ rest = cs := by
  induction cs generalizing text with
  | nil => cases h
  | cons c cs ih =>
      rw [Piece.quotedRest?] at h
      split at h
      · cases h
        exact ⟨cs, rfl⟩
      · obtain ⟨more, hmore, rfl⟩ := Option.map_eq_some_iff.1 h
        obtain ⟨rest, rfl⟩ := ih hmore
        exact ⟨rest, rfl⟩

theorem matches_quotedParts {quote : Char} {content : List Char} (h : quote ∉ content) :
    (all (quotedParts quote)).Matches before (quote :: (content ++ [quote])) after := by
  have hcontent : ∀ d ∈ content, (CharClass.otherThan quote).holds d = true := by
    intro d hd
    have hne : d ≠ quote := fun heq => h (heq ▸ hd)
    simpa [CharClass.holds] using hne
  have hself : (CharClass.exactly quote).holds quote = true := by simp [CharClass.holds]
  refine .cons hself (.seq (Pattern.matches_many_one hcontent) ?_)
  exact Pattern.matches_all_singleton.2 ⟨quote, rfl, hself⟩

/-- A text in quotes is what its parts match. -/
theorem of_matches_quotedParts {quote : Char}
    (h : (all (quotedParts quote)).Matches before text after) :
    ∃ content, quote ∉ content ∧ text = quote :: (content ++ [quote]) := by
  obtain ⟨_, _, rfl, ⟨d, rfl, hd⟩, content, _, rfl, hcontent, hclose⟩ := h
  obtain ⟨d', rfl, hd'⟩ := Pattern.matches_all_singleton.1 hclose
  obtain rfl : d = quote := by simpa [CharClass.holds] using hd
  obtain rfl : d' = d := by simpa [CharClass.holds] using hd'
  refine ⟨content, fun hmem => ?_, rfl⟩
  have hother := Pattern.holds_of_matches_many_one hcontent d' hmem
  simp [CharClass.holds] at hother

theorem exists_rest_of_number (cs : List Char) : ∃ rest, Piece.number cs ++ rest = cs := by
  have hcut := List.takeWhile_append_dropWhile (p := Text.isDecimalDigit) (l := cs)
  unfold Piece.number
  split
  next rest hpoint =>
    rw [hpoint] at hcut
    exact ⟨rest.dropWhile Text.isDecimalDigit, by simpa using hcut⟩
  next => exact ⟨_, hcut⟩

theorem exists_matches_number (hc : Text.isDecimalDigit c = true) :
    ∃ p, (some .number, p) ∈ lexemePatterns ∧ p.Matches before (Piece.number (c :: cs)) after := by
  have hdigits (ds : List Char) : ∀ d ∈ ds.takeWhile Text.isDecimalDigit,
      CharClass.digit.holds d = true := fun d hd => List.all_eq_true.1 List.all_takeWhile d hd
  have hwhole : (c :: cs).takeWhile Text.isDecimalDigit = c :: cs.takeWhile Text.isDecimalDigit := by
    rw [List.takeWhile_cons, if_pos hc]
  obtain ⟨-, -, -, hwithout, hwith, -⟩ := lexemes_haveRows
  unfold Piece.number
  rw [hwhole]
  -- Without a point the row with two runs of digits is taken, the second one empty.
  split
  next rest _ =>
    refine hwith.exists_matches (.cons hc ?_)
    refine .seq (Pattern.matches_many_one (hdigits cs)) ?_
    refine .cons rfl (Pattern.matches_all_singleton.2 ?_)
    exact Pattern.matches_many_one (hdigits rest)
  next =>
    refine hwithout.exists_matches (.cons hc ?_)
    exact ⟨_, [], (List.append_nil _).symm, Pattern.matches_many_one (hdigits cs),
      Pattern.matches_all_singleton.2 .none⟩

theorem exists_rest_of_pathRest (skip : Nat) (cs : List Char) :
    ∃ rest, Piece.pathRest skip cs ++ rest = cs := by
  induction cs generalizing skip with
  | nil => exact ⟨[], by cases skip <;> rfl⟩
  | cons c cs ih =>
      cases skip with
      | succ skip =>
          obtain ⟨rest, hrest⟩ := ih skip
          exact ⟨rest, by rw [Piece.pathRest, List.cons_append, hrest]⟩
      | zero =>
          simp only [Piece.pathRest]
          split
          · obtain ⟨rest, hrest⟩ := ih (cs.takeWhile Text.isWordChar).length
            exact ⟨rest, by rw [List.cons_append, hrest]⟩
          · exact ⟨c :: cs, rfl⟩

/-- The part of a path behind its first word is made of segments. -/
theorem matches_pathRest (skip : Nat) (cs : List Char) :
    (many segment).Matches before (Piece.pathRest 0 (cs.drop skip)) after := by
  induction cs generalizing skip before with
  | nil =>
      rw [List.drop_nil]
      exact .none
  | cons c cs ih =>
      cases skip with
      | succ skip => exact ih skip
      | zero =>
          simp only [List.drop_zero, Piece.pathRest]
          split
          next h =>
            obtain ⟨rfl, hne⟩ := h
            generalize hword : cs.takeWhile Text.isWordChar = word at hne
            have htake : cs.take word.length = word := by
              rw [← hword]
              exact (List.prefix_iff_eq_take.1 (List.takeWhile_prefix _)).symm
            have hall : ∀ d ∈ word, CharClass.word.holds d = true := by
              rw [← hword]
              exact fun d hd => List.all_eq_true.1 List.all_takeWhile d hd
            obtain ⟨d, ds, rfl⟩ := List.exists_cons_of_ne_nil hne
            rw [pathRest_eq, htake, ← List.cons_append]
            refine Pattern.Repeats.more ?_ (ih _)
            refine .cons rfl ?_
            exact Pattern.matches_atLeastOne_one (hall d List.mem_cons_self)
              fun e he => hall e (List.mem_cons_of_mem _ he)
          · exact .none

theorem exists_rest_of_path (cs : List Char) : ∃ rest, Piece.path cs ++ rest = cs := by
  obtain ⟨rest, hrest⟩ := exists_rest_of_pathRest 0 (cs.dropWhile Text.isWordChar)
  refine ⟨rest, ?_⟩
  rw [Piece.path, List.append_assoc, hrest, List.takeWhile_append_dropWhile]

theorem exists_matches_path (hc : Text.isWordChar c = true) :
    ∃ p, (some .name, p) ∈ lexemePatterns ∧ p.Matches before (Piece.path (c :: cs)) after := by
  have hword : (c :: cs).takeWhile Text.isWordChar = c :: cs.takeWhile Text.isWordChar := by
    rw [List.takeWhile_cons, if_pos hc]
  have hall : ∀ d ∈ cs.takeWhile Text.isWordChar, CharClass.word.holds d = true :=
    fun d hd => List.all_eq_true.1 List.all_takeWhile d hd
  obtain ⟨-, -, -, -, -, hname, -⟩ := lexemes_haveRows
  unfold Piece.path
  simp only
  rw [hword]
  refine hname.exists_matches (.cons hc ?_)
  refine .seq (Pattern.matches_many_one hall) (Pattern.matches_all_singleton.2 ?_)
  exact matches_pathRest 0 _

end Lexemes

/-! ## Matches are not empty -/

/-- Whether a row of parts begins with a single character. -/
def beginsWithOne : List Pattern → Bool
  | one _ :: _ => true
  | _ => false

theorem rows_beginWithOne : ∀ e ∈ lexemePatterns, ∀ row ∈ e.2.rows, beginsWithOne row = true := by
  decide +kernel

/-- No pattern of a lexeme matches the empty text. -/
theorem ne_nil_of_matches {e : Option TokenKind × Pattern} {before text after : List Char}
    (he : e ∈ lexemePatterns) (h : e.2.Matches before text after) : text ≠ [] := by
  obtain ⟨row, hrow, h⟩ := Pattern.matches_iff_rows.1 h
  have hone := rows_beginWithOne e he row hrow
  unfold beginsWithOne at hone
  split at hone
  · obtain ⟨_, more, rfl, ⟨c, rfl, _⟩, _⟩ := h
    exact List.cons_ne_nil c more
  · cases hone

theorem Piece.IsMatched.text_ne_nil {piece : Piece} {before after : List Char}
    (h : piece.IsMatched before after) : piece.text ≠ [] := by
  cases piece with
  | blank text =>
      obtain ⟨p, hp, h⟩ := h
      exact ne_nil_of_matches hp h
  | lexeme kind text =>
      obtain ⟨p, hp, h⟩ := h
      exact ne_nil_of_matches hp h
  | stray c => exact List.cons_ne_nil c []

/-! ## Stray characters -/

/-- What the rows of parts begin with that are neither symbols nor texts in quotes. -/
def leads : List CharClass :=
  [.blank, .digit, .word] ++ initials.map .letter ++ Piece.punctuation.map fun p => .exactly p.1

theorem rows_checked : ∀ e ∈ lexemePatterns, ∀ row ∈ e.2.rows,
    (∃ s ∈ Piece.symbols, row = s.map fun c => one (.exactly c)) ∨
    (row = quotedParts '"' ∨ row = quotedParts '\'') ∨
    ∃ k ∈ leads, row.head? = some (one k) := by
  decide +kernel

theorem initials_subset : initials ⊆ letters := by decide +kernel

namespace IsStray

variable {c : Char} {before text rest cs : List Char}

theorem of_holds (h : IsStray c cs) {k : CharClass} (hk : k ∈ leads) : k.holds c = false := by
  rw [Bool.eq_false_iff]
  intro hholds
  rcases List.mem_append.1 hk with hk | hk
  · rcases List.mem_append.1 hk with hk | hk
    · rcases (by simpa using hk : k = .blank ∨ k = .digit ∨ k = .word) with rfl | rfl | rfl
      · exact absurd hholds (by simp [CharClass.holds, h.blank])
      · exact absurd hholds (by simp [CharClass.holds, h.digit])
      · exact absurd hholds (by simp [CharClass.holds, h.word])
    · -- What spells a letter is a word character.
      obtain ⟨a, ha, rfl⟩ := List.mem_map.1 hk
      have hword := isWordChar_of_spells (initials_subset ha) hholds
      rw [h.word] at hword
      cases hword
  · obtain ⟨p, hp, rfl⟩ := List.mem_map.1 hk
    obtain rfl : c = p.1 := by simpa [CharClass.holds] using hholds
    have hlookup : ∀ p ∈ Piece.punctuation, Piece.punctuation.lookup p.1 ≠ none := by decide
    exact absurd h.punctuation (hlookup p hp)

/-- No pattern matches anything from a stray character on. -/
theorem eq_nil_of_matches (h : IsStray c cs) {e : Option TokenKind × Pattern}
    (he : e ∈ lexemePatterns) (htext : text ++ rest = c :: cs)
    (hmatches : e.2.Matches before text rest) : text = [] := by
  obtain ⟨row, hrow, hmatches⟩ := Pattern.matches_iff_rows.1 hmatches
  -- A symbol or a text in quotes that a row matches would have been cut off, and the first
  -- character of any other row is none that could be stray.
  rcases rows_checked e he row hrow with ⟨s, hs, rfl⟩ | hquotes | ⟨k, hk, hhead⟩
  · obtain rfl := Pattern.matches_exactly.1 hmatches
    have hnone := List.find?_eq_none.1 h.symbol text hs
    rw [List.isPrefixOf_iff_prefix] at hnone
    exact absurd ⟨rest, htext⟩ hnone
  · obtain ⟨quote, hquote, rfl⟩ : ∃ quote, (quote = '"' ∨ quote = '\'') ∧ row = quotedParts quote :=
      hquotes.elim (fun h => ⟨_, .inl rfl, h⟩) fun h => ⟨_, .inr rfl, h⟩
    obtain ⟨content, hnot, rfl⟩ := of_matches_quotedParts hmatches
    have hquoted := h.quoted
    rw [← htext] at hquoted
    have hrest := @quotedRest?_append quote content rest hnot
    rcases hquote with rfl | rfl
    · simp [Piece.quoted?, hrest] at hquoted
    · simp [Piece.quoted?, hrest] at hquoted
  · obtain ⟨row, rfl⟩ : ∃ more, row = one k :: more := by
      cases row with
      | nil => cases hhead
      | cons p more =>
          cases hhead
          exact ⟨more, rfl⟩
    obtain ⟨_, more, rfl, ⟨d, rfl, hd⟩, _⟩ := hmatches
    obtain rfl : d = c := by simpa using (List.cons.inj htext).1
    rw [h.of_holds hk] at hd
    cases hd

end IsStray

/-! ## Pieces -/

/-- A phrase that is read is a beginning of the text, and matched there. -/
theorem exists_isMatched_of_firstOf {ps : List Phrase}
    (hps : ps ⊆ Phrase.comparisons ++ Phrase.connectives) {before cs text : List Char}
    (h : Phrase.firstOf ps cs = some text) :
    ∃ rest, text ++ rest = cs ∧ (Piece.lexeme .operator text).IsMatched before rest := by
  obtain ⟨p, hp, hsome⟩ := List.exists_of_findSome?_eq_some h
  obtain ⟨⟨_, rest⟩, hread, rfl⟩ := Option.map_eq_some_iff.1 hsome
  obtain ⟨hrow, hne⟩ := phrases_haveRows p (hps hp)
  refine ⟨rest, Phrase.read?_append hread, hrow.exists_matches ?_⟩
  exact Phrase.matches_parts (phrases_checked p (hps hp)).1 hne hread

/-- A string in quotes is a beginning of the text, and matched there. -/
theorem exists_isMatched_of_quoted? {before cs text : List Char}
    (h : Piece.quoted? cs = some text) :
    ∃ rest, text ++ rest = cs ∧ (Piece.lexeme .string text).IsMatched before rest := by
  obtain ⟨-, -, hquotes, -⟩ := lexemes_haveRows
  cases cs with
  | nil => cases h
  | cons c cs =>
      rw [Piece.quoted?] at h
      split at h
      next hc =>
        obtain ⟨more, hmore, rfl⟩ := Option.map_eq_some_iff.1 h
        obtain ⟨rest, hrest⟩ := exists_rest_of_quotedRest? hmore
        obtain ⟨content, rfl, hnot, -⟩ := quotedRest?_eq_some hmore
        refine ⟨rest, congrArg (c :: ·) hrest, (hquotes c (by simpa using hc)).exists_matches ?_⟩
        exact matches_quotedParts hnot
      · cases h

/-- A piece is a beginning of the text that it is cut off, and matched there. -/
theorem Piece.exists_isMatched (before : List Char) (c : Char) (cs : List Char) :
    ∃ rest, (first c cs).text ++ rest = c :: cs ∧ (first c cs).IsMatched before rest := by
  obtain ⟨hblanks, hsymbols, -, -, -, -, hpunctuation⟩ := lexemes_haveRows
  have hcut := isCut_first c cs
  generalize first c cs = piece at hcut
  cases hcut with
  | blank hblank =>
      have htake : Text.takeBlanks (c :: cs) = c :: Text.takeBlanks cs := by
        rw [Text.takeBlanks, List.takeWhile_cons, if_pos hblank, Text.takeBlanks]
      rw [← htake]
      refine ⟨Text.dropBlanks (c :: cs), Text.takeBlanks_append_dropBlanks _, ?_⟩
      exact hblanks.exists_matches (matches_blankParts (by simp [htake]))
  | comparison h => exact exists_isMatched_of_firstOf (List.subset_append_left _ _) h
  | connective h => exact exists_isMatched_of_firstOf (List.subset_append_right _ _) h
  | symbol h =>
      have hprefix := List.find?_some h
      obtain ⟨rest, hrest⟩ := List.isPrefixOf_iff_prefix.1 hprefix
      refine ⟨rest, hrest, (hsymbols _ (List.mem_of_find?_eq_some h)).exists_matches ?_⟩
      exact Pattern.matches_exactly.2 rfl
  | quoted h => exact exists_isMatched_of_quoted? h
  | number hdigit =>
      obtain ⟨rest, hrest⟩ := exists_rest_of_number (c :: cs)
      exact ⟨rest, hrest, exists_matches_number hdigit⟩
  | name h =>
      obtain ⟨rest, hrest⟩ := exists_rest_of_path (c :: cs)
      exact ⟨rest, hrest, exists_matches_path h.word⟩
  | punctuation hkind =>
      -- A single character matches itself, whatever stands behind it.
      refine ⟨cs, rfl, (hpunctuation _ (mem_of_lookup hkind)).exists_matches ?_⟩
      exact Pattern.matches_exactly.2 (Eq.refl [c])
  | stray h => exact ⟨cs, rfl, fun e he text rest => h.eq_nil_of_matches he⟩

theorem Piece.text_first_ne_nil (c : Char) (cs : List Char) : (first c cs).text ≠ [] := by
  obtain ⟨_, _, hmatched⟩ := exists_isMatched [] c cs
  exact hmatched.text_ne_nil

/-- A text is cut into its first piece and the pieces of what that leaves. -/
theorem exists_scan_cons (c : Char) (cs : List Char) : ∃ rest, (Piece.first c cs).text ++ rest = c :: cs ∧
    scan (c :: cs) = Piece.first c cs :: scan rest ∧ rest.length < (c :: cs).length := by
  obtain ⟨rest, htext, -⟩ := Piece.exists_isMatched [] c cs
  obtain ⟨d, more, hfirst⟩ := List.exists_cons_of_ne_nil (Piece.text_first_ne_nil c cs)
  refine ⟨rest, htext, ?_, ?_⟩
  · rw [hfirst, List.cons_append] at htext
    obtain ⟨rfl, rfl⟩ := List.cons.inj htext
    exact scan_of_first rfl hfirst
  · rw [← htext, hfirst, List.length_append, List.length_cons]
    omega

end Formula
