import Formula.Interpreter
import Formula.Proofs.Lexing.Coverage
import Formula.Proofs.Lexing.Longest

set_option autoImplicit false

/-! # Spacing

The texts of the tokens of a source, with single spaces between them, are cut into the same tokens
again. A lexeme stands alone: it is cut off by itself as it is in front of what follows it. And no
phrase goes on into a lexeme behind a space that did not go on into it before: two lexemes that a
phrase could join were apart already, since a word ends where no word character follows.

Main statement: `tokenize_spaced`. -/

namespace Formula

/-! ## Lexemes by themselves -/

/-- The characters that symbols and strings begin with. -/
def signs : List Char := ['=', '!', '>', '<', '&', '|', '"', '\'']

theorem signs_checked : (∀ s ∈ Piece.symbols, ∀ c ∈ s.head?, c ∈ signs) ∧
    ∀ c ∈ signs, Text.isDecimalDigit c = false ∧ BeginsNoPhrase c := by
  decide +kernel

theorem symbols_checked : ∀ s ∈ Piece.symbols, Piece.symbol? s = some s := by decide

theorem number_self {cs rest : List Char} (h : Piece.number (cs ++ rest) = cs) :
    Piece.number cs = cs := by
  have hall (ds : List Char) : ∀ d ∈ ds.takeWhile Text.isDecimalDigit, Text.isDecimalDigit d = true :=
    fun d hd => List.all_eq_true.1 List.all_takeWhile d hd
  unfold Piece.number at h
  generalize hwhole : (cs ++ rest).takeWhile Text.isDecimalDigit = whole at h
  have hdigits := hall (cs ++ rest)
  rw [hwhole] at hdigits
  split at h
  next more _ =>
    have hpoint : ∀ c ∈ ('.' :: more.takeWhile Text.isDecimalDigit).head?,
        Text.isDecimalDigit c = false := by simp; decide
    have htake := takeWhile_append_of_all hdigits hpoint
    have hsplit := List.takeWhile_append_dropWhile (p := Text.isDecimalDigit)
      (l := whole ++ '.' :: more.takeWhile Text.isDecimalDigit)
    rw [htake] at hsplit
    have hdrop := List.append_cancel_left hsplit
    rw [← h, Piece.number, htake, hdrop]
    simp only [List.takeWhile_eq_self_iff.2 (hall more)]
  next =>
    subst h
    have hnone : whole.dropWhile Text.isDecimalDigit = [] := List.dropWhile_eq_nil_iff.2 hdigits
    rw [Piece.number, hnone, List.takeWhile_eq_self_iff.2 hdigits]

theorem pathRest_stopsWord {skip : Nat} {cs rest : List Char}
    (h : Piece.pathRest skip cs ++ rest = cs) (hskip : StopsWord (cs.drop skip)) :
    StopsWord rest := by
  induction cs generalizing skip with
  | nil =>
      obtain ⟨-, rfl⟩ := List.append_eq_nil_iff.1 h
      simp [StopsWord]
  | cons c cs ih =>
      cases skip with
      | succ skip => exact ih (by simpa [Piece.pathRest] using h) hskip
      | zero =>
          simp only [Piece.pathRest] at h
          split at h
          next hpoint =>
            refine ih (by simpa using h) ?_
            have hsplit := List.takeWhile_append_dropWhile (p := Text.isWordChar) (l := cs)
            have hstop : StopsWord (cs.dropWhile Text.isWordChar) := (endsWord_takeWhile cs).rest
            generalize cs.takeWhile Text.isWordChar = word at hsplit
            rw [← hsplit, List.drop_left]
            exact hstop
          · rw [List.nil_append] at h
            rw [h]
            exact hskip

/-- A path is as long as word characters go on. -/
theorem path_stopsWord {word rest : List Char} (h : Piece.path (word ++ rest) = word) :
    StopsWord rest := by
  have hsplit := List.takeWhile_append_dropWhile (p := Text.isWordChar) (l := word ++ rest)
  have hbehind : Piece.pathRest 0 ((word ++ rest).dropWhile Text.isWordChar) ++ rest =
      (word ++ rest).dropWhile Text.isWordChar := by
    have hwhole : (word ++ rest).takeWhile Text.isWordChar ++
        (Piece.pathRest 0 ((word ++ rest).dropWhile Text.isWordChar) ++ rest) =
        (word ++ rest).takeWhile Text.isWordChar ++ (word ++ rest).dropWhile Text.isWordChar := by
      rw [hsplit, ← List.append_assoc]
      exact congrArg (· ++ rest) h
    exact List.append_cancel_left hwhole
  exact pathRest_stopsWord hbehind (endsWord_takeWhile _).rest

section Cut

variable {c : Char} {cs rest : List Char} {kind : TokenKind}

theorem isBlank_of_first {text : List Char} (h : Piece.first c cs = .lexeme kind text) :
    Text.isBlank c = false := by
  rw [Bool.eq_false_iff]
  intro hblank
  rw [Piece.first, if_pos hblank] at h
  cases h

/-- A phrase that is cut off is read up to where no word goes on. -/
theorem of_firstOf_self {ps : List Phrase} (hps : ps ⊆ Phrase.comparisons ++ Phrase.connectives)
    (h : Phrase.firstOf ps (c :: (cs ++ rest)) = some (c :: cs)) :
    ∃ p ∈ Phrase.comparisons ++ Phrase.connectives, Spells p.words (c :: cs) ∧ StopsWord rest := by
  obtain ⟨p, hp, left, hread⟩ := exists_read?_of_firstOf h
  obtain ⟨hspells, hsplit, hstop⟩ := (Phrase.read?_eq_some_iff (phrases_worded p (hps hp))).1 hread
  obtain rfl : left = rest := List.append_cancel_left hsplit
  exact ⟨p, hps hp, hspells, hstop⟩

/-- Behind a lexeme that begins with a letter no word goes on. -/
theorem stopsWord_of_first (h : Piece.first c (cs ++ rest) = .lexeme kind (c :: cs))
    (hletter : ∃ a ∈ letters, Phrase.spells a c = true) : StopsWord rest := by
  obtain ⟨a, ha, hspells⟩ := hletter
  have hword := isWordChar_of_spells ha hspells
  have hcut := Piece.isCut_first c (cs ++ rest)
  generalize hpiece : Piece.first c (cs ++ rest) = piece at hcut
  rw [h] at hpiece
  cases hcut with
  | blank => cases hpiece
  | stray => cases hpiece
  | comparison hfirst =>
      cases hpiece
      obtain ⟨-, -, -, hstop⟩ := of_firstOf_self (List.subset_append_left _ _) hfirst
      exact hstop
  | connective hfirst =>
      cases hpiece
      obtain ⟨-, -, -, hstop⟩ := of_firstOf_self (List.subset_append_right _ _) hfirst
      exact hstop
  | symbol hsymbol =>
      rw [symbol?_eq_none hword] at hsymbol
      cases hsymbol
  | quoted hquoted =>
      rw [quoted?_eq_none hword] at hquoted
      cases hquoted
  | number hdigit =>
      rw [not_isDecimalDigit_of_spells ha hspells] at hdigit
      cases hdigit
  | name hname =>
      injection hpiece with _ htext
      have hpath : Piece.path (c :: cs ++ rest) = c :: cs := htext.symm
      exact path_stopsWord hpath
  | punctuation hkind =>
      obtain ⟨⟨-, -, hnot, -⟩, -⟩ := punctuation_checked _ (mem_of_lookup hkind)
      rw [hword] at hnot
      cases hnot

/-- No words are read behind a text with nothing behind it. -/
theorem not_readsOn_nil {vs : List (List Char)} (hvs : vs ≠ []) : ¬ ReadsOn vs [] := by
  rw [readsOn_iff hvs]
  exact fun h => h.1 rfl

theorem stopsWord_nil : StopsWord [] := by simp [StopsWord]

theorem beginsNoPhrase_of_isDecimalDigit (hblank : Text.isBlank c = false)
    (hdigit : Text.isDecimalDigit c = true) : BeginsNoPhrase c := by
  refine ⟨hblank, fun a ha => Bool.eq_false_iff.2 fun hspells => ?_⟩
  rw [not_isDecimalDigit_of_spells (initials_subset ha) hspells] at hdigit
  cases hdigit

theorem not_mem_signs_of_isDecimalDigit (hdigit : Text.isDecimalDigit c = true) : c ∉ signs := by
  intro hc
  rw [(signs_checked.2 c hc).1] at hdigit
  cases hdigit

theorem symbol?_eq_none_of_not_mem_signs (h : c ∉ signs) : Piece.symbol? (c :: cs) = none :=
  symbol?_eq_none_of_head (fun s hs hhead => h (signs_checked.1 s hs c hhead)) cs

theorem quoted?_eq_none_of_not_mem_signs (h : c ∉ signs) : Piece.quoted? (c :: cs) = none := by
  have hne : ¬ (c = '"' ∨ c = '\'') := by
    rintro (rfl | rfl)
    · exact h (by decide)
    · exact h (by decide)
  rw [Piece.quoted?, if_neg hne]

/-- A string ends with its quote, whatever comes behind it. -/
theorem quoted?_self (h : Piece.quoted? (c :: (cs ++ rest)) = some (c :: cs)) :
    (c = '"' ∨ c = '\'') ∧ Piece.quoted? (c :: cs) = some (c :: cs) := by
  rw [Piece.quoted?] at h
  split at h
  next hquote =>
    obtain ⟨_, hrest, hcs⟩ := Option.map_eq_some_iff.1 h
    obtain ⟨-, rfl⟩ := List.cons.inj hcs
    obtain ⟨content, rfl, hnot, -⟩ := quotedRest?_eq_some hrest
    refine ⟨hquote, ?_⟩
    rw [Piece.quoted?, if_pos hquote, quotedRest?_append hnot]
    rfl
  · cases h

/-- A name that takes all of a text in front of something else does so by itself: a phrase that is
read now would have been read there, too. -/
theorem CutsName.self (h : CutsName c (cs ++ rest)) (hpath : Piece.path (c :: cs ++ rest) = c :: cs) :
    CutsName c cs := by
  refine cutsName_iff.2 ⟨h.word, h.digit, fun p hp => Option.not_isSome_iff_eq_none.1 fun hsome => ?_⟩
  have hreads := ((isSome_read?_iff (phrases_worded p hp)).1 hsome).append (path_stopsWord hpath)
  have hagain := (isSome_read?_iff (phrases_worded p hp)).2 hreads
  rw [List.cons_append, (cutsName_iff.1 h).2.2 p hp] at hagain
  cases hagain

/-- A lexeme that is cut off somewhere is cut off by itself. -/
theorem first_self (h : Piece.first c (cs ++ rest) = .lexeme kind (c :: cs)) :
    Piece.first c cs = .lexeme kind (c :: cs) := by
  have hblank := isBlank_of_first h
  have hphrase {p : Phrase} (hp : p ∈ Phrase.comparisons ++ Phrase.connectives)
      (hspells : Spells p.words (c :: cs)) : Piece.first c cs = .lexeme .operator (c :: cs) := by
    have hfirst := Piece.first_of_spells hp hspells stopsWord_nil
      fun _ _ _ _ hvs => not_readsOn_nil hvs
    rwa [List.append_nil] at hfirst
  have hcut := Piece.isCut_first c (cs ++ rest)
  generalize hpiece : Piece.first c (cs ++ rest) = piece at hcut
  rw [h] at hpiece
  cases hcut with
  | blank => cases hpiece
  | stray => cases hpiece
  | comparison hfirst =>
      cases hpiece
      obtain ⟨p, hp, hspells, -⟩ := of_firstOf_self (List.subset_append_left _ _) hfirst
      exact hphrase hp hspells
  | connective hfirst =>
      cases hpiece
      obtain ⟨p, hp, hspells, -⟩ := of_firstOf_self (List.subset_append_right _ _) hfirst
      exact hphrase hp hspells
  | symbol hsymbol =>
      cases hpiece
      have hmem := List.mem_of_find?_eq_some hsymbol
      have hsign := signs_checked.2 c (signs_checked.1 _ hmem c rfl)
      exact first_of_symbol? hsign.2 (symbols_checked _ hmem)
  | quoted hquoted =>
      cases hpiece
      obtain ⟨hquote, hagain⟩ := quoted?_self hquoted
      have hsymbol : ∀ s ∈ Piece.symbols, s.head? ≠ some c := by
        rcases hquote with rfl | rfl <;> decide
      have hbegins : BeginsNoPhrase c := by rcases hquote with rfl | rfl <;> decide
      exact first_of_quoted? hbegins (symbol?_eq_none_of_head hsymbol _) hagain
  | number hdigit =>
      injection hpiece with hkind htext
      subst hkind
      have hsign := not_mem_signs_of_isDecimalDigit hdigit
      rw [first_of_digit (beginsNoPhrase_of_isDecimalDigit hblank hdigit)
        (symbol?_eq_none_of_not_mem_signs hsign) (quoted?_eq_none_of_not_mem_signs hsign) hdigit,
        @number_self (c :: cs) rest htext.symm]
  | name hname =>
      injection hpiece with hkind htext
      subst hkind
      have hcuts := hname.self htext.symm
      have hpath := @path_append (c :: (cs ++ rest)) [] (by simp [StopsPath])
      rw [← htext, List.append_nil] at hpath
      rw [hcuts.first, hpath]
  | punctuation hkind =>
      injection hpiece with hkind' htext
      obtain ⟨-, rfl⟩ := List.cons.inj htext
      rw [hkind']
      exact first_of_mem_punctuation (mem_of_lookup hkind) []

end Cut

/-! ## Spaces between lexemes -/

/-- The texts of the lexemes among some pieces, with a space before each of them. -/
def spaced : List Piece → List Char
  | [] => []
  | .lexeme _ text :: pieces => ' ' :: (text ++ spaced pieces)
  | _ :: pieces => spaced pieces

theorem head_spaced (pieces : List Piece) : ∀ c ∈ (spaced pieces).head?, c = ' ' := by
  induction pieces with
  | nil => simp [spaced]
  | cons p pieces ih =>
      cases p with
      | lexeme kind text => simp [spaced]
      | blank text => exact ih
      | stray c => exact ih

theorem endsLexeme_spaced (pieces : List Piece) : EndsLexeme (spaced pieces) :=
  fun c hc => .inr (head_spaced pieces c hc)

/-- A reading that goes on into a text that begins with a blank goes on into another text in the same
way, if the same words are read there. -/
theorem CrossesInto.of_readsOn {ws : List (List Char)} {cs rest after : List Char}
    (h : CrossesInto ws cs rest) (hrest : ∀ c ∈ rest.head?, Text.isBlank c = true)
    (hreads : ∀ vs, ReadsOn vs rest → ReadsOn vs after) : CrossesInto ws cs after := by
  obtain ⟨us, vs, t, blanks, hwords, hvs, hcs, hblanks, hus, hread⟩ := h
  refine ⟨us, vs, t, blanks, hwords, hvs, hcs, hblanks, hus, ?_⟩
  have hdrop (ds : List Char) : Text.dropBlanks (blanks ++ ds) = Text.dropBlanks ds := by
    rw [Text.dropBlanks, List.dropWhile_append_of_pos hblanks, Text.dropBlanks]
  cases blanks with
  | nil => exact hreads vs hread
  | cons b blanks =>
      rw [readsOn_iff hvs, hdrop] at hread ⊢
      have hbehind : ReadsOn vs rest := by
        refine (readsOn_iff hvs).2 ⟨?_, hread.2⟩
        cases rest with
        | nil =>
            obtain ⟨c, ds, hnil, -⟩ := hread.2.exists_cons
            cases hnil
        | cons c rest => simp [Text.takeBlanks, hrest c rfl]
      have hb : Text.isBlank b = true := hblanks b List.mem_cons_self
      exact ⟨by simp [Text.takeBlanks, hb], ((readsOn_iff hvs).1 (hreads vs hbehind)).2⟩

/-- Words that are read behind blanks in one text are read behind blanks in another, if they are read
there without the blanks. -/
theorem ReadsOn.of_dropBlanks {vs : List (List Char)} {cs ds : List Char} (h : ReadsOn vs cs)
    (hstop : StopsWord ds)
    (hreads : ReadsAt vs (Text.dropBlanks cs) → ReadsAt vs (Text.dropBlanks ds)) : ReadsOn vs ds := by
  by_cases hvs : vs = []
  · rw [hvs]
    exact readsOn_nil.2 hstop
  have hread := hreads ((readsOn_iff hvs).1 h).2
  refine (readsOn_iff hvs).2 ⟨fun hnone => ?_, hread⟩
  -- With no blanks in front of it the word would go on with the first character.
  have hsplit := Text.takeBlanks_append_dropBlanks ds
  rw [hnone, List.nil_append] at hsplit
  rw [hsplit] at hread
  obtain ⟨c, more, rfl, a, ha, hspells⟩ := hread.exists_cons
  have hword := hstop c rfl
  rw [isWordChar_of_spells ha hspells] at hword
  cases hword

section Spaced

variable {vs : List (List Char)} {c : Char} {cs rest : List Char} {kind : TokenKind}

/-- What goes on behind a lexeme in the spaced text goes on there in the text itself, if what is read
further is read there, too. -/
theorem CrossesInto.of_spaced (hfirst : Piece.first c (cs ++ rest) = .lexeme kind (c :: cs))
    (hlater : ∀ us, ReadsAt us (Text.dropBlanks (spaced (scan rest))) →
      ReadsAt us (Text.dropBlanks rest))
    (h : CrossesInto vs (c :: cs) (spaced (scan rest))) : CrossesInto vs (c :: cs) rest := by
  obtain ⟨d, ds, hd, hletter⟩ := h.readsAt.exists_cons
  obtain ⟨rfl, -⟩ := List.cons.inj hd
  have hstop := stopsWord_of_first hfirst hletter
  refine h.of_readsOn (fun b hb => ?_) fun us hus => hus.of_dropBlanks hstop (hlater us)
  rw [head_spaced _ b hb]
  decide

/-- What is read in the spaced text from a lexeme on is read in the text itself, if what is read
further is. -/
theorem ReadsAt.of_spaced (hfirst : Piece.first c (cs ++ rest) = .lexeme kind (c :: cs))
    (hlater : ∀ us, ReadsAt us (Text.dropBlanks (spaced (scan rest))) →
      ReadsAt us (Text.dropBlanks rest))
    (h : ReadsAt vs (c :: cs ++ spaced (scan rest))) : ReadsAt vs (c :: cs ++ rest) := by
  obtain ⟨d, ds, hd, hletter⟩ := h.exists_cons
  obtain ⟨rfl, -⟩ := List.cons.inj hd
  rcases h.cases_append (endsLexeme_spaced _).stopsWord with halone | hcross
  · exact halone.append (stopsWord_of_first hfirst hletter)
  · exact (hcross.of_spaced hfirst hlater).readsAt

end Spaced

theorem spaced_solid (pieces : List Piece) : spaced (solid pieces) = spaced pieces := by
  induction pieces with
  | nil => rfl
  | cons p pieces ih =>
      cases p with
      | blank text => exact ih
      | lexeme kind text => exact congrArg (fun cs => ' ' :: (text ++ cs)) ih
      | stray c => exact ih

/-- A text without stray characters begins with a blank or with a lexeme. -/
theorem exists_lexeme_of_not_stray {c : Char} {cs : List Char} (hstray : ∀ d, .stray d ∉ scan (c :: cs))
    (hblank : Text.isBlank c = false) : ∃ kind more rest, cs = more ++ rest ∧
      Piece.first c (more ++ rest) = .lexeme kind (c :: more) ∧
      scan (c :: cs) = .lexeme kind (c :: more) :: scan rest := by
  obtain ⟨rest, htext, hscan, -⟩ := exists_scan_cons c cs
  cases hfirst : Piece.first c cs with
  | blank text =>
      have hcut := Piece.isCut_first c cs
      rw [hfirst] at hcut
      cases hcut with
      | blank h =>
          rw [hblank] at h
          cases h
  | lexeme kind text =>
      obtain ⟨d, more, rfl⟩ : ∃ d more, text = d :: more := by
        have hne := Piece.text_first_ne_nil c cs
        rw [hfirst] at hne
        exact List.exists_cons_of_ne_nil hne
      rw [hfirst, Piece.text, List.cons_append] at htext
      obtain ⟨rfl, rfl⟩ := List.cons.inj htext
      exact ⟨kind, more, rest, rfl, hfirst, by rw [hscan, hfirst]⟩
  | stray d => exact absurd (by rw [hscan, hfirst]; exact List.mem_cons_self) (hstray d)

/-- Words that are read in the spaced text are read in the text itself. -/
theorem readsAt_of_spaced_dropBlanks {cs : List Char} (hstray : ∀ d, .stray d ∉ scan cs)
    (vs : List (List Char)) (h : ReadsAt vs (Text.dropBlanks (spaced (scan cs)))) :
    ReadsAt vs (Text.dropBlanks cs) := by
  -- By induction on the length: the reading ends in the first lexeme, or goes on behind it.
  induction hn : cs.length using Nat.strongRecOn generalizing cs vs with
  | ind n ih =>
      subst hn
      cases cs with
      | nil => exact h
      | cons c cs =>
          by_cases hblank : Text.isBlank c = true
          · have hsolid := solid_scan_of_isBlank hblank cs
            have hdrop : Text.dropBlanks (c :: cs) = Text.dropBlanks cs := by
              simp [Text.dropBlanks, hblank]
            rw [← spaced_solid, hsolid, spaced_solid] at h
            rw [hdrop]
            refine ih cs.length (Nat.lt_succ_self _) (fun d hd => ?_) vs h rfl
            rw [← stray_mem_solid, ← hsolid, stray_mem_solid] at hd
            exact hstray d hd
          · rw [Bool.not_eq_true] at hblank
            have hsolid (ds : List Char) : Text.dropBlanks (c :: ds) = c :: ds := by
              simp [Text.dropBlanks, hblank]
            have hspace (ds : List Char) : Text.dropBlanks (' ' :: ds) = Text.dropBlanks ds := by
              simp [Text.dropBlanks, show Text.isBlank ' ' = true by decide]
            obtain ⟨kind, more, rest, rfl, hfirst, hscan⟩ := exists_lexeme_of_not_stray hstray hblank
            rw [hscan, spaced, hspace, List.cons_append, hsolid, ← List.cons_append] at h
            rw [hsolid, ← List.cons_append]
            refine h.of_spaced hfirst fun us hread => ih rest.length ?_ (fun d hd => ?_) us hread rfl
            · simp only [List.length_cons, List.length_append]
              omega
            · exact hstray d (by rw [hscan]; exact List.mem_cons_of_mem _ hd)

/-- No phrase that was cut off goes on into what followed. -/
theorem not_crosses_of_first {c : Char} {cs rest : List Char} {kind : TokenKind} {q : Phrase}
    (hfirst : Piece.first c (cs ++ rest) = .lexeme kind (c :: cs))
    (hq : q ∈ Phrase.comparisons ++ Phrase.connectives) : ¬ CrossesInto q.words (c :: cs) rest := by
  rintro ⟨us, vs, t, blanks, hwords, hvs, hcs, hblanks, hus, u, left, hu, hleft, hstop⟩
  have hread : q.read? (c :: (cs ++ rest)) = some (t ++ u, left) := by
    refine (Phrase.read?_eq_some_iff (phrases_worded q hq)).2 ⟨?_, ?_, hstop⟩
    · rw [hwords]
      exact hus.append hu
    · rw [List.append_assoc, hleft, ← List.append_assoc, ← hcs, List.cons_append]
  obtain ⟨text, hcut, hreach⟩ := Piece.exists_operator_of_read? hq hread
  rw [hfirst] at hcut
  injection hcut with _ htext
  rw [← htext, hcs, List.prefix_append_right_inj] at hreach
  -- What is read further would lie in the blanks.
  obtain ⟨d, hd, hsolid⟩ := hu.exists_solid hvs
  rw [hblanks d (hreach.subset hd)] at hsolid
  cases hsolid

/-- The lexemes of a text are cut off again with single spaces between them. -/
theorem solid_scan_spaced {cs : List Char} (hstray : ∀ d, .stray d ∉ scan cs) :
    solid (scan (spaced (scan cs))) = solid (scan cs) := by
  induction hn : cs.length using Nat.strongRecOn generalizing cs with
  | ind n ih =>
      subst hn
      cases cs with
      | nil => rfl
      | cons c cs =>
          by_cases hblank : Text.isBlank c = true
          · have hsolid := solid_scan_of_isBlank hblank cs
            rw [← spaced_solid, hsolid, spaced_solid]
            refine ih cs.length (Nat.lt_succ_self _) (fun d hd => ?_) rfl
            rw [← stray_mem_solid, ← hsolid, stray_mem_solid] at hd
            exact hstray d hd
          · rw [Bool.not_eq_true] at hblank
            obtain ⟨kind, more, rest, rfl, hfirst, hscan⟩ := exists_lexeme_of_not_stray hstray hblank
            have hlater : ∀ d, .stray d ∉ scan rest := fun d hd =>
              hstray d (by rw [hscan]; exact List.mem_cons_of_mem _ hd)
            have hend := endsLexeme_spaced (scan rest)
            have hself := first_self hfirst
            have hphrases : ∀ ps ⊆ Phrase.comparisons ++ Phrase.connectives,
                Phrase.firstOf ps (c :: more ++ spaced (scan rest)) = Phrase.firstOf ps (c :: more) := by
              refine fun ps hps => firstOf_append_of_not_crosses hps hend.stopsWord fun q hq hcross => ?_
              exact not_crosses_of_first hfirst (hps hq)
                (hcross.of_spaced hfirst (readsAt_of_spaced_dropBlanks hlater))
            have hagain : Piece.first c (more ++ spaced (scan rest)) = .lexeme kind (c :: more) := by
              rw [first_append hend hphrases hblank fun d => by simp [hself], hself]
            rw [hscan, spaced, solid_scan_of_isBlank (by decide), List.cons_append,
              scan_of_first hagain rfl, ← List.singleton_append, solid_append, ih rest.length ?_ hlater rfl,
              ← solid_append]
            · rfl
            · simp only [List.length_cons, List.length_append]
              omega

/-! ## Tokens -/

theorem spaced_eq_flatMap (index : Nat) (pieces : List Piece) :
    spaced pieces = (tokensFrom index pieces).flatMap fun t => ' ' :: t.text.toList := by
  induction pieces generalizing index with
  | nil => rfl
  | cons p pieces ih =>
      cases p with
      | blank text => exact ih index
      | lexeme kind text => simp [spaced, tokensFrom, ih (index + 1)]
      | stray c => exact ih index

/-- The texts of tokens with single spaces between them. -/
def joined (ts : List Token) : String := " ".intercalate (ts.map Token.text)

theorem toList_joined (t : Token) (ts : List Token) :
    ' ' :: (joined (t :: ts)).toList = (t :: ts).flatMap fun u => ' ' :: u.text.toList := by
  induction ts generalizing t with
  | nil => simp [joined]
  | cons u ts ih =>
      have hjoin : (joined (t :: u :: ts)).toList = t.text.toList ++ ' ' :: (joined (u :: ts)).toList := by
        simp [joined]
      rw [hjoin, ih, List.flatMap_cons]
      rfl

theorem mem_of_mem_spaced {c : Char} {pieces : List Piece} (h : c ∈ spaced pieces) :
    c = ' ' ∨ c ∈ pieces.flatMap Piece.text := by
  induction pieces with
  | nil => cases h
  | cons p pieces ih =>
      rw [List.flatMap_cons, List.mem_append]
      cases p with
      | blank text => exact (ih h).imp_right .inr
      | lexeme kind text =>
          rw [spaced, List.mem_cons, List.mem_append] at h
          rcases h with rfl | h | h
          · exact .inl rfl
          · exact .inr (.inl h)
          · exact (ih h).imp_right .inr
      | stray d => exact (ih h).imp_right .inr

/-- The joined texts of the tokens of a text are cut into the same lexemes. -/
theorem solid_scan_joined {cs : List Char} (hstray : ∀ d, .stray d ∉ scan cs) :
    solid (scan (joined (tokensFrom 0 (scan cs))).toList) = solid (scan cs) := by
  have hspaced := spaced_eq_flatMap 0 (scan cs)
  rw [← solid_scan_spaced hstray, hspaced]
  cases tokensFrom 0 (scan cs) with
  | nil => rfl
  | cons t ts => rw [← toList_joined, solid_scan_of_isBlank (by decide)]

theorem mem_of_mem_joined {cs : List Char} {c : Char}
    (h : c ∈ (joined (tokensFrom 0 (scan cs))).toList) : c = ' ' ∨ c ∈ cs := by
  have hspaced := spaced_eq_flatMap 0 (scan cs)
  rw [← (scan_isMatched cs []).1]
  refine mem_of_mem_spaced ?_
  rw [hspaced]
  cases hts : tokensFrom 0 (scan cs) with
  | nil =>
      rw [hts] at h
      cases h
  | cons t ts =>
      rw [hts] at h
      rw [← toList_joined]
      exact List.mem_cons_of_mem _ h

theorem tokenize_joined {source : String} {ts : List Token} (h : tokenize true source = .ok ts) :
    tokenize true (joined ts) = .ok ts := by
  obtain ⟨hts, hstray⟩ := stray_not_mem_of_tokenize h
  have hplain : sanitize (joined ts) = joined ts := by
    refine sanitize_of_plain fun c hc => ?_
    rw [hts] at hc
    rcases mem_of_mem_joined hc with rfl | hc
    · decide
    · rw [sanitize, String.toList_ofList] at hc
      obtain ⟨d, -, rfl⟩ := List.mem_map.1 hc
      exact plainQuote_plainQuote d
  have hsolid : solid (scan (joined ts).toList) = solid (scan (sanitize source).toList) := by
    rw [hts]
    exact solid_scan_joined hstray
  rw [tokenize_eq_ok, hplain, ← tokensFrom_solid, hsolid, tokensFrom_solid, ← hts]
  intro c hc
  rw [hplain, ← stray_mem_solid, hsolid, stray_mem_solid] at hc
  exact hstray c hc

theorem readText_eq_ok_iff {source : String} {ts : List Token} (h : tokenize true source = .ok ts)
    (tree : Node) :
    readText true source = .ok tree ↔ parseTokens ts = .ok tree ∧ isTooDeep ts = false := by
  rw [readText, h]
  simp only [readTokens]
  cases parseTokens ts with
  | ok node => cases isTooDeep ts <;> simp
  | error e =>
      cases e with
      | malformed e =>
          simp only
          split <;> simp
      | _ => simp

/-- Spacing does not change the tokens: the texts of the tokens of a source, joined with single spaces,
are read as the same tokens, so that two sources whose tokens have the same texts have the same tokens
and the same tree. -/
theorem tokenize_spaced {source : String} {ts : List Token} (h : tokenize true source = .ok ts) :
    tokenize true (" ".intercalate (ts.map Token.text)) = .ok ts ∧
      ∀ other us, tokenize true other = .ok us → us.map Token.text = ts.map Token.text →
        us = ts ∧ parseTokens us = parseTokens ts ∧
          ∀ tree, readText true other = .ok tree ↔ readText true source = .ok tree := by
  refine ⟨tokenize_joined h, fun other us hother htexts => ?_⟩
  have hsame : us = ts := by
    have hus := tokenize_joined hother
    rw [joined, htexts, ← joined, tokenize_joined h] at hus
    cases hus
    rfl
  subst hsame
  exact ⟨rfl, rfl, fun tree => by rw [readText_eq_ok_iff h, readText_eq_ok_iff hother]⟩

/-- The tokens of `(a>=1.5)AND'b c'is  less than[x.in]`. -/
def touchingTokens : List Token :=
  [⟨.leftParen, "(", 0, "("⟩, ⟨.name, "a", 1, "a"⟩, ⟨.operator, ">=", 2, ">="⟩,
    ⟨.number, "1.5", 3, "1.5"⟩, ⟨.rightParen, ")", 4, ")"⟩, ⟨.operator, "and", 5, "AND"⟩,
    ⟨.string, "b c", 6, "'b c'"⟩, ⟨.operator, "<", 7, "is  less than"⟩, ⟨.leftBracket, "[", 8, "["⟩,
    ⟨.name, "x.in", 9, "x.in"⟩, ⟨.rightBracket, "]", 10, "]"⟩]

theorem tokenize_spaced_touching :
    tokenize true "(a>=1.5)AND'b c'is  less than[x.in]" = .ok touchingTokens ∧
      tokenize true "( a >= 1.5 ) AND 'b c' is  less than [ x.in ]" = .ok touchingTokens := by
  have h : tokenize true "(a>=1.5)AND'b c'is  less than[x.in]" = .ok touchingTokens := by rfl
  have hjoin : " ".intercalate (touchingTokens.map Token.text) =
      "( a >= 1.5 ) AND 'b c' is  less than [ x.in ]" := by decide
  have hspaced := (tokenize_spaced h).1
  rw [hjoin] at hspaced
  exact ⟨h, hspaced⟩

end Formula
