import Mathlib.Data.List.Forall2
import Formula.Proofs.Lexing

set_option autoImplicit false

/-! # Names in another place

A name that was cut off somewhere is cut off again in front of anything that the source form of a
tree has behind an operand, with one exception: the name `not` before the operator `in`.

A name begins with a word, which is as long as word characters go. A phrase whose spelling begins
with a part of that word only is not read, since a phrase ends where no word character follows; one
that goes on behind the word needs a blank there and then its second word.

Main statement: `Lexes.name`. -/

namespace Formula

/-! ## Characters -/

/-- The code points of some closed ranges. -/
def codesIn (ranges : List (Nat × Nat)) : List Nat :=
  ranges.flatMap fun (low, high) => List.range' low (high + 1 - low)

theorem mem_codesIn {ranges : List (Nat × Nat)} {n : Nat} (h : Text.inRanges ranges n = true) :
    n ∈ codesIn ranges := by
  induction ranges with
  | nil => cases h
  | cons r ranges ih =>
      obtain ⟨low, high⟩ := r
      rw [codesIn, List.flatMap_cons, List.mem_append]
      rw [Text.inRanges] at h
      split at h
      · cases h
      · split at h
        · exact .inl (List.mem_range'_1.2 (by omega))
        · exact .inr (ih h)

theorem not_isWordChar_of_isBlank {c : Char} (h : Text.isBlank c = true) :
    Text.isWordChar c = false := by
  have hall : ∀ n ∈ codesIn Text.blankRanges,
      Text.inRanges Text.alphanumericRanges n = false ∧ n ≠ '_'.toNat := by decide +kernel
  obtain ⟨hrange, hunderscore⟩ := hall _ (mem_codesIn h)
  have hne : c ≠ '_' := fun hc => hunderscore (by rw [hc])
  simp [Text.isWordChar, hrange, hne]

theorem not_isBlank_of_isWordChar {c : Char} (h : Text.isWordChar c = true) :
    Text.isBlank c = false := by
  rw [Bool.eq_false_iff]
  intro hblank
  rw [not_isWordChar_of_isBlank hblank] at h
  cases h

/-- The letters that operators are spelled with. -/
def letters : List Char := "abcdefghijklmnopqrstuvwxyz".toList

theorem isWordChar_of_capital {c : Char} (h : 'A'.val ≤ c.val ∧ c.val ≤ 'Z'.val) :
    Text.isWordChar c = true := by
  obtain ⟨rest, hranges⟩ : ∃ rest, Text.alphanumericRanges = (48, 57) :: (65, 90) :: rest :=
    ⟨_, rfl⟩
  have hlow : 65 ≤ c.toNat := h.1
  have hhigh : c.toNat ≤ 90 := h.2
  rw [Text.isWordChar, hranges, Text.inRanges, if_neg (by omega), if_neg (by omega),
    Text.inRanges_cons_of_mem rest hlow hhigh, Bool.or_true]

/-- Whatever spells a letter is a word character. -/
theorem isWordChar_of_spells {a c : Char} (ha : a ∈ letters) (h : Phrase.spells a c = true) :
    Text.isWordChar c = true := by
  have hspecial : ∀ d ∈ ['\u0130', '\u0131', '\u017f'], Text.isWordChar d = true := by
    decide +kernel
  have hletters : ∀ b ∈ letters, Text.isWordChar b = true := by decide +kernel
  simp only [Phrase.spells, Bool.or_eq_true, Bool.and_eq_true, beq_iff_eq] at h
  rcases h with (h | ⟨_, h | h⟩) | ⟨_, h⟩
  · by_cases hcapital : 'A'.val ≤ c.val ∧ c.val ≤ 'Z'.val
    · exact isWordChar_of_capital hcapital
    · have hlower : c.toLower = c := dif_neg hcapital
      rw [← hlower, h]
      exact hletters a ha
  · exact hspecial c (by simp [h])
  · exact hspecial c (by simp [h])
  · exact hspecial c (by simp [h])

/-! ## Words -/

/-- A row of word characters, and what no word character begins. -/
structure EndsWord (word rest : List Char) : Prop where
  word : ∀ c ∈ word, Text.isWordChar c = true
  rest : ∀ c ∈ rest.head?, Text.isWordChar c = false

theorem endsWord_takeWhile (cs : List Char) :
    EndsWord (cs.takeWhile Text.isWordChar) (cs.dropWhile Text.isWordChar) where
  word c hc := List.all_eq_true.1 List.all_takeWhile c hc
  rest c hc := by
    cases hdrop : cs.dropWhile Text.isWordChar with
    | nil => simp [hdrop] at hc
    | cons d ds =>
        have hne : cs.dropWhile Text.isWordChar ≠ [] := by simp [hdrop]
        have hnot := List.head_dropWhile_not Text.isWordChar hne
        simp only [hdrop, List.head_cons] at hnot
        obtain rfl : d = c := by simpa [hdrop] using hc
        simpa using hnot

/-- A word of an operator is read exactly where a text begins with characters that spell its
letters. -/
theorem readWord?_eq_some_iff {w cs text rest : List Char} :
    Phrase.readWord? w cs = some (text, rest) ↔
      List.Forall₂ (fun a c => Phrase.spells a c = true) w text ∧ text ++ rest = cs := by
  induction w generalizing cs text with
  | nil =>
      rw [Phrase.readWord?, List.forall₂_nil_left_iff]
      constructor
      · rintro ⟨⟩
        exact ⟨rfl, rfl⟩
      · rintro ⟨rfl, rfl⟩
        rfl
  | cons a w ih =>
      constructor
      · intro h
        have hcs := Phrase.readWord?_append h
        cases cs with
        | nil => cases h
        | cons c cs =>
            rw [Phrase.readWord?] at h
            split at h
            next hc =>
              obtain ⟨⟨more, left⟩, hmore, hpair⟩ := Option.map_eq_some_iff.1 h
              cases hpair
              exact ⟨.cons hc (ih.1 hmore).1, hcs⟩
            · cases h
      · rintro ⟨hspelled, rfl⟩
        cases hspelled with
        | cons hc hmore =>
            rw [List.cons_append, Phrase.readWord?, if_pos hc, ih.2 ⟨hmore, rfl⟩]
            rfl

/-- Whatever spells letters is a row of word characters. -/
theorem isWordChar_of_spelled {w word : List Char} (hw : ∀ a ∈ w, a ∈ letters)
    (h : List.Forall₂ (fun a c => Phrase.spells a c = true) w word) :
    ∀ c ∈ word, Text.isWordChar c = true := by
  induction h with
  | nil => simp
  | cons hc _ ih =>
      intro d hd
      rcases List.mem_cons.1 hd with rfl | hd
      · exact isWordChar_of_spells (hw _ List.mem_cons_self) hc
      · exact ih (fun b hb => hw b (List.mem_cons_of_mem _ hb)) d hd

/-- A word of an operator is read in a text as it is without what follows, if no word goes on
there. -/
theorem readWord?_append_of_head {w cs rest : List Char} (hw : ∀ a ∈ w, a ∈ letters)
    (h : ∀ c ∈ rest.head?, Text.isWordChar c = false) :
    Phrase.readWord? w (cs ++ rest) =
      (Phrase.readWord? w cs).map fun (text, left) => (text, left ++ rest) := by
  induction w generalizing cs with
  | nil => rfl
  | cons a w ih =>
      have ha : a ∈ letters := hw a (by simp)
      cases cs with
      | nil =>
          cases rest with
          | nil => rfl
          | cons c rest =>
              have hc : Text.isWordChar c = false := h c (by simp)
              have hspells : Phrase.spells a c = false := by
                rw [Bool.eq_false_iff]
                intro hspells
                rw [isWordChar_of_spells ha hspells] at hc
                cases hc
              simp [Phrase.readWord?, hspells]
      | cons c cs =>
          simp only [List.cons_append, Phrase.readWord?]
          split
          · rw [ih fun b hb => hw b (List.mem_cons_of_mem _ hb)]
            simp [Option.map_map, Function.comp_def]
          · rfl

/-- A word of an operator is spelled by the whole of a word. -/
def SpelledBy (w word : List Char) : Prop := ∃ text, Phrase.readWord? w word = some (text, [])

theorem spelledBy_iff {w word : List Char} :
    SpelledBy w word ↔ List.Forall₂ (fun a c => Phrase.spells a c = true) w word := by
  simp [SpelledBy, readWord?_eq_some_iff]

/-- What is left of a word after a word of an operator is nothing, or begins with a word character. -/
theorem readWord?_left {w word rest text left : List Char} (h : EndsWord word rest)
    (hread : Phrase.readWord? w word = some (text, left)) :
    left = [] ∨ ∃ c more, left = c :: more ∧ Text.isWordChar c = true := by
  cases left with
  | nil => exact .inl rfl
  | cons c more =>
      have hmem : c ∈ word := by
        rw [← Phrase.readWord?_append hread]
        simp
      exact .inr ⟨c, more, rfl, h.word c hmem⟩

/-! ## Phrases -/

/-- Whether the words of a phrase are made of letters. -/
def Phrase.IsLettered (p : Phrase) : Prop := ∀ w ∈ p.words, ∀ a ∈ w, a ∈ letters

/-- A phrase of one word is read exactly where it is spelled by a whole word. -/
theorem read?_single {p : Phrase} {w word rest : List Char} (hp : p.words = [w])
    (hletters : p.IsLettered) (h : EndsWord word rest) :
    (p.read? (word ++ rest)).isSome ↔ SpelledBy w word := by
  have hw : ∀ a ∈ w, a ∈ letters := hletters w (by simp [hp])
  unfold Phrase.read? SpelledBy
  simp only [hp, Phrase.readWords?, readWord?_append_of_head hw h.rest]
  cases hread : Phrase.readWord? w word with
  | none => simp
  | some p =>
      obtain ⟨text, left⟩ := p
      rcases readWord?_left h hread with rfl | ⟨c, more, rfl, hc⟩
      · have hend : Phrase.endsHere rest = true := by
          cases rest with
          | nil => rfl
          | cons d rest => simp [Phrase.endsHere, h.rest d (by simp)]
        simp [hend]
      · simp [Phrase.endsHere, hc]

/-- A phrase of several words is read only where its first word is spelled by a whole word, a blank
follows, and then its second word. -/
theorem read?_several {p : Phrase} {w v word rest : List Char} {ws : List (List Char)}
    (hp : p.words = w :: v :: ws) (hletters : p.IsLettered) (h : EndsWord word rest)
    (hread : (p.read? (word ++ rest)).isSome) :
    SpelledBy w word ∧ Text.takeBlanks rest ≠ [] ∧
      (Phrase.readWord? v (Text.dropBlanks rest)).isSome := by
  have hw : ∀ a ∈ w, a ∈ letters := hletters w (by simp [hp])
  unfold Phrase.read? at hread
  simp only [hp, readWord?_append_of_head hw h.rest] at hread
  cases hword : Phrase.readWord? w word with
  | none => simp [hword] at hread
  | some p =>
      obtain ⟨text, left⟩ := p
      simp only [hword, Option.map_some, Option.bind_eq_bind, Option.bind_some] at hread
      rcases readWord?_left h hword with rfl | ⟨c, more, rfl, hc⟩
      · refine ⟨⟨text, hword⟩, ?_, ?_⟩
        · intro hblanks
          simp [Phrase.readWords?, hblanks] at hread
        · cases hv : Phrase.readWord? v (Text.dropBlanks rest) with
          | none => simp [Phrase.readWords?, hv] at hread
          | some r => rfl
      · have hblank : Text.isBlank c = false := not_isBlank_of_isWordChar hc
        simp [Phrase.readWords?, Text.takeBlanks, hblank] at hread

/-! ## Paths -/

/-- Neither a word nor a path goes on with what follows. -/
def StopsPath (rest : List Char) : Prop :=
  ∀ c ∈ rest.head?, Text.isWordChar c = false ∧ c ≠ '.'

theorem pathRest_of_stops {rest : List Char} (h : StopsPath rest) : Piece.pathRest 0 rest = [] := by
  cases rest with
  | nil => rfl
  | cons c rest =>
      have hc : c ≠ '.' := (h c (by simp)).2
      simp [Piece.pathRest, hc]

theorem pathRest_eq (skip : Nat) (cs : List Char) :
    Piece.pathRest skip cs = cs.take skip ++ Piece.pathRest 0 (cs.drop skip) := by
  induction cs generalizing skip with
  | nil => cases skip <;> rfl
  | cons c cs ih =>
      cases skip with
      | zero => rfl
      | succ skip => simp [Piece.pathRest, ih skip]

/-- What is left of a path behind a word is empty or begins with a point. -/
theorem head_pathRest (cs : List Char) : ∀ c ∈ (Piece.pathRest 0 cs).head?, c = '.' := by
  cases cs with
  | nil => simp [Piece.pathRest]
  | cons c cs =>
      simp only [Piece.pathRest]
      split
      next h => simp [h.1]
      · simp

/-- The part of a path behind its first word ends in the same place before anything else. -/
theorem pathRest_append {rest : List Char} (hrest : StopsPath rest) :
    ∀ (skip : Nat) (cs : List Char), skip ≤ cs.length →
      Piece.pathRest skip (Piece.pathRest skip cs ++ rest) = Piece.pathRest skip cs := by
  intro skip cs
  induction cs generalizing skip with
  | nil =>
      intro hskip
      obtain rfl : skip = 0 := by simpa using hskip
      exact pathRest_of_stops hrest
  | cons c cs ih =>
      intro hskip
      cases skip with
      | succ skip =>
          have := ih skip (by simpa using hskip)
          simp only [Piece.pathRest, List.cons_append, this]
      | zero =>
          simp only [Piece.pathRest]
          split
          next h =>
            obtain ⟨rfl, hword⟩ := h
            -- The word behind the point is found again: after it comes a point or the rest.
            generalize hw : cs.takeWhile Text.isWordChar = word at hword
            have hlength : word.length ≤ cs.length := by
              rw [← hw]
              exact (List.takeWhile_prefix _).length_le
            have htake : cs.take word.length = word := by
              rw [← hw]
              exact (List.prefix_iff_eq_take.1 (List.takeWhile_prefix _)).symm
            have hagain : (Piece.pathRest word.length cs ++ rest).takeWhile Text.isWordChar = word := by
              have hall : ∀ d ∈ word, Text.isWordChar d = true := by
                rw [← hw]
                exact fun d hd => List.all_eq_true.1 List.all_takeWhile d hd
              have hstop : ((Piece.pathRest 0 (cs.drop word.length) ++ rest).takeWhile
                  Text.isWordChar) = [] := by
                have hpoint := head_pathRest (cs.drop word.length)
                cases hmore : Piece.pathRest 0 (cs.drop word.length) with
                | nil =>
                    cases rest with
                    | nil => rfl
                    | cons d rest => simp [(hrest d (by simp)).1]
                | cons d more =>
                    obtain rfl : d = '.' := hpoint d (by simp [hmore])
                    have : Text.isWordChar '.' = false := by decide
                    simp [this]
              rw [pathRest_eq, htake, List.append_assoc, List.takeWhile_append_of_pos hall, hstop,
                List.append_nil]
            rw [List.cons_append, Piece.pathRest]
            simp only [hagain, hword, ne_eq, not_false_eq_true, and_self, ↓reduceIte]
            rw [ih word.length hlength]
          · simpa using pathRest_of_stops hrest

/-- A path ends in the same place before anything else. -/
theorem path_append {cs rest : List Char} (hrest : StopsPath rest) :
    Piece.path (Piece.path cs ++ rest) = Piece.path cs := by
  have hall : ∀ d ∈ cs.takeWhile Text.isWordChar, Text.isWordChar d = true :=
    (endsWord_takeWhile cs).word
  generalize hmore : Piece.pathRest 0 (cs.dropWhile Text.isWordChar) = more
  have hstop : ∀ c ∈ (more ++ rest).head?, Text.isWordChar c = false := by
    intro c hc
    cases more with
    | nil => exact (hrest c (by simpa using hc)).1
    | cons d more =>
        have hpoint := head_pathRest (cs.dropWhile Text.isWordChar) d (by simp [hmore])
        obtain rfl : d = c := by simpa using hc
        rw [hpoint]
        decide
  have htake : (more ++ rest).takeWhile Text.isWordChar = [] := by
    cases hcase : more ++ rest with
    | nil => rfl
    | cons c ds => simp [hstop c (by simp [hcase])]
  have hdrop : (more ++ rest).dropWhile Text.isWordChar = more ++ rest := by
    cases hcase : more ++ rest with
    | nil => rfl
    | cons c ds => simp [hstop c (by simp [hcase])]
  have hagain := pathRest_append hrest 0 (cs.dropWhile Text.isWordChar) (Nat.zero_le _)
  rw [hmore] at hagain
  unfold Piece.path
  simp only
  rw [hmore, List.append_assoc, List.takeWhile_append_of_pos hall,
    List.dropWhile_append_of_pos hall, htake, hdrop, hagain, List.append_nil]

theorem mem_pathRest {skip : Nat} {cs : List Char}
    (h : ∀ d ∈ cs.take skip, Text.isWordChar d = true) :
    ∀ d ∈ Piece.pathRest skip cs, Text.isWordChar d = true ∨ d = '.' := by
  induction cs generalizing skip with
  | nil => simp [Piece.pathRest]
  | cons c cs ih =>
      cases skip with
      | succ skip =>
          intro d hd
          rw [Piece.pathRest] at hd
          rcases List.mem_cons.1 hd with rfl | hd
          · exact .inl (h d (by simp))
          · exact ih (fun e he => h e (by simp [he])) d hd
      | zero =>
          intro d hd
          simp only [Piece.pathRest] at hd
          split at hd
          next hword =>
            rcases List.mem_cons.1 hd with rfl | hd
            · exact .inr hword.1
            · refine ih (fun e he => ?_) d hd
              rw [← List.prefix_iff_eq_take.1 (List.takeWhile_prefix _)] at he
              exact List.all_eq_true.1 List.all_takeWhile e he
          · cases hd

/-- No typographic quote is part of a path. -/
theorem plainQuote_of_mem_path {cs : List Char} {d : Char} (h : d ∈ Piece.path cs) :
    plainQuote d = d := by
  have hd : Text.isWordChar d = true ∨ d = '.' := by
    rcases List.mem_append.1 h with h | h
    · exact .inl ((endsWord_takeWhile cs).word d h)
    · exact mem_pathRest (by simp) d h
  have hquotes : ∀ q ∈ ['\u2018', '\u2019', '\u201c', '\u201d'],
      Text.isWordChar q = false ∧ q ≠ '.' := by decide +kernel
  have hne : ∀ q ∈ ['\u2018', '\u2019', '\u201c', '\u201d'], d ≠ q := by
    rintro q hq rfl
    rcases hd with hd | hd
    · rw [(hquotes d hq).1] at hd
      cases hd
    · exact (hquotes d hq).2 hd
  simp [plainQuote, hne _ (by simp : '\u2018' ∈ _), hne '\u2019' (by simp), hne '\u201c' (by simp),
    hne '\u201d' (by simp)]

/-! ## What stands behind an operand -/

/-- The two characters after the space behind an operand: those of an operator, or of `if`. -/
def followers : List (Char × Char) :=
  [('o', 'r'), ('a', 'n'), ('i', 'n'), ('n', 'o'), ('=', '='), ('!', '='), ('>', ' '), ('<', ' '),
    ('>', '='), ('<', '='), ('+', ' '), ('-', ' '), ('*', ' '), ('/', ' '), ('i', 'f')]

/-- The characters that stand directly behind a name: those of a call, a closing bracket, a comma, and
the sign of an exponent. -/
def closers : List Char := ['(', ')', ']', ',', '+', '-']

/-- What stands behind an operand: nothing, a bracket, a comma, a sign, or a space and an operator or
`if`, but not `in` where the operand reads `not`. -/
def Follows (isNot : Prop) (rest : List Char) : Prop :=
  (∀ c ∈ rest.head?, c ∈ closers) ∨
    ∃ x y more, rest = ' ' :: x :: y :: more ∧ (x, y) ∈ followers ∧ (isNot → (x, y) ≠ ('i', 'n'))

theorem Follows.mono {isNot isNot' : Prop} {rest : List Char} (h : Follows isNot rest)
    (himp : isNot' → isNot) : Follows isNot' rest := by
  rcases h with h | ⟨x, y, more, hrest, hmem, hnot⟩
  · exact .inl h
  · exact .inr ⟨x, y, more, hrest, hmem, fun h => hnot (himp h)⟩

theorem Follows.head {isNot : Prop} {rest : List Char} (h : Follows isNot rest) :
    ∀ c ∈ rest.head?, c ∈ ' ' :: closers := by
  rcases h with h | ⟨x, y, more, rfl, _, _⟩
  · exact fun c hc => List.mem_cons_of_mem _ (h c hc)
  · simp

/-- Where blanks stand behind an operand, the characters of an operator or of `if` come after them. -/
theorem Follows.of_takeBlanks {isNot : Prop} {rest : List Char} (h : Follows isNot rest)
    (hblanks : Text.takeBlanks rest ≠ []) :
    ∃ x y more, Text.dropBlanks rest = x :: y :: more ∧ (x, y) ∈ followers ∧
      (isNot → (x, y) ≠ ('i', 'n')) := by
  rcases h with h | ⟨x, y, more, rfl, hmem, hnot⟩
  · -- Nothing but a space is a blank here.
    have hclosed : ∀ c ∈ closers, Text.isBlank c = false := by decide
    cases rest with
    | nil => simp [Text.takeBlanks] at hblanks
    | cons c rest =>
        have hc : Text.isBlank c = false := hclosed c (h c (by simp))
        simp [Text.takeBlanks, hc] at hblanks
  · have hsolid : ∀ f ∈ followers, Text.isBlank f.1 = false := by decide
    have hspace : Text.isBlank ' ' = true := by decide
    refine ⟨x, y, more, ?_, hmem, hnot⟩
    have := hsolid _ hmem
    simp [Text.dropBlanks, hspace, this]

theorem Follows.stopsPath {isNot : Prop} {rest : List Char} (h : Follows isNot rest) :
    StopsPath rest := by
  have hall : ∀ c ∈ ' ' :: closers, Text.isWordChar c = false ∧ c ≠ '.' := by decide
  exact fun c hc => hall c (h.head c hc)

/-- The phrases of a single word that begin other phrases. -/
def shortPhrases : List (List Char) := ["is".toList, "greater".toList, "less".toList]

/-- Whether a phrase of several words cannot go on with the given characters, or its first word is a
phrase already. -/
def Phrase.isStoppedBy (p : Phrase) (follower : Char × Char) : Bool :=
  match p.words with
  | [_] => true
  | w :: (a :: b :: _) :: _ =>
    shortPhrases.contains w || !spells a follower.1 || !spells b follower.2
  | _ => false

/-- The letters that phrases begin with. -/
def initials : List Char := ['i', 'g', 'l', 'n', 'e', 'a', 'o']

/-- Whether a phrase begins with one of the letters that phrases begin with. -/
def Phrase.hasInitial (p : Phrase) : Bool :=
  match p.words with
  | (a :: _) :: _ => initials.contains a
  | _ => false

theorem phrases_checked : ∀ p ∈ Phrase.comparisons ++ Phrase.connectives,
    p.IsLettered ∧ p.hasInitial = true ∧ ∀ f ∈ followers, p.isStoppedBy f = true ∨
      p.words = [['n', 'o', 't'], ['i', 'n']] ∧ f = ('i', 'n') := by
  unfold Phrase.IsLettered
  decide +kernel

theorem exists_shortPhrase : ∀ w ∈ shortPhrases, ∃ p ∈ Phrase.comparisons, p.words = [w] := by
  decide +kernel

/-- Where the second word of a phrase is read in front of what stops the phrase, the first word is a
phrase already. -/
theorem Phrase.exists_short_of_isStoppedBy {p : Phrase} {w v : List Char} {ws : List (List Char)}
    {x y : Char} {more : List Char} (hwords : p.words = w :: v :: ws)
    (hstopped : p.isStoppedBy (x, y) = true) (hread : (readWord? v (x :: y :: more)).isSome) :
    ∃ q ∈ comparisons, q.words = [w] := by
  rw [isStoppedBy, hwords] at hstopped
  obtain _ | ⟨a, _ | ⟨b, v⟩⟩ := v
  · simp at hstopped
  · simp at hstopped
  · simp only [Bool.or_eq_true, Bool.not_eq_true', List.contains_iff_mem] at hstopped
    rcases hstopped with (hshort | ha) | hb
    · exact exists_shortPhrase w hshort
    · simp [readWord?, ha] at hread
    · simp [readWord?, hb] at hread

/-! ## Names -/

/-- What it takes to cut off a name: nothing else is cut off there. -/
structure CutsName (c : Char) (cs : List Char) : Prop where
  blank : Text.isBlank c = false
  comparison : Phrase.firstOf Phrase.comparisons (c :: cs) = none
  symbol : Piece.symbol? (c :: cs) = none
  connective : Phrase.firstOf Phrase.connectives (c :: cs) = none
  quoted : Piece.quoted? (c :: cs) = none
  digit : Text.isDecimalDigit c = false
  word : Text.isWordChar c = true

theorem CutsName.first {c : Char} {cs : List Char} (h : CutsName c cs) :
    Piece.first c cs = .lexeme .name (Piece.path (c :: cs)) := by
  simp [Piece.first, h.blank, h.comparison, h.symbol, h.connective, h.quoted, h.digit, h.word]

/-- What it takes for a character to be stray: nothing is cut off there. -/
structure IsStray (c : Char) (cs : List Char) : Prop where
  blank : Text.isBlank c = false
  symbol : Piece.symbol? (c :: cs) = none
  quoted : Piece.quoted? (c :: cs) = none
  digit : Text.isDecimalDigit c = false
  word : Text.isWordChar c = false
  punctuation : Piece.punctuation.lookup c = none

namespace Piece

/-- How the pieces of each form are cut off in front of a text. A name and a stray character come of
what no form before them takes; of the others only their own condition is kept. -/
inductive IsCut (c : Char) (cs : List Char) : Piece → Prop
  | blank (h : Text.isBlank c = true) : IsCut c cs (.blank (c :: Text.takeBlanks cs))
  | comparison {text : List Char} (h : Phrase.firstOf Phrase.comparisons (c :: cs) = some text) :
      IsCut c cs (.lexeme .operator text)
  | symbol {text : List Char} (h : symbol? (c :: cs) = some text) :
      IsCut c cs (.lexeme .operator text)
  | connective {text : List Char} (h : Phrase.firstOf Phrase.connectives (c :: cs) = some text) :
      IsCut c cs (.lexeme .operator text)
  | quoted {text : List Char} (h : quoted? (c :: cs) = some text) :
      IsCut c cs (.lexeme .string text)
  | number (h : Text.isDecimalDigit c = true) : IsCut c cs (.lexeme .number (number (c :: cs)))
  | name (h : CutsName c cs) : IsCut c cs (.lexeme .name (path (c :: cs)))
  | punctuation {kind : TokenKind} (h : punctuation.lookup c = some kind) :
      IsCut c cs (.lexeme kind [c])
  | stray (h : IsStray c cs) : IsCut c cs (.stray c)

theorem isCut_first (c : Char) (cs : List Char) : (first c cs).IsCut c cs := by
  unfold first
  split
  case isTrue hblank => exact .blank hblank
  rename_i hblank
  split
  case h_1 text hcomparison => exact .comparison hcomparison
  rename_i hcomparison
  split
  case h_1 text hsymbol => exact .symbol hsymbol
  rename_i hsymbol
  split
  case h_1 text hconnective => exact .connective hconnective
  rename_i hconnective
  split
  case h_1 text hquoted => exact .quoted hquoted
  rename_i hquoted
  split
  case isTrue hdigit => exact .number hdigit
  rename_i hdigit
  split
  case isTrue hword =>
    exact .name {
      blank := by simpa using hblank
      comparison := Option.eq_none_iff_forall_ne_some.2 hcomparison
      symbol := Option.eq_none_iff_forall_ne_some.2 hsymbol
      connective := Option.eq_none_iff_forall_ne_some.2 hconnective
      quoted := Option.eq_none_iff_forall_ne_some.2 hquoted
      digit := by simpa using hdigit
      word := hword }
  rename_i hword
  split
  case h_1 kind hkind => exact .punctuation hkind
  rename_i hkind
  exact .stray {
    blank := by simpa using hblank
    symbol := Option.eq_none_iff_forall_ne_some.2 hsymbol
    quoted := Option.eq_none_iff_forall_ne_some.2 hquoted
    digit := by simpa using hdigit
    word := by simpa using hword
    punctuation := Option.eq_none_iff_forall_ne_some.2 hkind }

end Piece

theorem mem_of_lookup {c : Char} {kind : TokenKind} (h : Piece.punctuation.lookup c = some kind) :
    (c, kind) ∈ Piece.punctuation := by
  obtain ⟨before, after, hsplit, _⟩ := List.lookup_eq_some_iff.1 h
  simp [hsplit]

theorem kind_of_lookup {c : Char} {kind : TokenKind}
    (h : Piece.punctuation.lookup c = some kind) : kind ≠ .name ∧ kind ≠ .string := by
  have hall : ∀ p ∈ Piece.punctuation, p.2 ≠ .name ∧ p.2 ≠ .string := by decide
  exact hall (c, kind) (mem_of_lookup h)

theorem cutsName_of_first {c : Char} {cs text : List Char}
    (h : Piece.first c cs = .lexeme .name text) :
    CutsName c cs ∧ text = Piece.path (c :: cs) := by
  have hcut := Piece.isCut_first c cs
  rw [h] at hcut
  cases hcut with
  | name hname => exact ⟨hname, rfl⟩
  | punctuation hkind => exact absurd rfl (kind_of_lookup hkind).1

theorem symbol?_eq_none {c : Char} {cs : List Char} (h : Text.isWordChar c = true) :
    Piece.symbol? (c :: cs) = none := by
  have hheads : ∀ s ∈ Piece.symbols, ∃ a more, s = a :: more ∧ Text.isWordChar a = false := by
    simp only [Piece.symbols, List.forall_mem_cons]
    refine ⟨⟨_, _, rfl, by decide⟩, ⟨_, _, rfl, by decide⟩, ⟨_, _, rfl, by decide⟩,
      ⟨_, _, rfl, by decide⟩, ⟨_, _, rfl, by decide⟩, ⟨_, _, rfl, by decide⟩,
      ⟨_, _, rfl, by decide⟩, ⟨_, _, rfl, by decide⟩, by simp⟩
  refine List.find?_eq_none.2 fun s hs => ?_
  obtain ⟨a, more, rfl, ha⟩ := hheads s hs
  have hne : a ≠ c := by
    rintro rfl
    rw [h] at ha
    cases ha
  simp [List.isPrefixOf, hne]

theorem quoted?_eq_none {c : Char} {cs : List Char} (h : Text.isWordChar c = true) :
    Piece.quoted? (c :: cs) = none := by
  have hne : ¬ (c = '"' ∨ c = '\'') := by
    rintro (rfl | rfl)
    · exact absurd h (by decide)
    · exact absurd h (by decide)
  rw [Piece.quoted?, if_neg hne]

theorem firstOf_eq_none_iff {ps : List Phrase} {cs : List Char} :
    Phrase.firstOf ps cs = none ↔ ∀ p ∈ ps, p.read? cs = none := by
  simp [Phrase.firstOf, List.findSome?_eq_none_iff]

/-- A name is cut off at a word character that is no digit, where no phrase is read. -/
theorem cutsName_iff {c : Char} {cs : List Char} :
    CutsName c cs ↔ Text.isWordChar c = true ∧ Text.isDecimalDigit c = false ∧
      ∀ p ∈ Phrase.comparisons ++ Phrase.connectives, p.read? (c :: cs) = none := by
  constructor
  · intro h
    refine ⟨h.word, h.digit, fun p hp => ?_⟩
    rcases List.mem_append.1 hp with hp | hp
    · exact firstOf_eq_none_iff.1 h.comparison p hp
    · exact firstOf_eq_none_iff.1 h.connective p hp
  · rintro ⟨hword, hdigit, hnone⟩
    exact
      { blank := not_isBlank_of_isWordChar hword
        comparison := firstOf_eq_none_iff.2 fun p hp => hnone p (List.mem_append_left _ hp)
        symbol := symbol?_eq_none hword
        connective := firstOf_eq_none_iff.2 fun p hp => hnone p (List.mem_append_right _ hp)
        quoted := quoted?_eq_none hword
        digit := hdigit
        word := hword }

theorem eq_of_toLower {a c : Char} (h : c.toLower = a) : c = a ∨ c = Char.ofNat (a.toNat - 32) := by
  by_cases hcapital : 'A'.val ≤ c.val ∧ c.val ≤ 'Z'.val
  · have hhigh : c.val.toNat ≤ 90 := hcapital.2
    have hlower : c.toLower.val = c.val + 32 := congrArg Char.val (dif_pos hcapital)
    have hval : a.toNat = c.toNat + 32 := by
      rw [← h]
      show c.toLower.val.toNat = c.val.toNat + 32
      rw [hlower, UInt32.toNat_add]
      refine Nat.mod_eq_of_lt ?_
      show c.val.toNat + 32 < 4294967296
      omega
    right
    rw [hval, Nat.add_sub_cancel, Char.ofNat_toNat]
  · left
    have hlower : c.toLower = c := dif_neg hcapital
    rw [← h, hlower]

/-- What spells `not` reads `not` in lower case. -/
theorem lowerChars_of_spelled_not {word : List Char} (h : SpelledBy ['n', 'o', 't'] word) :
    Text.lowerChars word = ['n', 'o', 't'] := by
  have hcase {a c : Char} (hi : a ≠ 'i') (hs : a ≠ 's') (h : Phrase.spells a c = true) :
      c = a ∨ c = Char.ofNat (a.toNat - 32) := by
    refine eq_of_toLower ?_
    simpa [Phrase.spells, hi, hs] using h
  have hspelled := spelledBy_iff.1 h
  cases hspelled with
  | cons ha hspelled =>
    cases hspelled with
    | cons hb hspelled =>
      cases hspelled with
      | cons hc hspelled =>
        cases hspelled
        rcases hcase (by decide) (by decide) ha with rfl | rfl <;>
          rcases hcase (by decide) (by decide) hb with rfl | rfl <;>
            rcases hcase (by decide) (by decide) hc with rfl | rfl <;> decide

theorem exists_run_of_caseIn {runs : List Text.CaseRun} {m n : Nat}
    (h : Text.caseIn runs m = some n) :
    ∃ r ∈ runs, r.first ≤ m ∧ m ≤ r.last ∧ n = Int.toNat (m + r.shift) := by
  induction runs with
  | nil => cases h
  | cons r runs ih =>
      rw [Text.caseIn] at h
      split at h
      next hr =>
        cases h
        exact ⟨r, List.mem_cons_self, hr.1, hr.2.1, rfl⟩
      · obtain ⟨r', hr', hfound⟩ := ih h
        exact ⟨r', List.mem_cons_of_mem _ hr', hfound⟩

theorem toNat_ofNat_ne_zero {n : Nat} (h : (Char.ofNat n).toNat ≠ 0) : (Char.ofNat n).toNat = n := by
  by_cases hvalid : n.isValidChar
  · have hchar : Char.ofNat n = Char.ofNatAux n hvalid := dif_pos hvalid
    rw [hchar]
    exact UInt32.toNat_ofNatLT
  · have hchar : Char.ofNat n = ⟨0, .inl (by decide)⟩ := dif_neg hvalid
    rw [hchar] at h
    exact absurd rfl h

theorem lowerChar_ne_nil (c : Char) : Text.lowerChar c ≠ [] := by
  unfold Text.lowerChar
  split
  · simp
  · split <;> simp

/-- The characters whose lower case is one of the letters of `not`: that letter in both cases. -/
theorem eq_of_lowerChar {c d : Char} {ds : List Char} (hd : d ∈ ['n', 'o', 't'])
    (h : Text.lowerChar c = d :: ds) :
    ds = [] ∧ (c = d ∨ c = Char.ofNat (d.toNat - 32)) := by
  unfold Text.lowerChar at h
  split at h
  · obtain ⟨rfl, _⟩ := List.cons.inj h
    exact absurd hd (by decide)
  · split at h
    next n hn =>
      obtain ⟨hchar, hds⟩ := List.cons.inj h
      refine ⟨hds.symm, .inr ?_⟩
      have hcode : d.toNat ∈ [110, 111, 116] := by
        have hall : ∀ e ∈ ['n', 'o', 't'], e.toNat ∈ [110, 111, 116] := by decide
        exact hall d hd
      have hpositive : d.toNat ≠ 0 := fun hzero => absurd (hzero ▸ hcode) (by decide)
      have hn' : n = d.toNat := by
        rw [← hchar] at hpositive ⊢
        exact (toNat_ofNat_ne_zero hpositive).symm
      -- Of all runs only the one of the capitals reaches these letters.
      have hruns : ∀ r ∈ Text.lowerRuns, ∀ code : Nat, code ∈ [110, 111, 116] →
          (r.first : Int) ≤ code - r.shift → code - r.shift ≤ (r.last : Int) → r.shift = 32 := by
        decide +kernel
      obtain ⟨r, hr, hfirst, hlast, himage⟩ := exists_run_of_caseIn hn
      have hsum : (c.toNat : Int) + r.shift = d.toNat := by omega
      have hshift := hruns r hr _ hcode (by omega) (by omega)
      have hback : d.toNat - 32 = c.toNat := by omega
      rw [hback, Char.ofNat_toNat]
    · obtain ⟨rfl, hds⟩ := List.cons.inj h
      exact ⟨hds.symm, .inl rfl⟩

theorem exists_of_lowerFrom {before cs : List Char} {d : Char} {ds : List Char}
    (hd : d ∈ ['n', 'o', 't']) (h : Text.lowerFrom before cs = d :: ds) :
    ∃ c rest, cs = c :: rest ∧ (c = d ∨ c = Char.ofNat (d.toNat - 32)) ∧
      Text.lowerFrom (c :: before) rest = ds := by
  cases cs with
  | nil => cases h
  | cons c rest =>
      rw [Text.lowerFrom] at h
      by_cases hsigma : c = 'Σ'
      · rw [if_pos hsigma] at h
        obtain ⟨rfl, _⟩ := List.cons.inj h
        unfold Text.lowerSigma at hd
        split at hd
        · exact absurd hd (by decide)
        · exact absurd hd (by decide)
      · rw [if_neg hsigma] at h
        cases hlower : Text.lowerChar c with
        | nil => exact absurd hlower (lowerChar_ne_nil c)
        | cons e es =>
            rw [hlower, List.cons_append] at h
            obtain ⟨rfl, hrest⟩ := List.cons.inj h
            obtain ⟨rfl, hc⟩ := eq_of_lowerChar hd hlower
            exact ⟨c, rest, rfl, hc, hrest⟩

/-- What reads `not` in lower case is spelled with these letters, each in one of its two cases. -/
theorem exists_of_lowerChars_eq_not {cs : List Char} (h : Text.lowerChars cs = ['n', 'o', 't']) :
    ∃ a b c, cs = [a, b, c] ∧ (a = 'n' ∨ a = 'N') ∧ (b = 'o' ∨ b = 'O') ∧ (c = 't' ∨ c = 'T') := by
  obtain ⟨a, rest, rfl, ha, h⟩ := exists_of_lowerFrom (by decide) h
  obtain ⟨b, rest, rfl, hb, h⟩ := exists_of_lowerFrom (by decide) h
  obtain ⟨c, rest, rfl, hc, h⟩ := exists_of_lowerFrom (by decide) h
  have hnil : rest = [] := by
    cases rest with
    | nil => rfl
    | cons d rest =>
        rw [Text.lowerFrom] at h
        have hempty := (List.append_eq_nil_iff.1 h).1
        split at hempty
        · cases hempty
        · exact absurd hempty (lowerChar_ne_nil d)
  subst hnil
  exact ⟨a, b, c, rfl, ha, hb, hc⟩

/-- A phrase that is not read where a name was cut off is not read where it stands now. -/
theorem read?_eq_none_of_follows {p : Phrase} {cs rest : List Char}
    (hp : p ∈ Phrase.comparisons ++ Phrase.connectives)
    (hbefore : ∀ q ∈ Phrase.comparisons ++ Phrase.connectives, q.read? cs = none)
    (hrest : Follows (Text.lowerChars (Piece.path cs) = ['n', 'o', 't']) rest) :
    p.read? (Piece.path cs ++ rest) = none := by
  obtain ⟨hletters, _, hstopped⟩ := phrases_checked p hp
  have hcs := endsWord_takeWhile cs
  have hsplit : cs.takeWhile Text.isWordChar ++ cs.dropWhile Text.isWordChar = cs :=
    List.takeWhile_append_dropWhile
  -- A phrase of one word would have been read before, in front of whatever stood there.
  have hnot {q : Phrase} {w : List Char} (hq : q ∈ Phrase.comparisons ++ Phrase.connectives)
      (hw : q.words = [w]) : ¬ SpelledBy w (cs.takeWhile Text.isWordChar) := by
    have hnone := hbefore q hq
    rw [← hsplit] at hnone
    rw [← read?_single hw (phrases_checked q hq).1 hcs, hnone]
    simp
  generalize hsegments : Piece.pathRest 0 (cs.dropWhile Text.isWordChar) = segments
  have hpath : Piece.path cs = cs.takeWhile Text.isWordChar ++ segments := by
    rw [← hsegments]
    rfl
  have hhead : ∀ c ∈ segments.head?, c = '.' := by
    rw [← hsegments]
    exact head_pathRest _
  generalize hword : cs.takeWhile Text.isWordChar = word at *
  have hends : EndsWord word (segments ++ rest) := by
    refine ⟨hcs.word, fun c hc => ?_⟩
    cases segments with
    | nil => exact (hrest.stopsPath c (by simpa using hc)).1
    | cons d segments =>
        obtain rfl : d = c := by simpa using hc
        rw [hhead d (by simp)]
        decide
  rw [hpath, List.append_assoc]
  rw [← Option.not_isSome_iff_eq_none]
  intro hread
  rcases hwords : p.words with _ | ⟨w, _ | ⟨v, ws⟩⟩
  · simp [Phrase.read?, hwords] at hread
  · exact hnot hp hwords ((read?_single hwords hletters hends).1 hread)
  · obtain ⟨hspelled, hblanks, hsecond⟩ := read?_several hwords hletters hends hread
    cases segments with
    | cons d segments =>
        obtain rfl : d = '.' := hhead d (by simp)
        have hpoint : Text.isBlank '.' = false := by decide
        simp [Text.takeBlanks, hpoint] at hblanks
    | nil =>
        rw [List.nil_append] at hblanks hsecond
        obtain ⟨x, y, more, hdrop, hfollower, hexception⟩ := hrest.of_takeBlanks hblanks
        rw [hdrop] at hsecond
        rcases hstopped (x, y) hfollower with hstopped | ⟨hnotIn, hxy⟩
        · obtain ⟨q, hq, hqwords⟩ := Phrase.exists_short_of_isStoppedBy hwords hstopped hsecond
          exact hnot (List.mem_append_left _ hq) hqwords hspelled
        · rw [hwords] at hnotIn
          obtain ⟨rfl, -⟩ : w = ['n', 'o', 't'] ∧ v :: ws = [['i', 'n']] := by
            simpa using hnotIn
          refine hexception ?_ hxy
          rw [hpath, List.append_nil]
          exact lowerChars_of_spelled_not hspelled

/-- A text that is cut off as a name somewhere. -/
def IsNameText (text : List Char) : Prop := ∃ c cs, Piece.first c cs = .lexeme .name text

/-- A name is cut off wherever an operand may stand, if it is not `not` before `in`. -/
theorem Lexes.name {text rest : List Char} (h : IsNameText text)
    (hrest : Follows (Text.lowerChars text = ['n', 'o', 't']) rest) :
    Lexes text [(.name, String.ofList text)] rest := by
  obtain ⟨c, cs, hfirst⟩ := h
  obtain ⟨hcuts, rfl⟩ := cutsName_of_first hfirst
  obtain ⟨more, hmore⟩ : ∃ more, Piece.path (c :: cs) = c :: more := by
    simp [Piece.path, hcuts.word]
  obtain ⟨hword, hdigit, hnone⟩ := cutsName_iff.1 hcuts
  have hagain : ∀ q ∈ Phrase.comparisons ++ Phrase.connectives,
      q.read? (c :: (more ++ rest)) = none := by
    intro q hq
    have := read?_eq_none_of_follows hq hnone hrest
    rwa [hmore] at this
  have hcuts' : CutsName c (more ++ rest) := cutsName_iff.2 ⟨hword, hdigit, hagain⟩
  have hpath : Piece.path (c :: (more ++ rest)) = c :: more := by
    have := @path_append (c :: cs) rest hrest.stopsPath
    rwa [hmore] at this
  have hfirst' : Piece.first c (more ++ rest) = .lexeme .name (c :: more) := by
    rw [hcuts'.first, hpath]
  rw [hmore]
  exact .lexeme hfirst' fun d hd => plainQuote_of_mem_path (by rwa [hmore])

end Formula
