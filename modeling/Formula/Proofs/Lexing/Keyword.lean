import Formula.Proofs.Lexing.Longest

set_option autoImplicit false

/-! # Reserved words

A dotted path is cut off as one name, unless its first segment is a word that is an operator by
itself. A longer word that begins with such a word is a name, and so is one with the word behind a
point.

Main statement: `tokenize_path_iff`. -/

namespace Formula

/-- The words that are operators by themselves. -/
def reserved : List String := ["is", "in", "and", "or", "equals", "greater", "less"]

/-- A part of a path: letters, digits and underscores, at least one. -/
structure IsSegment (s : List Char) : Prop where
  ne_nil : s ≠ []
  chars : ∀ c ∈ s, c.isAlphanum = true ∨ c = '_'

/-- Segments with points between them. -/
def dotted (segments : List (List Char)) : List Char := ['.'].intercalate segments

theorem dotted_cons (s : List Char) (segments : List (List Char)) :
    dotted (s :: segments) = s ++ segments.flatMap ('.' :: ·) := by
  induction segments generalizing s with
  | nil => simp [dotted]
  | cons t segments ih =>
      have hjoin : dotted (s :: t :: segments) = s ++ '.' :: dotted (t :: segments) := by
        simp [dotted, List.intercalate]
      rw [hjoin, ih, List.flatMap_cons, List.cons_append]

/-! ## Characters of a segment -/

theorem toNat_lt_of_isAlphanum {c : Char} (h : c.isAlphanum = true ∨ c = '_') : c.toNat < 128 := by
  rcases h with h | rfl
  · change ((decide (c.val ≥ 'A'.val ∧ c.val ≤ 'Z'.val) ||
      (decide (c.val ≥ 'a'.val) && decide (c.val ≤ 'z'.val))) ||
        (decide (c.val ≥ '0'.val) && decide (c.val ≤ '9'.val))) = true at h
    simp only [Bool.or_eq_true, decide_eq_true_eq, Bool.and_eq_true, UInt32.le_iff_toNat_le,
      ge_iff_le] at h
    change ((65 ≤ c.toNat ∧ c.toNat ≤ 90) ∨ (97 ≤ c.toNat ∧ c.toNat ≤ 122)) ∨
      (48 ≤ c.toNat ∧ c.toNat ≤ 57) at h
    omega
  · decide

theorem ascii_checked : ∀ n < 128, ((Char.ofNat n).isAlphanum = true ∨ Char.ofNat n = '_') →
    Text.isWordChar (Char.ofNat n) = true ∧
      Text.isDecimalDigit (Char.ofNat n) = (Char.ofNat n).isDigit ∧ Char.ofNat n ≠ 'Σ' ∧
        Text.lowerChar (Char.ofNat n) = [letterOf (Char.ofNat n)] := by
  decide +kernel

theorem IsSegment.char {s : List Char} (h : IsSegment s) {c : Char} (hc : c ∈ s) :
    Text.isWordChar c = true ∧ Text.isDecimalDigit c = c.isDigit ∧ c ≠ 'Σ' ∧
      Text.lowerChar c = [letterOf c] := by
  have hchecked := ascii_checked c.toNat (toNat_lt_of_isAlphanum (h.chars c hc))
  rw [Char.ofNat_toNat] at hchecked
  exact hchecked (h.chars c hc)

theorem IsSegment.lower {s : List Char} (h : IsSegment s) :
    Text.lower (String.ofList s) = String.ofList (s.map letterOf) := by
  rw [Text.lower, String.toList_ofList, lowerChars_eq_map fun c hc => (h.char hc).2.2]

/-! ## Paths -/

/-- What stands behind the first segment of a path. -/
theorem head_flatMap_segments (segments : List (List Char)) :
    ∀ c ∈ (segments.flatMap ('.' :: ·)).head?, c = '.' := by
  cases segments <;> simp

theorem endsWord_segment {s : List Char} (h : IsSegment s) (segments : List (List Char)) :
    EndsWord s (segments.flatMap ('.' :: ·)) where
  word c hc := (h.char hc).1
  rest c hc := by
    rw [head_flatMap_segments segments c hc]
    decide

theorem pathRest_segments {segments : List (List Char)} (h : ∀ s ∈ segments, IsSegment s) :
    Piece.pathRest 0 (segments.flatMap ('.' :: ·)) = segments.flatMap ('.' :: ·) := by
  induction segments with
  | nil => rfl
  | cons s segments ih =>
      have hs := h s List.mem_cons_self
      have hends := endsWord_segment hs segments
      have htake : (s ++ segments.flatMap ('.' :: ·)).takeWhile Text.isWordChar = s :=
        takeWhile_append_of_all hends.word hends.rest
      rw [List.flatMap_cons, List.cons_append, Piece.pathRest]
      simp only [htake, hs.ne_nil, ne_eq, not_false_eq_true, and_self, ↓reduceIte]
      rw [pathRest_eq, List.take_left', List.drop_left', ih fun t ht => h t (List.mem_cons_of_mem _ ht)]
      · rfl
      · rfl

theorem path_dotted {s : List Char} {segments : List (List Char)}
    (h : ∀ t ∈ s :: segments, IsSegment t) : Piece.path (dotted (s :: segments)) = dotted (s :: segments) := by
  have hends := endsWord_segment (h s List.mem_cons_self) segments
  rw [dotted_cons, path_append_of_word hends.word hends.rest,
    pathRest_segments fun t ht => h t (List.mem_cons_of_mem _ ht)]

/-! ## Phrases in front of a path -/

/-- The phrases of a single word are the reserved words. -/
theorem reserved_checked :
    (∀ p ∈ Phrase.comparisons ++ Phrase.connectives, p.words.length = 1 →
      ∀ w ∈ p.words, String.ofList w ∈ reserved) ∧
    ∀ w ∈ reserved, ∃ p ∈ Phrase.comparisons ++ Phrase.connectives, p.words = [w.toList] := by
  decide

/-- A segment spells the one word that it is in lower case. -/
theorem IsSegment.spelledBy_iff {s w : List Char} (h : IsSegment s) (hw : ∀ a ∈ w, a ∈ letters) :
    SpelledBy w s ↔ Text.lower (String.ofList s) = String.ofList w := by
  rw [Formula.spelledBy_iff, h.lower, String.ofList_inj]
  constructor
  · intro hspelled
    have hne : w ≠ [] := by
      rintro rfl
      exact h.ne_nil (List.forall₂_nil_left_iff.1 hspelled)
    exact (SpellsWord.eq_map ⟨hne, hw, hspelled⟩).symm
  · rintro rfl
    rw [List.forall₂_map_left_iff]
    exact List.forall₂_same.2 fun c _ => spells_letterOf c

/-- In front of a path a phrase is read exactly if the first segment is a reserved word. -/
theorem isSome_read?_dotted_iff {s : List Char} (h : IsSegment s) (segments : List (List Char)) :
    (∃ p ∈ Phrase.comparisons ++ Phrase.connectives, (p.read? (dotted (s :: segments))).isSome) ↔
      Text.lower (String.ofList s) ∈ reserved := by
  have hends := endsWord_segment h segments
  obtain ⟨hshort, hreserved⟩ := reserved_checked
  rw [dotted_cons]
  constructor
  · rintro ⟨p, hp, hread⟩
    have hletters : p.IsLettered := (phrases_checked p hp).1
    rcases hwords : p.words with _ | ⟨w, _ | ⟨v, ws⟩⟩
    · simp [Phrase.read?, hwords] at hread
    · have hspelled := (read?_single hwords hletters hends).1 hread
      have hw : w ∈ p.words := by simp [hwords]
      rw [(h.spelledBy_iff (hletters w hw)).1 hspelled]
      exact hshort p hp (by simp [hwords]) w hw
    · -- A second word needs a blank before it, and behind a segment stands a point or nothing.
      obtain ⟨-, hblanks, -⟩ := read?_several hwords hletters hends hread
      have hpoint : Text.isBlank '.' = false := by decide
      refine absurd (takeBlanks_eq_nil fun c hc => ?_) hblanks
      rw [head_flatMap_segments segments c hc, hpoint]
  · intro hmem
    obtain ⟨p, hp, hwords⟩ := hreserved _ hmem
    have hletters : p.IsLettered := (phrases_checked p hp).1
    refine ⟨p, hp, (read?_single hwords hletters hends).2 ?_⟩
    rw [h.spelledBy_iff (hletters _ (by simp [hwords])), String.ofList_toList]

/-- A dotted path whose first character is no digit is read as one name exactly if its first segment,
in lower case, is no reserved word. -/
theorem tokenize_path_iff (strict : Bool) {first : List Char} {more : List (List Char)}
    (hsegments : ∀ s ∈ first :: more, IsSegment s) (hdigit : ∀ c ∈ first.head?, c.isDigit = false) :
    tokenize strict (String.ofList (dotted (first :: more))) =
        .ok [⟨.name, String.ofList (dotted (first :: more)), 0,
          String.ofList (dotted (first :: more))⟩] ↔
      Text.lower (String.ofList first) ∉ reserved := by
  have hfirst := hsegments first List.mem_cons_self
  have hpath := path_dotted hsegments
  have hphrase := isSome_read?_dotted_iff hfirst more
  obtain ⟨c, cs, hc⟩ := List.exists_cons_of_ne_nil hfirst.ne_nil
  obtain ⟨ds, hds⟩ : ∃ ds, dotted (first :: more) = c :: ds :=
    ⟨cs ++ more.flatMap ('.' :: ·), by rw [dotted_cons, hc, List.cons_append]⟩
  rw [hds] at hpath hphrase ⊢
  have hsanitize : sanitize (String.ofList (c :: ds)) = String.ofList (c :: ds) := by
    refine sanitize_of_plain fun d hd => ?_
    rw [String.toList_ofList, ← hpath] at hd
    exact plainQuote_of_mem_path hd
  rw [← hphrase]
  constructor
  · rintro htokens ⟨p, hp, hread⟩
    -- An operator is cut off first, which is not the name that was read.
    obtain ⟨read, hread⟩ := Option.isSome_iff_exists.1 hread
    obtain ⟨text, hcut, -⟩ := Piece.exists_operator_of_read? hp hread
    obtain ⟨rest, -, hscan, -⟩ := exists_scan_cons c ds
    have hts := eq_tokensFrom_of_tokenize htokens
    rw [hsanitize, String.toList_ofList, hscan, hcut, tokensFrom] at hts
    injection hts with hname
    injection hname with hkind
    cases hkind
  · intro hnone
    have hread : ∀ p ∈ Phrase.comparisons ++ Phrase.connectives, p.read? (c :: ds) = none :=
      fun p hp => Option.not_isSome_iff_eq_none.1 fun hsome => hnone ⟨p, hp, hsome⟩
    obtain ⟨hword, hdecimal, -⟩ := hfirst.char (c := c) (by simp [hc])
    have hcuts : CutsName c ds :=
      cutsName_iff.2 ⟨hword, by rw [hdecimal, hdigit c (by simp [hc])], hread⟩
    have hcut : Piece.first c (ds ++ []) = .lexeme .name (c :: ds) := by
      rw [List.append_nil, hcuts.first, hpath]
    have hscan : scan (sanitize (String.ofList (c :: ds))).toList = [.lexeme .name (c :: ds)] := by
      have := scan_of_first hcut rfl
      rw [List.append_nil] at this
      rw [hsanitize, String.toList_ofList, this]
      rfl
    rw [tokenize_eq_ok (by rw [hscan]; simp), hscan]
    rfl

/-- A path is a name if a reserved word only begins its first segment or stands behind a point, and
not if it is the first segment. -/
theorem tokenize_path_island :
    tokenize true "Island.in" = .ok [⟨.name, "Island.in", 0, "Island.in"⟩] ∧
      tokenize true "IS.land" ≠ .ok [⟨.name, "IS.land", 0, "IS.land"⟩] := by
  have hname : ∀ s ∈ ["Island".toList, "in".toList], IsSegment s := by
    rintro s hs
    rcases (by simpa using hs : s = "Island".toList ∨ s = "in".toList) with rfl | rfl
    · exact ⟨by decide, by decide⟩
    · exact ⟨by decide, by decide⟩
  have hoperator : ∀ s ∈ ["IS".toList, "land".toList], IsSegment s := by
    rintro s hs
    rcases (by simpa using hs : s = "IS".toList ∨ s = "land".toList) with rfl | rfl
    · exact ⟨by decide, by decide⟩
    · exact ⟨by decide, by decide⟩
  have hreserved : ¬ Text.lower (String.ofList "IS".toList) ∉ reserved := by decide
  exact ⟨(tokenize_path_iff true hname (by decide)).2 (by decide),
    fun h => hreserved ((tokenize_path_iff true hoperator (by decide)).1 h)⟩

end Formula
