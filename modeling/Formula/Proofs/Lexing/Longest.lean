import Formula.Proofs.Lexing.Composition

set_option autoImplicit false

/-! # The longest phrase is cut off

The phrases are tried one after the other, and the first that can be read is cut off. They are listed
so that this is the longest of all that can be read there: none comes before one that begins with its
words.

Main statements: `firstOf_eq_some_iff` and `Piece.first_of_spells`. -/

namespace Formula

/-- No phrase comes before one that begins with its words. -/
theorem phrases_ordered : (Phrase.comparisons ++ Phrase.connectives).Pairwise
    fun p q => ¬ p.words <+: q.words := by
  decide +kernel

theorem exists_read?_of_firstOf {ps : List Phrase} {cs text : List Char}
    (h : Phrase.firstOf ps cs = some text) : ∃ p ∈ ps, ∃ rest, p.read? cs = some (text, rest) := by
  obtain ⟨p, hp, hsome⟩ := List.exists_of_findSome?_eq_some h
  obtain ⟨⟨_, rest⟩, hread, rfl⟩ := Option.map_eq_some_iff.1 hsome
  exact ⟨p, hp, rest, hread⟩

/-- Every phrase that can be read is a beginning of the one that is found. -/
theorem prefix_of_firstOf {cs text t rest : List Char} {q : Phrase}
    (h : Phrase.firstOf (Phrase.comparisons ++ Phrase.connectives) cs = some text)
    (hq : q ∈ Phrase.comparisons ++ Phrase.connectives) (hread : q.read? cs = some (t, rest)) :
    t <+: text := by
  obtain ⟨before, p, after, hsplit, hfound, hbefore⟩ := List.findSome?_eq_some_iff.1 h
  obtain ⟨⟨_, left⟩, hp, rfl⟩ := Option.map_eq_some_iff.1 hfound
  have hordered := phrases_ordered
  rw [hsplit] at hq hordered
  rcases List.mem_append.1 hq with hq | hq
  · have hnone := hbefore q hq
    rw [hread] at hnone
    cases hnone
  rcases List.mem_cons.1 hq with rfl | hq
  · rw [hread] at hp
    cases hp
    exact List.prefix_rfl
  -- If the later phrase reached further, its words would begin with those of the one found.
  have hmem {r : Phrase} (hr : r ∈ p :: after) : r ∈ Phrase.comparisons ++ Phrase.connectives := by
    rw [hsplit]
    exact List.mem_append_right _ hr
  obtain ⟨hspells, rfl, hstop⟩ :=
    (Phrase.read?_eq_some_iff (phrases_worded p (hmem List.mem_cons_self))).1 hp
  obtain ⟨hspellsq, hcs, -⟩ :=
    (Phrase.read?_eq_some_iff (phrases_worded q (hmem (List.mem_cons_of_mem _ hq)))).1 hread
  rcases List.append_eq_append_iff.1 hcs with ⟨more, hmore, -⟩ | ⟨more, rfl, rfl⟩
  · exact ⟨more, hmore.symm⟩
  · have hprefix := hspellsq.words_prefix hspells rfl hstop.of_append
    exact absurd hprefix ((List.pairwise_cons.1 (List.pairwise_append.1 hordered).2.1).1 q hq)

/-- The phrase that is found is the longest that can be read. -/
theorem firstOf_eq_some_iff {cs text : List Char} :
    Phrase.firstOf (Phrase.comparisons ++ Phrase.connectives) cs = some text ↔
      (∃ p ∈ Phrase.comparisons ++ Phrase.connectives, ∃ rest, p.read? cs = some (text, rest)) ∧
        ∀ q ∈ Phrase.comparisons ++ Phrase.connectives, ∀ t rest, q.read? cs = some (t, rest) →
          t <+: text := by
  constructor
  · exact fun h => ⟨exists_read?_of_firstOf h, fun q hq t rest => prefix_of_firstOf h hq⟩
  · rintro ⟨⟨p, hp, rest, hread⟩, hlongest⟩
    cases hfirst : Phrase.firstOf (Phrase.comparisons ++ Phrase.connectives) cs with
    | none =>
        rw [firstOf_eq_none_iff.1 hfirst p hp] at hread
        cases hread
    | some t =>
        obtain ⟨q, hq, rest', hread'⟩ := exists_read?_of_firstOf hfirst
        have hle := prefix_of_firstOf hfirst hp hread
        rw [(hlongest q hq t rest' hread').eq_of_length_le hle.length_le]

namespace Piece

variable {c : Char} {cs text rest : List Char}

/-- The phrase that is found is cut off: no symbol begins like one. -/
theorem first_of_firstOf
    (h : Phrase.firstOf (Phrase.comparisons ++ Phrase.connectives) (c :: cs) = some text) :
    first c cs = .lexeme .operator text := by
  obtain ⟨p, hp, rest, hread⟩ := exists_read?_of_firstOf h
  obtain ⟨hspells, hsplit, -⟩ := (Phrase.read?_eq_some_iff (phrases_worded p hp)).1 hread
  have hword : Text.isWordChar c = true := hspells.head rest c (by simp [hsplit])
  have hblank := not_isBlank_of_isWordChar hword
  rw [Phrase.firstOf, List.findSome?_append, ← Phrase.firstOf, ← Phrase.firstOf,
    Option.or_eq_some_iff] at h
  rcases h with h | ⟨hnone, h⟩
  · simp [first, hblank, h]
  · simp [first, hblank, hnone, symbol?_eq_none hword, h]

/-- Where a phrase is read, an operator is cut off, and no shorter one. -/
theorem exists_operator_of_read? {p : Phrase} (hp : p ∈ Phrase.comparisons ++ Phrase.connectives)
    {t : List Char} (h : p.read? (c :: cs) = some (t, rest)) :
    ∃ text, first c cs = .lexeme .operator text ∧ t <+: text := by
  cases hfirst : Phrase.firstOf (Phrase.comparisons ++ Phrase.connectives) (c :: cs) with
  | none =>
      rw [firstOf_eq_none_iff.1 hfirst p hp] at h
      cases h
  | some text => exact ⟨text, first_of_firstOf hfirst, prefix_of_firstOf hfirst hp h⟩

/-- A phrase is cut off in front of what does not make a longer phrase of it. -/
theorem first_of_spells {p : Phrase} (hp : p ∈ Phrase.comparisons ++ Phrase.connectives)
    (h : Spells p.words (c :: cs)) (hrest : StopsWord rest)
    (hlonger : ∀ q ∈ Phrase.comparisons ++ Phrase.connectives, ∀ vs, q.words = p.words ++ vs →
      vs ≠ [] → ¬ ReadsOn vs rest) :
    first c (cs ++ rest) = .lexeme .operator (c :: cs) := by
  refine first_of_firstOf (firstOf_eq_some_iff.2 ⟨⟨p, hp, rest, ?_⟩, ?_⟩)
  · exact (Phrase.read?_eq_some_iff (phrases_worded p hp)).2 ⟨h, rfl, hrest⟩
  · intro q hq t left hread
    obtain ⟨hspells, hsplit, hstop⟩ := (Phrase.read?_eq_some_iff (phrases_worded q hq)).1 hread
    rw [← List.cons_append] at hsplit
    rcases hspells.append_cases hsplit hrest with
      ⟨more, hmore, -⟩ | ⟨us, vs, t', blanks, u, hwords, hvs, hcs, hblanks, hus, hu, hleft⟩
    · exact ⟨more, hmore.symm⟩
    · rw [hcs] at h
      obtain rfl := h.eq_nil_of_blanks hblanks
      rw [List.append_nil] at h
      rw [hus.unique h] at hwords
      exact absurd ⟨u, left, hu, hleft, hstop⟩ (hlonger q hq vs hwords hvs)

end Piece

end Formula
