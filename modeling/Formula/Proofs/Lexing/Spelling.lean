import Mathlib.Data.List.TakeWhile
import Formula.Proofs.Lexing.Matching

set_option autoImplicit false

/-! # How words are spelled

A row of words is spelled by a text that has each of the words in some letter case, with blanks
between two of them. This says what reading a phrase finds, without saying how: a phrase is read where
a text begins with a spelling of its words and no word goes on behind it.

A text that is read is a beginning of what it is read from. Where that was put together of two texts,
the reading ends in the first or goes on into the second, and then it does so between two words.

Main statements: `Phrase.read?_eq_some_iff`, `Spells.append_cases`, and `Spells.words_prefix` (of two
phrases read in one place, one begins with the other). -/

namespace Formula

/-! ## Runs of characters -/

section Runs

variable {p : Char → Bool} {rest : List Char}

/-- A run of characters does not go on into what begins with another character. -/
theorem takeWhile_append_of_head (h : ∀ c ∈ rest.head?, p c = false) (cs : List Char) :
    (cs ++ rest).takeWhile p = cs.takeWhile p := by
  induction cs with
  | nil => cases rest <;> simp_all
  | cons c cs ih => simp [List.takeWhile_cons, ih]

/-- A run of characters in front of another character. -/
theorem takeWhile_append_of_all {cs : List Char} (hcs : ∀ c ∈ cs, p c = true)
    (h : ∀ c ∈ rest.head?, p c = false) : (cs ++ rest).takeWhile p = cs := by
  rw [takeWhile_append_of_head h, List.takeWhile_eq_self_iff.2 hcs]

theorem dropWhile_append_of_head (h : ∀ c ∈ rest.head?, p c = false) (cs : List Char) :
    (cs ++ rest).dropWhile p = cs.dropWhile p ++ rest := by
  induction cs with
  | nil => cases rest <;> simp_all
  | cons c cs ih =>
      simp only [List.cons_append, List.dropWhile_cons, ih]
      split <;> rfl

end Runs

/-- No word goes on with what follows. -/
def StopsWord (rest : List Char) : Prop := ∀ c ∈ rest.head?, Text.isWordChar c = false

theorem StopsWord.append {cs rest : List Char} (h : StopsWord cs) (hrest : StopsWord rest) :
    StopsWord (cs ++ rest) := by
  cases cs with
  | nil => exact hrest
  | cons c cs => exact h

theorem StopsWord.of_append {cs rest : List Char} (h : StopsWord (cs ++ rest)) : StopsWord cs := by
  cases cs with
  | nil => simp [StopsWord]
  | cons c cs => exact h

theorem StopsWord.of_blanks {blanks : List Char} (h : ∀ c ∈ blanks, Text.isBlank c = true) :
    StopsWord blanks :=
  fun c hc => not_isWordChar_of_isBlank (h c (List.mem_of_mem_head? hc))

theorem endsHere_iff {rest : List Char} : Phrase.endsHere rest = true ↔ StopsWord rest := by
  cases rest <;> simp [Phrase.endsHere, StopsWord]

/-- A path begins with its first word. -/
theorem path_append_of_word {word rest : List Char} (hword : ∀ c ∈ word, Text.isWordChar c = true)
    (hrest : StopsWord rest) : Piece.path (word ++ rest) = word ++ Piece.pathRest 0 rest := by
  have htake := takeWhile_append_of_all hword hrest
  have hsplit := List.takeWhile_append_dropWhile (p := Text.isWordChar) (l := word ++ rest)
  rw [htake] at hsplit
  rw [Piece.path, htake, List.append_cancel_left hsplit]

/-- Characters of a class and what begins otherwise are told apart in one way only. -/
theorem append_inj_of_class {p : Char → Bool} {as bs cs ds : List Char}
    (h : as ++ bs = cs ++ ds) (has : ∀ c ∈ as, p c = true) (hbs : ∀ c ∈ bs.head?, p c = false)
    (hcs : ∀ c ∈ cs, p c = true) (hds : ∀ c ∈ ds.head?, p c = false) : as = cs ∧ bs = ds := by
  have hfirst : as = cs := by
    rw [← takeWhile_append_of_all has hbs, h, takeWhile_append_of_all hcs hds]
  subst hfirst
  exact ⟨rfl, List.append_cancel_left h⟩

/-! ## Letters -/

/-- The characters beyond ASCII that spell letters: both `i` and `s` have them. -/
def lookalikes : List Char := ['\u0130', '\u0131', '\u017f']

/-- The letter that a character spells, if it spells one. -/
def letterOf (c : Char) : Char :=
  if c = '\u0130' ∨ c = '\u0131' then 'i' else if c = '\u017f' then 's' else c.toLower

/-- A letter in either case becomes that letter in lower case, and the other characters that spell
letters do not. None of them is a digit. -/
theorem letters_checked :
    (∀ d ∈ lookalikes, d.toLower ∉ letters ∧ Text.isDecimalDigit d = false ∧
      ∃ e ∈ Text.lowerChar d, e ∉ letters) ∧
    ∀ a ∈ letters, ∀ c ∈ [a, Char.ofNat (a.toNat - 32)],
      c ∉ lookalikes ∧ Text.isDecimalDigit c = false ∧ Text.lowerChar c = [a] := by
  decide +kernel

theorem mem_of_spells {a c : Char} (h : Phrase.spells a c = true) :
    c ∈ lookalikes ∨ c ∈ [a, Char.ofNat (a.toNat - 32)] := by
  simp only [Phrase.spells, Bool.or_eq_true, Bool.and_eq_true, beq_iff_eq] at h
  rcases h with (h | ⟨-, h⟩) | ⟨-, h⟩
  · rcases eq_of_toLower h with rfl | rfl <;> simp
  · rcases h with rfl | rfl <;> simp [lookalikes]
  · simp [h, lookalikes]

theorem eq_letterOf {a c : Char} (ha : a ∈ letters) (h : Phrase.spells a c = true) :
    a = letterOf c := by
  simp only [Phrase.spells, Bool.or_eq_true, Bool.and_eq_true, beq_iff_eq] at h
  rcases h with (rfl | ⟨rfl, rfl | rfl⟩) | ⟨rfl, rfl⟩
  · have hne : ∀ d ∈ lookalikes, c ≠ d := by
      rintro d hd rfl
      exact (letters_checked.1 c hd).1 ha
    simp [letterOf, hne '\u0130' (by decide), hne '\u0131' (by decide), hne '\u017f' (by decide)]
  · rfl
  · rfl
  · rfl

theorem spells_letterOf (c : Char) : Phrase.spells (letterOf c) c = true := by
  unfold letterOf
  split
  next h => rcases h with rfl | rfl <;> decide
  · split
    next h => rw [h]; decide
    · simp [Phrase.spells]

/-- Whatever spells a letter is no digit. -/
theorem not_isDecimalDigit_of_spells {a c : Char} (ha : a ∈ letters)
    (h : Phrase.spells a c = true) : Text.isDecimalDigit c = false := by
  rcases mem_of_spells h with hc | hc
  · exact (letters_checked.1 c hc).2.1
  · exact (letters_checked.2 a ha c hc).2.1

/-- A word of letters that a text spells, letter by letter. -/
structure SpellsWord (w word : List Char) : Prop where
  ne_nil : w ≠ []
  letters : ∀ a ∈ w, a ∈ letters
  spelled : List.Forall₂ (fun a c => Phrase.spells a c = true) w word

namespace SpellsWord

variable {w v word : List Char}

theorem word_ne_nil (h : SpellsWord w word) : word ≠ [] := by
  rintro rfl
  exact h.ne_nil (List.forall₂_nil_right_iff.1 h.spelled)

theorem isWordChar (h : SpellsWord w word) : ∀ c ∈ word, Text.isWordChar c = true :=
  isWordChar_of_spelled h.letters h.spelled

theorem isSolid (h : SpellsWord w word) : ∀ c ∈ word, Text.isBlank c = false :=
  fun c hc => not_isBlank_of_isWordChar (h.isWordChar c hc)

theorem eq_map (h : SpellsWord w word) : w = word.map letterOf := by
  obtain ⟨-, hletters, hspelled⟩ := h
  induction hspelled with
  | nil => rfl
  | cons hc _ ih =>
      rw [List.map_cons, ← eq_letterOf (hletters _ List.mem_cons_self) hc,
        ← ih fun b hb => hletters b (List.mem_cons_of_mem _ hb)]

/-- The characters of a spelled word spell letters. -/
theorem letterOf_mem (h : SpellsWord w word) {c : Char} (hc : c ∈ word) :
    letterOf c ∈ Formula.letters :=
  h.letters _ (by rw [h.eq_map]; exact List.mem_map_of_mem hc)

/-- A text spells one word only. -/
theorem unique (hw : SpellsWord w word) (hv : SpellsWord v word) : w = v := by
  rw [hw.eq_map, hv.eq_map]

/-- What begins with a spelled word begins with a word character. -/
theorem head (h : SpellsWord w word) (rest : List Char) :
    ∀ c ∈ (word ++ rest).head?, Text.isWordChar c = true := by
  obtain ⟨c, cs, rfl⟩ := List.exists_cons_of_ne_nil h.word_ne_nil
  intro d hd
  obtain rfl : c = d := by simpa using hd
  exact h.isWordChar c List.mem_cons_self

theorem head_isBlank (h : SpellsWord w word) (rest : List Char) :
    ∀ c ∈ (word ++ rest).head?, Text.isBlank c = false :=
  fun c hc => not_isBlank_of_isWordChar (h.head rest c hc)

/-- A spelled word ends in front of what stops words. -/
theorem exists_append {left cs rest : List Char} (h : SpellsWord w word)
    (hsplit : word ++ left = cs ++ rest) (hrest : StopsWord rest) :
    ∃ more, cs = word ++ more ∧ left = more ++ rest := by
  rcases List.append_eq_append_iff.1 hsplit with ⟨a, rfl, hleft⟩ | ⟨a, rfl, hleft⟩
  · exact ⟨a, rfl, hleft⟩
  · cases a with
    | nil => exact ⟨[], by simp, by simpa using hleft.symm⟩
    | cons c a =>
        have hc := hrest c (by simp [hleft])
        rw [h.isWordChar c (by simp)] at hc
        cases hc

end SpellsWord

/-! ## Rows of words -/

/-- How words are spelled with blanks before each of them. -/
inductive SpellsOn : List (List Char) → List Char → Prop
  | nil : SpellsOn [] []
  | cons {w word blanks rest : List Char} {ws : List (List Char)} (hne : blanks ≠ [])
      (hblanks : ∀ c ∈ blanks, Text.isBlank c = true) (hword : SpellsWord w word)
      (hrest : SpellsOn ws rest) : SpellsOn (w :: ws) (blanks ++ (word ++ rest))

/-- How words are spelled with blanks between them. -/
def Spells : List (List Char) → List Char → Prop
  | [], _ => False
  | w :: ws, text => ∃ word more, SpellsWord w word ∧ SpellsOn ws more ∧ text = word ++ more

namespace SpellsOn

variable {ws vs : List (List Char)} {text t left more cs rest : List Char}

theorem stopsWord (h : SpellsOn ws text) (hmore : StopsWord more) : StopsWord (text ++ more) := by
  cases h with
  | nil => exact hmore
  | @cons w word blanks _ _ hne hblanks _ _ =>
      obtain ⟨b, bs, rfl⟩ := List.exists_cons_of_ne_nil hne
      intro c hc
      obtain rfl : b = c := by simpa using hc
      exact not_isWordChar_of_isBlank (hblanks b List.mem_cons_self)

theorem stopsWord_self (h : SpellsOn ws text) : StopsWord text := by
  have hend : StopsWord [] := by simp [StopsWord]
  simpa using h.stopsWord hend

theorem append (hws : SpellsOn ws text) (hvs : SpellsOn vs t) : SpellsOn (ws ++ vs) (text ++ t) := by
  induction hws with
  | nil => exact hvs
  | cons hne hblanks hword _ ih =>
      have hwhole := SpellsOn.cons hne hblanks hword ih
      simpa using hwhole

/-- A row of words is spelled by a spelling of its beginning and one of the rest. -/
theorem split (h : SpellsOn (ws ++ vs) text) : ∃ t u, text = t ++ u ∧ SpellsOn ws t ∧ SpellsOn vs u := by
  induction ws generalizing text with
  | nil => exact ⟨[], text, rfl, .nil, h⟩
  | cons w ws ih =>
      cases h with
      | @cons _ word blanks rest _ hne hblanks hword hrest =>
          obtain ⟨t, u, rfl, ht, hu⟩ := ih hrest
          exact ⟨blanks ++ (word ++ t), u, by simp, .cons hne hblanks hword ht, hu⟩

/-- Words that are read in two texts, one behind the other, are read in the first, or the reading
goes on into the second behind some of them. -/
theorem append_cases (h : SpellsOn ws text) (hsplit : text ++ left = cs ++ rest)
    (hrest : StopsWord rest) :
    (∃ more, cs = text ++ more ∧ left = more ++ rest) ∨
    ∃ us vs t blanks u, ws = us ++ vs ∧ vs ≠ [] ∧ cs = t ++ blanks ∧
      (∀ c ∈ blanks, Text.isBlank c = true) ∧ SpellsOn us t ∧ SpellsOn vs u ∧
      u ++ left = blanks ++ rest := by
  -- By induction on the words: each of them lies in the first text, since none runs over its end.
  induction h generalizing cs with
  | nil => exact .inl ⟨cs, rfl, hsplit⟩
  | @cons w word blanks more ws hne hblanks hword hmore ih =>
      have hwhole : SpellsOn (w :: ws) (blanks ++ (word ++ more)) := .cons hne hblanks hword hmore
      have hparts : blanks ++ (word ++ (more ++ left)) = cs ++ rest := by simpa using hsplit
      rcases List.append_eq_append_iff.1 hparts with ⟨a, rfl, hbehind⟩ | ⟨a, rfl, -⟩
      · obtain ⟨b, rfl, hlater⟩ := hword.exists_append hbehind hrest
        rcases ih hlater with ⟨after, rfl, rfl⟩ | ⟨us, vs, t, bs, u, rfl, hvs, rfl, hbs, hus, hu, hleft⟩
        · exact .inl ⟨after, by simp, rfl⟩
        · exact .inr ⟨w :: us, vs, blanks ++ (word ++ t), bs, u, rfl, hvs, by simp, hbs,
            .cons hne hblanks hword hus, hu, hleft⟩
      · exact .inr ⟨[], w :: ws, [], cs, _, rfl, by simp, rfl,
          fun c hc => hblanks c (List.mem_append_left _ hc), .nil, hwhole, hsplit⟩

/-- Of two rows of words read in one place, the one whose text reaches less far begins the other. -/
theorem words_prefix (hws : SpellsOn ws text) (hvs : SpellsOn vs t) (h : t ++ more = text)
    (hmore : StopsWord more) : vs <+: ws := by
  induction hvs generalizing ws text with
  | nil => exact List.nil_prefix
  | @cons v word blanks rest vs hne hblanks hword hrest ih =>
      cases hws with
      | nil => simp [hne] at h
      | @cons w word' blanks' rest' ws' hne' hblanks' hword' hrest' =>
          -- Blanks, word and rest are the same in both texts.
          have hparts : blanks ++ (word ++ (rest ++ more)) = blanks' ++ (word' ++ rest') := by
            simpa using h
          obtain ⟨-, hwords⟩ := append_inj_of_class hparts hblanks (hword.head_isBlank _) hblanks'
            (hword'.head_isBlank _)
          obtain ⟨rfl, hlater⟩ := append_inj_of_class hwords hword.isWordChar
            (hrest.stopsWord hmore) hword'.isWordChar hrest'.stopsWord_self
          rw [hword.unique hword', List.cons_prefix_cons]
          exact ⟨rfl, ih hrest' hlater⟩

/-- Words that are spelled are not all blanks. -/
theorem exists_solid (h : SpellsOn ws text) (hws : ws ≠ []) : ∃ c ∈ text, Text.isBlank c = false := by
  cases h with
  | nil => exact absurd rfl hws
  | cons _ _ hword _ =>
      obtain ⟨c, cs, rfl⟩ := List.exists_cons_of_ne_nil hword.word_ne_nil
      exact ⟨c, by simp, not_isBlank_of_isWordChar (hword.isWordChar c List.mem_cons_self)⟩

/-- Words are not read in blanks. -/
theorem not_in_blanks {as bs : List Char} (h : SpellsOn ws text) (hws : ws ≠ [])
    (has : ∀ c ∈ as, Text.isBlank c = true) (hbs : ∀ c ∈ bs, Text.isBlank c = true) :
    text ++ left ≠ as ++ bs := by
  intro hsplit
  obtain ⟨c, hc, hsolid⟩ := h.exists_solid hws
  have hmem : c ∈ as ++ bs := by
    rw [← hsplit]
    exact List.mem_append_left _ hc
  rw [(List.mem_append.1 hmem).elim (has c) (hbs c)] at hsolid
  cases hsolid

end SpellsOn

namespace Spells

variable {ws vs : List (List Char)} {text t left more cs rest : List Char}

theorem ne_nil (h : Spells ws text) : ws ≠ [] := by
  rintro rfl
  exact h

theorem text_ne_nil (h : Spells ws text) : text ≠ [] := by
  obtain ⟨w, ws, rfl⟩ := List.exists_cons_of_ne_nil h.ne_nil
  obtain ⟨word, more, hword, -, rfl⟩ := h
  exact List.append_ne_nil_of_left_ne_nil hword.word_ne_nil more

/-- Spelled words behind a space. -/
theorem spellsOn (h : Spells ws text) : SpellsOn ws ([' '] ++ text) := by
  obtain ⟨w, ws, rfl⟩ := List.exists_cons_of_ne_nil h.ne_nil
  obtain ⟨word, more, hword, hmore, rfl⟩ := h
  exact .cons (by simp) (by decide) hword hmore

/-- What begins with spelled words begins with a word character. -/
theorem head (h : Spells ws text) (rest : List Char) :
    ∀ c ∈ (text ++ rest).head?, Text.isWordChar c = true := by
  obtain ⟨w, ws, rfl⟩ := List.exists_cons_of_ne_nil h.ne_nil
  obtain ⟨word, more, hword, -, rfl⟩ := h
  rw [List.append_assoc]
  exact hword.head _

/-- A phrase that is read in two texts, one behind the other, is read in the first, or the reading
goes on into the second between two words. -/
theorem append_cases (h : Spells ws text) (hsplit : text ++ left = cs ++ rest)
    (hrest : StopsWord rest) :
    (∃ more, cs = text ++ more ∧ left = more ++ rest) ∨
    ∃ us vs t blanks u, ws = us ++ vs ∧ vs ≠ [] ∧ cs = t ++ blanks ∧
      (∀ c ∈ blanks, Text.isBlank c = true) ∧ Spells us t ∧ SpellsOn vs u ∧
      u ++ left = blanks ++ rest := by
  obtain ⟨w, ws, rfl⟩ := List.exists_cons_of_ne_nil h.ne_nil
  obtain ⟨word, more, hword, hmore, rfl⟩ := h
  rw [List.append_assoc] at hsplit
  obtain ⟨a, rfl, hlater⟩ := hword.exists_append hsplit hrest
  rcases hmore.append_cases hlater hrest with
    ⟨after, rfl, rfl⟩ | ⟨us, vs, t, blanks, u, rfl, hvs, rfl, hblanks, hus, hu, hleft⟩
  · exact .inl ⟨after, by simp, rfl⟩
  · exact .inr ⟨w :: us, vs, word ++ t, blanks, u, rfl, hvs, by simp, hblanks,
      ⟨word, t, hword, hus, rfl⟩, hu, hleft⟩

/-- Of two phrases read in one place, the one whose text reaches less far begins the other. -/
theorem words_prefix (hws : Spells ws text) (hvs : Spells vs t) (h : t ++ more = text)
    (hmore : StopsWord more) : vs <+: ws := by
  obtain ⟨w, ws, rfl⟩ := List.exists_cons_of_ne_nil hws.ne_nil
  obtain ⟨v, vs, rfl⟩ := List.exists_cons_of_ne_nil hvs.ne_nil
  obtain ⟨word, rest, hword, hrest, rfl⟩ := hws
  obtain ⟨word', rest', hword', hrest', rfl⟩ := hvs
  rw [List.append_assoc] at h
  obtain ⟨rfl, hlater⟩ := append_inj_of_class h hword'.isWordChar (hrest'.stopsWord hmore)
    hword.isWordChar hrest.stopsWord_self
  rw [hword'.unique hword, List.cons_prefix_cons]
  exact ⟨rfl, hrest.words_prefix hrest' hlater hmore⟩

theorem append (hws : Spells ws text) (hvs : SpellsOn vs t) : Spells (ws ++ vs) (text ++ t) := by
  obtain ⟨w, ws, rfl⟩ := List.exists_cons_of_ne_nil hws.ne_nil
  obtain ⟨word, more, hword, hmore, rfl⟩ := hws
  exact ⟨word, more ++ t, hword, hmore.append hvs, by simp⟩

theorem split (h : Spells (ws ++ vs) text) (hws : ws ≠ []) :
    ∃ t u, text = t ++ u ∧ Spells ws t ∧ SpellsOn vs u := by
  obtain ⟨w, ws, rfl⟩ := List.exists_cons_of_ne_nil hws
  obtain ⟨word, more, hword, hmore, rfl⟩ := h
  obtain ⟨t, u, rfl, ht, hu⟩ := hmore.split
  exact ⟨word ++ t, u, by simp, ⟨word, t, hword, ht, rfl⟩, hu⟩

/-- A text spells one row of words only. -/
theorem unique (hws : Spells ws text) (hvs : Spells vs text) : ws = vs := by
  have hnil : StopsWord [] := by simp [StopsWord]
  exact (hvs.words_prefix hws (List.append_nil text) hnil).eq_of_length_le
    (hws.words_prefix hvs (List.append_nil text) hnil).length_le

/-- Spelled words do not end in blanks. -/
theorem eq_nil_of_blanks {blanks : List Char} (h : Spells ws (t ++ blanks))
    (hblanks : ∀ c ∈ blanks, Text.isBlank c = true) : blanks = [] := by
  rcases h.append_cases (List.append_nil _) (.of_blanks hblanks) with
    ⟨more, hcs, -⟩ | ⟨us, vs, s, bs, u, -, hvs, -, hbs, -, hu, hall⟩
  · have hlength := congrArg List.length hcs
    simp only [List.length_append] at hlength
    exact List.eq_nil_of_length_eq_zero (by omega)
  · exact absurd hall (hu.not_in_blanks hvs hbs hblanks)

end Spells

/-! ## Reading -/

/-- Words of letters. -/
def AreWorded (ws : List (List Char)) : Prop := ∀ w ∈ ws, w ≠ [] ∧ ∀ a ∈ w, a ∈ letters

theorem blanks_append {blanks rest : List Char} (h : ∀ c ∈ blanks, Text.isBlank c = true)
    (hrest : BeginsSolid rest) :
    Text.takeBlanks (blanks ++ rest) = blanks ∧ Text.dropBlanks (blanks ++ rest) = rest := by
  have hdrop : Text.dropBlanks rest = rest := by
    have hsplit := Text.takeBlanks_append_dropBlanks rest
    rwa [takeBlanks_eq_nil hrest, List.nil_append] at hsplit
  constructor
  · rw [Text.takeBlanks, List.takeWhile_append_of_pos h, ← Text.takeBlanks, takeBlanks_eq_nil hrest,
      List.append_nil]
  · rw [Text.dropBlanks, List.dropWhile_append_of_pos h, ← Text.dropBlanks, hdrop]

theorem readWords?_eq_some_iff {ws : List (List Char)} (hws : AreWorded ws)
    {cs text rest : List Char} :
    Phrase.readWords? ws cs = some (text, rest) ↔ SpellsOn ws text ∧ text ++ rest = cs := by
  induction ws generalizing cs text with
  | nil =>
      rw [Phrase.readWords?]
      constructor
      · rintro ⟨⟩
        exact ⟨.nil, rfl⟩
      · rintro ⟨⟨⟩, rfl⟩
        rfl
  | cons w ws ih =>
      obtain ⟨hne, hletters⟩ := hws w List.mem_cons_self
      have ih {cs text : List Char} := @ih (fun v hv => hws v (List.mem_cons_of_mem _ hv)) cs text
      constructor
      · intro h
        have hcs := Phrase.readWords?_append h
        rw [Phrase.readWords?] at h
        split at h
        · cases h
        next hblanks =>
          obtain ⟨⟨word, left⟩, hword, h⟩ := Option.bind_eq_some_iff.1 h
          obtain ⟨⟨more, left'⟩, hmore, h⟩ := Option.bind_eq_some_iff.1 h
          cases h
          refine ⟨?_, hcs⟩
          rw [List.append_assoc]
          refine .cons (by simpa using hblanks) ?_ ?_ (ih.1 hmore).1
          · exact fun c hc => List.all_eq_true.1 List.all_takeWhile c hc
          · exact ⟨hne, hletters, (readWord?_eq_some_iff.1 hword).1⟩
      · rintro ⟨hspelled, rfl⟩
        cases hspelled with
        | @cons _ word blanks more _ hnil hblanks hword hmore =>
            obtain ⟨htake, hdrop⟩ := blanks_append hblanks (hword.head_isBlank (more ++ rest))
            have hread := @readWord?_eq_some_iff w _ word (more ++ rest) |>.2 ⟨hword.spelled, rfl⟩
            simp [Phrase.readWords?, htake, hdrop, hnil, hread, ih.2 ⟨hmore, rfl⟩]

theorem phrases_worded : ∀ p ∈ Phrase.comparisons ++ Phrase.connectives, AreWorded p.words :=
  fun p hp w hw => ⟨(phrases_haveRows p hp).2 w hw, (phrases_checked p hp).1 w hw⟩

/-- A phrase is read where a text begins with a spelling of it and no word goes on behind that. -/
theorem Phrase.read?_eq_some_iff {p : Phrase} (hp : AreWorded p.words) {cs text rest : List Char} :
    p.read? cs = some (text, rest) ↔ Spells p.words text ∧ text ++ rest = cs ∧ StopsWord rest := by
  unfold Phrase.read?
  cases hwords : p.words with
  | nil => simp [Spells]
  | cons w ws =>
      rw [hwords] at hp
      obtain ⟨hne, hletters⟩ := hp w List.mem_cons_self
      have hws : AreWorded ws := fun v hv => hp v (List.mem_cons_of_mem _ hv)
      constructor
      · intro h
        obtain ⟨⟨word, left⟩, hword, h⟩ := Option.bind_eq_some_iff.1 h
        obtain ⟨⟨more, left'⟩, hmore, h⟩ := Option.bind_eq_some_iff.1 h
        simp only at h
        split at h
        next hend =>
          cases h
          obtain ⟨hspelled, rfl⟩ := readWord?_eq_some_iff.1 hword
          obtain ⟨hon, rfl⟩ := (readWords?_eq_some_iff hws).1 hmore
          exact ⟨⟨word, more, ⟨hne, hletters, hspelled⟩, hon, rfl⟩, by simp, endsHere_iff.1 hend⟩
        · cases h
      · rintro ⟨⟨word, more, hword, hmore, rfl⟩, rfl, hend⟩
        have hread := @readWord?_eq_some_iff w _ word (more ++ rest) |>.2 ⟨hword.spelled, rfl⟩
        have hreads := (@readWords?_eq_some_iff ws hws _ more rest).2 ⟨hmore, rfl⟩
        simp [hread, hreads, endsHere_iff.2 hend]

/-! ## Readings that go on -/

/-- Words that are read at the beginning of a text. -/
def ReadsAt (ws : List (List Char)) (cs : List Char) : Prop :=
  ∃ text rest, Spells ws text ∧ text ++ rest = cs ∧ StopsWord rest

/-- Words that are read at the beginning of a text with blanks before each of them. -/
def ReadsOn (ws : List (List Char)) (cs : List Char) : Prop :=
  ∃ text rest, SpellsOn ws text ∧ text ++ rest = cs ∧ StopsWord rest

/-- Words that are begun in a text and go on into what follows it, between two of them. -/
def CrossesInto (ws : List (List Char)) (cs rest : List Char) : Prop :=
  ∃ us vs t blanks, ws = us ++ vs ∧ vs ≠ [] ∧ cs = t ++ blanks ∧
    (∀ c ∈ blanks, Text.isBlank c = true) ∧ Spells us t ∧ ReadsOn vs (blanks ++ rest)

theorem isSome_read?_iff {p : Phrase} (hp : AreWorded p.words) {cs : List Char} :
    (p.read? cs).isSome ↔ ReadsAt p.words cs := by
  simp only [Option.isSome_iff_exists, Prod.exists, Phrase.read?_eq_some_iff hp, ReadsAt]

theorem readsOn_nil {cs : List Char} : ReadsOn [] cs ↔ StopsWord cs := by
  constructor
  · rintro ⟨_, _, ⟨⟩, rfl, h⟩
    exact h
  · exact fun h => ⟨[], cs, .nil, rfl, h⟩

theorem readsAt_cons {w : List Char} {ws : List (List Char)} {cs : List Char} :
    ReadsAt (w :: ws) cs ↔ ∃ word more, SpellsWord w word ∧ cs = word ++ more ∧ ReadsOn ws more := by
  constructor
  · rintro ⟨_, rest, ⟨word, more, hword, hmore, rfl⟩, rfl, hrest⟩
    exact ⟨word, more ++ rest, hword, by simp, more, rest, hmore, rfl, hrest⟩
  · rintro ⟨word, _, hword, rfl, more, rest, hmore, rfl, hrest⟩
    exact ⟨word ++ more, rest, ⟨word, more, hword, hmore, rfl⟩, by simp, hrest⟩

/-- Words behind blanks are read as what follows the blanks. -/
theorem readsOn_iff {ws : List (List Char)} (hws : ws ≠ []) {cs : List Char} :
    ReadsOn ws cs ↔ Text.takeBlanks cs ≠ [] ∧ ReadsAt ws (Text.dropBlanks cs) := by
  obtain ⟨w, ws, rfl⟩ := List.exists_cons_of_ne_nil hws
  constructor
  · rintro ⟨_, rest, hspelled, rfl, hrest⟩
    cases hspelled with
    | @cons _ word blanks more _ hne hblanks hword hmore =>
        obtain ⟨htake, hdrop⟩ := blanks_append hblanks (hword.head_isBlank (more ++ rest))
        refine ⟨by simpa [htake] using hne, word ++ more, rest, ⟨word, more, hword, hmore, rfl⟩, ?_, hrest⟩
        simpa using hdrop.symm
  · rintro ⟨hne, _, rest, ⟨word, more, hword, hmore, rfl⟩, hdrop, hrest⟩
    have hblanks : ∀ c ∈ Text.takeBlanks cs, Text.isBlank c = true :=
      fun c hc => List.all_eq_true.1 List.all_takeWhile c hc
    have hsplit := Text.takeBlanks_append_dropBlanks cs
    rw [← hdrop] at hsplit
    exact ⟨_, rest, .cons hne hblanks hword hmore, by simpa using hsplit, hrest⟩

theorem ReadsOn.stopsWord {ws : List (List Char)} {cs : List Char} (h : ReadsOn ws cs) :
    StopsWord cs := by
  obtain ⟨text, rest, htext, rfl, hrest⟩ := h
  exact htext.stopsWord hrest

/-- What is read begins with a letter of an operator. -/
theorem ReadsAt.exists_cons {ws : List (List Char)} {cs : List Char} (h : ReadsAt ws cs) :
    ∃ c ds, cs = c :: ds ∧ ∃ a ∈ letters, Phrase.spells a c = true := by
  obtain ⟨text, rest, hspells, rfl, -⟩ := h
  obtain ⟨w, ws, rfl⟩ := List.exists_cons_of_ne_nil hspells.ne_nil
  obtain ⟨word, more, ⟨hne, hletters, hspelled⟩, -, rfl⟩ := hspells
  cases hspelled with
  | nil => exact absurd rfl hne
  | cons ha _ => exact ⟨_, _, rfl, _, hletters _ List.mem_cons_self, ha⟩

/-- Where words are read, the first of them are read. -/
theorem ReadsAt.of_append {us vs : List (List Char)} {cs : List Char} (h : ReadsAt (us ++ vs) cs)
    (hus : us ≠ []) : ReadsAt us cs := by
  obtain ⟨text, rest, hspells, rfl, hstop⟩ := h
  obtain ⟨t, u, rfl, ht, hu⟩ := hspells.split hus
  exact ⟨t, u ++ rest, ht, by simp, hu.stopsWord hstop⟩

/-- What is read of spelled words with nothing but blanks behind them are the first of these. -/
theorem ReadsOn.words_prefix {us vs : List (List Char)} {t blanks : List Char}
    (h : ReadsOn vs (t ++ blanks)) (ht : SpellsOn us t)
    (hblanks : ∀ c ∈ blanks, Text.isBlank c = true) : vs <+: us := by
  obtain ⟨text, rest, htext, hsplit, hstop⟩ := h
  rcases htext.append_cases hsplit (.of_blanks hblanks) with
    ⟨more, rfl, rfl⟩ | ⟨-, vs', -, bs, u, -, hvs, -, hbs, -, hu, hleft⟩
  · exact ht.words_prefix htext rfl hstop.of_append
  · exact absurd hleft (hu.not_in_blanks hvs hbs hblanks)

theorem ReadsAt.words_prefix {us vs : List (List Char)} {t blanks : List Char}
    (h : ReadsAt vs (t ++ blanks)) (ht : Spells us t)
    (hblanks : ∀ c ∈ blanks, Text.isBlank c = true) : vs <+: us := by
  obtain ⟨text, rest, htext, hsplit, hstop⟩ := h
  have hon : ReadsOn vs (([' '] ++ t) ++ blanks) :=
    ⟨[' '] ++ text, rest, htext.spellsOn, by simp [hsplit], hstop⟩
  exact hon.words_prefix ht.spellsOn hblanks

section Append

variable {ws : List (List Char)} {cs rest : List Char}

/-- Words that are read in a text are read there whatever stops words behind it. -/
theorem ReadsAt.append (h : ReadsAt ws cs) (hrest : StopsWord rest) : ReadsAt ws (cs ++ rest) := by
  obtain ⟨text, left, hspells, rfl, hstop⟩ := h
  exact ⟨text, left ++ rest, hspells, by simp, hstop.append hrest⟩

theorem CrossesInto.readsAt (h : CrossesInto ws cs rest) : ReadsAt ws (cs ++ rest) := by
  obtain ⟨us, vs, t, blanks, rfl, -, rfl, -, hus, u, left, hu, hleft, hstop⟩ := h
  exact ⟨t ++ u, left, hus.append hu, by simp [hleft], hstop⟩

/-- Words that are read in two texts, one behind the other, are read in the first or go on into the
second. -/
theorem ReadsAt.cases_append (h : ReadsAt ws (cs ++ rest)) (hrest : StopsWord rest) :
    ReadsAt ws cs ∨ CrossesInto ws cs rest := by
  obtain ⟨text, left, hspells, hsplit, hstop⟩ := h
  rcases hspells.append_cases hsplit hrest with
    ⟨more, rfl, rfl⟩ | ⟨us, vs, t, blanks, u, hwords, hvs, hcs, hblanks, hus, hu, hleft⟩
  · exact .inl ⟨text, more, hspells, rfl, hstop.of_append⟩
  · exact .inr ⟨us, vs, t, blanks, hwords, hvs, hcs, hblanks, hus, u, left, hu, hleft, hstop⟩

/-- A phrase that does not go on into what follows is read as if nothing followed. -/
theorem Phrase.read?_append_of_not_crosses {p : Phrase} (hp : AreWorded p.words)
    (hrest : StopsWord rest) (hcross : ¬ CrossesInto p.words cs rest) :
    p.read? (cs ++ rest) = (p.read? cs).map fun (text, left) => (text, left ++ rest) := by
  cases halone : p.read? cs with
  | some read =>
      obtain ⟨text, left⟩ := read
      obtain ⟨hspells, rfl, hstop⟩ := (Phrase.read?_eq_some_iff hp).1 halone
      exact (Phrase.read?_eq_some_iff hp).2 ⟨hspells, by simp, hstop.append hrest⟩
  | none =>
      have hnot : ¬ ReadsAt p.words cs := by simp [← isSome_read?_iff hp, halone]
      rw [Option.map_none, ← Option.not_isSome_iff_eq_none, isSome_read?_iff hp]
      exact fun h => (h.cases_append hrest).elim hnot hcross

end Append

/-- Phrases that do not go on into what follows are found as if nothing followed. -/
theorem firstOf_append_of_not_crosses {ps : List Phrase}
    (hps : ps ⊆ Phrase.comparisons ++ Phrase.connectives) {cs rest : List Char}
    (hrest : StopsWord rest) (hcross : ∀ p ∈ ps, ¬ CrossesInto p.words cs rest) :
    Phrase.firstOf ps (cs ++ rest) = Phrase.firstOf ps cs := by
  induction ps with
  | nil => rfl
  | cons p ps ih =>
      have hsame := Phrase.read?_append_of_not_crosses (phrases_worded p (hps List.mem_cons_self)) hrest
        (hcross p List.mem_cons_self)
      have ih := ih (fun q hq => hps (List.mem_cons_of_mem _ hq))
        fun q hq => hcross q (List.mem_cons_of_mem _ hq)
      unfold Phrase.firstOf at ih ⊢
      rw [List.findSome?_cons, List.findSome?_cons, ih, hsame, Option.map_map]
      rfl

/-! ## Lower case -/

/-- Only the lower case of a capital sigma depends on what stands around it. -/
theorem lowerFrom_eq_flatMap {cs : List Char} (h : 'Σ' ∉ cs) (before : List Char) :
    Text.lowerFrom before cs = cs.flatMap Text.lowerChar := by
  induction cs generalizing before with
  | nil => rfl
  | cons c cs ih =>
      obtain ⟨hc, hcs⟩ : 'Σ' ≠ c ∧ 'Σ' ∉ cs := by simpa using h
      rw [Text.lowerFrom, if_neg (Ne.symm hc), ih hcs, List.flatMap_cons]

/-- The lower case of characters that have one each. -/
theorem lowerChars_eq_map {f : Char → Char} {cs : List Char}
    (h : ∀ c ∈ cs, c ≠ 'Σ' ∧ Text.lowerChar c = [f c]) : Text.lowerChars cs = cs.map f := by
  have hsigma : 'Σ' ∉ cs := fun hmem => (h _ hmem).1 rfl
  rw [Text.lowerChars, lowerFrom_eq_flatMap hsigma, List.flatMap_congr fun c hc => (h c hc).2,
    List.map_eq_flatMap]

end Formula
