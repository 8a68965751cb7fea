import Mathlib.Data.List.Sections
import Formula.Proofs.Lexing.Wording

set_option autoImplicit false

/-! # The symbols of operators

The symbol that a phrase stands for is told by some of its words in lower case. A character may spell
a letter without being that letter in lower case; where such a character stands in a word that
decides, the symbol is not the one of the operator.

Main statement: `value_of_operator`. -/

namespace Formula

/-! ## Words of a text -/

section Words

variable {word blanks rest : List Char}

theorem wordsFrom_append (hword : ∀ c ∈ word, Text.isBlank c = false) (before rest : List Char) :
    Text.wordsFrom before (word ++ rest) = Text.wordsFrom (word.reverse ++ before) rest := by
  induction word generalizing before with
  | nil => rfl
  | cons c word ih =>
      have hc := hword c List.mem_cons_self
      rw [List.cons_append, Text.wordsFrom, if_neg (by simp [hc]),
        ih fun d hd => hword d (List.mem_cons_of_mem _ hd)]
      simp

/-- A word in front of blanks or at the end is the first word of a text. -/
theorem words_append (hne : word ≠ []) (hword : ∀ c ∈ word, Text.isBlank c = false)
    (hrest : ∀ c ∈ rest.head?, Text.isBlank c = true) :
    Text.words (word ++ rest) = word :: Text.words rest := by
  rw [Text.words, wordsFrom_append hword, List.append_nil]
  cases rest with
  | nil => simp [Text.words, Text.wordsFrom, hne]
  | cons c rest => simp [Text.words, Text.wordsFrom, hne, hrest c rfl]

/-- Blanks in front of a text add no word. -/
theorem words_blanks (h : ∀ c ∈ blanks, Text.isBlank c = true) (rest : List Char) :
    Text.words (blanks ++ rest) = Text.words rest := by
  induction blanks with
  | nil => rfl
  | cons b blanks ih =>
      rw [← ih fun c hc => h c (List.mem_cons_of_mem _ hc)]
      simp [Text.words, Text.wordsFrom, h b List.mem_cons_self]

theorem mem_of_mem_wordsFrom {before cs : List Char} {c : Char} (hc : c ∈ word)
    (h : word ∈ Text.wordsFrom before cs) : c ∈ before ∨ c ∈ cs := by
  induction cs generalizing before with
  | nil =>
      rw [Text.wordsFrom] at h
      split at h
      · cases h
      · rw [List.mem_singleton.1 h] at hc
        exact .inl (List.mem_reverse.1 hc)
  | cons d cs ih =>
      have hlater (hrest : word ∈ Text.wordsFrom [] cs) : c ∈ before ∨ c ∈ d :: cs :=
        .inr (List.mem_cons_of_mem _ (by simpa using ih hrest))
      rw [Text.wordsFrom] at h
      split at h
      · split at h
        · exact hlater h
        · rcases List.mem_cons.1 h with rfl | h
          · exact .inl (List.mem_reverse.1 hc)
          · exact hlater h
      · rcases ih h with hbefore | hcs
        · rcases List.mem_cons.1 hbefore with rfl | hbefore
          · exact .inr List.mem_cons_self
          · exact .inl hbefore
        · exact .inr (List.mem_cons_of_mem _ hcs)

/-- Words are made of characters of the text. -/
theorem mem_of_mem_words {cs : List Char} {c : Char} (h : word ∈ Text.words cs) (hc : c ∈ word) :
    c ∈ cs :=
  (mem_of_mem_wordsFrom hc h).resolve_left List.not_mem_nil

end Words

/-! ## Lower case -/

/-- What the lower case of a character that spells the letter may be. -/
def lowered (a : Char) : List (List Char) :=
  if a = 'i' then [['i'], ['i', '\u0307'], ['\u0131']]
  else if a = 's' then [['s'], ['\u017f']]
  else [[a]]

/-- What the lower case of a text that spells the word may be. -/
def loweredWord : List Char → List (List Char)
  | [] => [[]]
  | a :: w => (lowered a).flatMap fun cs => (loweredWord w).map (cs ++ ·)

theorem lowered_checked :
    (∀ d ∈ lookalikes, Text.lowerChar d ∈ lowered (letterOf d)) ∧
    ∀ a ∈ letters, [a] ∈ lowered a ∧
      ∀ cs ∈ lowered a, cs ≠ [] ∧ ∀ c ∈ cs, Text.isBlank c = false := by
  decide +kernel

theorem lowerChar_mem_lowered {a c : Char} (ha : a ∈ letters) (h : Phrase.spells a c = true) :
    Text.lowerChar c ∈ lowered a := by
  rcases mem_of_spells h with hc | hc
  · rw [eq_letterOf ha h]
    exact lowered_checked.1 c hc
  · rw [(letters_checked.2 a ha c hc).2.2]
    exact (lowered_checked.2 a ha).1

theorem SpellsWord.lower_mem {w word : List Char} (h : SpellsWord w word) :
    word.flatMap Text.lowerChar ∈ loweredWord w := by
  obtain ⟨-, hletters, hspelled⟩ := h
  induction hspelled with
  | nil => exact List.mem_singleton_self []
  | cons hc _ ih =>
      have hfirst := lowerChar_mem_lowered (hletters _ List.mem_cons_self) hc
      have hmore := ih fun b hb => hletters b (List.mem_cons_of_mem _ hb)
      rw [List.flatMap_cons, loweredWord]
      exact List.mem_flatMap.2 ⟨_, hfirst, List.mem_map.2 ⟨_, hmore, rfl⟩⟩

/-- The lower case of a spelled word is a word. -/
theorem SpellsWord.lower_isWord {w word : List Char} (h : SpellsWord w word) :
    word.flatMap Text.lowerChar ≠ [] ∧ ∀ c ∈ word.flatMap Text.lowerChar, Text.isBlank c = false := by
  have hlowered {c : Char} (hc : c ∈ word) :=
    (lowered_checked.2 _ (h.letterOf_mem hc)).2 _
      (lowerChar_mem_lowered (h.letterOf_mem hc) (spells_letterOf c))
  constructor
  · obtain ⟨c, cs, rfl⟩ := List.exists_cons_of_ne_nil h.word_ne_nil
    rw [List.flatMap_cons]
    exact List.append_ne_nil_of_left_ne_nil (hlowered List.mem_cons_self).1 _
  · intro d hd
    obtain ⟨c, hc, hd⟩ := List.mem_flatMap.1 hd
    exact (hlowered hc).2 d hd

theorem lowerChar_of_isBlank {c : Char} (h : Text.isBlank c = true) : Text.lowerChar c = [c] := by
  have hall : ∀ n ∈ codesIn Text.blankRanges, Text.lowerChar (Char.ofNat n) = [Char.ofNat n] := by
    decide +kernel
  have hcode := hall _ (mem_codesIn h)
  rwa [Char.ofNat_toNat] at hcode

theorem lower_blanks {blanks : List Char} (h : ∀ c ∈ blanks, Text.isBlank c = true) :
    blanks.flatMap Text.lowerChar = blanks := by
  rw [List.flatMap_congr fun c hc => lowerChar_of_isBlank (h c hc), List.flatMap_singleton']

/-- Nothing that is spelled has the letter whose lower case depends on what stands around it. -/
theorem lowerChars_eq_flatMap {cs : List Char}
    (h : ∀ c ∈ cs, Text.isBlank c = true ∨ letterOf c ∈ letters) :
    Text.lowerChars cs = cs.flatMap Text.lowerChar := by
  have hnone : Text.isBlank 'Σ' = false ∧ letterOf 'Σ' ∉ letters := by decide
  refine lowerFrom_eq_flatMap (fun hmem => ?_) []
  rcases h _ hmem with hblank | hletter
  · rw [hnone.1] at hblank
    cases hblank
  · exact hnone.2 hletter

/-- A word is read back from its lower case if it is spelled with its own letters. -/
theorem SpellsWord.lower_eq {w word : List Char} (h : SpellsWord w word)
    (hplain : ∀ c ∈ word, c ∉ lookalikes) : word.flatMap Text.lowerChar = w := by
  have heach : ∀ c ∈ word, Text.lowerChar c = [letterOf c] := fun c hc =>
    (letters_checked.2 _ (h.letterOf_mem hc) c
      ((mem_of_spells (spells_letterOf c)).resolve_left (hplain c hc))).2.2
  rw [List.flatMap_congr heach, ← List.map_eq_flatMap, ← h.eq_map]

/-- What becomes a word of letters is spelled with the letters of that word. -/
theorem SpellsWord.of_lower_eq {w v word : List Char} (h : SpellsWord w word)
    (hv : ∀ a ∈ v, a ∈ Formula.letters) (hlower : word.flatMap Text.lowerChar = v) :
    w = v ∧ ∀ c ∈ word, c ∉ lookalikes := by
  have hplain : ∀ c ∈ word, c ∉ lookalikes := by
    intro c hc hlike
    obtain ⟨-, -, d, hd, hnot⟩ := letters_checked.1 c hlike
    exact hnot (hv d (by rw [← hlower]; exact List.mem_flatMap.2 ⟨c, hc, hd⟩))
  exact ⟨by rw [← hlower, h.lower_eq hplain], hplain⟩

/-- A word whose letters are spelled in one way is read back from its lower case. -/
theorem SpellsWord.lowerChars_eq {w word : List Char} (h : SpellsWord w word)
    (hw : loweredWord w = [w]) : Text.lowerChars word = w := by
  have hmem := h.lower_mem
  rw [hw, List.mem_singleton] at hmem
  rw [lowerChars_eq_flatMap fun c hc => .inr (h.letterOf_mem hc), hmem]

section Spelled

variable {ws : List (List Char)} {text : List Char}

/-- Spelled words are made of blanks and of characters that spell letters. -/
theorem SpellsOn.blank_or_letter (h : SpellsOn ws text) :
    ∀ c ∈ text, Text.isBlank c = true ∨ letterOf c ∈ letters := by
  induction h with
  | nil => simp
  | cons _ hblanks hword _ ih =>
      intro c hc
      rcases List.mem_append.1 hc with hc | hc
      · exact .inl (hblanks c hc)
      · rcases List.mem_append.1 hc with hc | hc
        · exact .inr (hword.letterOf_mem hc)
        · exact ih c hc

theorem Spells.blank_or_letter (h : Spells ws text) :
    ∀ c ∈ text, Text.isBlank c = true ∨ letterOf c ∈ letters :=
  fun c hc => h.spellsOn.blank_or_letter c (List.mem_append_right _ hc)

/-- The words of a text that spells words, and of its lower case. -/
theorem SpellsOn.words (h : SpellsOn ws text) :
    List.Forall₂ SpellsWord ws (Text.words text) ∧
      Text.words (text.flatMap Text.lowerChar) =
        (Text.words text).map fun word => word.flatMap Text.lowerChar := by
  have hhead {us : List (List Char)} {t : List Char} (ht : SpellsOn us t) :
      (∀ c ∈ t.head?, Text.isBlank c = true) ∧
        ∀ c ∈ (t.flatMap Text.lowerChar).head?, Text.isBlank c = true := by
    cases ht with
    | nil => simp
    | @cons _ _ blanks _ _ hne hblanks _ _ =>
        rw [List.flatMap_append, lower_blanks hblanks]
        obtain ⟨b, blanks, rfl⟩ := List.exists_cons_of_ne_nil hne
        simpa using hblanks b List.mem_cons_self
  induction h with
  | nil => exact ⟨.nil, rfl⟩
  | @cons w word blanks rest ws hne hblanks hword hrest ih =>
      obtain ⟨hspelled, hlower⟩ := ih
      obtain ⟨hnil, hsolid⟩ := hword.lower_isWord
      rw [List.flatMap_append, List.flatMap_append, lower_blanks hblanks, words_blanks hblanks,
        words_blanks hblanks, words_append hword.word_ne_nil hword.isSolid (hhead hrest).1,
        words_append hnil hsolid (hhead hrest).2, hlower]
      exact ⟨.cons hword hspelled, rfl⟩

theorem Spells.words (h : Spells ws text) :
    List.Forall₂ SpellsWord ws (Text.words text) ∧
      Text.words (Text.lowerChars text) =
        (Text.words text).map fun word => word.flatMap Text.lowerChar := by
  have hspace : ∀ c ∈ [' '], Text.isBlank c = true := by decide
  obtain ⟨hspelled, hlower⟩ := h.spellsOn.words
  rw [List.flatMap_append, lower_blanks hspace, words_blanks hspace, words_blanks hspace] at hlower
  rw [words_blanks hspace] at hspelled
  rw [lowerChars_eq_flatMap h.blank_or_letter]
  exact ⟨hspelled, hlower⟩

/-- The words of a row and of its spelling correspond. -/
theorem exists_spellsWord {words : List (List Char)} (h : List.Forall₂ SpellsWord ws words) :
    (∀ w ∈ ws, ∃ word ∈ words, SpellsWord w word) ∧ ∀ word ∈ words, ∃ w ∈ ws, SpellsWord w word := by
  induction h with
  | nil => simp
  | cons hword _ ih =>
      obtain ⟨hof, hby⟩ := ih
      simp only [List.forall_mem_cons, List.exists_mem_cons_iff]
      exact ⟨⟨.inl hword, fun w hw => .inr (hof w hw)⟩, .inl hword, fun word hw => .inr (hby word hw)⟩

end Spelled

/-! ## Symbols -/

/-- The symbol that lower-case words stand for, if they stand for one. -/
def symbolOf? (words : List (List Char)) : Option String :=
  let phrase := String.ofList (Phrase.joinWords words)
  if phrase = "&&" then some "and"
  else if phrase = "||" then some "or"
  else if phrase = "and" ∨ phrase = "or" ∨ phrase = "in" ∨ phrase = "not in" then some phrase
  else if words.contains "greater".toList then
    some (if words.contains "equal".toList then ">=" else ">")
  else if words.contains "less".toList then some (if words.contains "equal".toList then "<=" else "<")
  else if Phrase.statesEquality words then some (if words.contains "not".toList then "!=" else "==")
  else none

theorem canonical_eq (s : String) :
    Phrase.canonical s = (symbolOf? (Text.words (Text.lowerChars s.toList))).getD s := by
  unfold Phrase.canonical symbolOf?
  simp only [apply_ite (fun o : Option String => o.getD s), Option.getD_some, Option.getD_none,
    List.contains_iff_mem]

/-- The words of a phrase whose letters its symbol is told by, among those that can be spelled with
other letters. -/
def deciding (ws : List String) : List String :=
  if "less" ∈ ws then ["less"]
  else if "in" ∈ ws then ["in"]
  else if ws = ["is"] ∨ ws = ["is", "not"] then ["is"]
  else []

theorem mem_of_mem_deciding {ws : List String} {w : String} (h : w ∈ deciding ws) : w ∈ ws := by
  unfold deciding at h
  split at h
  next hless => rwa [List.mem_singleton.1 h]
  · split at h
    next hin => rwa [List.mem_singleton.1 h]
    · split at h
      next his =>
        rw [List.mem_singleton.1 h]
        rcases his with rfl | rfl <;> simp
      · cases h

theorem deciding_checked : ∀ op ∈ Operator.all, ∀ ws ∈ op.wordings,
    ∀ ls ∈ List.sections ((ws.map String.toList).map loweredWord),
      (symbolOf? ls = some op.symbol ↔ ∀ w ∈ deciding ws, w.toList ∈ ls) ∧
        (symbolOf? ls = none → ls ≠ Text.words (Text.lowerChars op.symbol.toList)) := by
  decide +kernel

/-- A text that spells an operator is mapped to its symbol exactly if the deciding words are found
in its lower case. -/
theorem canonical_eq_symbol_iff {op : Operator} {ws : List String} {text : String}
    (hws : ws ∈ op.wordings) (h : Spells (ws.map String.toList) text.toList) :
    Phrase.canonical text = op.symbol ↔
      ∀ w ∈ deciding ws, w.toList ∈ Text.words (Text.lowerChars text.toList) := by
  have hlowered : Text.words (Text.lowerChars text.toList) ∈
      List.sections ((ws.map String.toList).map loweredWord) := by
    obtain ⟨hspelled, hlower⟩ := h.words
    rw [List.mem_sections, List.forall₂_map_right_iff, hlower, List.forall₂_map_left_iff]
    exact hspelled.flip.imp fun _ _ hword => hword.lower_mem
  obtain ⟨hdeciding, hnone⟩ := deciding_checked op op.mem_all ws hws _ hlowered
  rw [← hdeciding, canonical_eq]
  cases hsymbol : symbolOf? (Text.words (Text.lowerChars text.toList)) with
  | some symbol => simp
  | none =>
      -- A text that is given back as it stands is not the symbol.
      simp only [Option.getD_none, reduceCtorEq, iff_false]
      intro htext
      exact hnone hsymbol (by rw [htext])

/-- The words that decide on an operator are spelled with their own letters, in either case. -/
def Operator.IsToldBy (op : Operator) (text : String) : Prop :=
  ∀ ws ∈ op.wordings, Spells (ws.map String.toList) text.toList → ∀ w ∈ deciding ws,
    ∃ word ∈ Text.words text.toList, SpellsWord w.toList word ∧ ∀ c ∈ word, c ∉ lookalikes

/-- A deciding word is found in the lower case if it is spelled with its own letters. -/
theorem mem_words_lower_iff {ws : List String} {text : String} {w : String} (hw : w ∈ deciding ws)
    (h : Spells (ws.map String.toList) text.toList) :
    w.toList ∈ Text.words (Text.lowerChars text.toList) ↔
      ∃ word ∈ Text.words text.toList, SpellsWord w.toList word ∧ ∀ c ∈ word, c ∉ lookalikes := by
  obtain ⟨hspelled, hlower⟩ := h.words
  obtain ⟨hof, hby⟩ := exists_spellsWord hspelled
  rw [hlower, List.mem_map]
  constructor
  · rintro ⟨word, hword, hw'⟩
    obtain ⟨_, -, hletters⟩ := hof w.toList (List.mem_map_of_mem (mem_of_mem_deciding hw))
    obtain ⟨v, -, hv⟩ := hby word hword
    obtain ⟨rfl, hplain⟩ := hv.of_lower_eq hletters.letters hw'
    exact ⟨word, hword, hv, hplain⟩
  · rintro ⟨word, hword, hw', hplain⟩
    exact ⟨word, hword, hw'.lower_eq hplain⟩

/-- A text without the characters beyond ASCII that spell letters tells its operator. -/
theorem Operator.isToldBy_of_plain {op : Operator} {text : String}
    (h : ∀ c ∈ text.toList, c ∉ lookalikes) : op.IsToldBy text := by
  intro ws _ hspells w hw
  obtain ⟨word, hword, hspelled⟩ := (exists_spellsWord hspells.words.1).1 w.toList
    (List.mem_map_of_mem (mem_of_mem_deciding hw))
  exact ⟨word, hword, hspelled, fun c hc => h c (mem_of_mem_words hword hc)⟩

/-- What is written for an operator is mapped to its symbol exactly if the operator is told by it. -/
theorem Operator.IsWrittenAs.canonical_eq_iff {op : Operator} {text : String} (h : op.IsWrittenAs text) :
    Phrase.canonical text = op.symbol ↔ op.IsToldBy text := by
  rcases h with hsymbol | ⟨ws, hws, hspells⟩
  · have hnone (ws : List String) : ¬ Spells (ws.map String.toList) text.toList :=
      fun hspells => not_mem_symbols_of_spells hspells hsymbol
    simp [Operator.IsToldBy, (Operator.symbols_checked.1 op op.mem_all _ hsymbol).1, hnone]
  · rw [canonical_eq_symbol_iff hws hspells]
    constructor
    · intro hdeciding vs hvs hspells' w hw
      rw [wording_unique hspells' hspells] at hw
      exact (mem_words_lower_iff hw hspells).1 (hdeciding w hw)
    · exact fun htold w hw => (mem_words_lower_iff hw hspells).2 (htold ws hws hspells w hw)

/-- Every operator token is written for exactly one operator, and its value is the symbol of that
operator exactly if the words that decide are spelled with their own letters. -/
theorem value_of_operator {strict : Bool} {source : String} {ts : List Token} {t : Token}
    (h : tokenize strict source = .ok ts) (ht : t ∈ ts) (hkind : t.kind = .operator) :
    ∃ op : Operator, op.IsWrittenAs t.text ∧ (∀ op' : Operator, op'.IsWrittenAs t.text → op' = op) ∧
      (t.value = op.symbol ↔ op.IsToldBy t.text) := by
  rw [eq_tokensFrom_of_tokenize h] at ht
  obtain ⟨text, hmem, hvalue, htext⟩ := exists_lexeme_of_mem_tokensFrom ht
  rw [hkind] at hmem hvalue
  obtain ⟨c, cs, -, hfirst⟩ := exists_first_of_mem_scan hmem
  obtain ⟨op, hop⟩ := exists_isWrittenAs_of_first hfirst.symm
  rw [← htext] at hop
  have hcanonical : t.value = Phrase.canonical t.text := by rw [hvalue, htext, lexemeValue]
  refine ⟨op, hop, fun op' hop' => hop'.unique hop, ?_⟩
  rw [hcanonical]
  exact hop.canonical_eq_iff

/-- The long `s` does not matter in a word that does not decide. -/
theorem value_of_operator_longS :
    tokenize true "x i\u017f less than 3" =
        .ok [⟨.name, "x", 0, "x"⟩, ⟨.operator, "<", 1, "i\u017f less than"⟩, ⟨.number, "3", 2, "3"⟩] ∧
      ∃ op : Operator, op.IsWrittenAs "i\u017f less than" ∧
        (∀ op' : Operator, op'.IsWrittenAs "i\u017f less than" → op' = op) ∧
          ("<" = op.symbol ↔ op.IsToldBy "i\u017f less than") := by
  have h : tokenize true "x i\u017f less than 3" =
      .ok [⟨.name, "x", 0, "x"⟩, ⟨.operator, "<", 1, "i\u017f less than"⟩, ⟨.number, "3", 2, "3"⟩] := by
    rfl
  exact ⟨h, value_of_operator h (List.mem_cons_of_mem _ List.mem_cons_self) rfl⟩

/-- With the long `s` in `less` a text is read as the wrong comparison, and with a dotted capital in
`in` as no operator at all. -/
theorem value_misses_less :
    (∃ ts t, tokenize true "x is le\u017fs than y" = .ok ts ∧ t ∈ ts ∧ t.kind = .operator ∧
      ∀ op : Operator, op.IsWrittenAs t.text → t.value ≠ op.symbol) ∧
    ∃ ts t, tokenize true "x \u0130n y" = .ok ts ∧ t ∈ ts ∧ t.kind = .operator ∧
      Operator.ofSymbol? t.value = none := by
  have hread : Phrase.read? ⟨["is".toList, "less".toList, "than".toList], .less⟩
      "is le\u017fs than".toList = some ("is le\u017fs than".toList, []) := by decide
  have hwritten := Phrase.isWrittenAs_of_read? (by decide) hread
  rw [String.ofList_toList] at hwritten
  constructor
  · refine ⟨_, ⟨.operator, "==", 1, "is le\u017fs than"⟩, rfl, ?_, rfl, fun op hop => ?_⟩
    · exact List.mem_cons_of_mem _ List.mem_cons_self
    · rw [hop.unique hwritten]
      decide
  · refine ⟨_, ⟨.operator, "\u0130n", 1, "\u0130n"⟩, rfl, ?_, rfl, by decide⟩
    exact List.mem_cons_of_mem _ List.mem_cons_self

end Formula
