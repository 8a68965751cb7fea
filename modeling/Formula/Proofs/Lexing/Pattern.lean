import Formula.Token.Lexer

set_option autoImplicit false

/-! # Patterns of lexemes

What a lexeme is, said without saying how it is found: a table of patterns, and what it means for a
pattern to match a text between what stands before it and behind it. The table is in the order in
which the patterns are tried; the blanks come first and give no token.

Main statement: `Pattern.matches_iff_rows` (a pattern is a choice between rows of parts). -/

namespace Formula

/-! ## Characters -/

/-- What a pattern asks of a single character. -/
inductive CharClass where
  | exactly (c : Char)
  | otherThan (c : Char)
  /-- A letter in either case. -/
  | letter (a : Char)
  | blank
  | digit
  | word
  deriving DecidableEq, Repr

/-- Whether a character is of the class. -/
def CharClass.holds : CharClass → Char → Bool
  | exactly d, c => c == d
  | otherThan d, c => c != d
  | letter a, c => Phrase.spells a c
  | blank, c => Text.isBlank c
  | digit, c => Text.isDecimalDigit c
  | word, c => Text.isWordChar c

/-! ## Patterns -/

/-- A pattern of texts. -/
inductive Pattern where
  | empty
  | one (k : CharClass)
  | seq (p q : Pattern)
  | either (p q : Pattern)
  | many (p : Pattern)
  /-- Nothing, where a word begins or ends. -/
  | boundary
  deriving DecidableEq, Repr

namespace Pattern

/-- Whether a word begins or ends between two texts: just one of the characters there is a word
character. -/
def IsBoundary (before after : List Char) : Prop :=
  before.getLast?.any Text.isWordChar ≠ after.head?.any Text.isWordChar

/-- Texts that match one after the other, any number of them. -/
inductive Repeats (matching : List Char → List Char → List Char → Prop) :
    List Char → List Char → List Char → Prop
  | none {before after : List Char} : Repeats matching before [] after
  | more {before text rest after : List Char} : matching before text (rest ++ after) →
      Repeats matching (before ++ text) rest after → Repeats matching before (text ++ rest) after

/-- The pattern matches the text in the middle, between what stands before it and behind it. -/
def Matches : Pattern → List Char → List Char → List Char → Prop
  | empty, _, text, _ => text = []
  | one k, _, text, _ => ∃ c, text = [c] ∧ k.holds c = true
  | seq p q, before, text, after => ∃ first second, text = first ++ second ∧
      p.Matches before first (second ++ after) ∧ q.Matches (before ++ first) second after
  | either p q, before, text, after => p.Matches before text after ∨ q.Matches before text after
  | many p, before, text, after => Repeats p.Matches before text after
  | boundary, before, text, after => text = [] ∧ IsBoundary before after

/-! ## Composed patterns -/

/-- One pattern after the other. -/
def all (ps : List Pattern) : Pattern := ps.foldr seq empty

/-- At least one text that matches. -/
def atLeastOne (p : Pattern) : Pattern := seq p (many p)

/-- A text that matches, or nothing. -/
def optional (p : Pattern) : Pattern := either p empty

/-- A word in any case. -/
def spelled (word : String) : Pattern := all (word.toList.map fun a => one (.letter a))

/-- A text as it stands. -/
def literal (text : String) : Pattern := all (text.toList.map fun c => one (.exactly c))

/-- White space. -/
def blanks : Pattern := atLeastOne (one .blank)

/-- Words in any case, with white space between them. -/
def phrase : List String → Pattern
  | [] => empty
  | w :: ws => all (spelled w :: ws.flatMap fun w => [blanks, spelled w])

/-- A text between two of the given quotes. -/
def quotedBy (quote : Char) : Pattern :=
  all [one (.exactly quote), many (one (.otherThan quote)), one (.exactly quote)]

/-- One of several patterns. -/
def oneOf : List Pattern → Pattern
  | [] => empty
  | [p] => p
  | p :: ps => either p (oneOf ps)

end Pattern

open Pattern in
/-- The patterns of the lexemes and the kind of token that each one gives, in the order in which they
are tried. Blanks give no token. -/
def lexemePatterns : List (Option TokenKind × Pattern) :=
  [(none, blanks),
    (TokenKind.operator, all [optional (seq (spelled "is") blanks),
      either (spelled "greater") (spelled "less"), optional (seq blanks (spelled "than")),
      optional (seq blanks (phrase ["or", "equal", "to"])), boundary]),
    (TokenKind.operator, all [optional (seq (spelled "is") blanks),
      optional (seq (spelled "not") blanks), spelled "equal",
      either (spelled "s") (seq blanks (spelled "to")), boundary]),
    (TokenKind.operator, all [spelled "is", optional (seq blanks (spelled "not")), boundary]),
    (TokenKind.operator, oneOf (["==", "!=", ">=", "<=", ">", "<", "&&", "||"].map literal)),
    (TokenKind.operator, oneOf ([["not", "in"], ["in"], ["and"], ["or"]].map fun words =>
      seq (phrase words) boundary)),
    (TokenKind.string, either (quotedBy '"') (quotedBy '\'')),
    (TokenKind.number,
      all [atLeastOne (one .digit), optional (one (.exactly '.')), many (one .digit)]),
    (TokenKind.name,
      seq (atLeastOne (one .word)) (many (seq (one (.exactly '.')) (atLeastOne (one .word))))),
    (TokenKind.leftParen, literal "("), (TokenKind.rightParen, literal ")"),
    (TokenKind.leftBracket, literal "["), (TokenKind.rightBracket, literal "]"),
    (TokenKind.comma, literal ","), (TokenKind.operator, oneOf (["+", "-", "*", "/"].map literal))]

namespace Pattern

variable {p q : Pattern} {before text after : List Char}

/-! ## Matching parts -/

theorem Matches.seq {first second : List Char} (hp : p.Matches before first (second ++ after))
    (hq : q.Matches (before ++ first) second after) :
    (seq p q).Matches before (first ++ second) after :=
  ⟨first, second, rfl, hp, hq⟩

/-- A character of a class, and what comes after it. -/
theorem Matches.cons {k : CharClass} {c : Char} (hc : k.holds c = true)
    (hq : q.Matches (before ++ [c]) text after) :
    (Pattern.seq (one k) q).Matches before (c :: text) after :=
  ⟨[c], text, rfl, ⟨c, rfl, hc⟩, hq⟩

/-- Characters of a class, any number of them. -/
theorem matches_many_one {k : CharClass} (h : ∀ c ∈ text, k.holds c = true) :
    (many (one k)).Matches before text after := by
  induction text generalizing before with
  | nil => exact .none
  | cons c text ih =>
      have hrest : (many (one k)).Matches (before ++ [c]) text after :=
        ih fun d hd => h d (List.mem_cons_of_mem _ hd)
      have hfirst : (one k).Matches before [c] (text ++ after) := ⟨c, rfl, h c List.mem_cons_self⟩
      exact Repeats.more hfirst hrest

/-- Characters of a class, at least one. -/
theorem matches_atLeastOne_one {k : CharClass} {c : Char} (hc : k.holds c = true)
    (h : ∀ c ∈ text, k.holds c = true) : (atLeastOne (one k)).Matches before (c :: text) after :=
  .cons hc (matches_many_one h)

theorem holds_of_matches_many_one {k : CharClass} (h : (many (one k)).Matches before text after) :
    ∀ c ∈ text, k.holds c = true := by
  induction h with
  | none => exact fun c hc => by cases hc
  | more hfirst _ ih =>
      obtain ⟨d, rfl, hd⟩ := hfirst
      intro c hc
      rcases List.mem_cons.1 hc with rfl | hc
      · exact hd
      · exact ih c hc

/-! ## Rows of parts -/

/-- The rows of parts that a pattern is a choice between. -/
def rows : Pattern → List (List Pattern)
  | empty => [[]]
  | seq p q => p.rows.flatMap fun row => q.rows.map (row ++ ·)
  | either p q => p.rows ++ q.rows
  | one k => [[one k]]
  | many p => [[many p]]
  | boundary => [[boundary]]

theorem matches_all_append {ps qs : List Pattern} :
    (all (ps ++ qs)).Matches before text after ↔ ∃ first second, text = first ++ second ∧
      (all ps).Matches before first (second ++ after) ∧
      (all qs).Matches (before ++ first) second after := by
  induction ps generalizing before text with
  | nil =>
      constructor
      · intro h
        exact ⟨[], text, rfl, rfl, by simpa using h⟩
      · rintro ⟨first, second, rfl, rfl, h⟩
        simpa using h
  | cons p ps ih =>
      constructor
      · rintro ⟨first, second, rfl, hp, hrest⟩
        obtain ⟨middle, last, rfl, hps, hqs⟩ := ih.1 hrest
        rw [List.append_assoc] at hp hqs
        exact ⟨first ++ middle, last, by simp, .seq hp hps, hqs⟩
      · rintro ⟨_, last, rfl, ⟨first, middle, rfl, hp, hps⟩, hqs⟩
        rw [← List.append_assoc] at hp hqs
        rw [List.append_assoc]
        exact .seq hp (ih.2 ⟨middle, last, rfl, hps, hqs⟩)

theorem matches_all_singleton : (all [p]).Matches before text after ↔ p.Matches before text after := by
  constructor
  · rintro ⟨first, second, rfl, hp, rfl⟩
    simpa using hp
  · intro hp
    exact ⟨text, [], by simp, by simpa using hp, rfl⟩

/-- A pattern matches what one of its rows matches. -/
theorem matches_iff_rows :
    p.Matches before text after ↔ ∃ row ∈ p.rows, (all row).Matches before text after := by
  induction p generalizing before text after with
  | empty => simp [rows, all]
  | one k => simp [rows, matches_all_singleton]
  | many p => simp [rows, matches_all_singleton]
  | boundary => simp [rows, matches_all_singleton]
  | either p q ihp ihq => simp [rows, Matches, ihp, ihq, or_and_right, exists_or]
  | seq p q ihp ihq =>
      constructor
      · rintro ⟨t, u, rfl, ht, hu⟩
        obtain ⟨first, hfirst, ht⟩ := ihp.1 ht
        obtain ⟨second, hsecond, hu⟩ := ihq.1 hu
        refine ⟨first ++ second, ?_, matches_all_append.2 ⟨t, u, rfl, ht, hu⟩⟩
        exact List.mem_flatMap.2 ⟨first, hfirst, List.mem_map.2 ⟨second, hsecond, rfl⟩⟩
      · rintro ⟨row, hrow, h⟩
        obtain ⟨first, hfirst, hrow⟩ := List.mem_flatMap.1 hrow
        obtain ⟨second, hsecond, rfl⟩ := List.mem_map.1 hrow
        obtain ⟨t, u, rfl, ht, hu⟩ := matches_all_append.1 h
        exact .seq (ihp.2 ⟨first, hfirst, ht⟩) (ihq.2 ⟨second, hsecond, hu⟩)

/-- A row of given characters matches just these. -/
theorem matches_exactly {cs : List Char} :
    (all (cs.map fun c => one (.exactly c))).Matches before text after ↔ text = cs := by
  induction cs generalizing before text with
  | nil => exact Iff.rfl
  | cons c cs ih =>
      constructor
      · rintro ⟨first, second, rfl, ⟨d, rfl, hd⟩, hrest⟩
        obtain rfl : d = c := by simpa [CharClass.holds] using hd
        rw [ih.1 hrest, List.singleton_append]
      · rintro rfl
        exact .cons (by simp [CharClass.holds]) (ih.2 rfl)

end Pattern

end Formula
