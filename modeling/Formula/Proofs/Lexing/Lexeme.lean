import Formula.Proofs.Lexing.Name
import Formula.Proofs.Number.ReadBack
import Formula.Tree.Text

set_option autoImplicit false

/-! # Lexemes other than names

The lexemes that the source of a tree is made of, apart from names, are cut off where they stand
there: brackets, commas and signs before anything, operators and the words of a conditional between
spaces, strings in the quotes they get, and numbers where no digit or point follows. -/

namespace Formula

/-! ## What begins no phrase -/

/-- A character that is no blank and begins no phrase. -/
def BeginsNoPhrase (c : Char) : Prop :=
  Text.isBlank c = false ∧ ∀ a ∈ initials, Phrase.spells a c = false

instance (c : Char) : Decidable (BeginsNoPhrase c) :=
  inferInstanceAs (Decidable (_ ∧ _))

theorem firstOf_eq_none {c : Char} (h : BeginsNoPhrase c) {ps : List Phrase}
    (hps : ps ⊆ Phrase.comparisons ++ Phrase.connectives) (cs : List Char) :
    Phrase.firstOf ps (c :: cs) = none := by
  refine firstOf_eq_none_iff.2 fun p hp => ?_
  have hinitial := (phrases_checked p (hps hp)).2.1
  unfold Phrase.hasInitial at hinitial
  split at hinitial
  next a w ws hwords =>
    have ha : Phrase.spells a c = false := h.2 a (by simpa using hinitial)
    simp [Phrase.read?, hwords, Phrase.readWord?, ha]
  · cases hinitial

/-- A symbol is cut off. -/
theorem first_of_symbol? {c : Char} {cs text : List Char} (h : BeginsNoPhrase c)
    (hsymbol : Piece.symbol? (c :: cs) = some text) :
    Piece.first c cs = .lexeme .operator text := by
  simp [Piece.first, h.1, firstOf_eq_none h (List.subset_append_left _ _), hsymbol]

/-- A quoted string is cut off. -/
theorem first_of_quoted? {c : Char} {cs text : List Char} (h : BeginsNoPhrase c)
    (hsymbol : Piece.symbol? (c :: cs) = none) (hquoted : Piece.quoted? (c :: cs) = some text) :
    Piece.first c cs = .lexeme .string text := by
  simp [Piece.first, h.1, firstOf_eq_none h (List.subset_append_left _ _),
    firstOf_eq_none h (List.subset_append_right _ _), hsymbol, hquoted]

/-- A number is cut off. -/
theorem first_of_digit {c : Char} {cs : List Char} (h : BeginsNoPhrase c)
    (hsymbol : Piece.symbol? (c :: cs) = none) (hquoted : Piece.quoted? (c :: cs) = none)
    (hdigit : Text.isDecimalDigit c = true) :
    Piece.first c cs = .lexeme .number (Piece.number (c :: cs)) := by
  simp [Piece.first, h.1, firstOf_eq_none h (List.subset_append_left _ _),
    firstOf_eq_none h (List.subset_append_right _ _), hsymbol, hquoted, hdigit]

/-- A single character is cut off. -/
theorem first_of_punctuation {c : Char} {cs : List Char} {kind : TokenKind} (h : BeginsNoPhrase c)
    (hsymbol : Piece.symbol? (c :: cs) = none) (hquoted : Piece.quoted? (c :: cs) = none)
    (hdigit : Text.isDecimalDigit c = false) (hword : Text.isWordChar c = false)
    (hkind : Piece.punctuation.lookup c = some kind) :
    Piece.first c cs = .lexeme kind [c] := by
  simp [Piece.first, h.1, firstOf_eq_none h (List.subset_append_left _ _),
    firstOf_eq_none h (List.subset_append_right _ _), hsymbol, hquoted, hdigit, hword, hkind]

/-- What does not begin with a blank. -/
def BeginsSolid (rest : List Char) : Prop := ∀ c ∈ rest.head?, Text.isBlank c = false

theorem takeBlanks_eq_nil {rest : List Char} (h : BeginsSolid rest) : Text.takeBlanks rest = [] := by
  cases rest with
  | nil => rfl
  | cons c rest => simp [Text.takeBlanks, h c (by simp)]

/-! ## Strings and numbers -/

/-- A string that can be written in quotes of one of the two kinds, all of its characters being kept
as they are. -/
structure IsQuotable (s : String) : Prop where
  oneKind : '\'' ∈ s.toList → '"' ∉ s.toList
  plain : ∀ c ∈ s.toList, plainQuote c = c

theorem quotedRest?_append {quote : Char} {content rest : List Char} (h : quote ∉ content) :
    Piece.quotedRest? quote (content ++ quote :: rest) = some (content ++ [quote]) := by
  induction content with
  | nil => simp [Piece.quotedRest?]
  | cons c content ih =>
      obtain ⟨hc, hcontent⟩ : quote ≠ c ∧ quote ∉ content := by simpa using h
      simp [Piece.quotedRest?, Ne.symm hc, ih hcontent]

/-- No number goes on with what follows. -/
def StopsNumber (rest : List Char) : Prop :=
  ∀ c ∈ rest.head?, Text.isDecimalDigit c = false ∧ c ≠ '.'

theorem Follows.stopsNumber {isNot : Prop} {rest : List Char} (h : Follows isNot rest) :
    StopsNumber rest := by
  have hall : ∀ c ∈ ' ' :: closers, Text.isDecimalDigit c = false ∧ c ≠ '.' := by decide
  exact fun c hc => hall c (h.head c hc)

theorem isDecimalDigit_of_isDigit {c : Char} (h : c.isDigit = true) :
    Text.isDecimalDigit c = true := by
  simp [Text.isDecimalDigit, Number.digitValue?_of_isDigit h]

/-- The usual digits. -/
def usualDigits : List Char := ['0', '1', '2', '3', '4', '5', '6', '7', '8', '9']

theorem mem_usualDigits {c : Char} (h : c.isDigit = true) : c ∈ usualDigits := by
  have hlow : 48 ≤ c.toNat ∧ c.toNat ≤ 57 := by simpa [Char.isDigit, UInt32.le_iff_toNat_le] using h
  have hall : ∀ n, n ≤ 57 → 48 ≤ n → Char.ofNat n ∈ usualDigits := by decide
  have hmem := hall c.toNat hlow.2 hlow.1
  rwa [Char.ofNat_toNat] at hmem

theorem digits_checked : ∀ c ∈ usualDigits,
    BeginsNoPhrase c ∧ Text.isWordChar c = true ∧ plainQuote c = c := by
  decide +kernel

theorem takeWhile_digits {digits rest : List Char} (h : ∀ c ∈ digits, c.isDigit = true)
    (hrest : ∀ c ∈ rest.head?, Text.isDecimalDigit c = false) :
    (digits ++ rest).takeWhile Text.isDecimalDigit = digits ∧
      (digits ++ rest).dropWhile Text.isDecimalDigit = rest := by
  have hall : ∀ c ∈ digits, Text.isDecimalDigit c = true :=
    fun c hc => isDecimalDigit_of_isDigit (h c hc)
  rw [List.takeWhile_append_of_pos hall, List.dropWhile_append_of_pos hall]
  cases rest with
  | nil => simp
  | cons c rest => simp [hrest c (by simp)]

/-- The characters that are lexemes by themselves begin nothing else. -/
theorem punctuation_checked : ∀ p ∈ Piece.punctuation, (BeginsNoPhrase p.1 ∧
    Text.isDecimalDigit p.1 = false ∧ Text.isWordChar p.1 = false ∧
      (∀ s ∈ Piece.symbols, s.head? ≠ some p.1) ∧ p.1 ≠ '"' ∧ p.1 ≠ '\'' ∧
        Piece.punctuation.lookup p.1 = some p.2) ∧
    plainQuote p.1 = p.1 ∧ lexemeValue p.2 [p.1] = String.singleton p.1 := by
  decide +kernel

theorem symbol?_eq_none_of_head {c : Char} (h : ∀ s ∈ Piece.symbols, s.head? ≠ some c)
    (cs : List Char) : Piece.symbol? (c :: cs) = none := by
  refine List.find?_eq_none.2 fun s hs => ?_
  have hhead := h s hs
  cases s with
  | nil => exact absurd hs (by decide)
  | cons a s =>
      have hne : a ≠ c := by simpa using hhead
      simp [List.isPrefixOf, hne]

/-- A character that is a lexeme by itself is cut off in front of anything. -/
theorem first_of_mem_punctuation {c : Char} {kind : TokenKind} (h : (c, kind) ∈ Piece.punctuation)
    (rest : List Char) : Piece.first c rest = .lexeme kind [c] := by
  obtain ⟨⟨hphrase, hdigit, hword, hsymbols, hdouble, hsingle, hkind⟩, -⟩ := punctuation_checked _ h
  have hquoted : Piece.quoted? (c :: rest) = none := by
    simp [Piece.quoted?, hdouble, hsingle]
  exact first_of_punctuation hphrase (symbol?_eq_none_of_head hsymbols rest) hquoted hdigit hword hkind

namespace Lexes

variable {rest : List Char}

/-! ## Punctuation -/

/-- A character that is a lexeme by itself. -/
theorem punctuation {c : Char} {kind : TokenKind} (h : (c, kind) ∈ Piece.punctuation) :
    Lexes [c] [(kind, String.singleton c)] rest := by
  obtain ⟨_, hplain, hvalue⟩ := punctuation_checked _ h
  rw [← hvalue]
  exact lexeme (first_of_mem_punctuation h rest) (by simpa using hplain)

theorem leftParen : Lexes ['('] [(.leftParen, "(")] rest := punctuation (by decide)

theorem rightParen : Lexes [')'] [(.rightParen, ")")] rest := punctuation (by decide)

theorem leftBracket : Lexes ['['] [(.leftBracket, "[")] rest := punctuation (by decide)

theorem rightBracket : Lexes [']'] [(.rightBracket, "]")] rest := punctuation (by decide)

theorem minus : Lexes ['-'] [(.operator, "-")] rest := punctuation (by decide)

/-- A comma and the space behind it. -/
theorem separator (h : BeginsSolid rest) : Lexes [',', ' '] [(.comma, ",")] rest :=
  (punctuation (by decide)).append (space (takeBlanks_eq_nil h))

/-! ## Operators and keywords -/

theorem canonical_symbol (op : Operator) : Phrase.canonical op.symbol = op.symbol := by
  cases op <;> decide +kernel

/-- An operator before a space. -/
theorem symbol (op : Operator) :
    Lexes op.symbol.toList [(.operator, op.symbol)] (' ' :: rest) := by
  have hcut : ∃ c cs, op.symbol.toList = c :: cs ∧
      Piece.first c (cs ++ ' ' :: rest) = .lexeme .operator (c :: cs) := by
    cases op with
    | either => exact ⟨'o', ['r'], rfl, rfl⟩
    | both => exact ⟨'a', ['n', 'd'], rfl, rfl⟩
    | member => exact ⟨'i', ['n'], rfl, rfl⟩
    | absent => exact ⟨'n', ['o', 't', ' ', 'i', 'n'], rfl, rfl⟩
    | equal => exact ⟨'=', ['='], rfl, first_of_symbol? (by decide) rfl⟩
    | unequal => exact ⟨'!', ['='], rfl, first_of_symbol? (by decide) rfl⟩
    | greater => exact ⟨'>', [], rfl, first_of_symbol? (by decide) rfl⟩
    | less => exact ⟨'<', [], rfl, first_of_symbol? (by decide) rfl⟩
    | greaterOrEqual => exact ⟨'>', ['='], rfl, first_of_symbol? (by decide) rfl⟩
    | lessOrEqual => exact ⟨'<', ['='], rfl, first_of_symbol? (by decide) rfl⟩
    | plus => exact ⟨'+', [], rfl, first_of_punctuation (by decide) rfl rfl rfl rfl rfl⟩
    | minus => exact ⟨'-', [], rfl, first_of_punctuation (by decide) rfl rfl rfl rfl rfl⟩
    | times => exact ⟨'*', [], rfl, first_of_punctuation (by decide) rfl rfl rfl rfl rfl⟩
    | dividedBy => exact ⟨'/', [], rfl, first_of_punctuation (by decide) rfl rfl rfl rfl rfl⟩
  have hplain : ∀ d ∈ op.symbol.toList, plainQuote d = d := by cases op <;> decide
  obtain ⟨c, cs, htext, hfirst⟩ := hcut
  have hvalue : lexemeValue .operator (c :: cs) = op.symbol := by
    rw [← htext, lexemeValue, String.ofList_toList, canonical_symbol]
  rw [htext] at hplain ⊢
  have hlexes := lexeme hfirst hplain
  rwa [hvalue] at hlexes

/-- An operator between spaces. -/
theorem operator (op : Operator) (h : BeginsSolid rest) :
    Lexes (' ' :: (op.symbol.toList ++ [' '])) [(.operator, op.symbol)] rest := by
  have hbefore : Lexes [' '] [] (op.symbol.toList ++ [' '] ++ rest) :=
    space (by cases op <;> rfl)
  have hafter : Lexes [' '] [] rest := space (takeBlanks_eq_nil h)
  exact hbefore.append ((symbol op).append hafter)

/-- The name `not` and the operator `in` behind it are cut off as one operator. -/
theorem notIn {name : List Char} (h : Text.lowerChars name = ['n', 'o', 't']) :
    Lexes (name ++ [' ', 'i', 'n']) [(.operator, "not in")] (' ' :: rest) := by
  obtain ⟨a, b, c, rfl, ha, hb, hc⟩ := exists_of_lowerChars_eq_not h
  have hfirst : Piece.first a ([b, c, ' ', 'i', 'n'] ++ ' ' :: rest) =
      .lexeme .operator [a, b, c, ' ', 'i', 'n'] := by
    rcases ha with rfl | rfl <;> rcases hb with rfl | rfl <;> rcases hc with rfl | rfl <;> rfl
  have hvalue : lexemeValue .operator [a, b, c, ' ', 'i', 'n'] = "not in" := by
    rcases ha with rfl | rfl <;> rcases hb with rfl | rfl <;> rcases hc with rfl | rfl <;>
      decide +kernel
  have hplain : ∀ d ∈ [a, b, c, ' ', 'i', 'n'], plainQuote d = d := by
    rcases ha with rfl | rfl <;> rcases hb with rfl | rfl <;> rcases hc with rfl | rfl <;> decide
  rw [← hvalue]
  exact lexeme hfirst hplain

/-- The word and the bracket before a condition. -/
theorem ifWord :
    Lexes [' ', 'i', 'f', ' ', '('] [(.name, "if"), (.leftParen, "(")] rest := by
  have hopening : Lexes [' ', '('] [(.leftParen, "(")] rest :=
    (space rfl : Lexes [' '] [] (['('] ++ rest)).append leftParen
  have hif : Lexes ['i', 'f'] [(.name, "if")] ([' ', '('] ++ rest) := lexeme rfl (by decide)
  have hbefore : Lexes [' '] [] (['i', 'f'] ++ [' ', '('] ++ rest) := space rfl
  exact hbefore.append (hif.append hopening)

/-- The bracket and the word behind a condition. -/
theorem elseWord (h : BeginsSolid rest) :
    Lexes [')', ' ', 'e', 'l', 's', 'e', ' '] [(.rightParen, ")"), (.name, "else")] rest := by
  have hafter : Lexes [' '] [] rest := space (takeBlanks_eq_nil h)
  have helse : Lexes ['e', 'l', 's', 'e'] [(.name, "else")] ([' '] ++ rest) :=
    lexeme rfl (by decide)
  have hbefore : Lexes [' '] [] (['e', 'l', 's', 'e'] ++ [' '] ++ rest) := space rfl
  exact rightParen.append (hbefore.append (helse.append hafter))

/-! ## Strings -/

/-- A string in quotes that do not occur in it. -/
theorem quoted {quote : Char} {content : List Char} (hquote : quote = '"' ∨ quote = '\'')
    (hcontent : quote ∉ content) (hplain : ∀ c ∈ content, plainQuote c = c) :
    Lexes (quote :: (content ++ [quote])) [(.string, String.ofList content)] rest := by
  have hphrase : BeginsNoPhrase quote := by rcases hquote with rfl | rfl <;> decide
  have hsymbol : Piece.symbol? (quote :: (content ++ [quote] ++ rest)) = none := by
    rcases hquote with rfl | rfl <;> rfl
  have hquoted : Piece.quoted? (quote :: (content ++ [quote] ++ rest)) =
      some (quote :: (content ++ [quote])) := by
    rw [List.append_assoc, Piece.quoted?, if_pos hquote, List.singleton_append,
      quotedRest?_append hcontent]
    rfl
  have hplain' : ∀ c ∈ quote :: (content ++ [quote]), plainQuote c = c := by
    intro c hc
    have hown : plainQuote quote = quote := by rcases hquote with rfl | rfl <;> decide
    simp only [List.mem_cons, List.mem_append, List.not_mem_nil, or_false] at hc
    rcases hc with rfl | hc | rfl
    · exact hown
    · exact hplain c hc
    · exact hown
  have hvalue : lexemeValue .string (quote :: (content ++ [quote])) = String.ofList content := by
    simp [lexemeValue]
  rw [← hvalue]
  exact lexeme (first_of_quoted? hphrase hsymbol hquoted) hplain'

theorem quoteString {s : String} (h : IsQuotable s) :
    Lexes (Formula.quoteString s).toList [(.string, s)] rest := by
  have hs : String.ofList s.toList = s := String.ofList_toList
  unfold Formula.quoteString
  split
  next hsingle =>
    have hlexes := @quoted rest '"' _ (.inl rfl) (h.oneKind hsingle) h.plain
    rw [hs] at hlexes
    simpa using hlexes
  next hsingle =>
    have hlexes := @quoted rest '\'' _ (.inr rfl) hsingle h.plain
    rw [hs] at hlexes
    simpa using hlexes

/-! ## Numbers -/

/-- A text that begins with a digit and is all of a number. -/
theorem number {c : Char} {cs : List Char} (hc : c.isDigit = true)
    (hnumber : Piece.number (c :: (cs ++ rest)) = c :: cs)
    (hchars : ∀ d ∈ c :: cs, d.isDigit = true ∨ d = '.') :
    Lexes (c :: cs) [(.number, String.ofList (c :: cs))] rest := by
  obtain ⟨hphrase, hword, _⟩ := digits_checked c (mem_usualDigits hc)
  have hfirst : Piece.first c (cs ++ rest) = .lexeme .number (c :: cs) := by
    rw [first_of_digit hphrase (symbol?_eq_none hword) (quoted?_eq_none hword)
      (isDecimalDigit_of_isDigit hc), hnumber]
  refine lexeme hfirst fun d hd => ?_
  rcases hchars d hd with hd | rfl
  · exact (digits_checked d (mem_usualDigits hd)).2.2
  · decide

/-- An integer. -/
theorem digits {ds : List Char} (hne : ds ≠ []) (hds : ∀ c ∈ ds, c.isDigit = true)
    (hrest : StopsNumber rest) : Lexes ds [(.number, String.ofList ds)] rest := by
  obtain ⟨htake, hdrop⟩ := takeWhile_digits hds fun c hc => (hrest c hc).1
  have hnumber : Piece.number (ds ++ rest) = ds := by
    rw [Piece.number, htake, hdrop]
    cases rest with
    | nil => rfl
    | cons d rest =>
        have hd : d ≠ '.' := (hrest d (by simp)).2
        simp [hd]
  obtain ⟨c, cs, rfl⟩ := List.exists_cons_of_ne_nil hne
  exact number (hds c (by simp)) hnumber fun d hd => .inl (hds d hd)

/-- A decimal number. -/
theorem decimal {whole fraction : List Char} (hne : whole ≠ [])
    (hdigits : ∀ c ∈ whole ++ fraction, c.isDigit = true) (hrest : StopsNumber rest) :
    Lexes (whole ++ '.' :: fraction) [(.number, String.ofList (whole ++ '.' :: fraction))]
      rest := by
  have hwhole : ∀ c ∈ whole, c.isDigit = true := fun c hc => hdigits c (List.mem_append_left _ hc)
  have hfraction : ∀ c ∈ fraction, c.isDigit = true :=
    fun c hc => hdigits c (List.mem_append_right _ hc)
  have hpoint : ∀ c ∈ ('.' :: (fraction ++ rest)).head?, Text.isDecimalDigit c = false := by
    intro c hc
    obtain rfl : '.' = c := by simpa using hc
    decide
  obtain ⟨htake, hdrop⟩ := takeWhile_digits hwhole hpoint
  obtain ⟨htake', _⟩ := takeWhile_digits hfraction fun c hc => (hrest c hc).1
  have hnumber : Piece.number (whole ++ '.' :: fraction ++ rest) = whole ++ '.' :: fraction := by
    rw [List.append_assoc, List.cons_append, Piece.number, htake, hdrop]
    simp only [htake']
  obtain ⟨c, cs, rfl⟩ := List.exists_cons_of_ne_nil hne
  refine number (hwhole c (by simp)) hnumber fun d hd => ?_
  have hd' : d ∈ c :: cs ∨ d = '.' ∨ d ∈ fraction := by
    simpa [or_assoc] using hd
  rcases hd' with hd | hd | hd
  · exact .inl (hwhole d hd)
  · exact .inr hd
  · exact .inl (hfraction d hd)

end Lexes

/-! ## Tokens of a text -/

/-- What a quoted string consists of. -/
theorem quotedRest?_eq_some {quote : Char} {cs text : List Char}
    (h : Piece.quotedRest? quote cs = some text) :
    ∃ content, text = content ++ [quote] ∧ quote ∉ content ∧ ∀ c ∈ content, c ∈ cs := by
  induction cs generalizing text with
  | nil => simp [Piece.quotedRest?] at h
  | cons c cs ih =>
      rw [Piece.quotedRest?] at h
      split at h
      next hc =>
        cases h
        exact ⟨[], by simp [hc], by simp, by simp⟩
      next hc =>
        obtain ⟨more, hmore, rfl⟩ := Option.map_eq_some_iff.1 h
        obtain ⟨content, rfl, hnot, hmem⟩ := ih hmore
        refine ⟨c :: content, rfl, ?_, ?_⟩
        · simp [Ne.symm hc, hnot]
        · intro d hd
          rcases List.mem_cons.1 hd with rfl | hd
          · exact List.mem_cons_self
          · exact List.mem_cons_of_mem _ (hmem d hd)

theorem quoted?_of_first {c : Char} {cs text : List Char}
    (h : Piece.first c cs = .lexeme .string text) : Piece.quoted? (c :: cs) = some text := by
  have hcut := Piece.isCut_first c cs
  rw [h] at hcut
  cases hcut with
  | quoted hquoted => exact hquoted
  | punctuation hkind => exact absurd rfl (kind_of_lookup hkind).2

theorem plainQuote_plainQuote (c : Char) : plainQuote (plainQuote c) = plainQuote c := by
  by_cases hsingle : c = '\u2018' ∨ c = '\u2019'
  · simp [plainQuote, hsingle]
  · by_cases hdouble : c = '\u201c' ∨ c = '\u201d'
    · simp [plainQuote, hsingle, hdouble]
    · simp [plainQuote, hsingle, hdouble]

/-- What is known of the value of a token that was cut off from a text. -/
structure IsLexed (t : Token) : Prop where
  name : t.kind = .name → IsNameText t.value.toList
  string : t.kind = .string → IsQuotable t.value

/-- A string that was cut off can be written in quotes. -/
theorem isQuotable_of_first {c : Char} {cs text : List Char}
    (h : Piece.first c cs = .lexeme .string text) (hplain : ∀ d ∈ c :: cs, plainQuote d = d) :
    IsQuotable (lexemeValue .string text) := by
  have hquoted := quoted?_of_first h
  rw [Piece.quoted?] at hquoted
  split at hquoted
  next hquote =>
    obtain ⟨rest, hrest, rfl⟩ := Option.map_eq_some_iff.1 hquoted
    obtain ⟨content, rfl, hnot, hmem⟩ := quotedRest?_eq_some hrest
    have hvalue : (lexemeValue .string (c :: (content ++ [c]))).toList = content := by
      simp [lexemeValue]
    constructor
    · rw [hvalue]
      rcases hquote with rfl | rfl
      · exact fun _ => hnot
      · exact fun hsingle => absurd hsingle hnot
    · rw [hvalue]
      exact fun d hd => hplain d (List.mem_cons_of_mem _ (hmem d hd))
  · cases hquoted

/-- Tokens of a text were cut off from it. -/
theorem isLexed_of_tokenize {strict : Bool} {s : String} {ts : List Token}
    (h : tokenize strict s = .ok ts) : ∀ t ∈ ts, IsLexed t := by
  intro t ht
  rw [eq_tokensFrom_of_tokenize h] at ht
  obtain ⟨text, hmem, hvalue, -⟩ := exists_lexeme_of_mem_tokensFrom ht
  obtain ⟨c, cs, hsuffix, hfirst⟩ := exists_first_of_mem_scan hmem
  have hplain : ∀ d ∈ c :: cs, plainQuote d = d := by
    intro d hd
    have hd' : d ∈ s.toList.map plainQuote := by
      simpa [sanitize] using hsuffix.subset hd
    obtain ⟨e, _, rfl⟩ := List.mem_map.1 hd'
    exact plainQuote_plainQuote e
  constructor
  · intro hk
    rw [hk] at hfirst hvalue
    have htext : t.value.toList = text := by simp [hvalue, lexemeValue]
    exact ⟨c, cs, by rw [htext, hfirst]⟩
  · intro hk
    rw [hk] at hfirst hvalue
    rw [hvalue]
    exact isQuotable_of_first hfirst.symm hplain

end Formula
