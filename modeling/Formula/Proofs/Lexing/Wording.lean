import Mathlib.Data.List.Nodup
import Formula.Proofs.Lexing.Longest

set_option autoImplicit false

/-! # What operators are spelled with

An operator is written as a symbol or with words: the words of a comparison are put together from
parts of which some may be left out. The phrases that are tried are exactly these rows of words, and
no text is written for two operators.

Main statements: `Operator.IsWrittenAs.unique` and `exists_isWrittenAs_of_first` (whatever is cut off
as an operator is written for one). -/

namespace Formula

/-! ## Spellings -/

/-- The rows of words that have one of the given parts in each place. -/
def rowsOf : List (List (List String)) → List (List String)
  | [] => [[]]
  | parts :: places => parts.flatMap fun part => (rowsOf places).map (part ++ ·)

/-- A part that may be left out. -/
def perhaps (part : List String) : List (List String) := [part, []]

namespace Operator

/-- The rows of words that an operator is spelled with. -/
def wordings : Operator → List (List String)
  | greater => rowsOf [perhaps ["is"], [["greater"]], perhaps ["than"]]
  | greaterOrEqual => rowsOf [perhaps ["is"], [["greater"]], perhaps ["than"], [["or", "equal", "to"]]]
  | less => rowsOf [perhaps ["is"], [["less"]], perhaps ["than"]]
  | lessOrEqual => rowsOf [perhaps ["is"], [["less"]], perhaps ["than"], [["or", "equal", "to"]]]
  | equal => ["is"] :: rowsOf [perhaps ["is"], [["equals"], ["equal", "to"]]]
  | unequal => ["is", "not"] :: rowsOf [perhaps ["is"], [["not"]], [["equals"], ["equal", "to"]]]
  | both => [["and"]]
  | either => [["or"]]
  | member => [["in"]]
  | absent => [["not", "in"]]
  | plus | minus | times | dividedBy => []

/-- The symbols that an operator is written with. -/
def symbols : Operator → List String
  | both => ["&&"]
  | either => ["||"]
  | member | absent => []
  | op => [op.symbol]

/-- A text is a symbol of the operator, or spells it with words. -/
def IsWrittenAs (op : Operator) (text : String) : Prop :=
  text ∈ op.symbols ∨ ∃ ws ∈ op.wordings, Spells (ws.map String.toList) text.toList

theorem wordings_checked :
    (∀ op ∈ all, ∀ ws ∈ op.wordings,
      ⟨ws.map String.toList, op⟩ ∈ Phrase.comparisons ++ Phrase.connectives) ∧
    ∀ p ∈ Phrase.comparisons ++ Phrase.connectives,
      ∃ ws ∈ p.meaning.wordings, p.words = ws.map String.toList := by
  decide +kernel

theorem symbols_checked :
    (∀ op ∈ all, ∀ s ∈ op.symbols, Phrase.canonical s = op.symbol ∧ s.toList ≠ [] ∧
      ∀ c ∈ s.toList.head?, Text.isWordChar c = false ∧ Text.isBlank c = false) ∧
    (∀ op ∈ all, ∀ s ∈ op.symbols, s.toList ∈ Piece.symbols ∨
      ∃ p ∈ Piece.punctuation, p.2 = .operator ∧ s.toList = [p.1]) ∧
    (∀ s ∈ Piece.symbols, ∃ op ∈ all, String.ofList s ∈ op.symbols) ∧
    ∀ p ∈ Piece.punctuation, p.2 = .operator → ∃ op ∈ all, String.ofList [p.1] ∈ op.symbols := by
  decide

end Operator

section Written

variable {op op' : Operator} {text : String} {ws : List String}

/-- What is spelled with words is no symbol. -/
theorem not_mem_symbols_of_spells (h : Spells (ws.map String.toList) text.toList) :
    text ∉ op.symbols := by
  intro hsymbol
  obtain ⟨-, -, hhead⟩ := Operator.symbols_checked.1 op op.mem_all text hsymbol
  have hword := h.head []
  rw [List.append_nil] at hword
  obtain ⟨c, cs, htext⟩ := List.exists_cons_of_ne_nil h.text_ne_nil
  have hc := hword c (by simp [htext])
  rw [(hhead c (by simp [htext])).1] at hc
  cases hc

theorem wording_unique {vs : List String} (hws : Spells (ws.map String.toList) text.toList)
    (hvs : Spells (vs.map String.toList) text.toList) : ws = vs :=
  List.map_injective_iff.2 (fun _ _ => String.toList_injective) (hws.unique hvs)

/-- No row of words is listed twice. -/
theorem phrase_unique {p q : Phrase} (hp : p ∈ Phrase.comparisons ++ Phrase.connectives)
    (hq : q ∈ Phrase.comparisons ++ Phrase.connectives) (h : p.words = q.words) : p = q := by
  have hnodup : ((Phrase.comparisons ++ Phrase.connectives).map Phrase.words).Nodup := by
    refine List.pairwise_map.2 (phrases_ordered.imp fun hnot hsame => hnot ?_)
    exact ⟨[], by rw [List.append_nil, hsame]⟩
  exact List.inj_on_of_nodup_map hnodup hp hq h

/-- A text is written for one operator only. -/
theorem Operator.IsWrittenAs.unique (h : op.IsWrittenAs text) (h' : op'.IsWrittenAs text) : op = op' := by
  rcases h with h | ⟨ws, hws, hspells⟩
  · rcases h' with h' | ⟨ws, hws, hspells⟩
    · -- Both have the symbol that the text is mapped to.
      have hsame := congrArg Operator.ofSymbol? ((Operator.symbols_checked.1 op op.mem_all text h).1.symm.trans
        (Operator.symbols_checked.1 op' op'.mem_all text h').1)
      rw [Operator.ofSymbol?_symbol, Operator.ofSymbol?_symbol] at hsame
      exact Option.some.inj hsame
    · exact absurd h (not_mem_symbols_of_spells hspells)
  · rcases h' with h' | ⟨vs, hvs, hspells'⟩
    · exact absurd h' (not_mem_symbols_of_spells hspells)
    · rw [wording_unique hspells' hspells] at hvs
      have hmem := Operator.wordings_checked.1 op op.mem_all ws hws
      have hmem' := Operator.wordings_checked.1 op' op'.mem_all ws hvs
      exact congrArg Phrase.meaning (phrase_unique hmem hmem' rfl)

end Written

/-! ## Lexemes -/

/-- A phrase that is read is written for its meaning. -/
theorem Phrase.isWrittenAs_of_read? {p : Phrase} (hp : p ∈ Phrase.comparisons ++ Phrase.connectives)
    {cs text rest : List Char} (h : p.read? cs = some (text, rest)) :
    p.meaning.IsWrittenAs (String.ofList text) := by
  obtain ⟨hspells, -, -⟩ := (Phrase.read?_eq_some_iff (phrases_worded p hp)).1 h
  obtain ⟨ws, hws, hwords⟩ := Operator.wordings_checked.2 p hp
  rw [hwords] at hspells
  exact .inr ⟨ws, hws, by rwa [String.toList_ofList]⟩

/-- A lexeme that is cut off as an operator is written for one. -/
theorem exists_isWrittenAs_of_first {c : Char} {cs text : List Char}
    (h : Piece.first c cs = .lexeme .operator text) :
    ∃ op : Operator, op.IsWrittenAs (String.ofList text) := by
  obtain ⟨-, -, hsymbols, hpunctuation⟩ := Operator.symbols_checked
  have hphrase {ps : List Phrase} (hps : ps ⊆ Phrase.comparisons ++ Phrase.connectives)
      (hfirst : Phrase.firstOf ps (c :: cs) = some text) :
      ∃ op : Operator, op.IsWrittenAs (String.ofList text) := by
    obtain ⟨p, hp, rest, hread⟩ := exists_read?_of_firstOf hfirst
    exact ⟨p.meaning, Phrase.isWrittenAs_of_read? (hps hp) hread⟩
  have hcut := Piece.isCut_first c cs
  rw [h] at hcut
  cases hcut with
  | comparison hfirst => exact hphrase (List.subset_append_left _ _) hfirst
  | connective hfirst => exact hphrase (List.subset_append_right _ _) hfirst
  | symbol hsymbol =>
      obtain ⟨op, -, hop⟩ := hsymbols text (List.mem_of_find?_eq_some hsymbol)
      exact ⟨op, .inl hop⟩
  | punctuation hkind =>
      obtain ⟨op, -, hop⟩ := hpunctuation _ (mem_of_lookup hkind) rfl
      exact ⟨op, .inl hop⟩

end Formula
