import Formula.Proofs.Source.Literal

set_option autoImplicit false

/-! # The display form of literals

The text of a node shows its literals in their display form, which is their source except for truth
values, whose words are in lower case, and for the doubles outside the range that is written without
an exponent. What those are written as is cut into a number, the word `e`, a sign and another number;
a value that is not finite is cut into a word.

Main statements: `Scalar.isWrittenAs_text` (the shapes that the display form is cut into) and
`Scalar.displayShapes_of_isPositional`. -/

namespace Formula

open Number (Binary64 Magnitude)

/-! ## Values without an exponent -/

/-- A finite value whose display form has no exponent. -/
def Number.Binary64.IsPositional (x : Binary64) : Prop := x.IsFinite ∧ x.display = x.plain

/-- The floating-point values among a literal. -/
def Scalar.IsPositional : Scalar → Prop
  | .double x => x.IsPositional
  | _ => True

theorem Scalar.IsPositional.isFinite {value : Scalar} (h : value.IsPositional) : value.IsFinite := by
  cases value with
  | double x => exact h.1
  | bool | int | string => trivial

theorem isPositional_finite {negative : Bool} {size : Magnitude} :
    (Binary64.finite negative size).IsPositional ↔ size.text false = size.text true := by
  have hdisplay : (Binary64.finite negative size).display =
      (if negative then "-" else "") ++ size.text false := rfl
  have hplain : (Binary64.finite negative size).plain =
      (if negative then "-" else "") ++ size.text true := rfl
  unfold Binary64.IsPositional
  rw [hdisplay, hplain]
  constructor
  · rintro ⟨_, htext⟩
    rw [← String.toList_inj] at htext ⊢
    simpa using htext
  · intro htext
    exact ⟨⟨negative, size, rfl⟩, by rw [htext]⟩

/-! ## Exponents -/

/-- The digits before the exponent, with a point behind the first of them if there are more. -/
def mantissa (digits : List Char) : List Char :=
  digits.take 1 ++ (if digits.length ≤ 1 then [] else ['.']) ++ digits.drop 1

/-- The sign of the exponent of a number whose first digit stands at the given place. -/
def exponentSign (place : Int) : Char := if place - 1 < 0 then '-' else '+'

/-- The digits of that exponent. -/
def exponentDigits (place : Int) : List Char := (Number.twoDigits (place - 1).natAbs).toList

theorem toList_exponential (digits : List Char) (place : Int) :
    (Number.exponential digits place).toList =
      mantissa digits ++ (['e'] ++ ([exponentSign place] ++ exponentDigits place)) := by
  have hsign : (if place - 1 < 0 then "-" else "+").toList = [exponentSign place] := by
    unfold exponentSign
    split <;> rfl
  unfold Number.exponential mantissa exponentDigits
  simp only [String.toList_append, String.toList_ofList, hsign]
  simp

/-- The shapes of a number with an exponent. -/
def exponentShapes (digits : List Char) (place : Int) : List Shape :=
  [(.number, String.ofList (mantissa digits)), (.name, "e"),
    (.operator, String.singleton (exponentSign place)),
    (.number, String.ofList (exponentDigits place))]

theorem isDigit_exponentDigits (place : Int) : ∀ c ∈ exponentDigits place, c.isDigit = true := by
  have hdigits (n : Nat) : ∀ c ∈ (toString n).toList, c.isDigit = true := by
    intro c hc
    have htext : (toString n).toList = Nat.toDigits 10 n := String.toList_ofList
    rw [htext] at hc
    exact Number.isDigit_of_mem_toDigits hc
  unfold exponentDigits Number.twoDigits
  split
  · intro c hc
    rw [String.toList_append] at hc
    rcases List.mem_append.1 hc with hc | hc
    · obtain rfl : c = '0' := by simpa using hc
      decide
    · exact hdigits _ c hc
  · exact hdigits _

theorem exponentDigits_ne_nil (place : Int) : exponentDigits place ≠ [] := by
  have htext (n : Nat) : (toString n).toList = Nat.toDigits 10 n := String.toList_ofList
  unfold exponentDigits Number.twoDigits
  split
  · simp
  · rw [htext]
    exact Nat.toDigits_ne_nil

namespace Lexes

/-- The digits before an exponent. -/
theorem mantissa {digits rest : List Char} (hne : digits ≠ [])
    (hdigits : ∀ c ∈ digits, c.isDigit = true) (hrest : StopsNumber rest) :
    Lexes (Formula.mantissa digits) [(.number, String.ofList (Formula.mantissa digits))] rest := by
  obtain ⟨d, ds, rfl⟩ := List.exists_cons_of_ne_nil hne
  cases ds with
  | nil => exact .digits hne hdigits hrest
  | cons e ds =>
      have hmantissa : Formula.mantissa (d :: e :: ds) = [d] ++ '.' :: e :: ds := by
        simp [Formula.mantissa]
      rw [hmantissa]
      exact .decimal (List.cons_ne_nil _ _) hdigits hrest

/-- The sign of an exponent. -/
theorem exponentSign (place : Int) {rest : List Char} :
    Lexes [Formula.exponentSign place]
      [(.operator, String.singleton (Formula.exponentSign place))] rest := by
  unfold Formula.exponentSign
  split
  · exact punctuation (by decide)
  · exact punctuation (by decide)

/-- A word that is neither `not` nor an operator. -/
theorem word {text rest : List Char} (h : IsNameText text)
    (hnot : Text.lowerChars text ≠ ['n', 'o', 't']) (hrest : Follows False rest) :
    Lexes text [(.name, String.ofList text)] rest :=
  .name h (hrest.mono fun heq => hnot heq)

theorem exponential {digits rest : List Char} (hne : digits ≠ [])
    (hdigits : ∀ c ∈ digits, c.isDigit = true) (place : Int) (hrest : StopsNumber rest) :
    Lexes (Number.exponential digits place).toList (exponentShapes digits place) rest := by
  have hexponent : Lexes (exponentDigits place) _ rest :=
    .digits (exponentDigits_ne_nil place) (isDigit_exponentDigits place) hrest
  have hsign := (exponentSign place).append hexponent
  have hfollows : Follows False ([Formula.exponentSign place] ++ exponentDigits place ++ rest) := by
    unfold Formula.exponentSign
    split
    · exact follows_closer (by decide)
    · exact follows_closer (by decide)
  have hletter : Lexes ['e'] [(.name, "e")] _ :=
    .word ⟨'e', [], by decide +kernel⟩ (by decide +kernel) hfollows
  have hstops : StopsNumber (['e'] ++ ([Formula.exponentSign place] ++ exponentDigits place) ++
      rest) := by
    intro c hc
    obtain rfl : 'e' = c := by simpa using hc
    exact ⟨by decide, by decide⟩
  rw [toList_exponential]
  exact (mantissa hne hdigits hstops).append (hletter.append hsign)

end Lexes

/-! ## Magnitudes -/

namespace Number.Magnitude

/-- The digits of a magnitude. -/
def digits (m : Magnitude) : List Char := Nat.toDigits 10 (shortest m).digits

theorem digits_ne_nil (m : Magnitude) : m.digits ≠ [] := Nat.toDigits_ne_nil

theorem isDigit_digits (m : Magnitude) : ∀ c ∈ m.digits, c.isDigit = true :=
  fun _ => isDigit_of_mem_toDigits

/-- The place of the first of them. -/
def place (m : Magnitude) : Int := m.digits.length + (shortest m).exponent

/-- The shapes that the display form of a magnitude is cut into. -/
def displayShapes (m : Magnitude) : List Shape :=
  if m.text false = m.text true then [(.number, m.text true)] else exponentShapes m.digits m.place

theorem text_of_ne {m : Magnitude} (h : m.text false ≠ m.text true) :
    m.text false = exponential m.digits m.place := by
  unfold text at h ⊢
  by_cases hzero : m.units = 0
  · rw [if_pos hzero, if_pos hzero] at h
    exact absurd rfl h
  · by_cases hplace : isPositional m.place = true
    · refine absurd ?_ h
      rw [if_neg hzero, if_neg hzero]
      simp only [Bool.false_or, Bool.true_or, ↓reduceIte]
      exact if_pos hplace
    · rw [if_neg hzero]
      simp only [Bool.false_or]
      exact if_neg hplace

theorem lexes_display (m : Magnitude) {rest : List Char} (hrest : StopsNumber rest) :
    Lexes (m.text false).toList m.displayShapes rest := by
  unfold displayShapes
  by_cases h : m.text false = m.text true
  · rw [if_pos h, h]
    have hlexes := (isNumberText_double false m).lexes rest hrest
    rwa [String.ofList_toList] at hlexes
  · rw [if_neg h, text_of_ne h]
    exact .exponential m.digits_ne_nil m.isDigit_digits _ hrest

theorem exists_digit_text (m : Magnitude) :
    ∃ c cs, (m.text false).toList = c :: cs ∧ c.isDigit = true := by
  by_cases h : m.text false = m.text true
  · rw [h]
    exact (isNumberText_double false m).begins
  · obtain ⟨d, ds, hdigits⟩ := List.exists_cons_of_ne_nil m.digits_ne_nil
    have hd : d.isDigit = true := m.isDigit_digits d (by simp [hdigits])
    rw [text_of_ne h, toList_exponential, hdigits]
    exact ⟨d, _, rfl, hd⟩

end Number.Magnitude

/-! ## Literals -/

/-- The shapes of a minus sign, if there is one. -/
def signShapes (negative : Bool) : List Shape := if negative then [(.operator, "-")] else []

theorem Lexes.signed {negative : Bool} {text rest : List Char} {ls : List Shape}
    (h : Lexes text ls rest) :
    Lexes ((if negative then ['-'] else []) ++ text) (signShapes negative ++ ls) rest := by
  cases negative with
  | false => exact h
  | true => exact Lexes.minus.append h

namespace Scalar

/-- The shapes that the display form of a literal is cut into. -/
def displayShapes : Scalar → List Shape
  | bool b => [(.name, if b then "true" else "false")]
  | int n => (int n).shapes
  | double (.finite negative size) => signShapes negative ++ size.displayShapes
  | double (.infinite negative) => signShapes negative ++ [(.name, "inf")]
  | double .nan => [(.name, "nan")]
  | string s => [(.string, s)]

/-- Without an exponent a number is displayed as it is written in source. -/
theorem displayShapes_of_isPositional {value : Scalar} (h : value.IsPositional)
    (hbool : ∀ b, value ≠ .bool b) : value.displayShapes = value.shapes := by
  match value with
  | bool b => exact absurd rfl (hbool b)
  | int n => rfl
  | string s => rfl
  | double (.infinite negative) =>
      obtain ⟨_, _, hfinite⟩ := h.1
      cases hfinite
  | double .nan =>
      obtain ⟨_, _, hfinite⟩ := h.1
      cases hfinite
  | double (.finite negative size) =>
      have htext := isPositional_finite.1 h
      rw [displayShapes, Magnitude.displayShapes, if_pos htext, shapes, numberShapes, signShapes,
        String.ofList_toList]

theorem toList_signed (negative : Bool) (text : String) :
    ((if negative then "-" else "") ++ text).toList =
      (if negative then ['-'] else []) ++ text.toList := by
  cases negative <;> simp

theorem isSolid_text {value : Scalar} (h : value.IsReadable) : IsSolid value.text.toList := by
  match value with
  | bool b =>
      cases b with
      | false => exact ⟨'f', ['a', 'l', 's', 'e'], rfl, by decide⟩
      | true => exact ⟨'t', ['r', 'u', 'e'], rfl, by decide⟩
  | int n => exact @isSolid (.int n) h trivial
  | string s => exact @isSolid (.string s) h trivial
  | double (.infinite negative) =>
      cases negative with
      | false => exact ⟨'i', ['n', 'f'], rfl, by decide⟩
      | true => exact ⟨'-', ['i', 'n', 'f'], rfl, by decide⟩
  | double .nan => exact ⟨'n', ['a', 'n'], rfl, by decide⟩
  | double (.finite negative size) =>
      obtain ⟨d, ds, htext, hd⟩ := size.exists_digit_text
      have hsolid : Text.isBlank d = false :=
        not_isBlank_of_isWordChar (digits_checked d (mem_usualDigits hd)).2.1
      have hsource : (double (.finite negative size)).text =
          (if negative then "-" else "") ++ size.text false := rfl
      rw [hsource, toList_signed, htext]
      cases negative with
      | false => exact ⟨d, ds, rfl, hsolid⟩
      | true => exact ⟨'-', d :: ds, rfl, by decide⟩

theorem lexes_text {value : Scalar} (h : value.IsReadable) {rest : List Char}
    (hrest : Follows False rest) : Lexes value.text.toList value.displayShapes rest := by
  match value with
  | bool b =>
      cases b with
      | false => exact .word ⟨'f', ['a', 'l', 's', 'e'], by decide +kernel⟩ (by decide +kernel) hrest
      | true => exact .word ⟨'t', ['r', 'u', 'e'], by decide +kernel⟩ (by decide +kernel) hrest
  | int n => exact @lexes (.int n) h trivial _ hrest
  | double (.finite negative size) =>
      have htext : (double (.finite negative size)).text =
          (if negative then "-" else "") ++ size.text false := rfl
      rw [htext, toList_signed]
      exact .signed (size.lexes_display hrest.stopsNumber)
  | double (.infinite negative) =>
      have htext : (double (.infinite negative)).text = (if negative then "-" else "") ++ "inf" := by
        cases negative <;> rfl
      rw [htext, toList_signed]
      exact .signed (.word ⟨'i', ['n', 'f'], by decide +kernel⟩ (by decide +kernel) hrest)
  | double .nan => exact .word ⟨'n', ['a', 'n'], by decide +kernel⟩ (by decide +kernel) hrest
  | string s => exact Lexes.quoteString h

theorem isWrittenAs_text {value : Scalar} (h : value.IsReadable) :
    IsWrittenAs False value.text value.displayShapes where
  solid := isSolid_text h
  lexes _ hrest := lexes_text h hrest

end Scalar

/-! ## Lists -/

namespace Items

/-- The shapes that the display form of a list is cut into. -/
def displayShapes (items : Items) : List Shape := listShapes (items.toList.map Scalar.displayShapes)

theorem ne_bool_of_mem {items : Items} {value : Scalar} (h : value ∈ items.toList) (b : Bool) :
    value ≠ .bool b := by
  rintro rfl
  cases items <;> simp [toList] at h

theorem displayShapes_of_isPositional {items : Items}
    (h : ∀ value ∈ items.toList, value.IsPositional) : items.displayShapes = items.shapes := by
  have hrows : items.toList.map Scalar.displayShapes = items.toList.map Scalar.shapes :=
    List.map_congr_left fun value hvalue =>
      Scalar.displayShapes_of_isPositional (h value hvalue) (ne_bool_of_mem hvalue)
  rw [displayShapes, hrows, shapes]

theorem isWrittenAs_text {items : Items} (h : items.IsReadable) (isNot : Prop) :
    IsWrittenAs isNot (Node.list items).text items.displayShapes where
  solid := by
    rw [Node.text]
    exact isSolid_list _
  lexes rest _ := by
    have hall : ∀ v ∈ items.toList, IsWrittenAs True v.text v.displayShapes := fun v hv =>
      (Scalar.isWrittenAs_text (h.all v hv)).mono fun h => h.elim
    rw [Node.text]
    exact lexes_list h.nonempty hall rest

end Items

end Formula
