import Formula.Proofs.Grammar.Acceptance
import Formula.Proofs.Lexing.Lexeme
import Formula.Proofs.Validation.Coverage

set_option autoImplicit false

/-! # How a validation ends

A text that cannot be read is refused, and so is a text in which faults are found. One cause is
caught nowhere: the tokens may hold an integer of more digits than can be read, or list one that is
too large for the doubles beside it. It ends the validation, and nothing else does.

Main statements: `Interpreter.validate_returns_iff` and `Interpreter.validate_long_raises`. -/

namespace Formula

/-- The flag of a report says that there are no faults, and that there is an expression. -/
structure Report.IsCoherent (report : Report) : Prop where
  faults : report.isValid = true ↔ report.faults = []
  expression : report.isValid = true ↔ report.expression.isSome = true

theorem Report.IsRefusal.isCoherent {report : Report} (h : report.IsRefusal) :
    report.IsCoherent where
  faults := by simp [h.isValid, h.faults]
  expression := by simp [h.isValid, h.expression]

theorem Validation.isCoherent_of_validate {i : Interpreter} {text : String}
    {types : Dictionary String ValueType} {report : Report} {w w' : World}
    (h : i.validate text types w = (.ok report, w')) : report.IsCoherent := by
  rcases of_validate_eq_ok h with hrefused | ⟨e, declared, checked, rfl, _⟩
  · exact hrefused.isCoherent
  · exact ⟨by simp, by simp⟩

/-! ## Numbers without a value -/

/-- The reading of a text stops at a number that has no value, for the given cause. -/
def StopsAtNumber (strict : Bool) (text : String) (cause : Unreadable) : Prop :=
  ∃ ts, tokenize strict text = .ok ts ∧ parseTokens ts = .error cause ∧ ¬ Grammar.IsMalformed cause

/-- Only a number without a value makes a cause that is not reported as an unreadable text. -/
theorem readTokens_cases {source : String} {ts : List Token} {fault : Fault}
    (h : readTokens source ts = .error fault) :
    (∃ error, fault = .unreadable error) ∨
      ∃ cause, fault = .unreadableNumber cause ∧ parseTokens ts = .error cause ∧
        ¬ Grammar.IsMalformed cause := by
  unfold readTokens at h
  split at h
  · split at h
    · cases h
      exact .inl ⟨_, rfl⟩
    · cases h
  · split at h
    · cases h
      exact .inl ⟨_, rfl⟩
    · cases h
      exact .inl ⟨_, rfl⟩
  next cause hform hparse =>
    cases h
    exact .inr ⟨cause, rfl, hparse, fun ⟨e, he⟩ => hform e he⟩

/-- A text that gives no tree is reported as unreadable, or its reading stops at a number. -/
theorem readText_cases {strict : Bool} {text : String} {fault : Fault}
    (h : readText strict text = .error fault) :
    (∃ error, fault = .unreadable error) ∨
      ∃ cause, fault = .unreadableNumber cause ∧ StopsAtNumber strict text cause := by
  unfold readText at h
  split at h
  · cases h
    exact .inl ⟨_, rfl⟩
  next ts htokens =>
    rcases readTokens_cases h with herror | ⟨cause, rfl, hparse, hform⟩
    · exact .inl herror
    · exact .inr ⟨cause, rfl, ts, htokens, hparse, hform⟩

theorem StopsAtNumber.readText {strict : Bool} {text : String} {cause : Unreadable}
    (h : StopsAtNumber strict text cause) :
    readText strict text = .error (.unreadableNumber cause) := by
  obtain ⟨ts, htokens, hparse, hform⟩ := h
  rw [Formula.readText, htokens]
  simp only [readTokens, hparse]
  cases cause with
  | malformed error => exact absurd ⟨error, rfl⟩ hform
  | tooManyDigits count => rfl
  | tooLargeForDouble => rfl

/-- Where all numbers of a text have values, its reading does not stop at one. -/
theorem StopsAtNumber.not_numbersFit {strict : Bool} {text : String} {cause : Unreadable}
    (h : StopsAtNumber strict text cause) :
    ∃ ts, tokenize strict text = .ok ts ∧ ¬ Grammar.NumbersFit ts := by
  obtain ⟨ts, htokens, hparse, hform⟩ := h
  refine ⟨ts, htokens, fun hfits => ?_⟩
  cases ts with
  | nil =>
      cases hparse
      exact hform ⟨_, rfl⟩
  | cons t ts => exact hform ((Grammar.faults _).whole hfits hparse)

theorem StopsAtNumber.kind {strict : Bool} {text : String} {cause : Unreadable}
    (h : StopsAtNumber strict text cause) :
    (Fault.unreadableNumber cause).kind = "ValueError" ∨
      (Fault.unreadableNumber cause).kind = "OverflowError" := by
  obtain ⟨_, _, _, hform⟩ := h
  cases cause with
  | malformed error => exact absurd ⟨error, rfl⟩ hform
  | tooManyDigits count => exact .inl rfl
  | tooLargeForDouble => exact .inr rfl

namespace Interpreter

variable (i : Interpreter) (text : String) (types : Dictionary String ValueType) (w : World)

/-- An unreadable text is refused with that fault alone. -/
theorem validate_unreadable {error : ReadError}
    (htext : readText i.config.strict text = .error (.unreadable error)) :
    i.validate text types w = (.ok ⟨false, [.unreadable error], none⟩, i.reading text w) := by
  have hread := Validation.run_read i text w
  rw [htext] at hread
  unfold validate
  rw [← bind_pure_comp, run_bind_of_ok ((run_tryCatch_of_error (run_bind_of_error hread)).trans rfl)]
  rfl

/-- A number without a value ends the validation. -/
theorem validate_unreadableNumber {cause : Unreadable}
    (htext : readText i.config.strict text = .error (.unreadableNumber cause)) :
    i.validate text types w = (.error (.unreadableNumber cause), i.reading text w) := by
  have hread := Validation.run_read i text w
  rw [htext] at hread
  unfold validate
  rw [← bind_pure_comp, run_bind_of_error
    ((run_tryCatch_of_error (run_bind_of_error hread)).trans rfl)]
  rfl

/-- Where the reading stops at no number, the validation ends with a report. -/
theorem exists_report (h : ∀ cause, ¬ StopsAtNumber i.config.strict text cause) :
    ∃ report w', i.validate text types w = (.ok report, w') := by
  cases htext : readText i.config.strict text with
  | ok tree =>
      obtain ⟨report, w', _, hrun, _⟩ := i.run_validateTree text tree types (i.reading text w)
      exact ⟨report, w', (Validation.run_validate types w htext).trans hrun⟩
  | error fault =>
      rcases readText_cases htext with ⟨error, rfl⟩ | ⟨cause, rfl, hstops⟩
      · exact ⟨_, _, i.validate_unreadable text types w htext⟩
      · exact absurd hstops (h cause)

/-- A validation ends with a report, whose flag, faults and expression agree, exactly if the reading
of the text does not stop at a number without a value. If it does, that cause is what the validation
ends with, and some integer of the text has too many digits or is too large for the doubles beside
it. -/
theorem validate_returns_iff :
    ((∃ report w', i.validate text types w = (.ok report, w') ∧ report.IsCoherent) ↔
        ∀ cause, ¬ StopsAtNumber i.config.strict text cause) ∧
      ∀ fault, (i.validate text types w).1 = .error fault →
        (fault.kind = "ValueError" ∨ fault.kind = "OverflowError") ∧
          ∃ ts, tokenize i.config.strict text = .ok ts ∧ ¬ Grammar.NumbersFit ts := by
  refine ⟨⟨?_, ?_⟩, ?_⟩
  · rintro ⟨report, w', hrun, _⟩ cause hstops
    rw [i.validate_unreadableNumber text types w hstops.readText] at hrun
    cases hrun
  · intro h
    obtain ⟨report, w', hrun⟩ := i.exists_report text types w h
    exact ⟨report, w', hrun, Validation.isCoherent_of_validate hrun⟩
  · intro fault hfails
    by_cases h : ∃ cause, StopsAtNumber i.config.strict text cause
    · obtain ⟨cause, hstops⟩ := h
      rw [i.validate_unreadableNumber text types w hstops.readText] at hfails
      cases hfails
      exact ⟨hstops.kind, hstops.not_numbersFit⟩
    · obtain ⟨report, w', hrun⟩ := i.exists_report text types w fun cause hc => h ⟨cause, hc⟩
      rw [hrun] at hfails
      cases hfails

/-! ## A number of too many digits -/

/-- A row of ones, one more than can be read. -/
def longText : String := String.ofList (List.replicate (Text.digitLimit + 1) '1')

theorem longText_toList : longText.toList = List.replicate (Text.digitLimit + 1) '1' :=
  String.toList_ofList

/-- A number token without a value is all that is read of a text. -/
theorem parseTokens_number {t : Token} {cause : Unreadable} (hkind : t.kind = .number)
    (hread : readNumber false t.value.toList = .error cause) : parseTokens [t] = .error cause := by
  have hoperand (fuel stop : Nat) : readOperand (fuel + 1) stop [t] = .error cause := by
    simp only [readOperand, hkind, hread]
    rfl
  have hexpression (fuel stop : Nat) : readExpression (fuel + 2) stop [t] = .error cause := by
    rw [readExpression, hoperand]
    rfl
  show readWhole (2 * 1 + 3) [t] = .error cause
  rw [readWhole, hexpression]
  rfl

theorem readNumber_long :
    readNumber false longText.toList = .error (.tooManyDigits (Text.digitLimit + 1)) := by
  have hpoint : '.' ∉ longText.toList := by
    rw [longText_toList]
    exact fun h => absurd (List.eq_of_mem_replicate h) (by decide)
  have hlength : longText.toList.length = Text.digitLimit + 1 := by
    rw [longText_toList, List.length_replicate]
  rw [readNumber, if_neg hpoint, hlength, if_pos (Nat.lt_succ_self _)]

theorem stopsAtNumber_long (strict : Bool) :
    StopsAtNumber strict longText (.tooManyDigits (Text.digitLimit + 1)) := by
  have hlexes : Lexes longText.toList [(.number, longText)] [] := by
    have hdigits := @Lexes.digits [] longText.toList
      (by rw [longText_toList]; exact List.cons_ne_nil _ _)
      (fun c hc => by
        rw [longText_toList] at hc
        rw [List.eq_of_mem_replicate hc]
        rfl)
      (fun c hc => by cases hc)
    rwa [String.ofList_toList] at hdigits
  obtain ⟨ts, htokens, hshapes⟩ := hlexes.tokenize strict
  obtain ⟨t, rfl, hshape⟩ := List.map_eq_singleton_iff.1 hshapes
  have hkind : t.kind = .number := congrArg Prod.fst hshape
  have hvalue : t.value = longText := congrArg Prod.snd hshape
  refine ⟨[t], htokens, parseTokens_number hkind ?_, fun ⟨_, h⟩ => by cases h⟩
  rw [hvalue]
  exact readNumber_long

/-- The validation of an integer of too many digits ends without a report. -/
theorem validate_long_raises :
    (echoing.validate longText .empty .single).1 =
        .error (.unreadableNumber (.tooManyDigits (Text.digitLimit + 1))) ∧
      ¬ ∃ report w', echoing.validate longText .empty .single = (.ok report, w') := by
  have hrun := validate_unreadableNumber echoing longText .empty .single
    (stopsAtNumber_long _).readText
  rw [hrun]
  exact ⟨rfl, fun ⟨report, w', h⟩ => by cases h⟩

end Interpreter

end Formula
