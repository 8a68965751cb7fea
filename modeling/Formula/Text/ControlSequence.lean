set_option autoImplicit false

/-! # Control sequences of terminals

A control sequence is an escape character, an opening bracket, parameters made of digits, semicolons
and question marks, and a letter. A text that is not written to a terminal is written without them.

Main statement: `withoutControlSequences_eq_self` (a text without escape characters stays as it
is). -/

namespace Formula.Text

/-- Whether a character may stand among the parameters of a control sequence. -/
def isParameter (c : Char) : Bool := c.isDigit || c == ';' || c == '?'

/-- The number of characters of the control sequence that a text begins with, if it begins with
one. -/
def controlSequenceLength? : List Char → Option Nat
  | '\x1b' :: '[' :: cs =>
    let parameters := cs.takeWhile isParameter
    match cs.dropWhile isParameter with
    | c :: _ => if c.isAlpha then some (parameters.length + 3) else none
    | [] => none
  | _ => none

/-- A text without its control sequences; the first `skip` characters belong to one already
found. -/
def dropControlSequences : Nat → List Char → List Char
  | _, [] => []
  | skip + 1, _ :: cs => dropControlSequences skip cs
  | 0, c :: cs =>
    match controlSequenceLength? (c :: cs) with
    | some length => dropControlSequences (length - 1) cs
    | none => c :: dropControlSequences 0 cs

/-- A text without its control sequences. -/
def withoutControlSequences (s : String) : String := String.ofList (dropControlSequences 0 s.toList)

theorem dropControlSequences_eq_self (cs : List Char) (h : '\x1b' ∉ cs) :
    dropControlSequences 0 cs = cs := by
  induction cs with
  | nil => rfl
  | cons c cs ih =>
    rw [List.mem_cons, not_or] at h
    have plain : controlSequenceLength? (c :: cs) = none := by
      unfold controlSequenceLength?
      split
      · rename_i heq
        exact absurd (List.cons.inj heq).1.symm h.1
      · rfl
    rw [dropControlSequences, plain, ih h.2]

theorem withoutControlSequences_eq_self (s : String) (h : '\x1b' ∉ s.toList) :
    withoutControlSequences s = s := by
  rw [withoutControlSequences, dropControlSequences_eq_self s.toList h, String.ofList_toList]

end Formula.Text
