import Formula.Yaml.Cursor

set_option autoImplicit false

/-! # Folded lines

A scalar that goes on in the next line is read as if it stood in one: the end of the line and the
blanks around it count as one blank. Empty lines between count as line feeds instead, one each.

Main statements: `lineBreaks?_length` and `gap?_length` (what is read comes off the front). -/

namespace Formula.Yaml

/-- What the ends of lines between two words are read as: the first one is a blank if no other
follows, and is left out before others. -/
def folded (first : Char) (more : List Char) : List Char :=
  if first ≠ '\n' then first :: more else if more.isEmpty then [' '] else more

namespace Cursor

/-- Reads the ends of lines behind one, each with the filling before it. There are none where a
document mark stands, because the scalar cannot go on there. -/
def lineBreaks? (isFilling : Char → Bool) : Nat → Cursor → Option (List Char × Cursor)
  | 0, _ => none
  | fuel + 1, c =>
    if c.isAtDocumentMark then none
    else
      let c := c.skipWhile isFilling
      match c.lineBreak? with
      | some (ch, c) => (lineBreaks? isFilling fuel c).map fun (more, c) => (ch :: more, c)
      | none => some ([], c)

/-- Reads what stands before the next word of a scalar: filling within the line, or the folded ends
of lines. -/
def gap? (isFilling : Char → Bool) (c : Cursor) : Option (List Char × Cursor) :=
  let filling := c.rest.takeWhile isFilling
  let c := c.skipWhile isFilling
  match c.lineBreak? with
  | some (ch, c) =>
    (lineBreaks? isFilling (c.rest.length + 1) c).map fun (more, c) => (folded ch more, c)
  | none => some (filling, c)

theorem length_dropWhile_le (p : Char → Bool) (cs : List Char) :
    (cs.dropWhile p).length ≤ cs.length := by
  rw [← drop_length_takeWhile, List.length_drop]
  exact Nat.sub_le _ _

theorem length_lineBreak? {c next : Cursor} {ch : Char} (h : c.lineBreak? = some (ch, next)) :
    next.rest.length ≤ c.rest.length := by
  rcases rest_lineBreak? h with one | two
  · rw [one, List.length_drop]
    exact Nat.sub_le _ _
  · rw [two, List.length_drop]
    exact Nat.sub_le _ _

theorem lineBreaks?_length {isFilling : Char → Bool} {fuel : Nat} {c next : Cursor}
    {cs : List Char} (h : lineBreaks? isFilling fuel c = some (cs, next)) :
    next.rest.length ≤ c.rest.length := by
  induction fuel generalizing c cs with
  | zero => cases h
  | succ fuel ih =>
    have skipped : (c.skipWhile isFilling).rest.length ≤ c.rest.length := by
      rw [rest_skipWhile]
      exact length_dropWhile_le _ _
    rw [lineBreaks?] at h
    split at h
    · cases h
    · dsimp only at h
      split at h
      · rename_i ch after read
        obtain ⟨⟨more, last⟩, found, same⟩ := Option.map_eq_some_iff.1 h
        cases same
        exact Nat.le_trans (ih found) (Nat.le_trans (length_lineBreak? read) skipped)
      · cases h
        exact skipped

theorem gap?_length {isFilling : Char → Bool} {c next : Cursor} {cs : List Char}
    (h : c.gap? isFilling = some (cs, next)) : next.rest.length ≤ c.rest.length := by
  have skipped : (c.skipWhile isFilling).rest.length ≤ c.rest.length := by
    rw [rest_skipWhile]
    exact length_dropWhile_le _ _
  rw [gap?] at h
  dsimp only at h
  split at h
  · rename_i ch after read
    obtain ⟨⟨more, last⟩, found, same⟩ := Option.map_eq_some_iff.1 h
    cases same
    exact Nat.le_trans (lineBreaks?_length found) (Nat.le_trans (length_lineBreak? read) skipped)
  · cases h
    exact skipped

end Cursor

end Formula.Yaml
