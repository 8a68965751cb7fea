import Formula.Proofs.Grammar.Soundness
import Formula.Tree.Text

set_option autoImplicit false

/-! # Dotted names

A name token is cut at its points. `IsPathOf` says which parent and name a path is put together from,
and `splitPath_eq_ok` that those are the ones it is split into; `readName_cases` lists what a name can
stand for when no call follows. -/

namespace Formula

/-! ## Segments -/

theorem segments_ne_nil (cs : List Char) : segments cs ≠ [] := by
  cases cs with
  | nil => simp [segments]
  | cons c cs =>
      rw [segments.eq_def]
      simp only
      split <;> simp

theorem segments_cons_point (cs : List Char) : segments ('.' :: cs) = [] :: segments cs := by
  simp [segments]

theorem segments_cons {c : Char} {cs part : List Char} {parts : List (List Char)} (hc : c ≠ '.')
    (h : segments cs = part :: parts) : segments (c :: cs) = (c :: part) :: parts := by
  rw [segments.eq_def]
  simp [h]

/-- A path without a point is its only segment. -/
theorem segments_of_not_mem {cs : List Char} (h : '.' ∉ cs) : segments cs = [cs] := by
  induction cs with
  | nil => rfl
  | cons c cs ih =>
      obtain ⟨hc, hcs⟩ : '.' ≠ c ∧ '.' ∉ cs := by simpa using h
      exact segments_cons (Ne.symm hc) (ih hcs)

/-- A path with a point has the part before it as its first segment. -/
theorem segments_append {cs ds : List Char} (h : '.' ∉ cs) :
    segments (cs ++ '.' :: ds) = cs :: segments ds := by
  induction cs with
  | nil => exact segments_cons_point ds
  | cons c cs ih =>
      obtain ⟨hc, hcs⟩ : '.' ≠ c ∧ '.' ∉ cs := by simpa using h
      exact segments_cons (Ne.symm hc) (ih hcs)

/-- The first segment of a path, and what stands behind it. -/
theorem exists_of_segments_eq_cons {cs part : List Char} {parts : List (List Char)}
    (h : segments cs = part :: parts) :
    '.' ∉ part ∧ (parts = [] ∧ cs = part ∨ ∃ ds, cs = part ++ '.' :: ds ∧ segments ds = parts) := by
  induction cs generalizing part with
  | nil =>
      cases h
      exact ⟨by simp, .inl ⟨rfl, rfl⟩⟩
  | cons c cs ih =>
      by_cases hc : c = '.'
      · subst hc
        rw [segments_cons_point] at h
        cases h
        exact ⟨by simp, .inr ⟨cs, rfl, rfl⟩⟩
      · obtain ⟨first, others, hcs⟩ := List.exists_cons_of_ne_nil (segments_ne_nil cs)
        rw [segments_cons hc hcs] at h
        cases h
        obtain ⟨hfirst, hrest⟩ := ih hcs
        refine ⟨by simp [Ne.symm hc, hfirst], ?_⟩
        rcases hrest with ⟨rfl, rfl⟩ | ⟨ds, rfl, hds⟩
        · exact .inl ⟨rfl, rfl⟩
        · exact .inr ⟨ds, rfl, hds⟩

/-! ## Names -/

/-- A parent and a name that are written as one path. -/
structure IsPathOf (parent : Option String) (name path : String) : Prop where
  path : path = qualify parent name
  parent : ∀ p ∈ parent, '.' ∉ p.toList
  name : '.' ∉ name.toList

/-- A name token is split as its value was put together. -/
theorem splitPath_eq_ok {t : Token} {parent : Option String} {name : String} :
    splitPath t = .ok (parent, name) ↔ IsPathOf parent name t.value := by
  constructor
  · intro h
    unfold splitPath at h
    split at h
    next cs hsegments =>
      cases h
      obtain ⟨hcs, ⟨_, hvalue⟩ | ⟨ds, _, hds⟩⟩ := exists_of_segments_eq_cons hsegments
      · exact ⟨by rw [qualify, ← hvalue, String.ofList_toList], by simp, by simpa using hcs⟩
      · exact absurd hds (segments_ne_nil ds)
    next cs ds hsegments =>
      cases h
      obtain ⟨hcs, ⟨hnil, _⟩ | ⟨es, hvalue, hes⟩⟩ := exists_of_segments_eq_cons hsegments
      · cases hnil
      · obtain ⟨hds, ⟨_, rfl⟩ | ⟨fs, _, hfs⟩⟩ := exists_of_segments_eq_cons hes
        · refine ⟨?_, by simpa using hcs, by simpa using hds⟩
          rw [← String.toList_inj]
          simp [qualify, hvalue]
        · exact absurd hfs (segments_ne_nil fs)
    · simp at h
  · rintro ⟨hpath, hparent, hname⟩
    unfold splitPath
    cases parent with
    | none =>
        have hvalue : t.value = name := hpath
        rw [hvalue, segments_of_not_mem hname]
        simp
    | some parent =>
        have hvalue : t.value.toList = parent.toList ++ '.' :: name.toList := by
          simp [hpath, qualify]
        rw [hvalue, segments_append (hparent parent rfl), segments_of_not_mem hname]
        simp

theorem mem_lowerFrom_point {before cs : List Char} (h : '.' ∈ cs) :
    '.' ∈ Text.lowerFrom before cs := by
  induction cs generalizing before with
  | nil => simp at h
  | cons c cs ih =>
      rw [Text.lowerFrom, List.mem_append]
      rcases List.mem_cons.1 h with rfl | h
      · have hpoint : Text.lowerChar '.' = ['.'] := by decide
        exact .inl (by simp [hpoint])
      · exact .inr (ih h)

/-- A name with a point in it is no truth value. -/
theorem lower_ne_of_point {s word : String} (h : '.' ∈ s.toList) (hword : '.' ∉ word.toList) :
    Text.lower s ≠ word := by
  rintro rfl
  exact hword (by simpa [Text.lower, Text.lowerChars] using mem_lowerFrom_point h)

/-- What a name stands for when no call follows. -/
theorem readName_cases {t : Token} {node : Node} (h : readName t = .ok node) :
    (∃ b, node = .literal (.bool b)) ∨
      (∃ parent name, node = .member parent name ∧ IsPathOf (some parent) name t.value) ∨
        ∃ name, node = .name name ∧ IsPathOf none name t.value ∧
          Text.lower name ≠ "true" ∧ Text.lower name ≠ "false" := by
  simp only [readName] at h
  split at h
  · cases h
    exact .inl ⟨true, rfl⟩
  next htrue =>
    split at h
    · cases h
      exact .inl ⟨false, rfl⟩
    next hfalse =>
      obtain ⟨⟨parent, name⟩, hpath, h⟩ := Grammar.exists_of_bind_eq_ok h
      have hpath' := splitPath_eq_ok.1 hpath
      cases parent with
      | some parent =>
          cases h
          exact .inr (.inl ⟨parent, name, rfl, hpath'⟩)
      | none =>
          cases h
          have hvalue : t.value = name := hpath'.path
          rw [hvalue] at htrue hfalse
          exact .inr (.inr ⟨name, rfl, hpath', htrue, hfalse⟩)

end Formula
