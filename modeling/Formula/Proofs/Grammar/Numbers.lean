import Formula.Proofs.Grammar.Soundness

set_option autoImplicit false

/-! # Numbers that can be represented

A number token has a value unless it is an integer of too many digits, and a list of numbers has
one unless an integer in it is beyond the doubles beside it. `NumbersFit` excludes both, for every
list that a row of tokens may turn out to hold; `RowFits` is what is left of that in the middle of a
list, where some items have been read already.

Main statements: `RowFits.addNumber` (one more number keeps it) and `readItems_error` (what is then
wrong with a list is its form). -/

namespace Formula.Grammar

open Number (Binary64 Magnitude unitsPerOne)

/-! ## Definitions -/

/-- A number without a point. -/
def IsInteger (t : Token) : Prop := t.kind = .number ∧ '.' ∉ t.value.toList

/-- A number with a point. -/
def IsDecimal (t : Token) : Prop := t.kind = .number ∧ '.' ∈ t.value.toList

/-- An integer near enough to zero to be a double. -/
def FitsDouble (n : Int) : Prop := ∃ x, Binary64.ofInt? n = some x

/-- A token that a list of numbers is made of. -/
def IsRowToken (t : Token) : Prop := t.kind = .number ∨ t.kind = .operator ∨ t.kind = .comma

/-- Every integer has a readable number of digits, and fits a double where it is listed beside one. -/
structure NumbersFit (ts : List Token) : Prop where
  short : ∀ t ∈ ts, IsInteger t → t.value.toList.length ≤ Text.digitLimit
  small : ∀ (opening : Token) (row : List Token), opening :: row <:+: ts →
    opening.kind = .leftBracket → (∀ t ∈ row, IsRowToken t) → (∃ t ∈ row, IsDecimal t) →
      ∀ t ∈ row, IsInteger t → FitsDouble (Text.readDigits t.value.toList)

/-- The integers among the items read so far. -/
def heldInts : Option Items → List Int
  | some (.ints items) => items
  | _ => []

/-- Whether the items read so far are doubles. -/
def HoldDoubles (known : Option Items) : Prop := ∃ items, known = some (.doubles items)

/-- What `NumbersFit` says of a list some of whose items are read: the integers read so far and those
to come fit a double as soon as there is one. -/
structure RowFits (known : Option Items) (ts : List Token) : Prop where
  short : ∀ t ∈ ts, IsInteger t → t.value.toList.length ≤ Text.digitLimit
  held : ∀ row, row <+: ts → (∀ t ∈ row, IsRowToken t) → (∃ t ∈ row, IsDecimal t) →
    ∀ n ∈ heldInts known, FitsDouble n
  small : ∀ row, row <+: ts → (∀ t ∈ row, IsRowToken t) →
    HoldDoubles known ∨ (∃ t ∈ row, IsDecimal t) →
      ∀ t ∈ row, IsInteger t → FitsDouble (Text.readDigits t.value.toList)

/-- The error of a row of tokens that has not the form of an expression. -/
def IsMalformed (e : Unreadable) : Prop := ∃ error, e = .malformed error

/-! ## Parts of a row -/

theorem NumbersFit.of_infix {ts us : List Token} (h : NumbersFit ts) (hus : us <:+: ts) :
    NumbersFit us where
  short t ht := h.short t (hus.subset ht)
  small opening row hrow := h.small opening row (hrow.trans hus)

theorem NumbersFit.left {ts us : List Token} (h : NumbersFit (ts ++ us)) : NumbersFit ts :=
  h.of_infix ⟨[], us, by simp⟩

theorem NumbersFit.right {ts us : List Token} (h : NumbersFit (ts ++ us)) : NumbersFit us :=
  h.of_infix ⟨ts, [], by simp⟩

theorem NumbersFit.tail {t : Token} {us : List Token} (h : NumbersFit (t :: us)) : NumbersFit us :=
  h.of_infix ⟨[t], [], by simp⟩

/-- It is enough that every integer is readable and fits a double. -/
theorem NumbersFit.of_forall {ts : List Token}
    (h : ∀ t ∈ ts, IsInteger t → t.value.toList.length ≤ Text.digitLimit ∧
      FitsDouble (Text.readDigits t.value.toList)) : NumbersFit ts where
  short t ht hinteger := (h t ht hinteger).1
  small _ _ hrow _ _ _ t ht hinteger :=
    (h t (hrow.subset (List.mem_cons_of_mem _ ht)) hinteger).2

/-- At the opening bracket of a list nothing has been read. -/
theorem NumbersFit.row {opening : Token} {ts : List Token} (h : NumbersFit (opening :: ts))
    (hopening : opening.kind = .leftBracket) : RowFits none ts where
  short t ht := h.short t (List.mem_cons_of_mem _ ht)
  held := by simp [heldInts]
  small row hrow hkinds hdouble := by
    obtain ⟨after, rfl⟩ := hrow
    refine h.small opening row ⟨[], after, by simp⟩ hopening hkinds ?_
    simpa [HoldDoubles] using hdouble

theorem RowFits.tail {known : Option Items} {t : Token} {ts : List Token}
    (h : RowFits known (t :: ts)) (ht : IsRowToken t) : RowFits known ts where
  short u hu := h.short u (List.mem_cons_of_mem _ hu)
  held row hrow hkinds hdouble := by
    obtain ⟨d, hd, hdecimal⟩ := hdouble
    exact h.held (t :: row) (List.cons_prefix_cons.2 ⟨rfl, hrow⟩) (by simpa [ht] using hkinds)
      ⟨d, List.mem_cons_of_mem _ hd, hdecimal⟩
  small row hrow hkinds hdouble u hu := by
    refine h.small (t :: row) (List.cons_prefix_cons.2 ⟨rfl, hrow⟩) (by simpa [ht] using hkinds)
      (hdouble.imp id ?_) u (List.mem_cons_of_mem _ hu)
    rintro ⟨d, hd, hdecimal⟩
    exact ⟨d, List.mem_cons_of_mem _ hd, hdecimal⟩

/-! ## Numbers -/

theorem fitsDouble_iff {n : Int} :
    FitsDouble n ↔ ∃ size, Magnitude.round? (n.natAbs * unitsPerOne) 1 = some size := by
  unfold FitsDouble Binary64.ofInt?
  constructor
  · rintro ⟨x, hx⟩
    obtain ⟨size, hsize, _⟩ := Option.map_eq_some_iff.1 hx
    exact ⟨size, hsize⟩
  · rintro ⟨size, hsize⟩
    exact ⟨_, Option.map_eq_some_iff.2 ⟨size, hsize, rfl⟩⟩

theorem fitsDouble_neg {n : Int} : FitsDouble (-n) ↔ FitsDouble n := by
  rw [fitsDouble_iff, fitsDouble_iff, Int.natAbs_neg]

theorem doubleOfInt_eq_ok {n : Int} (h : FitsDouble n) : ∃ x, doubleOfInt n = .ok x := by
  obtain ⟨x, hx⟩ := h
  refine ⟨x, ?_⟩
  rw [doubleOfInt, hx]
  rfl

theorem exists_mapM_eq_ok {ε α β : Type} {f : α → Except ε β} {as : List α}
    (h : ∀ a ∈ as, ∃ b, f a = .ok b) : ∃ bs, as.mapM f = .ok bs := by
  induction as with
  | nil => exact ⟨[], rfl⟩
  | cons a as ih =>
      obtain ⟨b, hb⟩ := h a (by simp)
      obtain ⟨bs, hbs⟩ := ih fun a' ha' => h a' (List.mem_cons_of_mem _ ha')
      exact ⟨b :: bs, by simp [hb, hbs, bind, Except.bind, pure, Except.pure]⟩

/-- A number of a readable length has a value: a double if it has a point. -/
theorem readNumber_decimal (negative : Bool) {text : List Char} (h : '.' ∈ text) :
    ∃ x, readNumber negative text = .ok (.double x) := by
  simp [readNumber, h]

theorem readNumber_integer (negative : Bool) {text : List Char} (h : '.' ∉ text)
    (hlength : text.length ≤ Text.digitLimit) :
    ∃ n : Int, readNumber negative text = .ok (.int n) ∧
      (FitsDouble (Text.readDigits text) → FitsDouble n) := by
  have hshort : ¬ Text.digitLimit < text.length := by omega
  cases negative with
  | false => exact ⟨Text.readDigits text, by simp [readNumber, h, hshort], id⟩
  | true => exact ⟨-Text.readDigits text, by simp [readNumber, h, hshort], fitsDouble_neg.2⟩

theorem readNumber_eq_ok (negative : Bool) {t : Token} (hk : t.kind = .number)
    (h : IsInteger t → t.value.toList.length ≤ Text.digitLimit) :
    ∃ x, readNumber negative t.value.toList = .ok x := by
  by_cases hpoint : '.' ∈ t.value.toList
  · obtain ⟨x, hx⟩ := readNumber_decimal negative hpoint
    exact ⟨_, hx⟩
  · obtain ⟨n, hn, _⟩ := readNumber_integer negative hpoint (h ⟨hk, hpoint⟩)
    exact ⟨_, hn⟩

/-! ## One item more -/

/-- Whether the items read so far can be followed by a number. -/
def Numeric (known : Option Items) : Prop := ∀ items, known ≠ some (.strings items)

section Added

variable {known : Option Items} {n : Token} {ts : List Token}

/-- The point of a number makes doubles of all numbers behind it. -/
theorem RowFits.of_decimal (h : RowFits known (n :: ts)) (hn : IsDecimal n)
    (items : List Binary64) : RowFits (some (.doubles items)) ts where
  short := (h.tail (.inl hn.1)).short
  held := by simp [heldInts]
  small row hrow hkinds _ t ht := by
    refine h.small (n :: row) (List.cons_prefix_cons.2 ⟨rfl, hrow⟩) ?_ ?_ t
      (List.mem_cons_of_mem _ ht)
    · simpa [IsRowToken, hn.1] using hkinds
    · exact .inr ⟨n, List.mem_cons_self, hn⟩

/-- It makes doubles of the integers before it, too. -/
theorem RowFits.held_of_decimal (h : RowFits known (n :: ts)) (hn : IsDecimal n) :
    ∀ m ∈ heldInts known, FitsDouble m :=
  h.held [n] (by simp) (by simp [IsRowToken, hn.1]) ⟨n, List.mem_cons_self, hn⟩

/-- An integer fits a double as soon as there is one, before it or behind it. -/
theorem RowFits.small_of_integer (h : RowFits known (n :: ts)) (hn : IsInteger n)
    {row : List Token} (hrow : row <+: ts) (hkinds : ∀ t ∈ row, IsRowToken t)
    (hdouble : HoldDoubles known ∨ ∃ t ∈ row, IsDecimal t) :
    FitsDouble (Text.readDigits n.value.toList) := by
  refine h.small (n :: row) (List.cons_prefix_cons.2 ⟨rfl, hrow⟩) ?_ (hdouble.imp id ?_) n
    List.mem_cons_self hn
  · simpa [IsRowToken, hn.1] using hkinds
  · rintro ⟨d, hd, hdecimal⟩
    exact ⟨d, List.mem_cons_of_mem _ hd, hdecimal⟩

/-- An integer is added to the integers before it. -/
theorem RowFits.of_integer (h : RowFits known (n :: ts)) (hn : IsInteger n) {m : Int}
    (hm : FitsDouble (Text.readDigits n.value.toList) → FitsDouble m) :
    RowFits (some (.ints (heldInts known ++ [m]))) ts where
  short := (h.tail (.inl hn.1)).short
  held row hrow hkinds hdouble k hk := by
    rcases List.mem_append.1 hk with hk | hk
    · exact (h.tail (.inl hn.1)).held row hrow hkinds hdouble k hk
    · obtain rfl : k = m := by simpa using hk
      exact hm (h.small_of_integer hn hrow hkinds (.inr hdouble))
  small row hrow hkinds hdouble := by
    rcases hdouble with ⟨_, hdouble⟩ | hdouble
    · cases hdouble
    · exact (h.tail (.inl hn.1)).small row hrow hkinds (.inr hdouble)

/-- A number that follows numbers is added to them, and what is left of the list fits. -/
theorem RowFits.addNumber {x : Scalar} {negative : Bool} (h : RowFits known (n :: ts))
    (hk : n.kind = .number) (hx : readNumber negative n.value.toList = .ok x)
    (hknown : Numeric known) (mixed : Unreadable) :
    ∃ items, Items.addNumber mixed known x = .ok items ∧ RowFits (some items) ts ∧
      Numeric (some items) := by
  by_cases hpoint : '.' ∈ n.value.toList
  · have hn : IsDecimal n := ⟨hk, hpoint⟩
    obtain ⟨d, hd⟩ := readNumber_decimal negative hpoint
    obtain rfl : x = .double d := by simpa [hx] using hd
    match known with
    | none => exact ⟨_, rfl, h.of_decimal hn _, by simp [Numeric]⟩
    | some (.doubles items) => exact ⟨_, rfl, h.of_decimal hn _, by simp [Numeric]⟩
    | some (.strings items) => exact absurd rfl (hknown items)
    | some (.ints items) =>
        have hfits : ∀ m ∈ items, FitsDouble m := h.held_of_decimal hn
        obtain ⟨xs, hxs⟩ := exists_mapM_eq_ok fun m hm => doubleOfInt_eq_ok (hfits m hm)
        refine ⟨.doubles (xs ++ [d]), ?_, h.of_decimal hn _, by simp [Numeric]⟩
        rw [Items.addNumber, hxs]
        rfl
  · have hn : IsInteger n := ⟨hk, hpoint⟩
    obtain ⟨m, hm, hfits⟩ := readNumber_integer negative hpoint (h.short n (by simp) hn)
    obtain rfl : x = .int m := by simpa [hx] using hm
    match known with
    | none => exact ⟨_, rfl, h.of_integer hn hfits, by simp [Numeric]⟩
    | some (.ints items) => exact ⟨_, rfl, h.of_integer hn hfits, by simp [Numeric]⟩
    | some (.strings items) => exact absurd rfl (hknown items)
    | some (.doubles items) =>
        have hsmall := h.small_of_integer hn List.nil_prefix (by simp) (.inl ⟨items, rfl⟩)
        obtain ⟨y, hy⟩ := doubleOfInt_eq_ok (hfits hsmall)
        have htail := h.tail (.inl hk)
        refine ⟨.doubles (items ++ [y]), ?_, ⟨htail.short, by simp [heldInts], ?_⟩,
          by simp [Numeric]⟩
        · rw [Items.addNumber, hy]
          rfl
        · exact fun row hrow hkinds _ => htail.small row hrow hkinds (.inl ⟨items, rfl⟩)

end Added

/-- What a number does to the items read so far: it cannot follow strings, and is added to numbers. -/
theorem addNumber_cases {known : Option Items} {n : Token} {ts : List Token} {x : Scalar}
    {negative : Bool} (h : Numeric known → RowFits known (n :: ts)) (hk : n.kind = .number)
    (hx : readNumber negative n.value.toList = .ok x) (mixed : Unreadable) :
    Items.addNumber mixed known x = .error mixed ∨
      ∃ items, Items.addNumber mixed known x = .ok items ∧ RowFits (some items) ts := by
  by_cases hknown : Numeric known
  · obtain ⟨items, hadd, hfits, _⟩ := (h hknown).addNumber hk hx hknown mixed
    exact .inr ⟨items, hadd, hfits⟩
  · obtain ⟨items, rfl⟩ : ∃ items, known = some (.strings items) := by
      simpa [Numeric] using hknown
    exact .inl (by simp [Items.addNumber])

/-- A string cannot follow numbers, and no number can follow it. -/
theorem addString_cases (mixed : Unreadable) (known : Option Items) (s : String) :
    Items.addString mixed known s = .error mixed ∨
      ∃ items, Items.addString mixed known s = .ok (.strings items) := by
  match known with
  | none => exact .inr ⟨_, rfl⟩
  | some (.strings items) => exact .inr ⟨_, rfl⟩
  | some (.ints _) => exact .inl rfl
  | some (.doubles _) => exact .inl rfl

/-! ## Errors -/

/-- What a failing computation failed with came from its first step or from what followed. -/
theorem of_bind_eq_error {ε α β : Type} {x : Except ε α} {f : α → Except ε β} {e : ε}
    (h : (do let a ← x; f a) = .error e) : x = .error e ∨ ∃ a, x = .ok a ∧ f a = .error e := by
  cases x with
  | error e' =>
      cases h
      exact .inl rfl
  | ok a => exact .inr ⟨a, rfl, h⟩

theorem isMalformed_of_at {α : Type} {fault : SyntaxFault} {t : Token} {e : Unreadable}
    (h : (fault.at t : Except Unreadable α) = .error e) : IsMalformed e := by
  cases h
  exact ⟨_, rfl⟩

theorem isMalformed_of_atFirst {α : Type} {fault : SyntaxFault} {stop : Nat} {ts : List Token}
    {e : Unreadable} (h : (fault.atFirst stop ts : Except Unreadable α) = .error e) :
    IsMalformed e := by
  cases ts with
  | nil =>
      cases h
      exact ⟨_, rfl⟩
  | cons t ts => exact isMalformed_of_at h

theorem isMalformed_of_atEnd {α : Type} {fault : SyntaxFault} {stop : Nat} {e : Unreadable}
    (h : (fault.atEnd stop : Except Unreadable α) = .error e) : IsMalformed e := by
  cases h
  exact ⟨_, rfl⟩

mutual

/-- When its numbers fit, what is wrong with a list is its form. -/
theorem readItems_error {stop : Nat} {known : Option Items} {ts : List Token} {e : Unreadable}
    (hshort : ∀ t ∈ ts, IsInteger t → t.value.toList.length ≤ Text.digitLimit)
    (hfits : Numeric known → RowFits known ts) (h : readItems stop known ts = .error e) :
    IsMalformed e := by
  match ts with
  | [] =>
      rw [readItems.eq_def] at h
      exact isMalformed_of_atEnd h
  | t :: ts =>
      have hshort' : ∀ u ∈ ts, IsInteger u → u.value.toList.length ≤ Text.digitLimit :=
        fun u hu => hshort u (List.mem_cons_of_mem _ hu)
      rw [readItems.eq_def] at h
      simp only at h
      split at h
      · split at h
        · cases h
        · exact isMalformed_of_at h
      · rcases of_bind_eq_error h with h | ⟨items, hadd, h⟩
        · rcases addString_cases (mixedAt t) known t.value with hadd | ⟨_, hadd⟩
          · rw [hadd] at h
            cases h
            exact ⟨_, rfl⟩
          · simp [hadd] at h
        · rcases addString_cases (mixedAt t) known t.value with hadd' | ⟨_, hadd'⟩
          · simp [hadd'] at hadd
          · rw [hadd'] at hadd
            cases hadd
            exact readSeparator_error hshort' (fun hnum => absurd rfl (hnum _)) h
      next hk =>
        obtain ⟨x, hx⟩ := readNumber_eq_ok false hk (hshort t (by simp))
        rcases of_bind_eq_error h with h | ⟨x, hx, h⟩
        · simp [hx] at h
        · exact addedNumber_error hshort' hfits hk hx ⟨_, rfl⟩ h
      next hk =>
        split at h
        · cases ts with
          | nil => exact isMalformed_of_atFirst h
          | cons n ts =>
              simp only at h
              split at h
              next hn =>
                obtain ⟨x, hx⟩ := readNumber_eq_ok true hn (hshort n (by simp))
                rcases of_bind_eq_error h with h | ⟨x, hx, h⟩
                · simp [hx] at h
                · refine addedNumber_error (fun u hu => hshort' u (List.mem_cons_of_mem _ hu))
                    (fun hnum => (hfits hnum).tail (.inr (.inl hk))) hn hx ⟨_, rfl⟩ h
              · exact isMalformed_of_at h
        · exact isMalformed_of_at h
      · exact isMalformed_of_at h
termination_by (ts.length, 0)

theorem addedNumber_error {stop : Nat} {known : Option Items} {n : Token} {ts : List Token}
    {x : Scalar} {negative : Bool} {mixed e : Unreadable}
    (hshort : ∀ t ∈ ts, IsInteger t → t.value.toList.length ≤ Text.digitLimit)
    (hfits : Numeric known → RowFits known (n :: ts)) (hk : n.kind = .number)
    (hx : readNumber negative n.value.toList = .ok x) (hmixed : IsMalformed mixed)
    (h : (do readSeparator stop (← Items.addNumber mixed known x) ts) = .error e) :
    IsMalformed e := by
  rcases addNumber_cases hfits hk hx mixed with hadd | ⟨items, hadd, hrest⟩
  · rw [hadd] at h
    cases h
    exact hmixed
  · rw [hadd] at h
    exact readSeparator_error hshort (fun _ => hrest) h
termination_by (ts.length, 1)

/-- What follows an item cannot be wrong in another way either. -/
theorem readSeparator_error {stop : Nat} {items : Items} {ts : List Token} {e : Unreadable}
    (hshort : ∀ t ∈ ts, IsInteger t → t.value.toList.length ≤ Text.digitLimit)
    (hfits : Numeric (some items) → RowFits (some items) ts)
    (h : readSeparator stop items ts = .error e) : IsMalformed e := by
  match ts with
  | [] =>
      rw [readSeparator] at h
      exact isMalformed_of_atFirst h
  | t :: ts =>
      rw [readSeparator] at h
      split at h
      next hk =>
        exact readItems_error (fun u hu => hshort u (List.mem_cons_of_mem _ hu))
          (fun hnum => (hfits hnum).tail (.inr (.inr hk))) h
      · cases h
      · exact isMalformed_of_at h
termination_by (ts.length, 0)

end

theorem readList_error {stop : Nat} {opening : Token} {ts : List Token} {e : Unreadable}
    (hfits : NumbersFit (opening :: ts)) (hk : opening.kind = .leftBracket)
    (h : readList stop opening ts = .error e) : IsMalformed e := by
  cases ts with
  | nil => exact isMalformed_of_atEnd h
  | cons t ts =>
      rw [readList] at h
      split at h
      · exact isMalformed_of_at h
      · rcases of_bind_eq_error h with h | ⟨_, _, h⟩
        · exact readItems_error (fun u hu => hfits.tail.short u hu) (fun _ => hfits.row hk) h
        · cases h

end Formula.Grammar
