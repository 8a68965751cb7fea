import Formula.Proofs.Grammar.Completeness
import Formula.Proofs.Grammar.Numbers
import Formula.Proofs.Grammar.Path

set_option autoImplicit false

/-! # The language that is read

A row of tokens whose numbers fit is read as a tree if it is an expression of the language, and is
malformed otherwise.

`Derives.isPart` and `IsPart.derives` relate the rows that stand for something to the language;
`Faults` says that what is wrong with a row is its form. Main statement: `parseTokens_accepts`. -/

namespace Formula.Grammar

/-! ## Tokens -/

theorem operator?_eq_some_iff {t : Token} {op : Operator} :
    t.operator? = some op ↔ t.kind = .operator ∧ t.value = op.symbol := by
  constructor
  · intro h
    have hk := kind_of_operator? h
    rw [Token.operator?, if_pos hk] at h
    have hsymbol : (op.symbol == t.value) = true :=
      List.find?_some (p := fun o : Operator => o.symbol == t.value) h
    exact ⟨hk, (beq_iff_eq.1 hsymbol).symm⟩
  · rintro ⟨hk, hvalue⟩
    simp [Token.operator?, hk, hvalue, Operator.ofSymbol?_symbol]

theorem isBinary_iff {t : Token} : IsBinary t ↔ ∃ op, t.operator? = some op := by
  simp [IsBinary, operator?_eq_some_iff]

/-- A path has one part more than it has points. -/
theorem length_segments (cs : List Char) : (segments cs).length = cs.count '.' + 1 := by
  induction cs with
  | nil => rfl
  | cons c cs ih =>
      obtain ⟨part, parts, hparts⟩ : ∃ part parts, segments cs = part :: parts := by
        cases hs : segments cs with
        | nil => simp [hs] at ih
        | cons part parts => exact ⟨part, parts, rfl⟩
      rw [hparts] at ih
      by_cases hc : c = '.'
      · subst hc
        simp only [segments, hparts, List.length_cons, List.count_cons_self] at ih ⊢
        omega
      · rw [List.count_cons_of_ne hc, segments.eq_def]
        simpa [hparts, hc] using ih

/-- A name is split in at most two parts. -/
theorem splitPath_eq_ok_iff {t : Token} :
    (∃ path, splitPath t = .ok path) ↔ t.value.toList.count '.' ≤ 1 := by
  have hlength := length_segments t.value.toList
  unfold splitPath
  split
  next hs =>
    rw [hs] at hlength
    simp_all
  next hs =>
    rw [hs] at hlength
    simp_all
  next h1 h2 =>
    constructor
    · rintro ⟨path, hpath⟩
      simp at hpath
    · intro hcount
      match hs : segments t.value.toList with
      | [] => simp [hs] at hlength
      | [a] => exact absurd hs (h1 a)
      | [a, b] => exact absurd hs (h2 a b)
      | a :: b :: c :: rest =>
          rw [hs] at hlength
          simp only [List.length_cons] at hlength
          omega

/-- A name is read if it has at most one point. -/
theorem readName_eq_ok_iff {t : Token} :
    (∃ node, readName t = .ok node) ↔ t.value.toList.count '.' ≤ 1 := by
  by_cases hpoint : '.' ∈ t.value.toList
  · have htrue : Text.lower t.value ≠ "true" := lower_ne_of_point hpoint (by decide)
    have hfalse : Text.lower t.value ≠ "false" := lower_ne_of_point hpoint (by decide)
    rw [← splitPath_eq_ok_iff, readName]
    simp only [htrue, hfalse, ↓reduceIte]
    constructor
    · rintro ⟨node, hnode⟩
      obtain ⟨path, hpath, _⟩ := exists_of_bind_eq_ok hnode
      exact ⟨path, hpath⟩
    · rintro ⟨⟨parent, name⟩, hpath⟩
      rw [hpath]
      cases parent with
      | none => exact ⟨_, rfl⟩
      | some parent => exact ⟨_, rfl⟩
  · have hcount : t.value.toList.count '.' = 0 := List.count_eq_zero.2 hpoint
    obtain ⟨⟨parent, name⟩, hpath⟩ := splitPath_eq_ok_iff.2 (by omega : t.value.toList.count '.' ≤ 1)
    refine iff_of_true ?_ (by omega)
    simp only [readName, hpath]
    split
    · exact ⟨_, rfl⟩
    · split
      · exact ⟨_, rfl⟩
      · cases parent with
        | none => exact ⟨_, rfl⟩
        | some parent => exact ⟨_, rfl⟩

/-! ## Lists -/

/-- Whether all items are strings. -/
def areStrings : Items → Bool
  | .strings _ => true
  | _ => false

/-- The rows of items of a kind. -/
def IsItem (strings : Bool) : List Token → Prop :=
  if strings then IsStringItem else IsNumberItem

theorem addNumber_kind {mixed : Unreadable} {known : Option Items} {x : Scalar} {items : Items}
    (h : Items.addNumber mixed known x = .ok items) :
    areStrings items = false ∧ ∀ before, known = some before → areStrings before = false := by
  unfold Items.addNumber at h
  split at h
  · cases h
  · cases h
    exact ⟨rfl, by simp⟩
  · obtain ⟨_, _, h⟩ := exists_of_bind_eq_ok h
    cases h
    exact ⟨rfl, by simp [areStrings]⟩
  · cases h
    exact ⟨rfl, by simp [areStrings]⟩
  · cases h
    exact ⟨rfl, by simp⟩
  · cases h
    exact ⟨rfl, by simp [areStrings]⟩
  · obtain ⟨_, _, h⟩ := exists_of_bind_eq_ok h
    cases h
    exact ⟨rfl, by simp [areStrings]⟩
  · cases h

theorem addString_kind {mixed : Unreadable} {known : Option Items} {s : String} {items : Items}
    (h : Items.addString mixed known s = .ok items) :
    areStrings items = true ∧ ∀ before, known = some before → areStrings before = true := by
  match known with
  | none =>
      cases h
      exact ⟨rfl, by simp⟩
  | some (.strings _) =>
      cases h
      exact ⟨rfl, by simp [areStrings]⟩
  | some (.ints _) | some (.doubles _) => cases h

/-- An item is of the kind of the items before it. -/
theorem ReadsItem.isItem {known : Option Items} {item : List Token} {items : Items}
    (h : ReadsItem known item items) :
    IsItem (areStrings items) item ∧ ∀ before, known = some before →
      areStrings before = areStrings items := by
  cases h with
  | string hk hadd =>
      obtain ⟨hstrings, hbefore⟩ := addString_kind hadd
      rw [hstrings]
      exact ⟨.string hk, hbefore⟩
  | number hk _ hadd =>
      obtain ⟨hstrings, hbefore⟩ := addNumber_kind hadd
      rw [hstrings]
      exact ⟨.number hk, hbefore⟩
  | negative hs hk _ hadd =>
      obtain ⟨hstrings, hbefore⟩ := addNumber_kind hadd
      rw [hstrings]
      exact ⟨.negative hs hk, hbefore⟩

/-- What is read as the rest of a list is a row of items of one kind. -/
theorem ReadsRow.isRow {known : Option Items} {ts : List Token} {all : Items}
    (h : ReadsRow known ts all) :
    (∃ row right, ts = row ++ [right] ∧ right.kind = .rightBracket ∧
      IsRow (IsItem (areStrings all)) row) ∧
      ∀ before, known = some before → areStrings before = areStrings all := by
  induction h with
  | @last _ item right _ hitem hr =>
      exact ⟨⟨item, right, rfl, hr, .last hitem.isItem.1⟩, hitem.isItem.2⟩
  | @trailing _ item comma right _ hitem hc hr =>
      exact ⟨⟨item ++ [comma], right, by simp, hr, .trailing hitem.isItem.1 hc⟩, hitem.isItem.2⟩
  | @more _ item _ comma items all hitem hc _ ih =>
      obtain ⟨⟨row, right, rfl, hr, hrow⟩, hbefore⟩ := ih
      have hkind : areStrings items = areStrings all := hbefore items rfl
      have hone := hitem.isItem
      rw [hkind] at hone
      exact ⟨⟨item ++ comma :: row, right, by simp, hr, .more hone.1 hc hrow⟩, hone.2⟩

/-- A number is read as the item of a list that fits. -/
theorem IsNumberItem.reads {known : Option Items} {item ts : List Token} (h : IsNumberItem item)
    (hfits : RowFits known (item ++ ts)) (hknown : Numeric known) :
    ∃ items, ReadsItem known item items ∧ RowFits (some items) ts ∧ Numeric (some items) := by
  cases h with
  | @number n hk =>
      obtain ⟨x, hx⟩ := readNumber_eq_ok false hk (hfits.short n (by simp))
      obtain ⟨items, hadd, hrest⟩ := RowFits.addNumber hfits hk hx hknown (mixedAt n)
      exact ⟨items, .number hk hx hadd, hrest⟩
  | @negative s n hs hk =>
      obtain ⟨x, hx⟩ := readNumber_eq_ok true hk (hfits.short n (by simp))
      have htail : RowFits known (n :: ts) := hfits.tail (.inr (.inl hs.1))
      obtain ⟨items, hadd, hrest⟩ := htail.addNumber hk hx hknown (mixedAt s)
      exact ⟨items, .negative hs hk hx hadd, hrest⟩

/-- A row of numbers is read as the rest of a list that fits. -/
theorem IsRow.readsNumbers {known : Option Items} {row : List Token} {right : Token}
    (h : IsRow IsNumberItem row) (hr : right.kind = .rightBracket)
    (hfits : RowFits known (row ++ [right])) (hknown : Numeric known) :
    ∃ all, ReadsRow known (row ++ [right]) all := by
  induction h generalizing known with
  | last hitem =>
      obtain ⟨items, hreads, _⟩ := hitem.reads hfits hknown
      exact ⟨items, .last hreads hr⟩
  | trailing hitem hc =>
      rw [List.append_assoc] at hfits ⊢
      obtain ⟨items, hreads, _⟩ := hitem.reads hfits hknown
      exact ⟨items, .trailing hreads hc hr⟩
  | more hitem hc _ ih =>
      rw [List.append_assoc] at hfits ⊢
      obtain ⟨items, hreads, hrest, hnumeric⟩ := hitem.reads hfits hknown
      obtain ⟨all, hall⟩ := ih (hrest.tail (.inr (.inr hc))) hnumeric
      exact ⟨all, .more hreads hc hall⟩

/-- A row of strings is read as the rest of a list. -/
theorem IsRow.readsStrings {known : Option Items} {row : List Token} {right : Token}
    (h : IsRow IsStringItem row) (hr : right.kind = .rightBracket)
    (hknown : ∀ before, known = some before → areStrings before = true) :
    ∃ all, ReadsRow known (row ++ [right]) all := by
  have one {known : Option Items} {item : List Token} (hitem : IsStringItem item)
      (hknown : ∀ before, known = some before → areStrings before = true) :
      ∃ items, ReadsItem known item (.strings items) := by
    obtain ⟨hk⟩ := hitem
    match known with
    | none => exact ⟨_, .string hk rfl⟩
    | some (.strings items) => exact ⟨_, .string hk rfl⟩
    | some (.ints _) => exact absurd (hknown _ rfl) (by simp [areStrings])
    | some (.doubles _) => exact absurd (hknown _ rfl) (by simp [areStrings])
  induction h generalizing known with
  | last hitem =>
      obtain ⟨items, hreads⟩ := one hitem hknown
      exact ⟨_, .last hreads hr⟩
  | trailing hitem hc =>
      obtain ⟨items, hreads⟩ := one hitem hknown
      rw [List.append_assoc]
      exact ⟨_, .trailing hreads hc hr⟩
  | more hitem hc _ ih =>
      obtain ⟨items, hreads⟩ := one hitem hknown
      obtain ⟨all, hall⟩ := @ih (some (.strings items)) (by simp [areStrings])
      rw [List.append_assoc]
      exact ⟨all, .more hreads hc hall⟩

/-! ## Parts -/

/-- The rows of the language among which those that have some meaning are found. -/
def Meaning.IsRead : Meaning → List Token → Prop
  | expression _, ts => IsPart .expression ts
  | chain _ _, ts => IsPart .chain ts
  | operand _, ts => IsPart .operand ts
  | arguments _, ts => ∃ row right, ts = row ++ [right] ∧ right.kind = .rightParen ∧
      (row = [] ∨ IsPart .arguments row)
  | moreArguments _, ts => ∃ row right, ts = row ++ [right] ∧ right.kind = .rightParen ∧
      (row = [] ∨ ∃ comma more, row = comma :: more ∧ comma.kind = .comma ∧
        IsPart .arguments more)

/-- Whatever stands for something belongs to the language. -/
theorem Derives.isRead {m : Meaning} {ts : List Token} (h : Derives m ts) : m.IsRead ts := by
  -- An argument and those that follow it are arguments again.
  have joined {us vs : List Token} {nodes : List Node} (hus : IsPart .expression us)
      (hvs : (Meaning.moreArguments nodes).IsRead vs) :
      ∃ row right, us ++ vs = row ++ [right] ∧ right.kind = .rightParen ∧
        IsPart .arguments row := by
    obtain ⟨row, right, rfl, hr, rfl | ⟨comma, more, rfl, hc, hmore⟩⟩ := hvs
    · exact ⟨us, right, by simp, hr, .argument hus⟩
    · exact ⟨us ++ comma :: more, right, by simp, hr, .nextArgument hus hc hmore⟩
  induction h with
  | chain _ ih => exact .chain ih
  | conditional _ hi _ hrange he _ ihchain ihcondition ihalternative =>
      exact .conditional ihchain hi ihcondition hrange he ihalternative
  | single _ ih => exact .single ih
  | link _ ho _ ihfirst ihrest => exact .link ihfirst (isBinary_iff.2 ⟨_, ho⟩) ihrest
  | string hk => exact .string hk
  | number hk _ => exact .number hk
  | signed hs hk _ => exact .signed hs hk
  | brackets hl _ hr ih => exact .brackets hl ih hr
  | name hk hname => exact .path ⟨hk, readName_eq_ok_iff.1 ⟨_, hname⟩⟩
  | call hk hpath hl _ ih =>
      have hname : _ ∧ _ := ⟨hk, splitPath_eq_ok_iff.1 ⟨_, hpath⟩⟩
      obtain ⟨row, right, rfl, hr, rfl | hrow⟩ := ih
      · exact .emptyCall hname hl hr
      · exact .call hname hl hrow hr
  | list hl hrow =>
      obtain ⟨⟨row, right, rfl, hr, hitems⟩, _⟩ := hrow.isRow
      refine .list hl ?_ hr
      revert hitems
      cases areStrings _ with
      | false => exact .inr
      | true => exact .inl
  | noArguments hr => exact ⟨[], _, rfl, hr, .inl rfl⟩
  | arguments _ _ ihnode ihmore =>
      obtain ⟨row, right, hts, hr, hrow⟩ := joined ihnode ihmore
      exact ⟨row, right, hts, hr, .inr hrow⟩
  | lastArgument hr => exact ⟨[], _, rfl, hr, .inl rfl⟩
  | @nextArgument _ _ comma _ _ hc _ _ ihnode ihmore =>
      obtain ⟨row, right, hts, hr, hrow⟩ := joined ihnode ihmore
      exact ⟨comma :: row, right, by simp [hts], hr, .inr ⟨comma, row, rfl, hc, hrow⟩⟩

/-- What a part of the language whose numbers fit stands for: something. -/
def Part.HasMeaning : Part → List Token → Prop
  | .expression, ts => ∃ node, Derives (.expression node) ts
  | .chain, ts => ∃ first links, Derives (.chain first links) ts
  | .operand, ts => ∃ node, Derives (.operand node) ts
  | .arguments, ts => ∀ right : Token, right.kind = .rightParen →
      ∃ node nodes us vs, ts ++ [right] = us ++ vs ∧ Derives (.expression node) us ∧
        Derives (.moreArguments nodes) vs

/-- Whatever belongs to the language stands for something, if its numbers fit. -/
theorem IsPart.hasMeaning {part : Part} {ts : List Token} (h : IsPart part ts)
    (hfits : NumbersFit ts) : part.HasMeaning ts := by
  induction h with
  | chain _ ih =>
      obtain ⟨first, links, hchain⟩ := ih hfits
      exact ⟨_, hchain.chain⟩
  | conditional _ hi _ hrange he _ ihchain ihcondition ihalternative =>
      obtain ⟨first, links, hchain⟩ := ihchain hfits.left
      obtain ⟨condition, hcondition⟩ := ihcondition hfits.right.tail.left
      obtain ⟨falsy, hfalsy⟩ := ihalternative hfits.right.tail.right.tail
      exact ⟨_, hchain.conditional hi hcondition hrange he hfalsy⟩
  | single _ ih =>
      obtain ⟨node, hoperand⟩ := ih hfits
      exact ⟨_, _, hoperand.single⟩
  | link _ ho _ ihfirst ihrest =>
      obtain ⟨first, hfirst⟩ := ihfirst hfits.left
      obtain ⟨second, links, hrest⟩ := ihrest hfits.right.tail
      obtain ⟨op, hop⟩ := isBinary_iff.1 ho
      exact ⟨_, _, hfirst.link hop hrest⟩
  | string hk => exact ⟨_, .string hk⟩
  | @number n hk =>
      obtain ⟨x, hx⟩ := readNumber_eq_ok false hk (hfits.short n (by simp))
      exact ⟨_, .number hk hx⟩
  | @signed s n hs hk =>
      obtain ⟨x, hx⟩ := readNumber_eq_ok (decide (s.value = "-")) hk (hfits.short n (by simp))
      exact ⟨_, .signed hs hk hx⟩
  | brackets hl _ hr ih =>
      obtain ⟨node, hnode⟩ := ih hfits.tail.left
      exact ⟨_, .brackets hl hnode hr⟩
  | path hpath =>
      obtain ⟨node, hnode⟩ := readName_eq_ok_iff.2 hpath.2
      exact ⟨_, .name hpath.1 hnode⟩
  | emptyCall hpath hl hr =>
      obtain ⟨⟨parent, name⟩, hsplit⟩ := splitPath_eq_ok_iff.2 hpath.2
      exact ⟨_, .call hpath.1 hsplit hl (.noArguments hr)⟩
  | call hpath hl _ hr ih =>
      obtain ⟨⟨parent, name⟩, hsplit⟩ := splitPath_eq_ok_iff.2 hpath.2
      obtain ⟨node, nodes, us, vs, hts, hnode, hmore⟩ := ih hfits.tail.tail.left _ hr
      rw [hts]
      exact ⟨_, .call hpath.1 hsplit hl (.arguments hnode hmore)⟩
  | list hl hitems hr =>
      rcases hitems with hstrings | hnumbers
      · have hnone : ∀ before, (none : Option Items) = some before → areStrings before = true := by
          simp
        obtain ⟨all, hall⟩ := hstrings.readsStrings hr hnone
        exact ⟨_, .list hl hall⟩
      · obtain ⟨all, hall⟩ := hnumbers.readsNumbers hr (hfits.row hl) (by simp [Numeric])
        exact ⟨_, .list hl hall⟩
  | argument _ ih =>
      intro right hr
      obtain ⟨node, hnode⟩ := ih hfits
      exact ⟨node, [], _, [right], rfl, hnode, .lastArgument hr⟩
  | @nextArgument ts rest comma _ hc _ ihnode ihrest =>
      intro right hr
      obtain ⟨node, hnode⟩ := ihnode hfits.left
      obtain ⟨next, nodes, us, vs, hrest, hnext, hmore⟩ := ihrest hfits.right.tail right hr
      refine ⟨node, next :: nodes, ts, comma :: (us ++ vs), ?_, hnode,
        .nextArgument hc hnext hmore⟩
      rw [List.append_assoc, List.cons_append, hrest]

/-! ## Errors -/

/-- What is wrong with a row of tokens whose numbers fit is its form, at some depth of calls. -/
structure Faults (fuel : Nat) : Prop where
  expression : ∀ {stop : Nat} {ts : List Token} {e : Unreadable}, NumbersFit ts →
    readExpression fuel stop ts = .error e → IsMalformed e
  whole : ∀ {ts : List Token} {e : Unreadable}, NumbersFit ts →
    readWhole fuel ts = .error e → IsMalformed e
  links : ∀ {stop : Nat} {ts : List Token} {e : Unreadable}, NumbersFit ts →
    readLinks fuel stop ts = .error e → IsMalformed e
  operand : ∀ {stop : Nat} {ts : List Token} {e : Unreadable}, NumbersFit ts →
    readOperand fuel stop ts = .error e → IsMalformed e
  arguments : ∀ {stop : Nat} {ts : List Token} {e : Unreadable}, NumbersFit ts →
    readArguments fuel stop ts = .error e → IsMalformed e
  moreArguments : ∀ {stop : Nat} {ts : List Token} {e : Unreadable}, NumbersFit ts →
    readMoreArguments fuel stop ts = .error e → IsMalformed e

theorem atEnd_error {α : Type} {result : α} {ts : List Token} {e : Unreadable}
    (h : atEnd result ts = .error e) : IsMalformed e := by
  cases ts with
  | nil => cases h
  | cons t ts =>
      rw [atEnd] at h
      split at h
      · exact isMalformed_of_at h
      · exact isMalformed_of_at h

theorem splitPath_error {t : Token} {e : Unreadable} (h : splitPath t = .error e) :
    IsMalformed e := by
  unfold splitPath at h
  split at h
  · cases h
  · cases h
  · exact isMalformed_of_at h

theorem readName_error {t : Token} {e : Unreadable} (h : readName t = .error e) :
    IsMalformed e := by
  simp only [readName] at h
  split at h
  · cases h
  · split at h
    · cases h
    · rcases of_bind_eq_error h with h | ⟨⟨parent, name⟩, _, h⟩
      · exact splitPath_error h
      · cases parent with
        | none => cases h
        | some parent => cases h

namespace Faults

variable {fuel stop : Nat} {ts : List Token} {e : Unreadable}

theorem readExpression_succ (ih : Faults fuel) (hfits : NumbersFit ts)
    (h : readExpression (fuel + 1) stop ts = .error e) : IsMalformed e := by
  rw [readExpression] at h
  rcases of_bind_eq_error h with h | ⟨⟨first, after⟩, hfirst, h₁⟩
  · exact ih.operand hfits h
  obtain ⟨us, rfl, _⟩ := (sound fuel).operand hfirst
  rcases of_bind_eq_error h₁ with h₁ | ⟨⟨links, after⟩, hlinks, h₂⟩
  · exact ih.links hfits.right h₁
  obtain ⟨vs, rfl, _⟩ := (sound fuel).links hlinks
  cases after with
  | nil => cases h₂
  | cons i after =>
      have hafter : NumbersFit after := hfits.right.right.tail
      simp only at h₂
      split at h₂
      · split at h₂
        · exact isMalformed_of_at h₂
        · exact isMalformed_of_at h₂
        next range alternative _ hsplit =>
          obtain ⟨_, _, _, rfl⟩ := splitElse_sound hsplit
          rcases of_bind_eq_error h₂ with h₂ | ⟨condition, _, h₃⟩
          · exact ih.whole hafter.left h₂
          cases alternative with
          | nil => exact isMalformed_of_atEnd h₃
          | cons t alternative =>
              rcases of_bind_eq_error h₃ with h₃ | ⟨_, _, h₄⟩
              · exact ih.expression hafter.right.tail h₃
              · cases h₄
      · cases h₂

theorem readWhole_succ (ih : Faults fuel) (hfits : NumbersFit ts)
    (h : readWhole (fuel + 1) ts = .error e) : IsMalformed e := by
  rw [readWhole] at h
  rcases of_bind_eq_error h with h | ⟨⟨node, after⟩, _, h₁⟩
  · exact ih.expression hfits h
  · exact atEnd_error h₁

theorem readLinks_succ (ih : Faults fuel) (hfits : NumbersFit ts)
    (h : readLinks (fuel + 1) stop ts = .error e) : IsMalformed e := by
  cases ts with
  | nil => simp [readLinks] at h
  | cons o ts =>
      rw [readLinks] at h
      split at h
      · cases h
      · rcases of_bind_eq_error h with h | ⟨⟨second, after⟩, hsecond, h₁⟩
        · exact ih.operand hfits.tail h
        obtain ⟨us, rfl, _⟩ := (sound fuel).operand hsecond
        rcases of_bind_eq_error h₁ with h₁ | ⟨_, _, h₂⟩
        · exact ih.links hfits.tail.right h₁
        · cases h₂

/-- What is wrong with a name alone is its form. -/
theorem of_readName {t : Token} {us : List Token}
    (h : (do return (← readName t, us)) = (.error e : Except Unreadable (Node × List Token))) :
    IsMalformed e := by
  rcases of_bind_eq_error h with h | ⟨_, _, h⟩
  · exact readName_error h
  · cases h

theorem readOperand_succ (ih : Faults fuel) (hfits : NumbersFit ts)
    (h : readOperand (fuel + 1) stop ts = .error e) : IsMalformed e := by
  cases ts with
  | nil =>
      rw [readOperand.eq_def] at h
      exact isMalformed_of_atEnd h
  | cons t ts =>
      rw [readOperand.eq_def] at h
      simp only at h
      split at h
      · rcases of_bind_eq_error h with h | ⟨⟨inner, after⟩, _, h₁⟩
        · exact ih.expression hfits.tail h
        cases after with
        | nil => exact isMalformed_of_atFirst h₁
        | cons close after =>
            simp only at h₁
            split at h₁
            · cases h₁
            · exact isMalformed_of_at h₁
      · cases h
      next hk => exact readList_error hfits hk h
      next hk =>
        split at h
        · cases ts with
          | nil => exact isMalformed_of_atFirst h
          | cons n ts =>
              simp only at h
              split at h
              next hn =>
                obtain ⟨x, hx⟩ := readNumber_eq_ok (decide (t.value = "-")) hn
                  (hfits.short n (by simp))
                rw [hx] at h
                cases h
              · exact isMalformed_of_at h
        · exact isMalformed_of_at h
      next hk =>
        obtain ⟨x, hx⟩ := readNumber_eq_ok false hk (hfits.short t (by simp))
        rw [hx] at h
        cases h
      next hk =>
        cases ts with
        | nil => exact of_readName h
        | cons opening ts =>
            simp only at h
            split at h
            · rcases of_bind_eq_error h with h | ⟨⟨parent, name⟩, _, h₁⟩
              · exact splitPath_error h
              rcases of_bind_eq_error h₁ with h₁ | ⟨_, _, h₂⟩
              · exact ih.arguments hfits.tail.tail h₁
              · cases h₂
            · exact of_readName h
      · exact isMalformed_of_at h

theorem readArguments_succ (ih : Faults fuel) (hfits : NumbersFit ts)
    (h : readArguments (fuel + 1) stop ts = .error e) : IsMalformed e := by
  cases ts with
  | nil =>
      rw [readArguments] at h
      exact isMalformed_of_atEnd h
  | cons t ts =>
      simp only [readArguments] at h
      split at h
      · cases h
      · rcases of_bind_eq_error h with h | ⟨⟨first, after⟩, hfirst, h₁⟩
        · exact ih.expression hfits h
        obtain ⟨us, hus, _⟩ := (sound fuel).expression hfirst
        rw [hus] at hfits
        rcases of_bind_eq_error h₁ with h₁ | ⟨_, _, h₂⟩
        · exact ih.moreArguments hfits.right h₁
        · cases h₂

theorem readMoreArguments_succ (ih : Faults fuel) (hfits : NumbersFit ts)
    (h : readMoreArguments (fuel + 1) stop ts = .error e) : IsMalformed e := by
  cases ts with
  | nil =>
      rw [readMoreArguments] at h
      exact isMalformed_of_atFirst h
  | cons t ts =>
      simp only [readMoreArguments] at h
      split at h
      · cases h
      · rcases of_bind_eq_error h with h | ⟨⟨next, after⟩, hnext, h₁⟩
        · exact ih.expression hfits.tail h
        obtain ⟨us, rfl, _⟩ := (sound fuel).expression hnext
        rcases of_bind_eq_error h₁ with h₁ | ⟨_, _, h₂⟩
        · exact ih.moreArguments hfits.tail.right h₁
        · cases h₂
      · exact isMalformed_of_at h

end Faults

theorem faults (fuel : Nat) : Faults fuel := by
  induction fuel with
  | zero =>
      constructor <;> intro <;> intros <;>
        simp_all only [readExpression, readWhole, readLinks, readOperand, readArguments,
          readMoreArguments] <;>
        exact isMalformed_of_atEnd ‹_›
  | succ fuel ih =>
      exact {
        expression := ih.readExpression_succ
        whole := ih.readWhole_succ
        links := ih.readLinks_succ
        operand := ih.readOperand_succ
        arguments := ih.readArguments_succ
        moreArguments := ih.readMoreArguments_succ }

/-! ## Main statement -/

/-- A row of tokens whose numbers fit is read as a tree if it is an expression of the language, and is
malformed otherwise. -/
theorem parseTokens_accepts {ts : List Token} (hfits : NumbersFit ts) :
    ((∃ node, parseTokens ts = .ok node) ↔ IsPart .expression ts) ∧
      (¬ IsPart .expression ts → ∃ error, parseTokens ts = .error (.malformed error)) := by
  have hiff : (∃ node, parseTokens ts = .ok node) ↔ IsPart .expression ts := by
    constructor
    · rintro ⟨node, h⟩
      exact (derives_of_parseTokens h).isRead
    · intro h
      obtain ⟨node, hnode⟩ := h.hasMeaning hfits
      exact ⟨node, parseTokens_of_derives hnode⟩
  refine ⟨hiff, fun hnot => ?_⟩
  cases ts with
  | nil => exact ⟨_, rfl⟩
  | cons t ts =>
      cases hread : parseTokens (t :: ts) with
      | ok node => exact absurd (hiff.1 ⟨node, hread⟩) hnot
      | error e =>
          obtain ⟨error, rfl⟩ := (faults _).whole hfits hread
          exact ⟨error, rfl⟩

/-- The tokens of `[1, 2.5]`. -/
def mixedNumbers : List Token :=
  [⟨.leftBracket, "[", 0, "["⟩, ⟨.number, "1", 1, "1"⟩, ⟨.comma, ",", 2, ","⟩,
    ⟨.number, "2.5", 3, "2.5"⟩, ⟨.rightBracket, "]", 4, "]"⟩]

theorem numbersFit_mixedNumbers : NumbersFit mixedNumbers := by
  have hone : FitsDouble 1 := Option.isSome_iff_exists.1 (by decide +kernel)
  refine .of_forall fun t ht hinteger => ?_
  simp only [mixedNumbers, List.mem_cons, List.not_mem_nil, or_false] at ht
  rcases ht with rfl | rfl | rfl | rfl | rfl
  · exact absurd hinteger.1 (by decide)
  · exact ⟨by decide, hone⟩
  · exact absurd hinteger.1 (by decide)
  · exact absurd hinteger.2 (by decide)
  · exact absurd hinteger.1 (by decide)

theorem parseTokens_mixedNumbers : ∃ node, parseTokens mixedNumbers = .ok node := by
  have hrow : IsRow IsNumberItem
      ([⟨.number, "1", 1, "1"⟩] ++ ⟨.comma, ",", 2, ","⟩ :: [⟨.number, "2.5", 3, "2.5"⟩]) :=
    .more (.number rfl) rfl (.last (.number rfl))
  have hlist : IsPart .operand mixedNumbers :=
    @IsPart.list ⟨.leftBracket, "[", 0, "["⟩ ⟨.rightBracket, "]", 4, "]"⟩ _ rfl (.inr hrow) rfl
  exact (parseTokens_accepts numbersFit_mixedNumbers).1.2 hlist.single.chain

end Formula.Grammar
