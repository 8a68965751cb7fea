import Formula.Proofs.Grammar

set_option autoImplicit false

/-! # Whatever the grammar derives is read

A row of tokens that derives a tree is read as that tree, whatever follows it, as long as what
follows cannot belong to it. The depth of calls that reading is allowed is enough for that.

The condition of a conditional is found by searching for its `else`, before anything of it is read;
`Balanced` says that the search passes over rows in which brackets are paired.

Main statement: `parseTokens_of_derives`. -/

namespace Formula.Grammar

/-! ## Kinds of tokens -/

theorem operator?_eq_none {t : Token} (h : t.kind ≠ .operator) : t.operator? = none := by
  simp [Token.operator?, h]

theorem kind_of_operator? {t : Token} {op : Operator} (h : t.operator? = some op) :
    t.kind = .operator := by
  unfold Token.operator? at h
  split at h
  · assumption
  · exact absurd h (by simp)

theorem kind_of_isKeyword {t : Token} {keyword : String} (h : t.isKeyword keyword = true) :
    t.kind = .name := by
  simp only [Token.isKeyword, Bool.and_eq_true, beq_iff_eq] at h
  exact h.1

/-! ## Searching for `else` -/

/-- The search for `else` passes over the tokens, `before` brackets being open before them and
`after` behind them. -/
def Balanced (before after : Nat) (ts : List Token) : Prop :=
  ∀ (depth : Nat) (tail : List Token),
    splitElse (depth + before) (ts ++ tail) =
      (splitElse (depth + after) tail).map fun p => (ts ++ p.1, p.2)

namespace Balanced

theorem append {a b c : Nat} {ts us : List Token} (hts : Balanced a b ts)
    (hus : Balanced b c us) : Balanced a c (ts ++ us) := by
  intro depth tail
  rw [List.append_assoc, hts, hus, Option.map_map]
  congr 1
  funext p
  simp

theorem deeper {a b : Nat} {ts : List Token} (h : Balanced a b ts) :
    Balanced (a + 1) (b + 1) ts := by
  intro depth tail
  have := h (depth + 1) tail
  rwa [Nat.add_right_comm, Nat.add_right_comm depth 1 b] at this

theorem left {t : Token} (h : t.kind = .leftParen ∨ t.kind = .leftBracket) :
    Balanced 0 1 [t] := by
  intro depth tail
  rcases h with h | h <;> simp [splitElse, h]

theorem right {t : Token} (h : t.kind = .rightParen ∨ t.kind = .rightBracket) :
    Balanced 1 0 [t] := by
  intro depth tail
  rcases h with h | h <;> simp [splitElse, h]

/-- A token that is no bracket. -/
theorem plain {t : Token} (he : t.isKeyword "else" = false)
    (h : t.kind = .operator ∨ t.kind = .string ∨ t.kind = .number ∨ t.kind = .name ∨
      t.kind = .comma) : Balanced 0 0 [t] := by
  intro depth tail
  rcases h with h | h | h | h | h <;> simp [splitElse, h, he]

end Balanced

theorem Balanced.item {known : Option Items} {item : List Token} {items : Items}
    (h : ReadsItem known item items) (he : ∀ t ∈ item, t.isKeyword "else" = false) :
    Balanced 0 0 item := by
  cases h with
  | string hk _ => exact .plain (he _ (by simp)) (by simp [hk])
  | number hk _ _ => exact .plain (he _ (by simp)) (by simp [hk])
  | @negative _ s n _ hs hn _ _ =>
      have hsign : Balanced 0 0 [s] := .plain (he s (by simp)) (.inl hs.1)
      have hnumber : Balanced 0 0 [n] := .plain (he n (by simp)) (by simp [hn])
      exact hsign.append hnumber

theorem Balanced.row {known : Option Items} {ts : List Token} {items : Items}
    (h : ReadsRow known ts items) (he : ∀ t ∈ ts, t.isKeyword "else" = false) :
    Balanced 1 0 ts := by
  induction h with
  | last hitem hright =>
      have := (Balanced.item hitem fun t ht => he t (by simp [ht])).deeper
      exact this.append (.right (.inr hright))
  | @trailing _ item comma right _ hitem hcomma hright =>
      have hi := (Balanced.item hitem fun t ht => he t (by simp [ht])).deeper
      have hc : Balanced 0 0 [comma] := .plain (he comma (by simp)) (by simp [hcomma])
      have hr : Balanced 1 0 [right] := .right (.inr hright)
      exact hi.append (hc.deeper.append hr)
  | @more _ item rest comma _ _ hitem hcomma _ ih =>
      have hi := (Balanced.item hitem fun t ht => he t (by simp [ht])).deeper
      have hc : Balanced 0 0 [comma] := .plain (he comma (by simp)) (by simp [hcomma])
      have hr : Balanced 1 0 rest := ih fun t ht => he t (by simp [ht])
      exact hi.append (hc.deeper.append hr)

/-- How many brackets that were opened before a row of tokens are closed in it. -/
def Meaning.closed : Meaning → Nat
  | expression _ | chain _ _ | operand _ => 0
  | arguments _ | moreArguments _ => 1

/-- A row of tokens that stands for something and holds no `else` is passed over. -/
theorem Balanced.derives {m : Meaning} {ts : List Token} (h : Derives m ts)
    (he : ∀ t ∈ ts, t.isKeyword "else" = false) : Balanced m.closed 0 ts := by
  induction h with
  | chain _ ih => exact ih he
  | @conditional _ _ _ _ ts range alternative i e _ _ _ _ helse _ _ _ _ =>
      have : e.isKeyword "else" = false := he e (by simp)
      rw [helse] at this
      exact absurd this (by simp)
  | single _ ih => exact ih he
  | @link _ _ op _ ts rest o _ ho _ iho ihr =>
      have hts : Balanced 0 0 ts := iho fun t ht => he t (by simp [ht])
      have hrest : Balanced 0 0 rest := ihr fun t ht => he t (by simp [ht])
      have hop : Balanced 0 0 [o] := .plain (he o (by simp)) (.inl (kind_of_operator? ho))
      exact hts.append (hop.append hrest)
  | string hk => exact .plain (he _ (by simp)) (by simp [hk])
  | number hk _ => exact .plain (he _ (by simp)) (by simp [hk])
  | @signed s n _ hs hn _ =>
      have hsign : Balanced 0 0 [s] := .plain (he s (by simp)) (.inl hs.1)
      have hnumber : Balanced 0 0 [n] := .plain (he n (by simp)) (by simp [hn])
      exact hsign.append hnumber
  | @brackets left right _ ts hl _ hr ih =>
      have hleft : Balanced 0 1 [left] := .left (.inl hl)
      have hright : Balanced 1 0 [right] := .right (.inl hr)
      have hinner : Balanced 0 0 ts := ih fun t ht => he t (by simp [ht])
      exact hleft.append (hinner.deeper.append hright)
  | name hk _ => exact .plain (he _ (by simp)) (by simp [hk])
  | @call t left _ _ _ ts hk _ hl _ ih =>
      have hname : Balanced 0 0 [t] := .plain (he t (by simp)) (by simp [hk])
      have hleft : Balanced 0 1 [left] := .left (.inl hl)
      have hrest : Balanced 1 0 ts := ih fun t ht => he t (by simp [ht])
      exact hname.append (hleft.append hrest)
  | @list left _ ts hl hrow =>
      have hleft : Balanced 0 1 [left] := .left (.inr hl)
      exact hleft.append (.row hrow fun t ht => he t (by simp [ht]))
  | noArguments hr => exact .right (.inl hr)
  | @arguments _ _ ts rest _ _ ihe ihm =>
      have hts : Balanced 0 0 ts := ihe fun t ht => he t (by simp [ht])
      exact hts.deeper.append (ihm fun t ht => he t (by simp [ht]))
  | lastArgument hr => exact .right (.inl hr)
  | @nextArgument _ _ comma ts rest hc _ _ ihe ihm =>
      have hcomma : Balanced 0 0 [comma] := .plain (he comma (by simp)) (by simp [hc])
      have hts : Balanced 0 0 ts := ihe fun t ht => he t (by simp [ht])
      have hrest : Balanced 1 0 rest := ihm fun t ht => he t (by simp [ht])
      exact hcomma.deeper.append (hts.deeper.append hrest)

/-- The search stops at the first `else`. -/
theorem splitElse_of_derives {node : Node} {range alternative : List Token} {e : Token}
    (h : Derives (.expression node) range) (hrange : ∀ t ∈ range, t.isKeyword "else" = false)
    (he : e.isKeyword "else" = true) :
    splitElse 0 (range ++ e :: alternative) = some (range, alternative) := by
  have hkind := kind_of_isKeyword he
  have hstop : splitElse 0 (e :: alternative) = some ([], alternative) := by
    simp [splitElse, hkind, he]
  have := Balanced.derives h hrange 0 (e :: alternative)
  simpa [Meaning.closed, hstop] using this

/-! ## What may follow -/

/-- What follows cannot turn an operand into a call. -/
def EndsOperand (rest : List Token) : Prop := ∀ t ∈ rest.head?, t.kind ≠ .leftParen

/-- What follows cannot make a chain longer. -/
def EndsChain (rest : List Token) : Prop :=
  EndsOperand rest ∧ ∀ t ∈ rest.head?, t.operator? = none

/-- What follows ends an expression: a comma, a closing bracket, or nothing. -/
def EndsExpression (rest : List Token) : Prop :=
  ∀ t ∈ rest.head?, t.kind = .comma ∨ t.kind = .rightParen

theorem endsOperand_cons {t : Token} {rest : List Token} (h : t.kind ≠ .leftParen) :
    EndsOperand (t :: rest) := by
  simpa [EndsOperand] using h

theorem EndsExpression.endsChain {rest : List Token} (h : EndsExpression rest) :
    EndsChain rest := by
  refine ⟨fun t ht => ?_, fun t ht => ?_⟩
  · rcases h t ht with hk | hk <;> simp [hk]
  · rcases h t ht with hk | hk <;> exact operator?_eq_none (by simp [hk])

theorem endsChain_keyword {t : Token} {rest : List Token} {keyword : String}
    (h : t.isKeyword keyword = true) : EndsChain (t :: rest) := by
  have hk := kind_of_isKeyword h
  refine ⟨endsOperand_cons (by simp [hk]), fun u hu => ?_⟩
  obtain rfl : t = u := by simpa using hu
  exact operator?_eq_none (by simp [hk])

theorem EndsExpression.not_keyword {t : Token} {rest : List Token} {keyword : String}
    (h : EndsExpression (t :: rest)) : t.isKeyword keyword = false := by
  rw [Bool.eq_false_iff]
  intro hkey
  have hk := kind_of_isKeyword hkey
  rcases h t (by simp) with h | h <;> simp [hk] at h

/-- A part does not begin with a closing bracket, apart from the end of a call. -/
theorem Derives.begins {m : Meaning} {ts : List Token} (h : Derives m ts) :
    ∃ t rest, ts = t :: rest ∧ (m.closed = 0 → t.kind ≠ .rightParen) := by
  induction h with
  | chain _ ih => exact ih
  | conditional _ _ _ _ _ _ ih _ _ =>
      obtain ⟨t, rest, rfl, ht⟩ := ih
      exact ⟨t, _, rfl, ht⟩
  | single _ ih => exact ih
  | link _ _ _ ih _ =>
      obtain ⟨t, rest, rfl, ht⟩ := ih
      exact ⟨t, _, rfl, ht⟩
  | string hk => exact ⟨_, _, rfl, by simp [hk]⟩
  | number hk _ => exact ⟨_, _, rfl, by simp [hk]⟩
  | signed hs _ _ => exact ⟨_, _, rfl, by simp [hs.1]⟩
  | brackets hl _ _ _ => exact ⟨_, _, rfl, by simp [hl]⟩
  | name hk _ => exact ⟨_, _, rfl, by simp [hk]⟩
  | call hk _ _ _ _ => exact ⟨_, _, rfl, by simp [hk]⟩
  | list hl _ => exact ⟨_, _, rfl, by simp [hl]⟩
  | noArguments _ => exact ⟨_, _, rfl, by simp [Meaning.closed]⟩
  | arguments _ _ ih _ =>
      obtain ⟨t, rest, rfl, _⟩ := ih
      exact ⟨t, _, rfl, by simp [Meaning.closed]⟩
  | lastArgument _ => exact ⟨_, _, rfl, by simp [Meaning.closed]⟩
  | nextArgument _ _ _ _ _ => exact ⟨_, _, rfl, by simp [Meaning.closed]⟩

theorem Derives.length_pos {m : Meaning} {ts : List Token} (h : Derives m ts) :
    0 < ts.length := by
  obtain ⟨t, rest, rfl, _⟩ := h.begins
  simp

/-! ## Lists -/

theorem ReadsItem.readItems {known : Option Items} {item : List Token} {items : Items}
    (h : ReadsItem known item items) (stop : Nat) (rest : List Token) :
    readItems stop known (item ++ rest) = readSeparator stop items rest := by
  cases h with
  | string hk hadd =>
      rw [List.singleton_append, Formula.readItems.eq_def]
      simp only [hk, hadd, bind, Except.bind]
  | number hk hx hadd =>
      rw [List.singleton_append, Formula.readItems.eq_def]
      simp only [hk, hx, hadd, bind, Except.bind]
  | negative hs hk hx hadd =>
      rw [List.cons_append, List.singleton_append, Formula.readItems.eq_def]
      simp only [hs.1, hs.2, hk, hx, hadd, bind, Except.bind, ↓reduceIte]

theorem ReadsRow.readItems {known : Option Items} {ts : List Token} {items : Items}
    (h : ReadsRow known ts items) (stop : Nat) (rest : List Token) :
    readItems stop known (ts ++ rest) = .ok (items, rest) := by
  induction h with
  | last hitem hr =>
      rw [List.append_assoc, hitem.readItems, List.singleton_append, readSeparator]
      simp only [hr]
  | trailing hitem hc hr =>
      rw [List.append_assoc, hitem.readItems, List.cons_append, readSeparator]
      simp only [hc, List.singleton_append]
      rw [Formula.readItems.eq_def]
      simp only [hr]
  | more hitem hc _ ih =>
      rw [List.append_assoc, hitem.readItems, List.cons_append, readSeparator]
      simp only [hc, ih]

theorem ReadsItem.begins {known : Option Items} {item : List Token} {items : Items}
    (h : ReadsItem known item items) : ∃ t rest, item = t :: rest ∧ t.kind ≠ .rightBracket := by
  cases h with
  | string hk _ => exact ⟨_, _, rfl, by simp [hk]⟩
  | number hk _ _ => exact ⟨_, _, rfl, by simp [hk]⟩
  | negative hs _ _ _ => exact ⟨_, _, rfl, by simp [hs.1]⟩

theorem ReadsRow.readList {ts : List Token} {items : Items} (h : ReadsRow none ts items)
    (stop : Nat) (left : Token) (rest : List Token) :
    readList stop left (ts ++ rest) = .ok (.list items, rest) := by
  have hread := h.readItems stop rest
  obtain ⟨t, more, rfl, ht⟩ : ∃ t more, ts = t :: more ∧ t.kind ≠ .rightBracket := by
    cases h with
    | last hitem _ =>
        obtain ⟨t, more, rfl, ht⟩ := hitem.begins
        exact ⟨t, _, rfl, ht⟩
    | trailing hitem _ _ =>
        obtain ⟨t, more, rfl, ht⟩ := hitem.begins
        exact ⟨t, _, rfl, ht⟩
    | more hitem _ _ =>
        obtain ⟨t, more, rfl, ht⟩ := hitem.begins
        exact ⟨t, _, rfl, ht⟩
  rw [List.cons_append] at hread ⊢
  simp [Formula.readList, ht, hread, bind, Except.bind, pure, Except.pure]

/-! ## The readers -/

/-- How the tokens of a part are read, whatever follows them. Depth is needed in proportion to their
number; for an expression, one more. -/
def Accepted : Meaning → List Token → Prop
  | .expression node, ts => ∀ (fuel stop : Nat) (rest : List Token),
      2 * ts.length < fuel → EndsExpression rest →
        readExpression fuel stop (ts ++ rest) = .ok (node, rest)
  | .chain first links, ts => ∀ (fuel stop : Nat) (rest : List Token),
      2 * ts.length ≤ fuel → EndsChain rest →
        ∃ after, readOperand fuel stop (ts ++ rest) = .ok (first, after) ∧
          readLinks fuel stop after = .ok (links, rest)
  | .operand node, ts => ∀ (fuel stop : Nat) (rest : List Token),
      2 * ts.length ≤ fuel → EndsOperand rest →
        readOperand fuel stop (ts ++ rest) = .ok (node, rest)
  | .arguments nodes, ts => ∀ (fuel stop : Nat) (rest : List Token),
      2 * ts.length ≤ fuel → readArguments fuel stop (ts ++ rest) = .ok (nodes, rest)
  | .moreArguments nodes, ts => ∀ (fuel stop : Nat) (rest : List Token),
      2 * ts.length ≤ fuel → readMoreArguments fuel stop (ts ++ rest) = .ok (nodes, rest)

theorem exists_depth {t : Token} {ts : List Token} {fuel : Nat}
    (h : 2 * (t :: ts).length ≤ fuel) : ∃ n, fuel = n + 1 := by
  rw [List.length_cons] at h
  exact Nat.exists_eq_add_one_of_ne_zero (by omega)

theorem readLinks_of_endsChain {rest : List Token} (h : EndsChain rest) (fuel stop : Nat) :
    readLinks (fuel + 1) stop rest = .ok ([], rest) := by
  cases rest with
  | nil => simp [readLinks]
  | cons t rest => simp [readLinks, h.2 t (by simp)]

/-- What follows a name is read as it is when it begins no call. -/
theorem readOperand_of_name {t : Token} {rest : List Token} (hk : t.kind = .name)
    (h : EndsOperand rest) (fuel stop : Nat) :
    readOperand (fuel + 1) stop (t :: rest) = (readName t).map fun node => (node, rest) := by
  cases rest with
  | nil =>
      rw [readOperand.eq_def]
      cases hname : readName t <;>
        simp [hk, hname, Except.map, bind, Except.bind, pure, Except.pure]
  | cons u rest =>
      have hu : u.kind ≠ .leftParen := h u (by simp)
      rw [readOperand.eq_def]
      cases hname : readName t <;>
        simp [hk, hu, hname, Except.map, bind, Except.bind, pure, Except.pure]

/-- A condition is read as the whole of its range. -/
theorem readWhole_of_accepted {node : Node} {ts : List Token}
    (h : Accepted (.expression node) ts) {fuel : Nat} (hfuel : 2 * ts.length + 1 < fuel) :
    readWhole fuel ts = .ok node := by
  obtain ⟨fuel, rfl⟩ := Nat.exists_eq_add_one_of_ne_zero (by omega : fuel ≠ 0)
  have hread := h fuel (endIndex ts) [] (by omega) (by simp [EndsExpression])
  rw [List.append_nil] at hread
  simp [readWhole, hread, atEnd, bind, Except.bind]

theorem Accepted.chainExpression {first : Node} {links : List (Operator × Node)} {ts : List Token}
    (h : Accepted (.chain first links) ts) :
    Accepted (.expression (Chain.group first links).toNode) ts := by
  intro fuel stop rest hfuel hrest
  obtain ⟨fuel, rfl⟩ := Nat.exists_eq_add_one_of_ne_zero (by omega : fuel ≠ 0)
  obtain ⟨after, hfirst, hlinks⟩ := h fuel stop rest (by omega) hrest.endsChain
  rw [readExpression]
  cases rest with
  | nil =>
      rw [List.append_nil] at hfirst ⊢
      simp [hfirst, hlinks, bind, Except.bind, pure, Except.pure]
  | cons t rest =>
      have hif : t.isKeyword "if" = false := hrest.not_keyword
      simp [hfirst, hlinks, hif, bind, Except.bind, pure, Except.pure]

theorem Accepted.conditional {first condition falsy : Node} {links : List (Operator × Node)}
    {ts range alternative : List Token} {i e : Token} (hchain : Accepted (.chain first links) ts)
    (hi : i.isKeyword "if" = true) (hcondition : Accepted (.expression condition) range)
    (hsplit : ∀ rest, splitElse 0 (range ++ e :: rest) = some (range, rest)) (hrange : range ≠ [])
    (halternative : Accepted (.expression falsy) alternative) (hne : alternative ≠ []) :
    Accepted (.expression (.conditional condition (Chain.group first links).toNode falsy))
      (ts ++ i :: (range ++ e :: alternative)) := by
  intro fuel stop rest hfuel hrest
  simp only [List.length_append, List.length_cons] at hfuel
  obtain ⟨fuel, rfl⟩ := Nat.exists_eq_add_one_of_ne_zero (by omega : fuel ≠ 0)
  obtain ⟨after, hfirst, hlinks⟩ :=
    hchain fuel stop (i :: (range ++ e :: (alternative ++ rest))) (by omega)
      (endsChain_keyword hi)
  have hwhole : readWhole fuel range = .ok condition :=
    readWhole_of_accepted hcondition (by omega)
  have hrest' : readExpression fuel stop (alternative ++ rest) = .ok (falsy, rest) :=
    halternative fuel stop rest (by omega) hrest
  have hsplit' := hsplit (alternative ++ rest)
  obtain ⟨c, cs, rfl⟩ := List.exists_cons_of_ne_nil hrange
  obtain ⟨a, as, rfl⟩ := List.exists_cons_of_ne_nil hne
  simp only [List.cons_append, List.append_assoc] at hfirst hlinks hrest' hsplit' ⊢
  rw [readExpression]
  simp [hfirst, hlinks, hi, hsplit', hwhole, hrest', bind, Except.bind, pure, Except.pure]

theorem Accepted.link {first second : Node} {op : Operator} {links : List (Operator × Node)}
    {ts rest : List Token} {o : Token} (hfirst : Accepted (.operand first) ts)
    (ho : o.operator? = some op) (hrest : Accepted (.chain second links) rest) :
    Accepted (.chain first ((op, second) :: links)) (ts ++ o :: rest) := by
  intro fuel stop tail hfuel htail
  simp only [List.length_append, List.length_cons] at hfuel
  obtain ⟨fuel, rfl⟩ := Nat.exists_eq_add_one_of_ne_zero (by omega : fuel ≠ 0)
  refine ⟨o :: (rest ++ tail), ?_, ?_⟩
  · have := hfirst (fuel + 1) stop (o :: (rest ++ tail)) (by omega)
      (endsOperand_cons (by simp [kind_of_operator? ho]))
    simpa using this
  · obtain ⟨after, hsecond, hlinks⟩ := hrest fuel stop tail (by omega) htail
    simp [readLinks, ho, hsecond, hlinks, bind, Except.bind, pure, Except.pure]

theorem Accepted.brackets {left right : Token} {node : Node} {ts : List Token}
    (hl : left.kind = .leftParen) (h : Accepted (.expression node) ts)
    (hr : right.kind = .rightParen) :
    Accepted (.operand node) (left :: (ts ++ [right])) := by
  intro fuel stop rest hfuel _
  simp only [List.length_append, List.length_cons, List.length_nil] at hfuel
  obtain ⟨fuel, rfl⟩ := Nat.exists_eq_add_one_of_ne_zero (by omega : fuel ≠ 0)
  have hread : readExpression fuel stop (ts ++ right :: rest) = .ok (node, right :: rest) :=
    h fuel stop (right :: rest) (by omega) (by simp [EndsExpression, hr])
  rw [List.cons_append, List.append_assoc, List.singleton_append, readOperand.eq_def]
  simp [hl, hr, hread, bind, Except.bind, pure, Except.pure]

theorem Accepted.call {t left : Token} {parent : Option String} {name : String}
    {arguments : List Node} {ts : List Token} (hk : t.kind = .name)
    (hpath : splitPath t = .ok (parent, name)) (hl : left.kind = .leftParen)
    (h : Accepted (.arguments arguments) ts) :
    Accepted (.operand (.call parent name arguments)) (t :: left :: ts) := by
  intro fuel stop rest hfuel _
  simp only [List.length_cons] at hfuel
  obtain ⟨fuel, rfl⟩ := Nat.exists_eq_add_one_of_ne_zero (by omega : fuel ≠ 0)
  have hread : readArguments fuel stop (ts ++ rest) = .ok (arguments, rest) :=
    h fuel stop rest (by omega)
  rw [List.cons_append, List.cons_append, readOperand.eq_def]
  simp [hk, hl, hpath, hread, bind, Except.bind, pure, Except.pure]

theorem Accepted.arguments {node : Node} {nodes : List Node} {ts rest : List Token}
    (hnode : Accepted (.expression node) ts) (hmore : Accepted (.moreArguments nodes) rest)
    (hbegins : ∃ t us, ts = t :: us ∧ t.kind ≠ .rightParen)
    (hends : ∀ tail, EndsExpression (rest ++ tail)) (hpos : 0 < rest.length) :
    Accepted (.arguments (node :: nodes)) (ts ++ rest) := by
  intro fuel stop tail hfuel
  obtain ⟨t, us, rfl, ht⟩ := hbegins
  simp only [List.length_append, List.length_cons] at hfuel
  obtain ⟨fuel, rfl⟩ := Nat.exists_eq_add_one_of_ne_zero (by omega : fuel ≠ 0)
  have hfirst := hnode fuel stop (rest ++ tail) (by simp; omega) (hends tail)
  have hrest := hmore fuel stop tail (by omega)
  rw [List.append_assoc, List.cons_append, readArguments]
  rw [List.cons_append] at hfirst
  simp [ht, hfirst, hrest, bind, Except.bind, pure, Except.pure]

theorem Accepted.nextArgument {node : Node} {nodes : List Node} {comma : Token}
    {ts rest : List Token} (hc : comma.kind = .comma) (hnode : Accepted (.expression node) ts)
    (hmore : Accepted (.moreArguments nodes) rest)
    (hends : ∀ tail, EndsExpression (rest ++ tail)) :
    Accepted (.moreArguments (node :: nodes)) (comma :: (ts ++ rest)) := by
  intro fuel stop tail hfuel
  simp only [List.length_append, List.length_cons] at hfuel
  obtain ⟨fuel, rfl⟩ := Nat.exists_eq_add_one_of_ne_zero (by omega : fuel ≠ 0)
  have hfirst := hnode fuel stop (rest ++ tail) (by omega) (hends tail)
  have hrest := hmore fuel stop tail (by omega)
  rw [List.cons_append, List.append_assoc, readMoreArguments]
  simp [hc, hfirst, hrest, bind, Except.bind, pure, Except.pure]

/-- What follows an argument is a comma or the closing bracket. -/
theorem Derives.endsExpression {nodes : List Node} {ts : List Token}
    (h : Derives (.moreArguments nodes) ts) (tail : List Token) : EndsExpression (ts ++ tail) := by
  cases h with
  | lastArgument hr => simp [EndsExpression, hr]
  | nextArgument hc _ _ => simp [EndsExpression, hc]

/-! ## Main statements -/

/-- Every part that the grammar derives is read. -/
theorem Derives.accepted {m : Meaning} {ts : List Token} (h : Derives m ts) : Accepted m ts := by
  induction h with
  | chain _ ih => exact ih.chainExpression
  | conditional _ hi hcondition hrange he halternative ihchain ihcondition ihalternative =>
      refine ihchain.conditional hi ihcondition (fun rest => ?_) ?_ ihalternative ?_
      · exact splitElse_of_derives hcondition hrange he
      · exact List.ne_nil_of_length_pos hcondition.length_pos
      · exact List.ne_nil_of_length_pos halternative.length_pos
  | @single node ts hoperand ih =>
      intro fuel stop rest hfuel hrest
      have hpos : 0 < ts.length := hoperand.length_pos
      obtain ⟨fuel, rfl⟩ := Nat.exists_eq_add_one_of_ne_zero (by omega : fuel ≠ 0)
      exact ⟨rest, ih (fuel + 1) stop rest hfuel hrest.1, readLinks_of_endsChain hrest fuel stop⟩
  | link _ ho _ ihfirst ihrest => exact ihfirst.link ho ihrest
  | string hk =>
      intro fuel stop rest hfuel _
      obtain ⟨fuel, rfl⟩ := exists_depth hfuel
      rw [List.singleton_append, readOperand.eq_def]
      simp [hk]
  | number hk hx =>
      intro fuel stop rest hfuel _
      obtain ⟨fuel, rfl⟩ := exists_depth hfuel
      rw [List.singleton_append, readOperand.eq_def]
      simp [hk, hx, bind, Except.bind, pure, Except.pure]
  | signed hs hk hx =>
      intro fuel stop rest hfuel _
      obtain ⟨fuel, rfl⟩ := exists_depth hfuel
      rw [List.cons_append, List.singleton_append, readOperand.eq_def]
      simp [hs.1, hs.2, hk, hx, bind, Except.bind, pure, Except.pure]
  | brackets hl _ hr ih => exact .brackets hl ih hr
  | name hk hname =>
      intro fuel stop rest hfuel hrest
      obtain ⟨fuel, rfl⟩ := exists_depth hfuel
      rw [List.singleton_append, readOperand_of_name hk hrest, hname]
      rfl
  | call hk hpath hl _ ih => exact .call hk hpath hl ih
  | list hl hrow =>
      intro fuel stop rest hfuel _
      obtain ⟨fuel, rfl⟩ := exists_depth hfuel
      rw [List.cons_append, readOperand.eq_def]
      simp only [hl]
      exact hrow.readList stop _ rest
  | noArguments hr =>
      intro fuel stop rest hfuel
      obtain ⟨fuel, rfl⟩ := exists_depth hfuel
      simp [readArguments, hr]
  | arguments hnode hmore ihnode ihmore =>
      refine ihnode.arguments ihmore ?_ hmore.endsExpression hmore.length_pos
      obtain ⟨t, us, hts, ht⟩ := hnode.begins
      exact ⟨t, us, hts, ht rfl⟩
  | lastArgument hr =>
      intro fuel stop rest hfuel
      obtain ⟨fuel, rfl⟩ := exists_depth hfuel
      simp [readMoreArguments, hr]
  | nextArgument hc _ hmore ihnode ihmore =>
      exact .nextArgument hc ihnode ihmore hmore.endsExpression

/-- A row of tokens that derives a tree is read as that tree. -/
theorem parseTokens_of_derives {node : Node} {ts : List Token}
    (h : Derives (.expression node) ts) : parseTokens ts = .ok node := by
  obtain ⟨t, us, rfl, _⟩ := h.begins
  exact readWhole_of_accepted h.accepted (by simp)

end Formula.Grammar
