import Formula.Proofs.Grammar

set_option autoImplicit false

/-! # Whatever is read, the grammar derives

A reader that succeeds gives back the tokens it left, and the ones it took derive the tree it read.

Main statement: `derives_of_parseTokens`. -/

namespace Formula.Grammar

/-- What a computation gave was made of what its first step gave. -/
theorem exists_of_bind_eq_ok {ε α β : Type} {x : Except ε α} {f : α → Except ε β} {b : β}
    (h : (do let a ← x; f a) = .ok b) : ∃ a, x = .ok a ∧ f a = .ok b := by
  cases x with
  | error e => cases h
  | ok a => exact ⟨a, rfl, h⟩

@[simp] theorem at_ne_ok {α : Type} {fault : SyntaxFault} {t : Token} {a : α} :
    fault.at t ≠ .ok a := by
  simp [SyntaxFault.at]

@[simp] theorem atFirst_ne_ok {α : Type} {fault : SyntaxFault} {stop : Nat} {ts : List Token}
    {a : α} : fault.atFirst stop ts ≠ .ok a := by
  cases ts <;> simp [SyntaxFault.atFirst]

@[simp] theorem atEnd_ne_ok {α : Type} {fault : SyntaxFault} {stop : Nat} {a : α} :
    fault.atEnd stop ≠ .ok a := by
  simp [SyntaxFault.atEnd]

/-! ## Lists -/

mutual

/-- A list is read up to its closing bracket, which comes at once or ends a row of items. -/
theorem readItems_sound {stop : Nat} {known : Option Items} {ts rest : List Token} {all : Items}
    (h : readItems stop known ts = .ok (all, rest)) :
    (∃ right : Token, ts = right :: rest ∧ right.kind = .rightBracket ∧ known = some all) ∨
      ∃ used, ts = used ++ rest ∧ ReadsRow known used all := by
  match ts with
  | [] => simp [readItems] at h
  | t :: ts =>
      rw [readItems.eq_def] at h
      simp only at h
      split at h
      next hk =>
        split at h
        · simp only [Except.ok.injEq, Prod.mk.injEq] at h
          exact .inl ⟨t, by rw [h.2], hk, by rw [h.1]⟩
        · simp at h
      next hk =>
        obtain ⟨items, hadd, h⟩ := exists_of_bind_eq_ok h
        obtain ⟨used, rfl, hrow⟩ := readSeparator_sound h
        exact .inr ⟨t :: used, rfl, hrow (.string hk hadd)⟩
      next hk =>
        obtain ⟨x, hx, h⟩ := exists_of_bind_eq_ok h
        obtain ⟨items, hadd, h⟩ := exists_of_bind_eq_ok h
        obtain ⟨used, rfl, hrow⟩ := readSeparator_sound h
        exact .inr ⟨t :: used, rfl, hrow (.number hk hx hadd)⟩
      next hk =>
        split at h
        next hminus =>
          cases ts with
          | nil => simp at h
          | cons n ts =>
              simp only at h
              split at h
              next hn =>
                obtain ⟨x, hx, h⟩ := exists_of_bind_eq_ok h
                obtain ⟨items, hadd, h⟩ := exists_of_bind_eq_ok h
                obtain ⟨used, rfl, hrow⟩ := readSeparator_sound h
                exact .inr ⟨t :: n :: used, rfl, hrow (.negative ⟨hk, hminus⟩ hn hx hadd)⟩
              · simp at h
        · simp at h
      · simp at h
termination_by ts.length

/-- What follows an item completes a row that begins with that item. -/
theorem readSeparator_sound {stop : Nat} {items : Items} {ts rest : List Token} {all : Items}
    (h : readSeparator stop items ts = .ok (all, rest)) :
    ∃ used, ts = used ++ rest ∧ ∀ {known : Option Items} {item : List Token},
      ReadsItem known item items → ReadsRow known (item ++ used) all := by
  match ts with
  | [] => simp [readSeparator] at h
  | t :: ts =>
      rw [readSeparator] at h
      split at h
      next hk =>
        rcases readItems_sound h with ⟨right, rfl, hr, hall⟩ | ⟨used, rfl, hrow⟩
        · cases hall
          exact ⟨[t, right], rfl, fun hitem => .trailing hitem hk hr⟩
        · exact ⟨t :: used, rfl, fun hitem => .more hitem hk hrow⟩
      next hk =>
        simp only [Except.ok.injEq, Prod.mk.injEq] at h
        obtain ⟨rfl, rfl⟩ := h
        exact ⟨[t], rfl, fun hitem => .last hitem hk⟩
      · simp at h
termination_by ts.length

end

theorem readList_sound {stop : Nat} {opening : Token} {ts rest : List Token} {node : Node}
    (h : readList stop opening ts = .ok (node, rest)) :
    ∃ items used, node = .list items ∧ ts = used ++ rest ∧ ReadsRow none used items := by
  match ts with
  | [] => simp [readList] at h
  | t :: ts =>
      rw [readList] at h
      split at h
      · simp at h
      · obtain ⟨⟨items, after⟩, hread, h⟩ := exists_of_bind_eq_ok h
        cases h
        rcases readItems_sound hread with ⟨_, _, _, hnone⟩ | ⟨used, hused, hrow⟩
        · cases hnone
        · exact ⟨items, used, rfl, hused, hrow⟩

/-! ## Conditions -/

/-- A row of tokens is cut at its first `else`. -/
theorem splitElse_sound {depth : Nat} {ts range rest : List Token}
    (h : splitElse depth ts = some (range, rest)) :
    ∃ e, e.isKeyword "else" = true ∧ (∀ t ∈ range, t.isKeyword "else" = false) ∧
      ts = range ++ e :: rest := by
  induction ts generalizing depth range with
  | nil => simp [splitElse] at h
  | cons t ts ih =>
      -- A token that is passed over is not `else`, and stands in front of what was cut off.
      have passed {depth : Nat} (ht : t.isKeyword "else" = false)
          (h : (splitElse depth ts).map (fun p => (t :: p.1, p.2)) = some (range, rest)) :
          ∃ e, e.isKeyword "else" = true ∧ (∀ t ∈ range, t.isKeyword "else" = false) ∧
            t :: ts = range ++ e :: rest := by
        obtain ⟨⟨a, b⟩, hsplit, hab⟩ := Option.map_eq_some_iff.1 h
        cases hab
        obtain ⟨e, he, hrange, hts⟩ := ih hsplit
        exact ⟨e, he, by simpa [ht] using hrange, by simp [hts]⟩
      have notName (hk : t.kind ≠ .name) : t.isKeyword "else" = false := by
        simp [Token.isKeyword, hk]
      rw [splitElse.eq_def] at h
      simp only at h
      split at h
      next hk => exact passed (notName (by simp [hk])) h
      next hk => exact passed (notName (by simp [hk])) h
      next hk =>
        split at h
        · cases h
        · exact passed (notName (by simp [hk])) h
      next hk =>
        split at h
        · cases h
        · exact passed (notName (by simp [hk])) h
      · split at h
        next he =>
          cases h
          exact ⟨t, he, by simp, rfl⟩
        next he => exact passed (by simpa using he) h

/-! ## The readers -/

/-- What each reader gives is derived from the tokens it took, at some depth of calls. -/
structure Sound (fuel : Nat) : Prop where
  expression : ∀ {stop : Nat} {ts rest : List Token} {node : Node},
    readExpression fuel stop ts = .ok (node, rest) →
      ∃ used, ts = used ++ rest ∧ Derives (.expression node) used
  whole : ∀ {ts : List Token} {node : Node},
    readWhole fuel ts = .ok node → Derives (.expression node) ts
  links : ∀ {stop : Nat} {ts rest : List Token} {links : List (Operator × Node)},
    readLinks fuel stop ts = .ok (links, rest) →
      ∃ used, ts = used ++ rest ∧ ∀ {first : Node} {us : List Token},
        Derives (.operand first) us → Derives (.chain first links) (us ++ used)
  operand : ∀ {stop : Nat} {ts rest : List Token} {node : Node},
    readOperand fuel stop ts = .ok (node, rest) →
      ∃ used, ts = used ++ rest ∧ Derives (.operand node) used
  arguments : ∀ {stop : Nat} {ts rest : List Token} {nodes : List Node},
    readArguments fuel stop ts = .ok (nodes, rest) →
      ∃ used, ts = used ++ rest ∧ Derives (.arguments nodes) used
  moreArguments : ∀ {stop : Nat} {ts rest : List Token} {nodes : List Node},
    readMoreArguments fuel stop ts = .ok (nodes, rest) →
      ∃ used, ts = used ++ rest ∧ Derives (.moreArguments nodes) used

namespace Sound

variable {fuel stop : Nat} {ts rest : List Token} {node : Node} {nodes : List Node}

theorem readExpression_succ (ih : Sound fuel)
    (h : readExpression (fuel + 1) stop ts = .ok (node, rest)) :
    ∃ used, ts = used ++ rest ∧ Derives (.expression node) used := by
  rw [readExpression] at h
  obtain ⟨⟨first, after⟩, hfirst, h₁⟩ := exists_of_bind_eq_ok h
  obtain ⟨⟨links, after⟩, hlinks, h₂⟩ := exists_of_bind_eq_ok h₁
  obtain ⟨us, rfl, hoperand⟩ := ih.operand hfirst
  obtain ⟨vs, rfl, hchain⟩ := ih.links hlinks
  have hderives : Derives (.chain first links) (us ++ vs) := hchain hoperand
  cases after with
  | nil =>
      cases h₂
      exact ⟨us ++ vs, by simp, hderives.chain⟩
  | cons i after =>
      simp only at h₂
      split at h₂
      next hi =>
        split at h₂
        · simp at h₂
        · simp at h₂
        next range alternative _ hsplit =>
          obtain ⟨e, he, hrange, rfl⟩ := splitElse_sound hsplit
          obtain ⟨condition, hcondition, h₃⟩ := exists_of_bind_eq_ok h₂
          cases alternative with
          | nil => simp at h₃
          | cons t alternative =>
              obtain ⟨⟨falsy, after⟩, hfalsy, h₄⟩ := exists_of_bind_eq_ok h₃
              cases h₄
              obtain ⟨ws, hws, halternative⟩ := ih.expression hfalsy
              refine ⟨us ++ vs ++ i :: (range ++ e :: ws), by simp [hws], ?_⟩
              exact hderives.conditional hi (ih.whole hcondition) hrange he halternative
      · cases h₂
        exact ⟨us ++ vs, by simp, hderives.chain⟩

theorem readWhole_succ (ih : Sound fuel) (h : readWhole (fuel + 1) ts = .ok node) :
    Derives (.expression node) ts := by
  rw [readWhole] at h
  obtain ⟨⟨n, after⟩, hread, h₁⟩ := exists_of_bind_eq_ok h
  obtain ⟨used, rfl, hused⟩ := ih.expression hread
  cases after with
  | nil =>
      cases h₁
      simpa using hused
  | cons t after =>
      simp only [atEnd] at h₁
      split at h₁ <;> simp at h₁

theorem readLinks_succ (ih : Sound fuel) {links : List (Operator × Node)}
    (h : readLinks (fuel + 1) stop ts = .ok (links, rest)) :
    ∃ used, ts = used ++ rest ∧ ∀ {first : Node} {us : List Token},
      Derives (.operand first) us → Derives (.chain first links) (us ++ used) := by
  cases ts with
  | nil =>
      simp only [readLinks, Except.ok.injEq, Prod.mk.injEq] at h
      obtain ⟨rfl, rfl⟩ := h
      exact ⟨[], rfl, fun hfirst => by simpa using hfirst.single⟩
  | cons o ts =>
      rw [readLinks] at h
      split at h
      · cases h
        exact ⟨[], rfl, fun hfirst => by simpa using hfirst.single⟩
      next op ho =>
        obtain ⟨⟨second, after⟩, hsecond, h₁⟩ := exists_of_bind_eq_ok h
        obtain ⟨⟨more, after⟩, hmore, h₂⟩ := exists_of_bind_eq_ok h₁
        cases h₂
        obtain ⟨us, rfl, hoperand⟩ := ih.operand hsecond
        obtain ⟨vs, rfl, hchain⟩ := ih.links hmore
        exact ⟨o :: (us ++ vs), by simp, fun hfirst => hfirst.link ho (hchain hoperand)⟩

/-- What a name alone stands for. -/
theorem of_readName {t : Token} {us : List Token} (hk : t.kind = .name)
    (h : (do return (← readName t, us)) = (.ok (node, rest) : Except Unreadable _)) :
    ∃ used, t :: us = used ++ rest ∧ Derives (.operand node) used := by
  obtain ⟨n, hname, h₁⟩ := exists_of_bind_eq_ok h
  cases h₁
  exact ⟨[t], rfl, .name hk hname⟩

theorem readOperand_succ (ih : Sound fuel)
    (h : readOperand (fuel + 1) stop ts = .ok (node, rest)) :
    ∃ used, ts = used ++ rest ∧ Derives (.operand node) used := by
  cases ts with
  | nil => simp [readOperand] at h
  | cons t ts =>
      rw [readOperand.eq_def] at h
      simp only at h
      split at h
      next hk =>
        obtain ⟨⟨inner, after⟩, hread, h₁⟩ := exists_of_bind_eq_ok h
        obtain ⟨used, rfl, hused⟩ := ih.expression hread
        cases after with
        | nil => simp at h₁
        | cons close after =>
            simp only at h₁
            split at h₁
            next hclose =>
              cases h₁
              exact ⟨t :: (used ++ [close]), by simp, .brackets hk hused hclose⟩
            · simp at h₁
      next hk =>
        cases h
        exact ⟨[t], rfl, .string hk⟩
      next hk =>
        obtain ⟨items, used, rfl, rfl, hrow⟩ := readList_sound h
        exact ⟨t :: used, rfl, .list hk hrow⟩
      next hk =>
        split at h
        next hsign =>
          cases ts with
          | nil => simp at h
          | cons n ts =>
              simp only at h
              split at h
              next hn =>
                obtain ⟨x, hx, h₁⟩ := exists_of_bind_eq_ok h
                cases h₁
                exact ⟨[t, n], rfl, .signed ⟨hk, hsign⟩ hn hx⟩
              · simp at h
        · simp at h
      next hk =>
        obtain ⟨x, hx, h₁⟩ := exists_of_bind_eq_ok h
        cases h₁
        exact ⟨[t], rfl, .number hk hx⟩
      next hk =>
        cases ts with
        | nil => exact of_readName hk h
        | cons opening ts =>
            simp only at h
            split at h
            next hopening =>
              obtain ⟨⟨parent, name⟩, hpath, h₁⟩ := exists_of_bind_eq_ok h
              obtain ⟨⟨arguments, after⟩, hread, h₂⟩ := exists_of_bind_eq_ok h₁
              cases h₂
              obtain ⟨used, rfl, hused⟩ := ih.arguments hread
              exact ⟨t :: opening :: used, rfl, .call hk hpath hopening hused⟩
            · exact of_readName hk h
      · simp at h

theorem readArguments_succ (ih : Sound fuel)
    (h : readArguments (fuel + 1) stop ts = .ok (nodes, rest)) :
    ∃ used, ts = used ++ rest ∧ Derives (.arguments nodes) used := by
  cases ts with
  | nil => simp [readArguments] at h
  | cons t ts =>
      simp only [readArguments] at h
      split at h
      next hk =>
        cases h
        exact ⟨[t], rfl, .noArguments hk⟩
      · obtain ⟨⟨first, after⟩, hfirst, h₁⟩ := exists_of_bind_eq_ok h
        obtain ⟨⟨more, after⟩, hmore, h₂⟩ := exists_of_bind_eq_ok h₁
        cases h₂
        obtain ⟨us, hus, hnode⟩ := ih.expression hfirst
        obtain ⟨vs, rfl, hnodes⟩ := ih.moreArguments hmore
        exact ⟨us ++ vs, by simp [hus], .arguments hnode hnodes⟩

theorem readMoreArguments_succ (ih : Sound fuel)
    (h : readMoreArguments (fuel + 1) stop ts = .ok (nodes, rest)) :
    ∃ used, ts = used ++ rest ∧ Derives (.moreArguments nodes) used := by
  cases ts with
  | nil => simp [readMoreArguments] at h
  | cons t ts =>
      simp only [readMoreArguments] at h
      split at h
      next hk =>
        cases h
        exact ⟨[t], rfl, .lastArgument hk⟩
      next hk =>
        obtain ⟨⟨next, after⟩, hnext, h₁⟩ := exists_of_bind_eq_ok h
        obtain ⟨⟨more, after⟩, hmore, h₂⟩ := exists_of_bind_eq_ok h₁
        cases h₂
        obtain ⟨us, rfl, hnode⟩ := ih.expression hnext
        obtain ⟨vs, rfl, hnodes⟩ := ih.moreArguments hmore
        exact ⟨t :: (us ++ vs), by simp, .nextArgument hk hnode hnodes⟩
      · simp at h

end Sound

/-- The readers are sound at every depth. -/
theorem sound (fuel : Nat) : Sound fuel := by
  induction fuel with
  | zero =>
      constructor <;> intros <;>
        simp_all [readExpression, readWhole, readLinks, readOperand, readArguments,
          readMoreArguments]
  | succ fuel ih =>
      exact {
        expression := ih.readExpression_succ
        whole := ih.readWhole_succ
        links := ih.readLinks_succ
        operand := ih.readOperand_succ
        arguments := ih.readArguments_succ
        moreArguments := ih.readMoreArguments_succ }

/-- A row of tokens that is read as a tree derives that tree. -/
theorem derives_of_parseTokens {ts : List Token} {node : Node} (h : parseTokens ts = .ok node) :
    Derives (.expression node) ts := by
  cases ts with
  | nil => simp [parseTokens] at h
  | cons t ts => exact (sound _).whole h

end Formula.Grammar
