import Formula.Proofs.Grammar.Row
import Formula.Proofs.Lexing.Composition
import Formula.Proofs.Source.Shape

set_option autoImplicit false

/-! # Conditionals put together from texts

Texts that are read as trees are put together to the text of a conditional, and that text is read as
the conditional of those trees. The condition is cut off at the first `else` behind its `if`, however
deep in brackets that stands, so a condition that holds the word `else` itself cannot be read.

Main statements: `parse_conditional` and `exists_adds_elseChain`. -/

namespace Formula

open Grammar

/-- A text that strict reading accepts, its tokens and its tree. -/
structure ReadsAs (s : String) (ts : List Token) (tree : Node) : Prop where
  tokens : tokenize true s = .ok ts
  tree : parseTokens ts = .ok tree

theorem ReadsAs.derives {s : String} {ts : List Token} {tree : Node} (h : ReadsAs s ts tree) :
    Derives (.expression tree) ts :=
  derives_of_parseTokens h.tree

/-! ## Lexemes -/

theorem toList_sanitize_append (s t : String) :
    (sanitize (s ++ t)).toList = (sanitize s).toList ++ (sanitize t).toList := by
  simp [sanitize]

namespace Adds

variable {rest : List Char}

/-- A text in brackets. -/
theorem brackets {s : String} {ts : List Token} (h : Formula.tokenize true s = .ok ts) :
    Adds (['('] ++ ((sanitize s).toList ++ [')']))
      ([(.leftParen, "(")] ++ (ts.map Token.shape ++ [(.rightParen, ")")])) rest := by
  have hclose : Adds [')'] [(.rightParen, ")")] rest := Lexes.rightParen.adds
  have hinner : Adds (sanitize s).toList (ts.map Token.shape) ([')'] ++ rest) :=
    text h (.inr (.inl ⟨rest, rfl⟩))
  have hopen : Adds ['('] [(.leftParen, "(")] ((sanitize s).toList ++ [')'] ++ rest) :=
    Lexes.leftParen.adds
  exact hopen.append (hinner.append hclose)

/-- The word before a condition. -/
theorem ifWord : Adds [' ', 'i', 'f', ' '] [(.name, "if")] rest := by
  have hword : Lexes ['i', 'f'] [(.name, "if")] ([' '] ++ rest) := .lexeme rfl (by decide)
  exact (space _).append (hword.adds.append (space rest))

/-- The word behind a condition. -/
theorem elseWord : Adds [' ', 'e', 'l', 's', 'e', ' '] [(.name, "else")] rest := by
  have hword : Lexes ['e', 'l', 's', 'e'] [(.name, "else")] ([' '] ++ rest) := .lexeme rfl (by decide)
  exact (space _).append (hword.adds.append (space rest))

/-- The word before a condition whose bracket follows at once. -/
theorem ifWordBeforeBracket : Adds [' ', 'i', 'f'] [(.name, "if")] ('(' :: rest) := by
  have hword : Lexes ['i', 'f'] [(.name, "if")] ('(' :: rest) := .lexeme rfl (by decide)
  exact (space _).append hword.adds

end Adds

/-! ## A condition that cannot be read -/

namespace Grammar

/-- Two expressions that begin a row and end where an expression can end are one. -/
theorem Derives.expression_unique {us us' rest rest' : List Token} {node node' : Node}
    (h : Derives (.expression node) us) (h' : Derives (.expression node') us')
    (heq : us ++ rest = us' ++ rest') (hrest : EndsExpression rest)
    (hrest' : EndsExpression rest') : node = node' ∧ rest = rest' := by
  have hread := h.accepted (2 * (us.length + us'.length) + 1) 0 rest (by omega) hrest
  have hread' := h'.accepted (2 * (us.length + us'.length) + 1) 0 rest' (by omega) hrest'
  rw [heq, hread'] at hread
  obtain ⟨hnode, htail⟩ := Prod.mk.inj (Except.ok.inj hread)
  exact ⟨hnode.symm, htail.symm⟩

/-- The tokens are those of an expression and a closing bracket, and any others. -/
def ClosesBracket (us : List Token) : Prop :=
  ∃ (inner : Node) (ts rest : List Token) (right : Token),
    us = ts ++ right :: rest ∧ Derives (.expression inner) ts ∧ right.kind = .rightParen

/-- An expression that begins with a bracket closes it. -/
theorem Derives.closesBracket {left : Token} {us : List Token} {node : Node}
    (h : Derives (.expression node) (left :: us)) (hl : left.kind = .leftParen) :
    ClosesBracket us := by
  have operand {ts rest : List Token} {n : Node} (h : Derives (.operand n) ts)
      (heq : left :: us = ts ++ rest) : ClosesBracket us := by
    cases h with
    | brackets _ hinner hr =>
        obtain ⟨-, rfl⟩ := List.cons.inj heq
        exact ⟨_, _, rest, _, List.append_assoc _ _ _, hinner, hr⟩
    | string hk | number hk _ | name hk _ | call hk _ _ _ | list hk _ | signed hs _ _ =>
        obtain ⟨rfl, -⟩ := List.cons.inj heq
        simp_all [IsSign]
  have chain {ts rest : List Token} {n : Node} {links : List (Operator × Node)}
      (h : Derives (.chain n links) ts) (heq : left :: us = ts ++ rest) : ClosesBracket us := by
    cases h with
    | single hfirst => exact operand hfirst heq
    | link hfirst _ _ => exact operand hfirst (heq.trans (List.append_assoc _ _ _))
  generalize hts : left :: us = ts at h
  cases h with
  | chain hchain => exact chain hchain (hts.trans (List.append_nil _).symm)
  | conditional hchain _ _ _ _ _ => exact chain hchain hts

/-- A condition in brackets that could be cut off in the middle of an expression would have closed its
bracket there. -/
theorem Derives.not_cut {condition node : Node} {left : Token} {before after : List Token}
    (h : Derives (.expression condition) (before ++ after)) (hl : left.kind = .leftParen)
    (hcut : Derives (.expression node) (left :: before)) : False := by
  obtain ⟨inner, ts, rest, right, rfl, hinner, hr⟩ := hcut.closesBracket hl
  have heq : ts ++ right :: (rest ++ after) = (ts ++ right :: rest ++ after) ++ [] := by simp
  obtain ⟨_, hnil⟩ := hinner.expression_unique h heq (by simp [EndsExpression, hr])
    (by simp [EndsExpression])
  cases hnil

/-- Where an operand is followed by `if`, a condition in brackets and `else`, and the whole is read,
no `else` stands within the condition. -/
theorem Derives.noElse_in_condition {first range alternative : List Token} {i left right e : Token}
    {condition node : Node} (h : Derives (.expression node)
      (first ++ i :: (left :: (range ++ [right]) ++ e :: alternative)))
    (hfirst : IsPart .operand first) (hi : i.isKeyword "if" = true) (hl : left.kind = .leftParen)
    (hcondition : Derives (.expression condition) range) :
    ∀ t ∈ range, t.isKeyword "else" = false := by
  have hrow : first = Grammar.row first [] := (row_nil first).symm
  have hempty : EndsChain [] := by simp [EndsChain, EndsOperand]
  generalize hts : first ++ i :: (left :: (range ++ [right]) ++ e :: alternative) = ts at h
  rw [hrow] at hts
  cases h with
  | chain hchain =>
      obtain ⟨habsurd, _⟩ := hchain.of_row hfirst (by simp)
        ((List.append_nil _).trans hts.symm) hempty (endsChain_keyword hi)
      cases habsurd
  | @conditional _ _ _ _ _ cut falsy _ e' hchain hi' hcut hno _ _ =>
      obtain ⟨htail, _⟩ := hchain.of_row hfirst (by simp) hts.symm (endsChain_keyword hi')
        (endsChain_keyword hi)
      obtain ⟨-, htail⟩ := List.cons.inj htail
      -- The condition is cut off at the first `else`: within the brackets, or behind them.
      have hsplit : cut ++ e' :: falsy = (left :: range) ++ (right :: (e :: alternative)) := by
        simpa using htail
      rcases List.append_eq_append_iff.1 hsplit with ⟨between, hrange, hbetween⟩ | ⟨_, rfl, _⟩
      · cases between with
        | nil =>
            rw [List.append_nil] at hrange
            exact fun t ht => hno t (by rw [← hrange]; exact List.mem_cons_of_mem _ ht)
        | cons t between =>
            obtain ⟨c, cut, rfl, _⟩ := hcut.begins
            obtain ⟨rfl, rfl⟩ := List.cons.inj hrange
            exact (hcondition.not_cut hl hcut).elim
      · exact fun t ht => hno t (List.mem_append_left _ (List.mem_cons_of_mem _ ht))

/-- An operand, a condition in brackets and an expression are read as their conditional if the condition
holds no `else`, and as nothing otherwise. -/
theorem parseTokens_conditional_iff {first range alternative : List Token} {i left right e : Token}
    {truthy condition falsy node : Node} (hfirst : Derives (.operand truthy) first)
    (hi : i.isKeyword "if" = true) (hl : left.kind = .leftParen)
    (hcondition : Derives (.expression condition) range) (hr : right.kind = .rightParen)
    (he : e.isKeyword "else" = true) (hfalsy : Derives (.expression falsy) alternative) :
    parseTokens (first ++ i :: (left :: (range ++ [right]) ++ e :: alternative)) = .ok node ↔
      node = .conditional condition truthy falsy ∧ ∀ t ∈ range, t.isKeyword "else" = false := by
  have hread (hno : ∀ t ∈ range, t.isKeyword "else" = false) :
      parseTokens (first ++ i :: (left :: (range ++ [right]) ++ e :: alternative)) =
        .ok (.conditional condition truthy falsy) := by
    have hbrackets : Derives (.expression condition) (left :: (range ++ [right])) :=
      (Derives.brackets hl hcondition hr).single.chain
    have hnone : ∀ t ∈ left :: (range ++ [right]), t.isKeyword "else" = false := by
      intro t ht
      simp only [List.mem_cons, List.mem_append, List.not_mem_nil, or_false] at ht
      rcases ht with rfl | ht | rfl
      · simp [Token.isKeyword, hl]
      · exact hno t ht
      · simp [Token.isKeyword, hr]
    exact parseTokens_of_derives (hfirst.single.conditional hi hbrackets hnone he hfalsy)
  constructor
  · intro hparse
    have hno := (derives_of_parseTokens hparse).noElse_in_condition hfirst.isRead hi hl hcondition
    rw [hread hno] at hparse
    exact ⟨(Except.ok.inj hparse).symm, hno⟩
  · rintro ⟨rfl, hno⟩
    exact hread hno

end Grammar

/-! ## A conditional -/

theorem isKeyword_of_eq {t : Token} {keyword value : String} (hk : t.kind = .name)
    (hvalue : t.value = value) (hkeyword : Text.lower value = keyword) :
    t.isKeyword keyword = true := by
  simp [Token.isKeyword, hk, hvalue, hkeyword]

/-- A conditional put together from three texts, the first two in brackets, is read as the conditional
of their trees if the condition holds no `else`, and as nothing otherwise. -/
theorem parse_conditional {t c f : String} {ts cs fs : List Token} {truthy condition falsy : Node}
    (ht : ReadsAs t ts truthy) (hc : ReadsAs c cs condition) (hf : ReadsAs f fs falsy)
    (strict : Bool) :
    ∃ us, tokenize strict ("(" ++ t ++ ") if (" ++ c ++ ") else " ++ f) = .ok us ∧
      ∀ node, parseTokens us = .ok node ↔
        node = .conditional condition truthy falsy ∧ ∀ u ∈ cs, u.isKeyword "else" = false := by
  have hopen : (sanitize "(").toList = ['('] := rfl
  have hif : (sanitize ") if (").toList = [')', ' ', 'i', 'f', ' ', '('] := rfl
  have helse : (sanitize ") else ").toList = [')', ' ', 'e', 'l', 's', 'e', ' '] := rfl
  have htext : (sanitize ("(" ++ t ++ ") if (" ++ c ++ ") else " ++ f)).toList =
      (['('] ++ ((sanitize t).toList ++ [')'])) ++ ([' ', 'i', 'f', ' '] ++
        ((['('] ++ ((sanitize c).toList ++ [')'])) ++ ([' ', 'e', 'l', 's', 'e', ' '] ++
          (sanitize f).toList))) := by
    simp [toList_sanitize_append, hopen, hif, helse]
  have hfalsy : Adds (sanitize f).toList (fs.map Token.shape) [] := .text hf.tokens (.inl rfl)
  have hcondition := (Adds.brackets hc.tokens).append (Adds.elseWord.append hfalsy)
  have hadds := (Adds.brackets ht.tokens).append (Adds.ifWord.append hcondition)
  rw [← htext] at hadds
  obtain ⟨us, htokens, hshapes⟩ := hadds.tokenize strict
  simp only [List.cons_append, List.append_assoc, List.nil_append] at hshapes
  -- The tokens, taken apart as the text was put together.
  obtain ⟨left, rest, rfl, hl, _, hrest⟩ := exists_of_map_shape_cons hshapes
  obtain ⟨ts', rest, rfl, hts, hrest⟩ := List.map_eq_append_iff.1 hrest
  obtain ⟨right, rest, rfl, hr, _, hrest⟩ := exists_of_map_shape_cons hrest
  obtain ⟨i, rest, rfl, hki, hvi, hrest⟩ := exists_of_map_shape_cons hrest
  obtain ⟨left', rest, rfl, hl', _, hrest⟩ := exists_of_map_shape_cons hrest
  obtain ⟨cs', rest, rfl, hcs, hrest⟩ := List.map_eq_append_iff.1 hrest
  obtain ⟨right', rest, rfl, hr', _, hrest⟩ := exists_of_map_shape_cons hrest
  obtain ⟨e, fs', rfl, hke, hve, hfs⟩ := exists_of_map_shape_cons hrest
  have hi : i.isKeyword "if" = true := isKeyword_of_eq hki hvi rfl
  have he : e.isKeyword "else" = true := isKeyword_of_eq hke hve rfl
  have htruthy : Derives (.operand truthy) (left :: (ts' ++ [right])) :=
    .brackets hl (ht.derives.stands ts' hts) hr
  have hsplit : left :: (ts' ++ right :: i :: left' :: (cs' ++ right' :: e :: fs')) =
      left :: (ts' ++ [right]) ++ i :: (left' :: (cs' ++ [right']) ++ e :: fs') := by simp
  refine ⟨_, htokens, fun node => ?_⟩
  rw [hsplit, parseTokens_conditional_iff htruthy hi hl' (hc.derives.stands cs' hcs) hr' he
    (hf.derives.stands fs' hfs)]
  exact and_congr_right fun _ =>
    ⟨forall_isKeyword_eq_of_shape hcs.symm, forall_isKeyword_eq_of_shape hcs⟩

/-- The tokens of `b if a else d`. -/
def choiceTokens : List Token :=
  [⟨.name, "b", 0, "b"⟩, ⟨.name, "if", 1, "if"⟩, ⟨.name, "a", 2, "a"⟩, ⟨.name, "else", 3, "else"⟩,
    ⟨.name, "d", 4, "d"⟩]

/-- The tree of `b if a else d`. -/
def choiceTree : Node := .conditional (.name "a") (.name "b") (.name "d")

theorem readsAs_choice : ReadsAs "b if a else d" choiceTokens choiceTree where
  tokens := by rfl
  tree := by
    have ha : Derives (.operand (.name "a")) [⟨.name, "a", 2, "a"⟩] := .name rfl (by cbv)
    have hb : Derives (.operand (.name "b")) [⟨.name, "b", 0, "b"⟩] := .name rfl (by cbv)
    have hd : Derives (.operand (.name "d")) [⟨.name, "d", 4, "d"⟩] := .name rfl (by cbv)
    exact parseTokens_of_derives (.conditional (i := ⟨.name, "if", 1, "if"⟩)
      (e := ⟨.name, "else", 3, "else"⟩) hb.single (by decide) ha.single.chain (by decide)
      (by decide) hd.single.chain)

theorem readsAs_x : ReadsAs "x" [⟨.name, "x", 0, "x"⟩] (.name "x") := ⟨by rfl, by cbv⟩

/-- A conditional may stand in the branches of another. -/
theorem parse_conditional_of_choices : ∃ us,
    tokenize true "(b if a else d) if (x) else b if a else d" = .ok us ∧
      parseTokens us = .ok (.conditional (.name "x") choiceTree choiceTree) := by
  obtain ⟨us, htokens, hparse⟩ := parse_conditional readsAs_choice readsAs_x readsAs_choice true
  have hno : ∀ u ∈ [(⟨.name, "x", 0, "x"⟩ : Token)], u.isKeyword "else" = false := by decide
  exact ⟨us, htokens, (hparse _).2 ⟨rfl, hno⟩⟩

/-- The tokens of `(x) if (b if a else d) else x`. -/
def nestedTokens : List Token :=
  [⟨.leftParen, "(", 0, "("⟩, ⟨.name, "x", 1, "x"⟩, ⟨.rightParen, ")", 2, ")"⟩,
    ⟨.name, "if", 3, "if"⟩, ⟨.leftParen, "(", 4, "("⟩, ⟨.name, "b", 5, "b"⟩, ⟨.name, "if", 6, "if"⟩,
    ⟨.name, "a", 7, "a"⟩, ⟨.name, "else", 8, "else"⟩, ⟨.name, "d", 9, "d"⟩,
    ⟨.rightParen, ")", 10, ")"⟩, ⟨.name, "else", 11, "else"⟩, ⟨.name, "x", 12, "x"⟩]

/-- A conditional cannot stand in the condition of another, in brackets or not: its own `else` ends
that condition. -/
theorem parse_choice_as_condition :
    ReadsAs "x" [⟨.name, "x", 0, "x"⟩] (.name "x") ∧
      ReadsAs "b if a else d" choiceTokens choiceTree ∧
      tokenize true "(x) if (b if a else d) else x" = .ok nestedTokens ∧
      ∀ node, parseTokens nestedTokens ≠ .ok node := by
  refine ⟨readsAs_x, readsAs_choice, by rfl, fun node hparse => ?_⟩
  let first : List Token :=
    ⟨.leftParen, "(", 0, "("⟩ :: ([⟨.name, "x", 1, "x"⟩] ++ [⟨.rightParen, ")", 2, ")"⟩])
  let range : List Token := choiceTokens.map fun t => { t with index := t.index + 5 }
  have hfirst : IsPart .operand first :=
    .brackets rfl (.chain (.single (.path ⟨rfl, by decide⟩))) rfl
  have hrange : Derives (.expression choiceTree) range := readsAs_choice.derives.stands _ rfl
  have hderives : Derives (.expression node) (first ++ ⟨.name, "if", 3, "if"⟩ ::
      (⟨.leftParen, "(", 4, "("⟩ :: (range ++ [⟨.rightParen, ")", 10, ")"⟩]) ++
        ⟨.name, "else", 11, "else"⟩ :: [⟨.name, "x", 12, "x"⟩])) := derives_of_parseTokens hparse
  have hno := hderives.noElse_in_condition hfirst (by decide) rfl hrange
  exact absurd (hno ⟨.name, "else", 8, "else"⟩ (by simp [range, choiceTokens])) (by decide)

/-! ## Chains of conditionals -/

/-- The text of branches, each with its condition, and of what is taken otherwise. -/
def elseChainText (rows : List (String × String)) (other : String) : String :=
  match rows with
  | [] => other
  | (branch, condition) :: rows =>
    branch ++ " if(" ++ condition ++ ") else " ++ elseChainText rows other

/-- The conditionals of branches, each with its condition, and of what is taken otherwise. -/
def Node.elseChain (rows : List (Node × Node)) (other : Node) : Node :=
  match rows with
  | [] => other
  | (branch, condition) :: rows => .conditional condition branch (elseChain rows other)

/-- The texts of a branch and its condition are read as these trees; the branch is no conditional, and
the condition holds no `else`. -/
structure RowReadsAs (texts : String × String) (nodes : Node × Node) : Prop where
  branch : ∃ ts, ReadsAs texts.1 ts nodes.1
  bare : Node.isA .conditional nodes.1 = false
  condition : ∃ ts, ReadsAs texts.2 ts nodes.2 ∧ ∀ t ∈ ts, t.isKeyword "else" = false

/-- Whatever is read as something else than a conditional is a chain. -/
theorem Grammar.Derives.exists_chain {node : Node} {ts : List Token}
    (h : Derives (.expression node) ts) (hbare : Node.isA .conditional node = false) :
    ∃ first links, node = (Chain.group first links).toNode ∧ Derives (.chain first links) ts := by
  cases h with
  | chain hchain => exact ⟨_, _, rfl, hchain⟩
  | conditional _ _ _ _ _ _ => simp [Node.isA] at hbare

theorem not_isElse_brackets {ts : List Token} (h : ∀ t ∈ ts, t.isKeyword "else" = false) :
    ∀ shape ∈ (.leftParen, "(") :: (ts.map Token.shape ++ [(.rightParen, ")")]), ¬ IsElse shape := by
  intro shape hshape
  simp only [List.mem_cons, List.mem_append, List.mem_map, List.not_mem_nil, or_false] at hshape
  rcases hshape with rfl | ⟨t, ht, rfl⟩ | rfl
  · simp [IsElse]
  · simpa [IsElse, Token.shape, Token.isKeyword] using h t ht
  · simp [IsElse]

/-- One row of a chain, before the text of the others. -/
theorem adds_row {t c more : String} {ts cs : List Token} {ls : List Shape}
    (ht : tokenize true t = .ok ts) (hc : tokenize true c = .ok cs)
    (hmore : Adds (sanitize more).toList ls []) :
    Adds (sanitize (t ++ " if(" ++ c ++ ") else " ++ more)).toList
      (ts.map Token.shape ++ (.name, "if") ::
        ((.leftParen, "(") :: (cs.map Token.shape ++ [(.rightParen, ")")]) ++ (.name, "else") :: ls))
      [] := by
  have hif : (sanitize " if(").toList = [' ', 'i', 'f', '('] := rfl
  have helse : (sanitize ") else ").toList = [')', ' ', 'e', 'l', 's', 'e', ' '] := rfl
  have htext : (sanitize (t ++ " if(" ++ c ++ ") else " ++ more)).toList =
      (sanitize t).toList ++ ([' ', 'i', 'f'] ++ ((['('] ++ ((sanitize c).toList ++ [')'])) ++
        ([' ', 'e', 'l', 's', 'e', ' '] ++ (sanitize more).toList))) := by
    simp [toList_sanitize_append, hif, helse]
  have hrest := (Adds.brackets hc).append (Adds.elseWord.append hmore)
  have hfollow : Delimits ([' ', 'i', 'f'] ++ ((['('] ++ ((sanitize c).toList ++ [')'])) ++
      ([' ', 'e', 'l', 's', 'e', ' '] ++ (sanitize more).toList)) ++ []) :=
    .inr (.inr ⟨_, rfl⟩)
  have hwhole := (Adds.text ht hfollow).append (Adds.ifWordBeforeBracket.append hrest)
  rw [htext]
  simpa using hwhole

/-- The text of a chain of conditionals is cut into lexemes that stand for the chain. -/
theorem exists_adds_elseChain {texts : List (String × String)} {rows : List (Node × Node)}
    {f : String} {fs : List Token} {other : Node} (hrows : List.Forall₂ RowReadsAs texts rows)
    (hother : ReadsAs f fs other) :
    ∃ ls, Adds (sanitize (elseChainText texts f)).toList ls [] ∧
      Stands (.expression (Node.elseChain rows other)) ls := by
  induction hrows with
  | nil => exact ⟨_, .text hother.tokens (.inl rfl), hother.derives.stands⟩
  | @cons texts nodes more rows hrow _ ih =>
      obtain ⟨⟨ts, hbranch⟩, hbare, cs, hcondition, hno⟩ := hrow
      obtain ⟨ls, hadds, hstands⟩ := ih
      obtain ⟨first, links, hnode, hchain⟩ := hbranch.derives.exists_chain hbare
      have hrange := (Stands.brackets hcondition.derives.stands).single.expression
      refine ⟨_, adds_row hbranch.tokens hcondition.tokens hadds, ?_⟩
      rw [Node.elseChain, hnode]
      exact hchain.stands.conditional hrange (not_isElse_brackets hno) hstands

end Formula
