import Formula.Proofs.Source.Readable

set_option autoImplicit false

/-! # Derivations by shape

What a row of tokens stands for depends on the kinds and values of the tokens only, not on their
positions or on the text they were read from. `Stands` says so of a row of shapes; there is one rule
for each rule of the grammar that the source of a tree makes use of, and `Derives.stands` says it of
whatever was read. -/

namespace Formula

namespace Grammar

/-- Tokens of the given shapes stand for something, whatever else is known of them. -/
def Stands (m : Meaning) (ls : List Shape) : Prop :=
  ∀ ts : List Token, ts.map Token.shape = ls → Derives m ts

/-- A shape that can be taken for the word `else`. -/
def IsElse (shape : Shape) : Prop := shape.1 = .name ∧ Text.lower shape.2 = "else"

theorem exists_of_map_shape_cons {ts : List Token} {shape : Shape} {ls : List Shape}
    (h : ts.map Token.shape = shape :: ls) :
    ∃ t rest, ts = t :: rest ∧ t.kind = shape.1 ∧ t.value = shape.2 ∧
      rest.map Token.shape = ls := by
  obtain ⟨t, rest, rfl, hshape, hrest⟩ := List.map_eq_cons_iff.1 h
  subst hshape
  exact ⟨t, rest, rfl, rfl, rfl, hrest⟩

theorem exists_of_map_shape_singleton {ts : List Token} {shape : Shape}
    (h : ts.map Token.shape = [shape]) :
    ∃ t, ts = [t] ∧ t.kind = shape.1 ∧ t.value = shape.2 := by
  obtain ⟨t, rest, rfl, hk, hv, hrest⟩ := exists_of_map_shape_cons h
  obtain rfl : rest = [] := List.map_eq_nil_iff.1 hrest
  exact ⟨t, rfl, hk, hv⟩

namespace Stands

/-! ## Operands -/

theorem string (s : String) : Stands (.operand (.literal (.string s))) [(.string, s)] := by
  intro ts hts
  obtain ⟨t, rfl, hk, rfl⟩ := exists_of_map_shape_singleton hts
  exact .string hk

theorem number {x : Scalar} {text : String} (h : readNumber false text.toList = .ok x) :
    Stands (.operand (.literal x)) [(.number, text)] := by
  intro ts hts
  obtain ⟨t, rfl, hk, rfl⟩ := exists_of_map_shape_singleton hts
  exact .number hk h

theorem negative {x : Scalar} {text : String} (h : readNumber true text.toList = .ok x) :
    Stands (.operand (.literal x)) [(.operator, "-"), (.number, text)] := by
  intro ts hts
  obtain ⟨s, rest, rfl, hks, hvs, hrest⟩ := exists_of_map_shape_cons hts
  obtain ⟨n, rfl, hkn, rfl⟩ := exists_of_map_shape_singleton hrest
  refine .signed ⟨hks, .inl hvs⟩ hkn ?_
  rwa [hvs]

theorem truthValue {b : Bool} {text : String}
    (h : Text.lower text = if b then "true" else "false") :
    Stands (.operand (.literal (.bool b))) [(.name, text)] := by
  intro ts hts
  obtain ⟨t, rfl, hk, rfl⟩ := exists_of_map_shape_singleton hts
  refine .name hk ?_
  cases b <;> simp [readName, h]

theorem name {name : String} (h : IsName none name) (htrue : Text.lower name ≠ "true")
    (hfalse : Text.lower name ≠ "false") : Stands (.operand (.name name)) [(.name, name)] := by
  intro ts hts
  obtain ⟨t, rfl, hk, hv⟩ := exists_of_map_shape_singleton hts
  simp only at hv
  have hpath : splitPath t = .ok (none, name) :=
    splitPath_eq_ok.2 ⟨hv, by simp, h.name⟩
  refine .name hk ?_
  simp [readName, hv, htrue, hfalse, hpath, bind, Except.bind, pure, Except.pure]

theorem member {parent name : String} (h : IsName (some parent) name) :
    Stands (.operand (.member parent name)) [(.name, qualify (some parent) name)] := by
  intro ts hts
  obtain ⟨t, rfl, hk, hv⟩ := exists_of_map_shape_singleton hts
  simp only at hv
  have hpath : splitPath t = .ok (some parent, name) := splitPath_eq_ok.2 ⟨hv, h.parent, h.name⟩
  have hpoint : '.' ∈ t.value.toList := by simp [hv, qualify]
  have htrue : Text.lower t.value ≠ "true" := lower_ne_of_point hpoint (by decide)
  have hfalse : Text.lower t.value ≠ "false" := lower_ne_of_point hpoint (by decide)
  refine .name hk ?_
  simp [readName, htrue, hfalse, hpath, bind, Except.bind, pure, Except.pure]

theorem brackets {node : Node} {ls : List Shape} (h : Stands (.expression node) ls) :
    Stands (.operand node) ((.leftParen, "(") :: (ls ++ [(.rightParen, ")")])) := by
  intro ts hts
  obtain ⟨left, rest, rfl, hl, _, hrest⟩ := exists_of_map_shape_cons hts
  obtain ⟨us, vs, rfl, hus, hvs⟩ := List.map_eq_append_iff.1 hrest
  obtain ⟨right, rfl, hr, _⟩ := exists_of_map_shape_singleton hvs
  exact .brackets hl (h us hus) hr

theorem call {parent : Option String} {name : String} {arguments : List Node} {ls : List Shape}
    (hname : IsName parent name) (h : Stands (.arguments arguments) ls) :
    Stands (.operand (.call parent name arguments))
      ((.name, qualify parent name) :: (.leftParen, "(") :: ls) := by
  intro ts hts
  obtain ⟨t, rest, rfl, hk, hv, hrest⟩ := exists_of_map_shape_cons hts
  obtain ⟨left, rest, rfl, hl, _, hrest⟩ := exists_of_map_shape_cons hrest
  exact .call hk (splitPath_eq_ok.2 ⟨hv, hname.parent, hname.name⟩) hl (h rest hrest)

/-! ## Arguments -/

theorem noArguments : Stands (.arguments []) [(.rightParen, ")")] := by
  intro ts hts
  obtain ⟨right, rfl, hr, _⟩ := exists_of_map_shape_singleton hts
  exact .noArguments hr

theorem arguments {node : Node} {nodes : List Node} {ls ms : List Shape}
    (hnode : Stands (.expression node) ls) (hmore : Stands (.moreArguments nodes) ms) :
    Stands (.arguments (node :: nodes)) (ls ++ ms) := by
  intro ts hts
  obtain ⟨us, vs, rfl, hus, hvs⟩ := List.map_eq_append_iff.1 hts
  exact .arguments (hnode us hus) (hmore vs hvs)

theorem lastArgument : Stands (.moreArguments []) [(.rightParen, ")")] := by
  intro ts hts
  obtain ⟨right, rfl, hr, _⟩ := exists_of_map_shape_singleton hts
  exact .lastArgument hr

theorem nextArgument {node : Node} {nodes : List Node} {ls ms : List Shape}
    (hnode : Stands (.expression node) ls) (hmore : Stands (.moreArguments nodes) ms) :
    Stands (.moreArguments (node :: nodes)) ((.comma, ",") :: (ls ++ ms)) := by
  intro ts hts
  obtain ⟨comma, rest, rfl, hc, _, hrest⟩ := exists_of_map_shape_cons hts
  obtain ⟨us, vs, rfl, hus, hvs⟩ := List.map_eq_append_iff.1 hrest
  exact .nextArgument hc (hnode us hus) (hmore vs hvs)

/-! ## Chains and expressions -/

theorem single {node : Node} {ls : List Shape} (h : Stands (.operand node) ls) :
    Stands (.chain node []) ls :=
  fun ts hts => .single (h ts hts)

/-- Two chains with an operator between them are a chain. -/
theorem joined {first second : Node} {op : Operator} {links more : List (Operator × Node)}
    {ls ms : List Shape} (hls : Stands (.chain first links) ls)
    (hms : Stands (.chain second more) ms) :
    Stands (.chain first (links ++ (op, second) :: more)) (ls ++ (.operator, op.symbol) :: ms) := by
  have append {links : List (Operator × Node)} {first : Node} {us vs : List Token} {o : Token}
      (hus : Derives (.chain first links) us) (ho : o.operator? = some op)
      (hvs : Derives (.chain second more) vs) :
      Derives (.chain first (links ++ (op, second) :: more)) (us ++ o :: vs) := by
    induction links generalizing first us with
    | nil =>
        cases hus with
        | single hoperand => exact .link hoperand ho hvs
    | cons link links ih =>
        cases hus with
        | link hoperand ho' hrest =>
            rw [List.append_assoc, List.cons_append]
            exact .link hoperand ho' (ih hrest)
  intro ts hts
  obtain ⟨us, rest, rfl, hus, hrest⟩ := List.map_eq_append_iff.1 hts
  obtain ⟨o, vs, rfl, hk, hv, hvs⟩ := exists_of_map_shape_cons hrest
  have ho : o.operator? = some op := by
    simp only at hk hv
    simp [Token.operator?, hk, hv, Operator.ofSymbol?_symbol]
  exact append (hls us hus) ho (hms vs hvs)

theorem expression {first : Node} {links : List (Operator × Node)} {ls : List Shape}
    (h : Stands (.chain first links) ls) :
    Stands (.expression (Chain.group first links).toNode) ls :=
  fun ts hts => .chain (h ts hts)

theorem not_isElse_of_map_shape {ts : List Token} {ls : List Shape}
    (hts : ts.map Token.shape = ls) (h : ∀ shape ∈ ls, ¬ IsElse shape) :
    ∀ t ∈ ts, t.isKeyword "else" = false := by
  intro t ht
  rw [Bool.eq_false_iff]
  intro helse
  refine h t.shape (by rw [← hts]; exact List.mem_map_of_mem ht) ?_
  simpa [Token.isKeyword, IsElse, Token.shape] using helse

theorem conditional {first condition falsy : Node} {links : List (Operator × Node)}
    {ls ms ks : List Shape} (hls : Stands (.chain first links) ls)
    (hms : Stands (.expression condition) ms) (hno : ∀ shape ∈ ms, ¬ IsElse shape)
    (hks : Stands (.expression falsy) ks) :
    Stands (.expression (.conditional condition (Chain.group first links).toNode falsy))
      (ls ++ (.name, "if") :: (ms ++ (.name, "else") :: ks)) := by
  intro ts hts
  obtain ⟨us, rest, rfl, hus, hrest⟩ := List.map_eq_append_iff.1 hts
  obtain ⟨i, rest, rfl, hki, hvi, hrest⟩ := exists_of_map_shape_cons hrest
  obtain ⟨range, rest, rfl, hrange, hrest⟩ := List.map_eq_append_iff.1 hrest
  obtain ⟨e, vs, rfl, hke, hve, hvs⟩ := exists_of_map_shape_cons hrest
  have hi : i.isKeyword "if" = true := by
    simp only at hki hvi
    rw [Token.isKeyword, hki, hvi]
    decide
  have he : e.isKeyword "else" = true := by
    simp only at hke hve
    rw [Token.isKeyword, hke, hve]
    decide
  exact .conditional (hls us hus) hi (hms range hrange) (not_isElse_of_map_shape hrange hno) he
    (hks vs hvs)

end Stands

/-! ## What was read -/

section SameShape

variable {t t' : Token} (h : t'.shape = t.shape)

include h

theorem kind_eq_of_shape : t'.kind = t.kind := congrArg Prod.fst h

theorem value_eq_of_shape : t'.value = t.value := congrArg Prod.snd h

theorem operator?_eq_of_shape : t'.operator? = t.operator? := by
  rw [Token.operator?, Token.operator?, kind_eq_of_shape h, value_eq_of_shape h]

theorem isKeyword_eq_of_shape (keyword : String) : t'.isKeyword keyword = t.isKeyword keyword := by
  rw [Token.isKeyword, Token.isKeyword, kind_eq_of_shape h, value_eq_of_shape h]

theorem splitPath_of_shape {path : Option String × String} (hpath : splitPath t = .ok path) :
    splitPath t' = .ok path := by
  rw [splitPath_eq_ok] at hpath ⊢
  rwa [value_eq_of_shape h]

theorem readName_of_shape {node : Node} (hname : readName t = .ok node) :
    readName t' = .ok node := by
  simp only [readName, value_eq_of_shape h] at hname ⊢
  split
  next htrue => rwa [if_pos htrue] at hname
  next htrue =>
    rw [if_neg htrue] at hname
    split
    next hfalse => rwa [if_pos hfalse] at hname
    next hfalse =>
      rw [if_neg hfalse] at hname
      obtain ⟨path, hpath, hnode⟩ := exists_of_bind_eq_ok hname
      rw [splitPath_of_shape h hpath]
      exact hnode

end SameShape

theorem map_shape_eq_cons {ts us : List Token} {t : Token}
    (h : ts.map Token.shape = (t :: us).map Token.shape) :
    ∃ t' ts', ts = t' :: ts' ∧ t'.shape = t.shape ∧ ts'.map Token.shape = us.map Token.shape :=
  List.map_eq_cons_iff.1 h

theorem map_shape_eq_append {ts us vs : List Token}
    (h : ts.map Token.shape = (us ++ vs).map Token.shape) :
    ∃ us' vs', ts = us' ++ vs' ∧ us'.map Token.shape = us.map Token.shape ∧
      vs'.map Token.shape = vs.map Token.shape := by
  rw [List.map_append] at h
  exact List.map_eq_append_iff.1 h

theorem map_shape_eq_singleton {ts : List Token} {t : Token}
    (h : ts.map Token.shape = [t].map Token.shape) : ∃ t', ts = [t'] ∧ t'.shape = t.shape := by
  obtain ⟨t', ts', rfl, ht, hts⟩ := map_shape_eq_cons h
  obtain rfl : ts' = [] := List.map_eq_nil_iff.1 hts
  exact ⟨t', rfl, ht⟩

theorem forall_isKeyword_eq_of_shape {ts us : List Token} {keyword : String} {b : Bool}
    (h : ts.map Token.shape = us.map Token.shape) (hus : ∀ u ∈ us, u.isKeyword keyword = b) :
    ∀ t ∈ ts, t.isKeyword keyword = b := by
  intro t ht
  obtain ⟨u, hu, hshape⟩ := List.mem_map.1 (h ▸ List.mem_map_of_mem ht)
  rw [← isKeyword_eq_of_shape hshape]
  exact hus u hu

/-- Only the error of an item that does not fit depends on where it stands. -/
theorem addNumber_of_ok {mixed mixed' : Unreadable} {known : Option Items} {x : Scalar}
    {items : Items} (h : Items.addNumber mixed known x = .ok items) :
    Items.addNumber mixed' known x = .ok items := by
  unfold Items.addNumber at h
  split at h
  · cases h
  · exact h
  · exact h
  · exact h
  · exact h
  · exact h
  · exact h
  · cases h

theorem addString_of_ok {mixed mixed' : Unreadable} {known : Option Items} {s : String}
    {items : Items} (h : Items.addString mixed known s = .ok items) :
    Items.addString mixed' known s = .ok items := by
  match known with
  | none | some (.strings _) => exact h
  | some (.ints _) | some (.doubles _) => cases h

theorem ReadsItem.of_shape {known : Option Items} {item ts : List Token} {items : Items}
    (h : ReadsItem known item items) (hts : ts.map Token.shape = item.map Token.shape) :
    ReadsItem known ts items := by
  cases h with
  | string hk hadd =>
      obtain ⟨t, rfl, ht⟩ := map_shape_eq_singleton hts
      rw [← kind_eq_of_shape ht] at hk
      rw [← value_eq_of_shape ht] at hadd
      exact .string hk (addString_of_ok hadd)
  | number hk hx hadd =>
      obtain ⟨n, rfl, hn⟩ := map_shape_eq_singleton hts
      rw [← kind_eq_of_shape hn] at hk
      rw [← value_eq_of_shape hn] at hx
      exact .number hk hx (addNumber_of_ok hadd)
  | negative hs hk hx hadd =>
      obtain ⟨s, ts, rfl, hs', hts⟩ := map_shape_eq_cons hts
      obtain ⟨n, rfl, hn⟩ := map_shape_eq_singleton hts
      rw [IsMinus, ← kind_eq_of_shape hs', ← value_eq_of_shape hs'] at hs
      rw [← kind_eq_of_shape hn] at hk
      rw [← value_eq_of_shape hn] at hx
      exact .negative hs hk hx (addNumber_of_ok hadd)

theorem ReadsRow.of_shape {known : Option Items} {row ts : List Token} {all : Items}
    (h : ReadsRow known row all) (hts : ts.map Token.shape = row.map Token.shape) :
    ReadsRow known ts all := by
  induction h generalizing ts with
  | last hitem hr =>
      obtain ⟨item, us, rfl, hitem', hus⟩ := map_shape_eq_append hts
      obtain ⟨right, rfl, hright⟩ := map_shape_eq_singleton hus
      exact .last (hitem.of_shape hitem') ((kind_eq_of_shape hright).trans hr)
  | trailing hitem hc hr =>
      obtain ⟨item, us, rfl, hitem', hus⟩ := map_shape_eq_append hts
      obtain ⟨comma, us, rfl, hcomma, hus⟩ := map_shape_eq_cons hus
      obtain ⟨right, rfl, hright⟩ := map_shape_eq_singleton hus
      exact .trailing (hitem.of_shape hitem') ((kind_eq_of_shape hcomma).trans hc)
        ((kind_eq_of_shape hright).trans hr)
  | more hitem hc _ ih =>
      obtain ⟨item, us, rfl, hitem', hus⟩ := map_shape_eq_append hts
      obtain ⟨comma, us, rfl, hcomma, hus⟩ := map_shape_eq_cons hus
      exact .more (hitem.of_shape hitem') ((kind_eq_of_shape hcomma).trans hc) (ih hus)

/-- Whatever a row of tokens stands for, every row of the same shapes stands for. -/
theorem Derives.stands {m : Meaning} {ts : List Token} (h : Derives m ts) :
    Stands m (ts.map Token.shape) := by
  induction h with
  | chain _ ih => exact ih.expression
  | conditional _ hi _ hrange he _ ihchain ihcondition ihalternative =>
      intro ts' hts
      obtain ⟨us, vs, rfl, hus, hvs⟩ := map_shape_eq_append hts
      obtain ⟨i, vs, rfl, hi', hvs⟩ := map_shape_eq_cons hvs
      obtain ⟨range, vs, rfl, hrange', hvs⟩ := map_shape_eq_append hvs
      obtain ⟨e, vs, rfl, he', hvs⟩ := map_shape_eq_cons hvs
      exact .conditional (ihchain us hus) ((isKeyword_eq_of_shape hi' _).trans hi)
        (ihcondition range hrange') (forall_isKeyword_eq_of_shape hrange' hrange)
        ((isKeyword_eq_of_shape he' _).trans he) (ihalternative vs hvs)
  | single _ ih => exact ih.single
  | link _ ho _ ihfirst ihrest =>
      intro ts' hts
      obtain ⟨us, vs, rfl, hus, hvs⟩ := map_shape_eq_append hts
      obtain ⟨o, vs, rfl, ho', hvs⟩ := map_shape_eq_cons hvs
      exact .link (ihfirst us hus) ((operator?_eq_of_shape ho').trans ho) (ihrest vs hvs)
  | @string u hk =>
      intro ts' hts
      obtain ⟨t, rfl, ht⟩ := map_shape_eq_singleton hts
      rw [← value_eq_of_shape ht]
      exact .string ((kind_eq_of_shape ht).trans hk)
  | number hk hx =>
      intro ts' hts
      obtain ⟨n, rfl, hn⟩ := map_shape_eq_singleton hts
      rw [← value_eq_of_shape hn] at hx
      exact .number ((kind_eq_of_shape hn).trans hk) hx
  | signed hs hk hx =>
      intro ts' hts
      obtain ⟨s, ts', rfl, hs', hts⟩ := map_shape_eq_cons hts
      obtain ⟨n, rfl, hn⟩ := map_shape_eq_singleton hts
      rw [IsSign, ← kind_eq_of_shape hs', ← value_eq_of_shape hs'] at hs
      rw [← value_eq_of_shape hs', ← value_eq_of_shape hn] at hx
      exact .signed hs ((kind_eq_of_shape hn).trans hk) hx
  | brackets hl _ hr ih =>
      intro ts' hts
      obtain ⟨left, ts', rfl, hleft, hts⟩ := map_shape_eq_cons hts
      obtain ⟨us, vs, rfl, hus, hvs⟩ := map_shape_eq_append hts
      obtain ⟨right, rfl, hright⟩ := map_shape_eq_singleton hvs
      exact .brackets ((kind_eq_of_shape hleft).trans hl) (ih us hus)
        ((kind_eq_of_shape hright).trans hr)
  | name hk hname =>
      intro ts' hts
      obtain ⟨t, rfl, ht⟩ := map_shape_eq_singleton hts
      exact .name ((kind_eq_of_shape ht).trans hk) (readName_of_shape ht hname)
  | call hk hpath hl _ ih =>
      intro ts' hts
      obtain ⟨t, ts', rfl, ht, hts⟩ := map_shape_eq_cons hts
      obtain ⟨left, ts', rfl, hleft, hts⟩ := map_shape_eq_cons hts
      exact .call ((kind_eq_of_shape ht).trans hk) (splitPath_of_shape ht hpath)
        ((kind_eq_of_shape hleft).trans hl) (ih ts' hts)
  | list hl hrow =>
      intro ts' hts
      obtain ⟨left, ts', rfl, hleft, hts⟩ := map_shape_eq_cons hts
      exact .list ((kind_eq_of_shape hleft).trans hl) (hrow.of_shape hts)
  | noArguments hr =>
      intro ts' hts
      obtain ⟨right, rfl, hright⟩ := map_shape_eq_singleton hts
      exact .noArguments ((kind_eq_of_shape hright).trans hr)
  | arguments _ _ ihnode ihmore =>
      rw [List.map_append]
      exact ihnode.arguments ihmore
  | lastArgument hr =>
      intro ts' hts
      obtain ⟨right, rfl, hright⟩ := map_shape_eq_singleton hts
      exact .lastArgument ((kind_eq_of_shape hright).trans hr)
  | nextArgument hc _ _ ihnode ihmore =>
      intro ts' hts
      obtain ⟨comma, ts', rfl, hcomma, hts⟩ := map_shape_eq_cons hts
      obtain ⟨us, vs, rfl, hus, hvs⟩ := map_shape_eq_append hts
      exact .nextArgument ((kind_eq_of_shape hcomma).trans hc) (ihnode us hus) (ihmore vs hvs)

end Grammar

end Formula
