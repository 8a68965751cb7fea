import Formula.Proofs.Grammar.Acceptance
import Formula.Proofs.Grammar.Items
import Formula.Proofs.Source.Readable

set_option autoImplicit false

/-! # The trees of texts are well formed

Every node of a tree that was read is spelled by a token of the text: a literal by one that says its
kind, an operation by its operator, and a name, a member or a call by a name token, which is cut at
its point. With what is known of the tokens that are cut off from a text, this says what whoever is
handed a tree may rely on.

Main statements: `Grammar.Derives.spelled` (what is read is spelled by the tokens) and
`isWellFormed_of_parseTokens`. -/

namespace Formula

/-! ## Names -/

/-- Something stands behind every point of a path. -/
theorem ne_nil_of_pathRest {skip : Nat} {cs before after : List Char}
    (hword : ∀ d ∈ cs.take skip, Text.isWordChar d = true)
    (h : Piece.pathRest skip cs = before ++ '.' :: after) : after ≠ [] := by
  induction cs generalizing skip before with
  | nil => simp [Piece.pathRest] at h
  | cons c cs ih =>
      cases skip with
      | succ skip =>
          rw [Piece.pathRest] at h
          cases before with
          | nil =>
              obtain rfl : c = '.' := (List.cons.inj h).1
              exact absurd (hword '.' (by simp)) (by decide)
          | cons b before =>
              exact ih (fun d hd => hword d (by simp [hd])) (List.cons.inj h).2
      | zero =>
          simp only [Piece.pathRest] at h
          split at h
          next hpoint =>
            have hprefix := List.takeWhile_prefix (l := cs) Text.isWordChar
            have htake := List.prefix_iff_eq_take.1 hprefix
            cases before with
            | nil =>
                -- What follows this point is the word behind it.
                obtain rfl : Piece.pathRest _ cs = after := (List.cons.inj h).2
                rw [pathRest_eq, ← htake]
                simp [hpoint.2]
            | cons b before =>
                refine ih (fun d hd => ?_) (List.cons.inj h).2
                rw [← htake] at hd
                exact (endsWord_takeWhile cs).word d hd
          · simp at h

/-- A path is what is left of a path whose first word is still to be passed over. -/
theorem path_eq_pathRest (cs : List Char) :
    Piece.path cs = Piece.pathRest (cs.takeWhile Text.isWordChar).length cs := by
  have hprefix := List.takeWhile_prefix (l := cs) Text.isWordChar
  have hsplit : cs.takeWhile Text.isWordChar ++ cs.dropWhile Text.isWordChar = cs :=
    List.takeWhile_append_dropWhile
  have hdrop := congrArg (List.drop (cs.takeWhile Text.isWordChar).length) hsplit
  rw [List.drop_left] at hdrop
  rw [pathRest_eq, ← List.prefix_iff_eq_take.1 hprefix, ← hdrop, Piece.path]

namespace IsNameText

/-- A text that is cut off as a name begins with a character of a word. -/
theorem head {text : List Char} (h : IsNameText text) :
    ∃ c more, text = c :: more ∧ Text.isWordChar c = true := by
  obtain ⟨c, cs, hfirst⟩ := h
  obtain ⟨hcuts, rfl⟩ := cutsName_of_first hfirst
  refine ⟨c, cs.takeWhile Text.isWordChar ++ Piece.pathRest 0 (cs.dropWhile Text.isWordChar), ?_,
    hcuts.word⟩
  simp [Piece.path, hcuts.word]

theorem ne_nil {text : List Char} (h : IsNameText text) : text ≠ [] := by
  obtain ⟨c, more, rfl, _⟩ := h.head
  simp

/-- On both sides of a point of a name there is something. -/
theorem sides_of_point {before after : List Char} (h : IsNameText (before ++ '.' :: after)) :
    before ≠ [] ∧ after ≠ [] := by
  constructor
  · rintro rfl
    obtain ⟨c, more, htext, hc⟩ := h.head
    obtain rfl : '.' = c := (List.cons.inj htext).1
    exact absurd hc (by decide)
  · obtain ⟨c, cs, hfirst⟩ := h
    have hpath := (cutsName_of_first hfirst).2
    rw [path_eq_pathRest] at hpath
    refine ne_nil_of_pathRest (fun d hd => ?_) hpath.symm
    rw [← List.prefix_iff_eq_take.1 (List.takeWhile_prefix _)] at hd
    exact (endsWord_takeWhile _).word d hd

end IsNameText

/-- Neither the empty text nor one with a point in it. -/
structure IsPlainName (name : String) : Prop where
  nonempty : name ≠ ""
  undotted : '.' ∉ name.toList

namespace IsName

variable {parent : Option String} {name : String}

/-- What a name token is cut into is not empty. -/
theorem plain (h : IsName parent name) : IsPlainName name := by
  refine ⟨?_, h.name⟩
  rintro rfl
  have htext := h.text
  cases parent with
  | none => exact htext.ne_nil (by simp [qualify])
  | some parent =>
      have hpoint : (qualify (some parent) "").toList = parent.toList ++ '.' :: [] := by
        simp [qualify]
      rw [hpoint] at htext
      exact htext.sides_of_point.2 rfl

theorem plain_parent (h : IsName parent name) : ∀ p ∈ parent, IsPlainName p := by
  rintro p rfl
  refine ⟨?_, h.parent p rfl⟩
  rintro rfl
  have htext := h.text
  have hpoint : (qualify (some "") name).toList = [] ++ '.' :: name.toList := by
    simp [qualify]
  rw [hpoint] at htext
  exact htext.sides_of_point.1 rfl

end IsName

/-! ## Nodes and their tokens -/

/-- Whether a node is spelled with a token: the one that says what the node is. -/
def Node.IsSpelledBy (t : Token) : Node → Prop
  | literal value => t.literalKind? = some value.kind
  | list _ => t.kind = .leftBracket
  | name n => t.kind = .name ∧ t.value = n
  | member parent n => t.kind = .name ∧ t.value = qualify (some parent) n
  | call parent n _ => t.kind = .name ∧ t.value = qualify parent n
  | binary op _ _ => t.operator? = some op
  | conditional _ _ _ => t.isKeyword "if" = true

/-- All nodes of the tree are spelled with some of the tokens. -/
def Node.IsSpelledIn (ts : List Token) (n : Node) : Prop :=
  ∀ k ∈ n.walk, ∃ t ∈ ts, k.IsSpelledBy t

theorem Node.IsSpelledIn.mono {ts us : List Token} {n : Node} (h : n.IsSpelledIn ts)
    (hts : ts ⊆ us) : n.IsSpelledIn us := fun k hk =>
  have ⟨t, ht, hspelled⟩ := h k hk
  ⟨t, hts ht, hspelled⟩

theorem Chain.isSpelledIn_toNode {ts : List Token} {c : Chain}
    (hlinks : ∀ link ∈ c.links, ∃ t ∈ ts, t.operator? = some link.1)
    (hoperands : ∀ n ∈ c.operands, n.IsSpelledIn ts) : c.toNode.IsSpelledIn ts := by
  intro k hk
  rcases mem_walk_toNode hk with ⟨link, hlink, left, right, rfl⟩ | ⟨n, hn, hk⟩
  · exact hlinks link hlink
  · exact hoperands n hn k hk

/-- A node without parts is spelled with a token of its own. -/
theorem Node.IsSpelledIn.leaf {ts : List Token} {t : Token} {n : Node} (ht : t ∈ ts)
    (hleaf : n.walk = [n]) (h : n.IsSpelledBy t) : n.IsSpelledIn ts := by
  intro k hk
  obtain rfl : k = n := by simpa [hleaf] using hk
  exact ⟨t, ht, h⟩

theorem isKeyword_of_readName {t : Token} {b : Bool} (hk : t.kind = .name)
    (h : readName t = .ok (.literal (.bool b))) :
    (t.isKeyword "true" || t.isKeyword "false") = true := by
  by_cases htrue : Text.lower t.value = "true"
  · simp [Token.isKeyword, hk, htrue]
  · by_cases hfalse : Text.lower t.value = "false"
    · simp [Token.isKeyword, hk, hfalse]
    · simp only [readName, htrue, hfalse, ↓reduceIte] at h
      obtain ⟨⟨parent, name⟩, _, h⟩ := Grammar.exists_of_bind_eq_ok h
      cases parent with
      | none => cases h
      | some parent => cases h

theorem isSpelledIn_of_readName {t : Token} {node : Node} (hk : t.kind = .name)
    (h : readName t = .ok node) : node.IsSpelledIn [t] := by
  have ht : t ∈ [t] := List.mem_singleton_self t
  rcases readName_cases h with ⟨b, rfl⟩ | ⟨parent, name, rfl, hpath⟩ | ⟨name, rfl, hpath, _⟩
  · refine .leaf ht rfl ?_
    simp [Node.IsSpelledBy, Token.literalKind?, hk, isKeyword_of_readName hk h, Scalar.kind]
  · exact .leaf ht rfl ⟨hk, hpath.path⟩
  · exact .leaf ht rfl ⟨hk, hpath.path⟩

namespace Grammar

/-- The operators that stand between the nodes of a row. -/
def Meaning.operators : Meaning → List Operator
  | chain _ links => links.map Prod.fst
  | _ => []

/-- The nodes and the operators of a row are spelled with its tokens. -/
structure Meaning.IsSpelledIn (m : Meaning) (ts : List Token) : Prop where
  nodes : ∀ n ∈ m.nodes, n.IsSpelledIn ts
  operators : ∀ op ∈ m.operators, ∃ t ∈ ts, t.operator? = some op

theorem Meaning.IsSpelledIn.mono {m : Meaning} {ts us : List Token} (h : m.IsSpelledIn ts)
    (hts : ts ⊆ us) : m.IsSpelledIn us where
  nodes n hn := (h.nodes n hn).mono hts
  operators op hop :=
    have ⟨t, ht, hspelled⟩ := h.operators op hop
    ⟨t, hts ht, hspelled⟩

theorem Meaning.IsSpelledIn.operand {node : Node} {ts : List Token} (h : node.IsSpelledIn ts) :
    (Meaning.operand node).IsSpelledIn ts :=
  ⟨fun _ hn => List.mem_singleton.1 hn ▸ h, fun _ hop => absurd hop List.not_mem_nil⟩

/-- A grouped row is spelled with the tokens of the row. -/
theorem Meaning.IsSpelledIn.grouped {first : Node} {links : List (Operator × Node)}
    {ts : List Token} (h : (Meaning.chain first links).IsSpelledIn ts) :
    (Chain.group first links).toNode.IsSpelledIn ts := by
  refine Chain.isSpelledIn_toNode ?_ ?_
  · rw [(Chain.items_group first links).2]
    exact fun link hlink => h.operators link.1 (List.mem_map_of_mem hlink)
  · rw [Chain.operands_group]
    exact h.nodes

/-- What is read is spelled with the tokens it is read from. -/
theorem Derives.spelled {m : Meaning} {ts : List Token} (h : Derives m ts) : m.IsSpelledIn ts := by
  induction h with
  | chain _ ih => exact ⟨by simpa [Meaning.nodes] using ih.grouped, by simp [Meaning.operators]⟩
  | @conditional first condition falsy links ts range alternative i e _ hi _ _ _ _ ihchain
      ihcondition ihfalsy =>
      have hchain := ihchain.grouped
      have hcondition := ihcondition.nodes condition (by simp [Meaning.nodes])
      have hfalsy := ihfalsy.nodes falsy (by simp [Meaning.nodes])
      refine ⟨?_, by simp [Meaning.operators]⟩
      simp only [Meaning.nodes, List.mem_singleton, forall_eq]
      intro k hk
      rcases Node.mem_walk_conditional.1 hk with rfl | hk | hk | hk
      · exact ⟨i, by simp, hi⟩
      · exact hcondition.mono (by grind) k hk
      · exact hchain.mono (by grind) k hk
      · exact hfalsy.mono (by grind) k hk
  | single _ ih => exact ⟨ih.nodes, by simp [Meaning.operators]⟩
  | @link first second op links ts rest o _ ho _ ihfirst ihrest =>
      have hfirst : (Meaning.operand first).IsSpelledIn (ts ++ o :: rest) :=
        ihfirst.mono (by grind)
      have hrest : (Meaning.chain second links).IsSpelledIn (ts ++ o :: rest) :=
        ihrest.mono (by grind)
      constructor
      · intro n hn
        rcases List.mem_cons.1 hn with rfl | hn
        · exact hfirst.nodes n (by simp [Meaning.nodes])
        · exact hrest.nodes n (by simpa [Meaning.nodes] using hn)
      · intro p hp
        rcases List.mem_cons.1 hp with rfl | hp
        · exact ⟨o, by simp, ho⟩
        · exact hrest.operators p hp
  | @string t hk =>
      have hkind : t.literalKind? = some .string := by simp [Token.literalKind?, hk]
      exact .operand (.leaf (List.mem_singleton_self t) rfl hkind)
  | number hk hx => exact .operand (.leaf (by simp) rfl (kind_of_readNumber hk hx))
  | signed _ hk hx => exact .operand (.leaf (by simp) rfl (kind_of_readNumber hk hx))
  | brackets _ _ _ ih => exact .operand ((ih.nodes _ (by simp [Meaning.nodes])).mono (by grind))
  | name hk hname => exact .operand (isSpelledIn_of_readName hk hname)
  | @call t left parent name arguments ts hk hpath _ _ ih =>
      refine .operand fun k hk' => ?_
      rcases Node.mem_walk_call.1 hk' with rfl | ⟨argument, hargument, hk'⟩
      · exact ⟨t, by simp, hk, (splitPath_eq_ok.1 hpath).path⟩
      · exact (ih.nodes argument hargument).mono (by grind) k hk'
  | list hleft _ => exact .operand (.leaf (by simp) rfl hleft)
  | noArguments _ => exact ⟨by simp [Meaning.nodes], by simp [Meaning.operators]⟩
  | @arguments node nodes ts rest _ _ ihnode ihmore =>
      have hnode : (Meaning.expression node).IsSpelledIn (ts ++ rest) := ihnode.mono (by grind)
      have hmore : (Meaning.moreArguments nodes).IsSpelledIn (ts ++ rest) := ihmore.mono (by grind)
      refine ⟨List.forall_mem_cons.2 ⟨?_, hmore.nodes⟩, by simp [Meaning.operators]⟩
      exact hnode.nodes _ (by simp [Meaning.nodes])
  | lastArgument _ => exact ⟨by simp [Meaning.nodes], by simp [Meaning.operators]⟩
  | @nextArgument node nodes comma ts rest _ _ _ ihnode ihmore =>
      have hnode : (Meaning.expression node).IsSpelledIn (comma :: (ts ++ rest)) :=
        ihnode.mono (by grind)
      have hmore : (Meaning.moreArguments nodes).IsSpelledIn (comma :: (ts ++ rest)) :=
        ihmore.mono (by grind)
      refine ⟨List.forall_mem_cons.2 ⟨?_, hmore.nodes⟩, by simp [Meaning.operators]⟩
      exact hnode.nodes _ (by simp [Meaning.nodes])

end Grammar

/-! ## Well-formed trees -/

/-- Every node of a tree that can be written down can be written down. -/
theorem Readable.of_mem_walk {n m : Node} (h : Readable n) (hm : m ∈ n.walk) : Readable m := by
  induction h with
  | literal hvalue =>
      obtain rfl := Node.mem_walk_literal.1 hm
      exact .literal hvalue
  | list hitems =>
      obtain rfl := Node.mem_walk_list.1 hm
      exact .list hitems
  | name hname htrue hfalse =>
      obtain rfl := Node.mem_walk_name.1 hm
      exact .name hname htrue hfalse
  | member hname =>
      obtain rfl := Node.mem_walk_member.1 hm
      exact .member hname
  | call hname harguments ih =>
      rcases Node.mem_walk_call.1 hm with rfl | ⟨argument, hargument, hm⟩
      · exact .call hname harguments
      · exact ih argument hargument hm
  | binary hleft hright ihl ihr =>
      rcases Node.mem_walk_binary.1 hm with rfl | hm | hm
      · exact .binary hleft hright
      · exact ihl hm
      · exact ihr hm
  | conditional hcondition hno htruthy hfalsy ihc iht ihf =>
      rcases Node.mem_walk_conditional.1 hm with rfl | hm | hm | hm
      · exact .conditional hcondition hno htruthy hfalsy
      · exact ihc hm
      · exact iht hm
      · exact ihf hm

/-- What holds of a tree that was read from the given tokens: a literal has the kind that a token
says and a value of the type of this kind; an operator is the one that a token is listed with; names
are neither empty nor dotted, and variables are no truth values; and no conditional stands in the
condition of another one. -/
structure Node.IsWellFormed (ts : List Token) (tree : Node) : Prop where
  literal : ∀ value, .literal value ∈ tree.walk →
    value.toValue.type = value.kind.type ∧ ∃ t ∈ ts, t.literalKind? = some value.kind
  operator : ∀ op left right, .binary op left right ∈ tree.walk →
    ∃ t ∈ ts, t.kind = .operator ∧ t.value = op.symbol ∧ Operator.ofSymbol? t.value = some op
  name : ∀ name, .name name ∈ tree.walk →
    IsPlainName name ∧ Text.lower name ≠ "true" ∧ Text.lower name ≠ "false"
  member : ∀ parent name, .member parent name ∈ tree.walk → IsPlainName parent ∧ IsPlainName name
  call : ∀ parent name arguments, .call parent name arguments ∈ tree.walk →
    (∀ p ∈ parent, IsPlainName p) ∧ IsPlainName name
  condition : ∀ condition truthy falsy, .conditional condition truthy falsy ∈ tree.walk →
    ∀ n ∈ condition.walk, n.isA .conditional = false

theorem Node.isA_conditional_of_saysElse {n : Node} (h : n.saysElse = false) :
    n.isA .conditional = false := by
  cases n with
  | conditional condition truthy falsy => cases h
  | literal | list | name | member | call | binary => rfl

/-- A tree that is spelled with the tokens it can be written down with is well formed. -/
theorem Readable.isWellFormed {ts : List Token} {tree : Node} (h : Readable tree)
    (hspelled : tree.IsSpelledIn ts) : tree.IsWellFormed ts where
  literal value hm := ⟨value.type_toValue, hspelled _ hm⟩
  operator op left right hm := by
    obtain ⟨t, ht, hop⟩ := hspelled _ hm
    obtain ⟨hk, hvalue⟩ := Grammar.operator?_eq_some_iff.1 hop
    exact ⟨t, ht, hk, hvalue, by rw [hvalue, Operator.ofSymbol?_symbol]⟩
  name name hm := by
    cases h.of_mem_walk hm with
    | name hname htrue hfalse => exact ⟨hname.plain, htrue, hfalse⟩
  member parent name hm := by
    cases h.of_mem_walk hm with
    | member hname => exact ⟨hname.plain_parent parent rfl, hname.plain⟩
  call parent name arguments hm := by
    cases h.of_mem_walk hm with
    | call hname _ => exact ⟨hname.plain_parent, hname.plain⟩
  condition condition truthy falsy hm n hn := by
    cases h.of_mem_walk hm with
    | conditional _ hno _ _ => exact Node.isA_conditional_of_saysElse (hno n hn)

/-- Whatever is read from a text is well formed. -/
theorem isWellFormed_of_parseTokens {strict : Bool} {text : String} {ts : List Token} {tree : Node}
    (hlex : tokenize strict text = .ok ts) (hparse : parseTokens ts = .ok tree) :
    tree.IsWellFormed ts := by
  have hderives := Grammar.derives_of_parseTokens hparse
  have hmem : tree ∈ (Grammar.Meaning.expression tree).nodes := List.mem_singleton_self tree
  have hreadable := hderives.readable (isLexed_of_tokenize hlex) tree hmem
  exact hreadable.isWellFormed (hderives.spelled.nodes tree hmem)

/-- The tokens of `f(a.b) + 1 if x else 'u'`. -/
def mixedTokens : List Token :=
  [⟨.name, "f", 0, "f"⟩, ⟨.leftParen, "(", 1, "("⟩, ⟨.name, "a.b", 2, "a.b"⟩,
    ⟨.rightParen, ")", 3, ")"⟩, ⟨.operator, "+", 4, "+"⟩, ⟨.number, "1", 5, "1"⟩,
    ⟨.name, "if", 6, "if"⟩, ⟨.name, "x", 7, "x"⟩, ⟨.name, "else", 8, "else"⟩,
    ⟨.string, "u", 9, "'u'"⟩]

/-- The tree of `f(a.b) + 1 if x else 'u'`. -/
def mixedTree : Node :=
  .conditional (.name "x") (.binary .plus (.call none "f" [.member "a" "b"]) (.literal (.int 1)))
    (.literal (.string "u"))

theorem isWellFormed_mixedTree : mixedTree.IsWellFormed mixedTokens := by
  have hlex : tokenize true "f(a.b) + 1 if x else 'u'" = .ok mixedTokens := by rfl
  have hparse : parseTokens mixedTokens = .ok mixedTree := by cbv
  exact isWellFormed_of_parseTokens hlex hparse

end Formula
