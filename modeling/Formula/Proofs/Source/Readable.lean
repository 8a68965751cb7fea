import Mathlib.Algebra.Group.Nat.Defs
import Formula.Proofs.Grammar.Path
import Formula.Proofs.Lexing.Lexeme
import Formula.Proofs.Tree.Grouping

set_option autoImplicit false

/-! # The trees that are read from texts

A tree that was read has literals, names and lists that can be written down again: integers have few
enough digits, strings can be quoted, lists have items, names are cut off as names and are no truth
values. In the condition of a conditional nothing is named `else`, and no other conditional stands
there, since the condition would have ended before.

Main statement: `Grammar.Derives.readable`. -/

namespace Formula

/-! ## Numbers -/

theorem readDigits_lt (cs : List Char) : Text.readDigits cs < 10 ^ cs.length := by
  have hdigit (zeros : List Nat) (n d : Nat) (h : Text.digitIn zeros n = some d) : d < 10 := by
    induction zeros with
    | nil => cases h
    | cons first zeros ih =>
        rw [Text.digitIn] at h
        split at h
        · cases h
          omega
        · exact ih h
  have hone (c : Char) : (Text.digitValue? c).getD 0 < 10 := by
    cases hvalue : Text.digitValue? c with
    | none => decide
    | some d => exact hdigit _ _ d hvalue
  suffices hfold : ∀ n, cs.foldl (fun n c => n * 10 + (Text.digitValue? c).getD 0) n <
      (n + 1) * 10 ^ cs.length by
    simpa [Text.readDigits] using hfold 0
  induction cs with
  | nil => simp
  | cons c cs ih =>
      intro n
      have hc := hone c
      calc (c :: cs).foldl (fun n c => n * 10 + (Text.digitValue? c).getD 0) n
          < (n * 10 + (Text.digitValue? c).getD 0 + 1) * 10 ^ cs.length := ih _
        _ ≤ (n + 1) * 10 * 10 ^ cs.length := Nat.mul_le_mul_right _ (by omega)
        _ = (n + 1) * 10 ^ (c :: cs).length := by
            rw [List.length_cons, Nat.pow_succ', Nat.mul_assoc]

/-- An integer that was read has no more digits than it was read from. -/
theorem length_toDigits_readDigits {cs : List Char} {limit : Nat} (h : cs.length ≤ limit)
    (hpos : 0 < limit) : (Nat.toDigits 10 (Text.readDigits cs)).length ≤ limit :=
  (Nat.length_toDigits_le_iff (by decide) hpos).2
    (Nat.lt_of_lt_of_le (readDigits_lt cs) (Nat.pow_le_pow_right (by decide) h))

/-! ## Literals -/

/-- Literals that can be written down: integers of few enough digits and strings that can be quoted. -/
def Scalar.IsReadable : Scalar → Prop
  | .bool _ => True
  | .int n => (Nat.toDigits 10 n.natAbs).length ≤ Text.digitLimit
  | .double _ => True
  | .string s => IsQuotable s

theorem isReadable_of_readNumber {negative : Bool} {text : List Char} {x : Scalar}
    (h : readNumber negative text = .ok x) : x.IsReadable := by
  by_cases hpoint : '.' ∈ text
  · simp only [readNumber, hpoint, ↓reduceIte] at h
    cases h
    trivial
  · by_cases hlong : Text.digitLimit < text.length
    · simp [readNumber, hpoint, hlong] at h
    · have hlength := length_toDigits_readDigits (Nat.le_of_not_lt hlong) (by decide)
      simp only [readNumber, hpoint, hlong, ↓reduceIte] at h
      cases h
      cases negative with
      | false => simpa [Scalar.IsReadable] using hlength
      | true => simpa [Scalar.IsReadable] using hlength

/-- The items of a list that can be written down: some, all of them readable. -/
structure Items.IsReadable (items : Items) : Prop where
  nonempty : items.toList ≠ []
  all : ∀ value ∈ items.toList, value.IsReadable

theorem isReadable_of_addNumber {mixed : Unreadable} {known : Option Items} {x : Scalar}
    {items : Items} (h : Items.addNumber mixed known x = .ok items) (hx : x.IsReadable)
    (hknown : ∀ before, known = some before → before.IsReadable) : items.IsReadable := by
  have hdoubles (xs : List Number.Binary64) (y : Number.Binary64) :
      (Items.doubles (xs ++ [y])).IsReadable :=
    { nonempty := by simp [Items.toList]
      all := by
        intro value hvalue
        obtain ⟨z, _, rfl⟩ := List.mem_map.1 hvalue
        trivial }
  unfold Items.addNumber at h
  split at h
  · cases h
  · cases h
    exact hdoubles [] _
  · obtain ⟨xs, _, h⟩ := Grammar.exists_of_bind_eq_ok h
    cases h
    exact hdoubles xs _
  · cases h
    exact hdoubles _ _
  next n =>
    cases h
    exact ⟨by simp [Items.toList], by simpa [Items.toList] using hx⟩
  next ns n =>
    cases h
    have hns := (hknown _ rfl).all
    refine ⟨by simp [Items.toList], ?_⟩
    simp only [Items.toList, List.map_append, List.mem_append]
    rintro value (hvalue | hvalue)
    · exact hns value hvalue
    · obtain rfl : value = .int n := by simpa using hvalue
      exact hx
  next xs n =>
    obtain ⟨y, _, h⟩ := Grammar.exists_of_bind_eq_ok h
    cases h
    exact hdoubles xs y
  · cases h

theorem isReadable_of_addString {mixed : Unreadable} {known : Option Items} {s : String}
    {items : Items} (h : Items.addString mixed known s = .ok items) (hs : IsQuotable s)
    (hknown : ∀ before, known = some before → before.IsReadable) : items.IsReadable := by
  unfold Items.addString at h
  split at h
  · cases h
    exact ⟨by simp [Items.toList], by simpa [Items.toList, Scalar.IsReadable] using hs⟩
  next strings _ =>
    cases h
    have hstrings := (hknown _ rfl).all
    refine ⟨by simp [Items.toList], ?_⟩
    simp only [Items.toList, List.map_append, List.mem_append]
    rintro value (hvalue | hvalue)
    · exact hstrings value hvalue
    · obtain rfl : value = .string _ := by simpa using hvalue
      exact hs
  · cases h

namespace Grammar

theorem ReadsItem.isReadable {known : Option Items} {item : List Token} {items : Items}
    (h : ReadsItem known item items) (hlexed : ∀ t ∈ item, IsLexed t)
    (hknown : ∀ before, known = some before → before.IsReadable) : items.IsReadable := by
  cases h with
  | @string _ t hk hadd =>
      exact isReadable_of_addString hadd ((hlexed t (by simp)).string hk) hknown
  | number _ hx hadd =>
      exact isReadable_of_addNumber hadd (isReadable_of_readNumber hx) hknown
  | negative _ _ hx hadd =>
      exact isReadable_of_addNumber hadd (isReadable_of_readNumber hx) hknown

theorem ReadsRow.isReadable {known : Option Items} {ts : List Token} {all : Items}
    (h : ReadsRow known ts all) (hlexed : ∀ t ∈ ts, IsLexed t)
    (hknown : ∀ before, known = some before → before.IsReadable) : all.IsReadable := by
  induction h with
  | last hitem _ => exact hitem.isReadable (fun t ht => hlexed t (by simp [ht])) hknown
  | trailing hitem _ _ => exact hitem.isReadable (fun t ht => hlexed t (by simp [ht])) hknown
  | more hitem _ _ ih =>
      have hitems := hitem.isReadable (fun t ht => hlexed t (by simp [ht])) hknown
      refine ih (fun t ht => hlexed t (by simp [ht])) fun before hbefore => ?_
      cases hbefore
      exact hitems

end Grammar

/-! ## Trees -/

/-- Whether a node is written with the word `else`. -/
def Node.saysElse : Node → Bool
  | .name n => Text.lower n == "else"
  | .call none n _ => Text.lower n == "else"
  | .conditional _ _ _ => true
  | _ => false

/-- No node of the tree is written with the word `else`. -/
def Node.NoElse (n : Node) : Prop := ∀ m ∈ n.walk, m.saysElse = false

/-- A name that can be written down as it stands. -/
structure IsName (parent : Option String) (name : String) : Prop where
  text : IsNameText (qualify parent name).toList
  parent : ∀ p ∈ parent, '.' ∉ p.toList
  name : '.' ∉ name.toList

/-- Trees that can be written down and read again. -/
inductive Readable : Node → Prop
  | literal {value : Scalar} : value.IsReadable → Readable (.literal value)
  | list {items : Items} : items.IsReadable → Readable (.list items)
  | name {name : String} : IsName none name → Text.lower name ≠ "true" →
      Text.lower name ≠ "false" → Readable (.name name)
  | member {parent name : String} : IsName (some parent) name → Readable (.member parent name)
  | call {parent : Option String} {name : String} {arguments : List Node} : IsName parent name →
      (∀ argument ∈ arguments, Readable argument) → Readable (.call parent name arguments)
  | binary {op : Operator} {left right : Node} : Readable left → Readable right →
      Readable (.binary op left right)
  | conditional {condition truthy falsy : Node} : Readable condition → condition.NoElse →
      Readable truthy → Readable falsy → Readable (.conditional condition truthy falsy)

theorem Chain.readable_toNode {c : Chain} (h : ∀ n ∈ c.operands, Readable n) :
    Readable c.toNode := by
  induction c with
  | operand node => exact h node (by simp [operands])
  | apply op left right ihl ihr =>
      exact .binary (ihl fun n hn => h n (List.mem_append_left _ hn))
        (ihr fun n hn => h n (List.mem_append_right _ hn))

theorem Chain.noElse_toNode {c : Chain} (h : ∀ n ∈ c.operands, n.NoElse) : c.toNode.NoElse := by
  intro m hm
  rcases mem_walk_toNode hm with ⟨link, _, left, right, rfl⟩ | ⟨n, hn, hm⟩
  · simp [Node.saysElse]
  · exact h n hn m hm

/-! ## What is read -/

namespace Grammar

/-- The nodes that a row of tokens stands for. -/
def Meaning.nodes : Meaning → List Node
  | expression node | operand node => [node]
  | chain first links => first :: links.map Prod.snd
  | arguments nodes | moreArguments nodes => nodes

theorem lower_ne_of_isKeyword {t : Token} {keyword : String} (hk : t.kind = .name)
    (h : t.isKeyword keyword = false) : Text.lower t.value ≠ keyword := by
  simpa [Token.isKeyword, hk] using h

/-- What is read where no token is `else` says no `else`. -/
theorem Derives.noElse {m : Meaning} {ts : List Token} (h : Derives m ts)
    (hts : ∀ t ∈ ts, t.isKeyword "else" = false) : ∀ n ∈ m.nodes, n.NoElse := by
  induction h with
  | @chain first links _ _ ih =>
      intro n hn
      obtain rfl : n = (Chain.group first links).toNode := by simpa [Meaning.nodes] using hn
      refine Chain.noElse_toNode ?_
      rw [Chain.operands_group]
      exact ih hts
  | @conditional _ _ _ _ _ _ _ _ e _ _ _ _ he _ _ _ _ =>
      have : e.isKeyword "else" = false := hts e (by simp)
      rw [he] at this
      cases this
  | single _ ih => simpa [Meaning.nodes] using ih hts
  | link _ _ _ ihfirst ihrest =>
      have hfirst := ihfirst fun t ht => hts t (by simp [ht])
      have hrest := ihrest fun t ht => hts t (by simp [ht])
      simp only [Meaning.nodes, List.map_cons, List.forall_mem_cons] at hfirst hrest ⊢
      exact ⟨hfirst.1, hrest⟩
  | string _ | number _ _ | signed _ _ _ => simp [Meaning.nodes, Node.NoElse, Node.saysElse]
  | list _ _ => simp [Meaning.nodes, Node.NoElse, Node.saysElse]
  | brackets _ _ _ ih => exact ih fun t ht => hts t (by simp [ht])
  | @name t node hk hname =>
      have ht : Text.lower t.value ≠ "else" := lower_ne_of_isKeyword hk (hts t (by simp))
      rcases readName_cases hname with ⟨b, rfl⟩ | ⟨parent, name, rfl, _⟩ | ⟨name, rfl, hpath, _⟩
      · simp [Meaning.nodes, Node.NoElse, Node.saysElse]
      · simp [Meaning.nodes, Node.NoElse, Node.saysElse]
      · have hvalue : t.value = name := hpath.path
        rw [hvalue] at ht
        simpa [Meaning.nodes, Node.NoElse, Node.saysElse] using ht
  | @call t left parent name arguments ts hk hpath _ _ ih =>
      have ht : Text.lower t.value ≠ "else" := lower_ne_of_isKeyword hk (hts t (by simp))
      have harguments := ih fun t ht => hts t (by simp [ht])
      have hpath' := splitPath_eq_ok.1 hpath
      intro n hn m hm
      obtain rfl : n = .call parent name arguments := by simpa [Meaning.nodes] using hn
      rcases Node.mem_walk_call.1 hm with rfl | ⟨argument, hargument, hm⟩
      · cases parent with
        | some parent => simp [Node.saysElse]
        | none =>
            have hvalue : t.value = name := hpath'.path
            rw [hvalue] at ht
            simpa [Node.saysElse] using ht
      · exact harguments argument hargument m hm
  | noArguments _ | lastArgument _ => simp [Meaning.nodes]
  | arguments _ _ ihnode ihmore | nextArgument _ _ _ ihnode ihmore =>
      have hnode := ihnode fun t ht => hts t (by simp [ht])
      have hmore := ihmore fun t ht => hts t (by simp [ht])
      simp only [Meaning.nodes, List.forall_mem_cons] at hnode hmore ⊢
      exact ⟨hnode.1, hmore⟩

theorem isName_of_path {t : Token} {parent : Option String} {name : String} (ht : IsLexed t)
    (hk : t.kind = .name) (h : IsPathOf parent name t.value) : IsName parent name where
  text := by
    rw [← h.path]
    exact ht.name hk
  parent := h.parent
  name := h.name

/-- What is read from the tokens of a text can be written down again. -/
theorem Derives.readable {m : Meaning} {ts : List Token} (h : Derives m ts)
    (hts : ∀ t ∈ ts, IsLexed t) : ∀ n ∈ m.nodes, Readable n := by
  have grouped {first : Node} {links : List (Operator × Node)}
      (h : ∀ n ∈ first :: links.map Prod.snd, Readable n) :
      Readable (Chain.group first links).toNode := by
    refine Chain.readable_toNode ?_
    rwa [Chain.operands_group]
  induction h with
  | chain _ ih => simpa [Meaning.nodes] using grouped (ih hts)
  | conditional _ _ hcondition hrange _ _ ihchain ihcondition ihfalsy =>
      have hchain := grouped (ihchain fun t ht => hts t (by simp [ht]))
      have hfalsy := ihfalsy fun t ht => hts t (by simp [ht])
      have hread := ihcondition fun t ht => hts t (by simp [ht])
      have hno := hcondition.noElse hrange
      simp only [Meaning.nodes, List.mem_singleton, forall_eq] at hfalsy hread hno ⊢
      exact .conditional hread hno hchain hfalsy
  | single _ ih => simpa [Meaning.nodes] using ih hts
  | link _ _ _ ihfirst ihrest =>
      have hfirst := ihfirst fun t ht => hts t (by simp [ht])
      have hrest := ihrest fun t ht => hts t (by simp [ht])
      simp only [Meaning.nodes, List.map_cons, List.forall_mem_cons] at hfirst hrest ⊢
      exact ⟨hfirst.1, hrest⟩
  | @string t hk =>
      have hquotable : (Scalar.string t.value).IsReadable := (hts t (by simp)).string hk
      simpa [Meaning.nodes] using Readable.literal hquotable
  | number _ hx => simpa [Meaning.nodes] using Readable.literal (isReadable_of_readNumber hx)
  | signed _ _ hx => simpa [Meaning.nodes] using Readable.literal (isReadable_of_readNumber hx)
  | brackets _ _ _ ih => exact ih fun t ht => hts t (by simp [ht])
  | @name t node hk hname =>
      have ht : IsLexed t := hts t (by simp)
      simp only [Meaning.nodes, List.mem_singleton, forall_eq]
      rcases readName_cases hname with ⟨b, rfl⟩ | ⟨parent, name, rfl, hpath⟩ |
        ⟨name, rfl, hpath, htrue, hfalse⟩
      · exact .literal trivial
      · exact .member (isName_of_path ht hk hpath)
      · exact .name (isName_of_path ht hk hpath) htrue hfalse
  | @call t _ _ _ _ _ hk hpath _ _ ih =>
      have harguments := ih fun t ht => hts t (by simp [ht])
      have hname := isName_of_path (hts t (by simp)) hk (splitPath_eq_ok.1 hpath)
      simpa [Meaning.nodes] using Readable.call hname harguments
  | list _ hrow =>
      have hitems := hrow.isReadable (fun t ht => hts t (by simp [ht])) (by simp)
      simpa [Meaning.nodes] using Readable.list hitems
  | noArguments _ | lastArgument _ => simp [Meaning.nodes]
  | arguments _ _ ihnode ihmore | nextArgument _ _ _ ihnode ihmore =>
      have hnode := ihnode fun t ht => hts t (by simp [ht])
      have hmore := ihmore fun t ht => hts t (by simp [ht])
      simp only [Meaning.nodes, List.forall_mem_cons] at hnode hmore ⊢
      exact ⟨hnode.1, hmore⟩

end Grammar

end Formula
