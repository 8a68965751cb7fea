import Mathlib.Data.List.Forall2
import Formula.Evaluation.Operators
import Formula.Proofs.Grammar.Soundness

set_option autoImplicit false

/-! # What the items of a list stand for

A list literal is read item by item. The first double turns the integers before it into doubles, and
those behind it follow; so the kind of the whole list is decided by all of its items, and the value of
an item by the kind of the whole list.

`Gathers` is what holds after each item: the items read so far have been gathered at the kind that
they have together. One more item keeps it (`ReadsItem.gathers`), and so does a row of them
(`ReadsRow.gathers`).

Main statement: `Grammar.denotes_of_readList`. -/

namespace Formula

/-! ## Kinds of literals -/

/-- The kinds of scalar literals. -/
inductive LiteralKind where
  | bool
  | int
  | double
  | string
  deriving DecidableEq, Repr

/-- The type of the values of a kind. -/
def LiteralKind.type : LiteralKind → ValueType
  | bool => .bool
  | int => .int
  | double => .float
  | string => .str

namespace Scalar

/-- The kind of a literal. -/
def kind : Scalar → LiteralKind
  | bool _ => .bool
  | int _ => .int
  | double _ => .double
  | string _ => .string

theorem type_toValue (x : Scalar) : x.toValue.type = x.kind.type := by
  cases x <;> rfl

/-- The literal with the other sign. -/
def neg : Scalar → Scalar
  | int n => int (-n)
  | double x => double x.neg
  | x => x

/-- A literal as an item of a list of a kind: an integer among doubles becomes the double nearest to
it. -/
def inListOf : LiteralKind → Scalar → Except Unreadable Scalar
  | .double, int n => (doubleOfInt n).map double
  | _, x => .ok x

end Scalar

namespace Items

/-- The kind of the items of a list. -/
def kind : Items → LiteralKind
  | ints _ => .int
  | doubles _ => .double
  | strings _ => .string

theorem kind_of_mem_toList {items : Items} {x : Scalar} (h : x ∈ items.toList) :
    x.kind = items.kind := by
  cases items with
  | ints ns =>
      obtain ⟨n, _, rfl⟩ := List.mem_map.1 h
      rfl
  | doubles xs =>
      obtain ⟨y, _, rfl⟩ := List.mem_map.1 h
      rfl
  | strings ss =>
      obtain ⟨s, _, rfl⟩ := List.mem_map.1 h
      rfl

theorem type_eq (items : Items) : items.type = items.kind.type := by
  cases items <;> rfl

end Items

/-- The kind of the literals that a token can spell. -/
def Token.literalKind? (t : Token) : Option LiteralKind :=
  match t.kind with
  | .string => some .string
  | .number => some (if '.' ∈ t.value.toList then .double else .int)
  | .name => if t.isKeyword "true" || t.isKeyword "false" then some .bool else none
  | _ => none

namespace Token

variable {t : Token}

theorem literalKind?_eq_string : t.literalKind? = some .string ↔ t.kind = .string := by
  unfold literalKind?
  split <;> simp_all
  split <;> simp

theorem literalKind?_eq_int :
    t.literalKind? = some .int ↔ t.kind = .number ∧ '.' ∉ t.value.toList := by
  unfold literalKind?
  split <;> simp_all

theorem literalKind?_eq_double :
    t.literalKind? = some .double ↔ t.kind = .number ∧ '.' ∈ t.value.toList := by
  unfold literalKind?
  split <;> simp_all

end Token

theorem kind_of_readNumber {t : Token} {negative : Bool} {x : Scalar} (hk : t.kind = .number)
    (h : readNumber negative t.value.toList = .ok x) : t.literalKind? = some x.kind := by
  simp only [Token.literalKind?, hk]
  by_cases hpoint : '.' ∈ t.value.toList
  · simp only [readNumber, hpoint, ↓reduceIte] at h ⊢
    cases h
    rfl
  · by_cases hlong : Text.digitLimit < t.value.toList.length
    · simp [readNumber, hpoint, hlong] at h
    · simp only [readNumber, hpoint, hlong, ↓reduceIte] at h ⊢
      cases h
      rfl

/-! ## Signs -/

theorem Number.Binary64.ofDecimal_true (digits places : Nat) :
    ofDecimal true digits places = (ofDecimal false digits places).neg := by
  unfold ofDecimal ofUnits
  cases Magnitude.round? (digits * unitsPerOne) (powerOfTen places) <;> rfl

/-- A number behind a minus sign is the number with the other sign. -/
theorem readNumber_true (text : List Char) :
    readNumber true text = (readNumber false text).map Scalar.neg := by
  by_cases hpoint : '.' ∈ text
  · simp [readNumber, hpoint, Number.Binary64.ofDecimal_true, Except.map, Scalar.neg]
  · by_cases hlong : Text.digitLimit < text.length
    · simp [readNumber, hpoint, hlong, Except.map]
    · simp [readNumber, hpoint, hlong, Except.map, Scalar.neg]

/-! ## One more item -/

/-- The kind of a list after one more item of a kind: an integer and a double make doubles. -/
def LiteralKind.join : Option LiteralKind → LiteralKind → LiteralKind
  | none, kind => kind
  | some .int, .double => .double
  | some kind, _ => kind

/-- A literal stands in a list of a kind as another one, which is what it becomes there. -/
def Scalar.StandsAs (kind : LiteralKind) (x y : Scalar) : Prop := x.inListOf kind = .ok y

/-- The items read so far. -/
def Collected.toList (known : Option Items) : List Scalar := known.elim [] Items.toList

/-- What adding an item does: the kind of the list and that of the item are joined, and all items
stand in the new list at the joint kind. A string is not added to numbers, nor a number to strings. -/
structure IsAdded (known : Option Items) (x : Scalar) (items : Items) : Prop where
  kind : items.kind = .join (known.map Items.kind) x.kind
  alike : ∀ before, known = some before → (before.kind = .string ↔ x.kind = .string)
  values : List.Forall₂ (Scalar.StandsAs items.kind) (Collected.toList known ++ [x]) items.toList

section Rows

variable {α : Type} {kind : LiteralKind} {wrap : α → Scalar}

/-- Items of the kind of the list stand in it as they are. -/
theorem standAs_self (kind : LiteralKind) (wrap : α → Scalar)
    (h : ∀ a, (wrap a).StandsAs kind (wrap a)) (as : List α) :
    List.Forall₂ (Scalar.StandsAs kind) (as.map wrap) (as.map wrap) := by
  rw [List.forall₂_map_left_iff, List.forall₂_map_right_iff]
  exact List.forall₂_same.2 fun a _ => h a

/-- One more item stands behind the others. -/
theorem standAs_snoc {xs : List Scalar} {x : Scalar} {as : List α} {a : α}
    (h : List.Forall₂ (Scalar.StandsAs kind) xs (as.map wrap)) (hx : x.StandsAs kind (wrap a)) :
    List.Forall₂ (Scalar.StandsAs kind) (xs ++ [x]) ((as ++ [a]).map wrap) := by
  rw [List.map_append]
  exact List.rel_append h (.cons hx .nil)

end Rows

theorem forall₂_of_mapM_eq_ok {ε α β : Type} {f : α → Except ε β} {as : List α} {bs : List β}
    (h : as.mapM f = .ok bs) : List.Forall₂ (fun a b => f a = .ok b) as bs := by
  induction as generalizing bs with
  | nil =>
      cases h
      exact .nil
  | cons a as ih =>
      rw [List.mapM_cons] at h
      obtain ⟨b, hb, h⟩ := Grammar.exists_of_bind_eq_ok h
      obtain ⟨rest, hrest, h⟩ := Grammar.exists_of_bind_eq_ok h
      cases h
      exact .cons hb (ih hrest)

theorem standsAs_double {n : Int} {x : Number.Binary64} (h : doubleOfInt n = .ok x) :
    (Scalar.int n).StandsAs .double (.double x) := by
  rw [Scalar.StandsAs, Scalar.inListOf, h]
  rfl

/-- The integers before the first double become doubles. -/
theorem standAs_doubles {ns : List Int} {xs : List Number.Binary64}
    (h : ns.mapM doubleOfInt = .ok xs) :
    List.Forall₂ (Scalar.StandsAs .double) (ns.map Scalar.int) (xs.map Scalar.double) := by
  rw [List.forall₂_map_left_iff, List.forall₂_map_right_iff]
  exact (forall₂_of_mapM_eq_ok h).imp fun _ _ => standsAs_double

theorem isAdded_of_addNumber {mixed : Unreadable} {known : Option Items} {x : Scalar}
    {items : Items} (h : Items.addNumber mixed known x = .ok items) : IsAdded known x items := by
  unfold Items.addNumber at h
  split at h
  · cases h
  · cases h
    exact ⟨rfl, by simp, .cons rfl .nil⟩
  next ns x =>
    obtain ⟨xs, hxs, h⟩ := Grammar.exists_of_bind_eq_ok h
    cases h
    exact ⟨rfl, by simp [Items.kind, Scalar.kind], standAs_snoc (standAs_doubles hxs) rfl⟩
  next xs x =>
    cases h
    have hbefore := standAs_self .double Scalar.double (fun _ => rfl) xs
    exact ⟨rfl, by simp [Items.kind, Scalar.kind], standAs_snoc hbefore rfl⟩
  · cases h
    exact ⟨rfl, by simp, .cons rfl .nil⟩
  next ns n =>
    cases h
    have hbefore := standAs_self .int Scalar.int (fun _ => rfl) ns
    exact ⟨rfl, by simp [Items.kind, Scalar.kind], standAs_snoc hbefore rfl⟩
  next xs n =>
    obtain ⟨x, hx, h⟩ := Grammar.exists_of_bind_eq_ok h
    cases h
    have hbefore := standAs_self .double Scalar.double (fun _ => rfl) xs
    exact ⟨rfl, by simp [Items.kind, Scalar.kind], standAs_snoc hbefore (standsAs_double hx)⟩
  · cases h

theorem isAdded_of_addString {mixed : Unreadable} {known : Option Items} {s : String}
    {items : Items} (h : Items.addString mixed known s = .ok items) :
    IsAdded known (.string s) items := by
  match known with
  | none =>
      cases h
      exact ⟨rfl, by simp, .cons rfl .nil⟩
  | some (.strings ss) =>
      cases h
      have hbefore := standAs_self .string Scalar.string (fun _ => rfl) ss
      exact ⟨rfl, by simp [Items.kind, Scalar.kind], standAs_snoc hbefore rfl⟩
  | some (.ints _) | some (.doubles _) => cases h

/-- What stands in the list as it has been read stands there in the same way when the list goes on,
if doubles are not given up. -/
theorem Scalar.StandsAs.trans {kind kind' : LiteralKind} {x y z : Scalar} (h : x.StandsAs kind y)
    (h' : y.StandsAs kind' z) (hdouble : kind = .double → kind' = .double) :
    x.StandsAs kind' z := by
  have hkept : x = y ∨ kind = .double ∧ ∃ d, y = .double d := by
    unfold StandsAs inListOf at h
    split at h
    next n =>
      generalize doubleOfInt n = converted at h
      cases converted with
      | error e => cases h
      | ok d =>
          cases h
          exact .inr ⟨rfl, d, rfl⟩
    · cases h
      exact .inl rfl
  rcases hkept with rfl | ⟨hk, d, rfl⟩
  · exact h'
  · -- Among doubles a double stays what it is.
    have hk' := hdouble hk
    subst hk hk'
    cases h'
    exact h

namespace Grammar

/-! ## Items as they are written -/

/-- An item of a list as it is written: a string, or a number, perhaps behind a minus sign. -/
inductive Item where
  | string (t : Token)
  | number (n : Token)
  | negative (s n : Token)

namespace Item

/-- The token of the string or of the number. -/
def token : Item → Token
  | string t => t
  | number n => n
  | negative _ n => n

/-- All tokens of an item. -/
def tokens : Item → List Token
  | string t => [t]
  | number n => [n]
  | negative s n => [s, n]

/-- Whether the tokens are what they have to be. -/
def IsWritten : Item → Prop
  | string t => t.kind = .string
  | number n => n.kind = .number
  | negative s n => IsMinus s ∧ n.kind = .number

/-- The literal that an item is by itself: a number behind a minus sign has the other sign. -/
def literal : Item → Except Unreadable Scalar
  | string t => .ok (.string t.value)
  | number n => readNumber false n.value.toList
  | negative _ n => (readNumber false n.value.toList).map Scalar.neg

end Item

/-- The tokens of a list behind its opening bracket: its items, with commas between them and perhaps
one after the last, and the closing bracket. -/
inductive IsRowOf : List Item → List Token → Prop
  | last {i : Item} {right : Token} :
      i.IsWritten → right.kind = .rightBracket → IsRowOf [i] (i.tokens ++ [right])
  | trailing {i : Item} {comma right : Token} :
      i.IsWritten → comma.kind = .comma → right.kind = .rightBracket →
      IsRowOf [i] (i.tokens ++ [comma, right])
  | more {i : Item} {is : List Item} {rest : List Token} {comma : Token} :
      i.IsWritten → comma.kind = .comma → IsRowOf is rest →
      IsRowOf (i :: is) (i.tokens ++ comma :: rest)

/-- The tokens of strings and numbers. -/
def isItemToken (t : Token) : Bool := t.kind == .string || t.kind == .number

theorem Item.filter_tokens {i : Item} (h : i.IsWritten) :
    i.tokens.filter isItemToken = [i.token] := by
  cases i with
  | string t =>
      have ht : isItemToken t = true := by simp [isItemToken, show t.kind = .string from h]
      simp [tokens, token, ht]
  | number n =>
      have hn : isItemToken n = true := by simp [isItemToken, show n.kind = .number from h]
      simp [tokens, token, hn]
  | negative s n =>
      have hs : isItemToken s = false := by simp [isItemToken, h.1.1]
      have hn : isItemToken n = true := by simp [isItemToken, h.2]
      simp [tokens, token, hs, hn]

/-- Every string and every number of a list is an item, and there are no other items. -/
theorem IsRowOf.filter {is : List Item} {ts : List Token} (h : IsRowOf is ts) :
    ts.filter isItemToken = is.map Item.token := by
  have hcomma {t : Token} (ht : t.kind = .comma ∨ t.kind = .rightBracket) :
      isItemToken t = false := by
    rcases ht with ht | ht <;> simp [isItemToken, ht]
  induction h with
  | last hi hr => simp [Item.filter_tokens hi, hcomma (.inr hr)]
  | trailing hi hc hr => simp [Item.filter_tokens hi, hcomma (.inl hc), hcomma (.inr hr)]
  | more hi hc _ ih => simp [Item.filter_tokens hi, hcomma (.inl hc), ih]

/-- An item is read as the literal that it is, and added. -/
theorem ReadsItem.exists_item {known : Option Items} {ts : List Token} {items : Items}
    (h : ReadsItem known ts items) :
    ∃ i : Item, i.tokens = ts ∧ i.IsWritten ∧ ∃ x, i.literal = .ok x ∧
      i.token.literalKind? = some x.kind ∧ IsAdded known x items := by
  cases h with
  | @string _ t hk hadd =>
      exact ⟨.string t, rfl, hk, _, rfl, Token.literalKind?_eq_string.2 hk,
        isAdded_of_addString hadd⟩
  | @number _ n x hk hx hadd =>
      exact ⟨.number n, rfl, hk, x, hx, kind_of_readNumber hk hx, isAdded_of_addNumber hadd⟩
  | @negative _ s n x hs hk hx hadd =>
      have hliteral : (Item.negative s n).literal = .ok x := by
        rw [Item.literal, ← readNumber_true, hx]
      exact ⟨.negative s n, rfl, ⟨hs, hk⟩, x, hliteral, kind_of_readNumber hk hx,
        isAdded_of_addNumber hadd⟩

/-! ## The invariant of reading -/

/-- The kind that items have together: they are strings, or they are numbers without a point, or they
are numbers and some of them has a point. -/
def HaveKind (is : List Item) : LiteralKind → Prop
  | .string => ∀ i ∈ is, i.token.kind = .string
  | .int => (∀ i ∈ is, i.token.kind = .number) ∧ ∀ i ∈ is, '.' ∉ i.token.value.toList
  | .double => (∀ i ∈ is, i.token.kind = .number) ∧ ∃ i ∈ is, '.' ∈ i.token.value.toList
  | .bool => False

/-- What an item gives to a list of a kind. -/
def Item.Gives (kind : LiteralKind) (i : Item) (y : Scalar) : Prop :=
  ∃ x, i.literal = .ok x ∧ x.StandsAs kind y

/-- The items have been read as the items of a list: the list has the kind that they have together,
and each of them has given its value. -/
structure Gathers (is : List Item) (items : Items) : Prop where
  kind : HaveKind is items.kind
  values : List.Forall₂ (Item.Gives items.kind) is items.toList

/-- The items read so far, if any. -/
def GathersKnown (is : List Item) : Option Items → Prop
  | none => is = []
  | some items => Gathers is items

theorem Item.IsWritten.token_kind {i : Item} (h : i.IsWritten) :
    i.token.kind = .string ∨ i.token.kind = .number := by
  cases i with
  | string t => exact .inl h
  | number n => exact .inr h
  | negative s n => exact .inr h.2

theorem Item.IsWritten.literalKind?_ne_bool {i : Item} (h : i.IsWritten) :
    i.token.literalKind? ≠ some .bool := by
  rcases h.token_kind with hk | hk
  · simp [Token.literalKind?_eq_string.2 hk]
  · by_cases hpoint : '.' ∈ i.token.value.toList
    · simp [Token.literalKind?_eq_double.2 ⟨hk, hpoint⟩]
    · simp [Token.literalKind?_eq_int.2 ⟨hk, hpoint⟩]

theorem haveKind_singleton {i : Item} {kind : LiteralKind} (hi : i.IsWritten)
    (h : i.token.literalKind? = some kind) : HaveKind [i] kind := by
  cases kind with
  | bool => exact absurd h hi.literalKind?_ne_bool
  | int => simpa [HaveKind] using Token.literalKind?_eq_int.1 h
  | double => simpa [HaveKind] using Token.literalKind?_eq_double.1 h
  | string => simpa [HaveKind] using Token.literalKind?_eq_string.1 h

/-- The kind of some items and one more is the joint kind. -/
theorem HaveKind.snoc {is : List Item} {i : Item} {kind kind' : LiteralKind} (h : HaveKind is kind)
    (hi : i.IsWritten) (hkind : i.token.literalKind? = some kind')
    (halike : kind = .string ↔ kind' = .string) :
    HaveKind (is ++ [i]) (.join (some kind) kind') := by
  have hlast := haveKind_singleton hi hkind
  have all {P : Item → Prop} (his : ∀ j ∈ is, P j) (hi : ∀ j ∈ [i], P j) :
      ∀ j ∈ is ++ [i], P j :=
    List.forall_mem_append.2 ⟨his, hi⟩
  cases kind with
  | bool => cases h
  | string =>
      obtain rfl := halike.1 rfl
      exact all h hlast
  | int =>
      cases kind' with
      | bool => cases hlast
      | string => simp at halike
      | int => exact ⟨all h.1 hlast.1, all h.2 hlast.2⟩
      | double =>
          obtain ⟨j, hj, hpoint⟩ := hlast.2
          exact ⟨all h.1 hlast.1, j, List.mem_append_right _ hj, hpoint⟩
  | double =>
      have hnumber : ∀ j ∈ [i], j.token.kind = .number := by
        cases kind' with
        | bool => cases hlast
        | string => simp at halike
        | int | double => exact hlast.1
      obtain ⟨hall, j, hj, hpoint⟩ := h
      exact ⟨all hall hnumber, j, List.mem_append_left _ hj, hpoint⟩

/-- Items have only one kind together. -/
theorem HaveKind.unique {is : List Item} {kind kind' : LiteralKind} (hne : is ≠ [])
    (h : HaveKind is kind) (h' : HaveKind is kind') : kind = kind' := by
  obtain ⟨i, hi⟩ := List.exists_mem_of_ne_nil is hne
  have hmixed (hstring : ∀ i ∈ is, i.token.kind = .string)
      (hnumber : ∀ i ∈ is, i.token.kind = .number) : False := by
    have := (hstring i hi).symm.trans (hnumber i hi)
    cases this
  have hpoint (hpoint : ∃ i ∈ is, '.' ∈ i.token.value.toList)
      (hno : ∀ i ∈ is, '.' ∉ i.token.value.toList) : False :=
    have ⟨j, hj, hmem⟩ := hpoint
    hno j hj hmem
  cases kind with
  | bool => cases h
  | string =>
      cases kind' with
      | bool => cases h'
      | string => rfl
      | int | double => exact (hmixed h h'.1).elim
  | int =>
      cases kind' with
      | bool => cases h'
      | string => exact (hmixed h' h.1).elim
      | int => rfl
      | double => exact (hpoint h'.2 h.2).elim
  | double =>
      cases kind' with
      | bool => cases h'
      | string => exact (hmixed h' h.1).elim
      | int => exact (hpoint h.2 h'.2).elim
      | double => rfl

/-- Two relations between rows, one after the other. -/
theorem forall₂_comp {α β γ : Type} {R : α → β → Prop} {S : β → γ → Prop} {T : α → γ → Prop}
    {as : List α} {bs : List β} {cs : List γ} (h : ∀ a b c, R a b → S b c → T a c)
    (hab : List.Forall₂ R as bs) (hbc : List.Forall₂ S bs cs) : List.Forall₂ T as cs := by
  induction hab generalizing cs with
  | nil =>
      cases hbc
      exact .nil
  | cons hr _ ih =>
      cases hbc with
      | cons hs hrest => exact .cons (h _ _ _ hr hs) (ih hrest)

theorem GathersKnown.snoc {is : List Item} {known : Option Items} {i : Item} {x : Scalar}
    {items : Items} (h : GathersKnown is known) (hi : i.IsWritten) (hx : i.literal = .ok x)
    (hkind : i.token.literalKind? = some x.kind) (hadd : IsAdded known x items) :
    Gathers (is ++ [i]) items where
  kind := by
    rw [hadd.kind]
    cases known with
    | none =>
        obtain rfl : is = [] := h
        exact haveKind_singleton hi hkind
    | some before => exact h.kind.snoc hi hkind (hadd.alike before rfl)
  values := by
    -- What stood in the list before stands there at the joint kind, and so does the last item.
    refine forall₂_comp (R := fun i y => ∃ x, i.literal = .ok x ∧
      ∀ z, y.StandsAs items.kind z → x.StandsAs items.kind z)
      (fun i y z ⟨x, hx, hxy⟩ hyz => ⟨x, hx, hxy z hyz⟩) ?_ hadd.values
    refine List.rel_append ?_ (.cons ⟨x, hx, fun _ => id⟩ .nil)
    cases known with
    | none =>
        obtain rfl : is = [] := h
        exact .nil
    | some before =>
        have hdouble : before.kind = .double → items.kind = .double := by
          intro hbefore
          rw [hadd.kind, Option.map_some, hbefore]
          rfl
        exact h.values.imp fun i y ⟨x, hx, hxy⟩ => ⟨x, hx, fun z hyz => hxy.trans hyz hdouble⟩

/-- One more item is gathered with the items before it. -/
theorem ReadsItem.gathers {is : List Item} {known : Option Items} {ts : List Token} {items : Items}
    (h : ReadsItem known ts items) (hknown : GathersKnown is known) :
    ∃ i : Item, i.tokens = ts ∧ i.IsWritten ∧ Gathers (is ++ [i]) items := by
  obtain ⟨i, htokens, hi, x, hx, hkind, hadd⟩ := h.exists_item
  exact ⟨i, htokens, hi, hknown.snoc hi hx hkind hadd⟩

/-- All items up to the closing bracket are gathered with the items before them. -/
theorem ReadsRow.gathers {is : List Item} {known : Option Items} {ts : List Token} {all : Items}
    (h : ReadsRow known ts all) (hknown : GathersKnown is known) :
    ∃ js, IsRowOf js ts ∧ Gathers (is ++ js) all := by
  induction h generalizing is with
  | last hitem hr =>
      obtain ⟨i, rfl, hi, hgathers⟩ := hitem.gathers hknown
      exact ⟨[i], .last hi hr, hgathers⟩
  | trailing hitem hc hr =>
      obtain ⟨i, rfl, hi, hgathers⟩ := hitem.gathers hknown
      exact ⟨[i], .trailing hi hc hr, hgathers⟩
  | more hitem hc _ ih =>
      obtain ⟨i, rfl, hi, hgathers⟩ := hitem.gathers hknown
      obtain ⟨js, hjs, hall⟩ := @ih (is ++ [i]) hgathers
      exact ⟨i :: js, .more hi hc hjs, by simpa using hall⟩

/-! ## What a list denotes -/

/-- A list has a value for each item, in their order, and there is an item. The kind of the list is the
one that its items have together, its values have the type of this kind, and they are the literals
that the items are, integers being converted in a list of doubles. -/
structure Denotes (is : List Item) (items : Items) : Prop where
  nonempty : is ≠ []
  kind : ∀ kind, items.kind = kind ↔ HaveKind is kind
  type : ∀ v ∈ items.values, v.type = items.type
  values : List.Forall₂ (fun i y => ∃ x, i.literal = .ok x ∧ x.inListOf items.kind = .ok y) is
    items.toList

theorem Gathers.denotes {is : List Item} {items : Items} (h : Gathers is items) (hne : is ≠ []) :
    Denotes is items where
  nonempty := hne
  kind kind := ⟨fun hkind => hkind ▸ h.kind, h.kind.unique hne⟩
  type v hv := by
    obtain ⟨x, hx, rfl⟩ := List.mem_map.1 hv
    rw [x.type_toValue, Items.kind_of_mem_toList hx, items.type_eq]
  values := h.values

theorem IsRowOf.ne_nil {is : List Item} {ts : List Token} (h : IsRowOf is ts) : is ≠ [] := by
  cases h <;> simp

/-- What is read as a list denotes the items between its brackets: every string and every number there
is one of them. -/
theorem denotes_of_readList {stop : Nat} {opening : Token} {ts rest : List Token} {node : Node}
    (h : readList stop opening ts = .ok (node, rest)) :
    ∃ is items used, node = .list items ∧ ts = used ++ rest ∧ IsRowOf is used ∧
      is.map Item.token = used.filter isItemToken ∧ Denotes is items := by
  obtain ⟨items, used, hnode, hts, hrow⟩ := readList_sound h
  obtain ⟨is, his, hgathers⟩ := hrow.gathers (show GathersKnown [] none from rfl)
  exact ⟨is, items, used, hnode, hts, his, his.filter.symm, hgathers.denotes his.ne_nil⟩

/-- One half. -/
def oneHalf : Number.Binary64 := .finite false ⟨Number.powerOfTwo 1073, by decide +kernel⟩

/-- Minus one. -/
def minusOne : Number.Binary64 := .finite true ⟨Number.powerOfTwo 1074, by decide +kernel⟩

/-- The tokens of `[-1, 0.5]` behind the opening bracket. -/
def promotedTokens : List Token :=
  [⟨.operator, "-", 1, "-"⟩, ⟨.number, "1", 2, "1"⟩, ⟨.comma, ",", 3, ","⟩,
    ⟨.number, "0.5", 4, "0.5"⟩, ⟨.rightBracket, "]", 5, "]"⟩]

/-- The integer before the double is converted, with its sign. -/
theorem readList_promoted : readList 6 ⟨.leftBracket, "[", 0, "["⟩ promotedTokens =
    .ok (.list (.doubles [minusOne, oneHalf]), []) := by
  have hdouble : doubleOfInt (-1) = .ok minusOne := by
    have hvalue : Number.Binary64.ofInt? (-1) = some minusOne := by decide +kernel
    rw [doubleOfInt, hvalue]
    rfl
  have hhalf : readNumber false "0.5".toList = .ok (.double oneHalf) := by
    have hvalue : Number.Binary64.ofDecimal false 5 1 = oneHalf := by decide +kernel
    rw [← hvalue]
    rfl
  have hone : readNumber true "1".toList = .ok (.int (-1)) := by rfl
  have hfirst : Items.addNumber (mixedAt ⟨.operator, "-", 1, "-"⟩) none (.int (-1)) =
      .ok (.ints [-1]) := rfl
  have hsecond : Items.addNumber (mixedAt ⟨.number, "0.5", 4, "0.5"⟩) (some (.ints [-1]))
      (.double oneHalf) = .ok (.doubles [minusOne, oneHalf]) := by
    rw [Items.addNumber, List.mapM_cons, hdouble]
    rfl
  simp only [readList, promotedTokens, readItems, readSeparator, hone, hhalf, hfirst, hsecond,
    ↓reduceIte, reduceCtorEq, bind, Except.bind]
  rfl

theorem denotes_promoted :
    ∃ is items used, Node.list (.doubles [minusOne, oneHalf]) = .list items ∧
      promotedTokens = used ++ [] ∧ IsRowOf is used ∧
      is.map Item.token = used.filter isItemToken ∧ Denotes is items :=
  denotes_of_readList readList_promoted

end Grammar

end Formula
