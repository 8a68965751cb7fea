import Formula.Proofs.Source.Shape

set_option autoImplicit false

/-! # The source of literals and lists

A literal is written as a string in quotes, as a name, or as digits, perhaps with a point among them
and a minus sign before them; read again it is the same literal. A list is written as its items, all
of which are of one kind, and so read one after the other.

Main statements: `Scalar.lexes`, `Scalar.stands`, `Items.lexes` and `Items.stands`. -/

namespace Formula

open Number (Binary64 Magnitude)

/-! ## Finite values -/

/-- Whether a value is a number of units. -/
def Number.Binary64.IsFinite (x : Binary64) : Prop := ∃ negative size, x = .finite negative size

/-- The floating-point values among a literal. -/
def Scalar.IsFinite : Scalar → Prop
  | .double x => x.IsFinite
  | _ => True

/-- A text that begins with something other than a blank. -/
def IsSolid (text : List Char) : Prop := ∃ c cs, text = c :: cs ∧ Text.isBlank c = false

theorem IsSolid.append {text : List Char} (h : IsSolid text) (rest : List Char) :
    IsSolid (text ++ rest) := by
  obtain ⟨c, cs, rfl, hc⟩ := h
  exact ⟨c, cs ++ rest, rfl, hc⟩

theorem IsSolid.begins {text : List Char} (h : IsSolid text) : BeginsSolid text := by
  obtain ⟨c, cs, rfl, hc⟩ := h
  intro d hd
  obtain rfl : c = d := by simpa using hd
  exact hc

/-! ## Numbers -/

/-- The shapes of a number with or without a minus sign. -/
def numberShapes (negative : Bool) (text : List Char) : List Shape :=
  (if negative then [(.operator, "-")] else []) ++ [(.number, String.ofList text)]

/-- A literal is written as a number of some text, and read from it. -/
structure IsNumberText (value : Scalar) (negative : Bool) (text : List Char) : Prop where
  source : value.source.toList = (if negative then ['-'] else []) ++ text
  reads : readNumber negative text = .ok value
  lexes : ∀ rest, StopsNumber rest → Lexes text [(.number, String.ofList text)] rest
  begins : ∃ c cs, text = c :: cs ∧ c.isDigit = true

theorem isNumberText_int {n : Int} (h : (Scalar.int n).IsReadable) :
    IsNumberText (.int n) (decide (n < 0)) (Nat.toDigits 10 n.natAbs) := by
  have hdigits : ∀ c ∈ Nat.toDigits 10 n.natAbs, c.isDigit = true :=
    fun c => Number.isDigit_of_mem_toDigits
  have hpoint : '.' ∉ Nat.toDigits 10 n.natAbs := fun hmem => absurd (hdigits _ hmem) (by decide)
  have hshort : ¬ Text.digitLimit < (Nat.toDigits 10 n.natAbs).length := Nat.not_lt.2 h
  have hne : Nat.toDigits 10 n.natAbs ≠ [] := Nat.toDigits_ne_nil
  refine ⟨?_, ?_, ?_, ?_⟩
  · have hsource : (Scalar.int n).source = n.repr := rfl
    rw [hsource, Int.repr_eq_if]
    by_cases hn : n < 0
    · have habs : (-n).toNat = n.natAbs := by omega
      rw [if_neg (by omega), habs]
      simp [hn]
    · have habs : n.toNat = n.natAbs := by omega
      rw [if_pos (by omega), habs]
      simp [hn]
  · rw [readNumber, if_neg hpoint, if_neg hshort, Number.readDigits_toDigits]
    by_cases hn : n < 0
    · have habs : -(n.natAbs : Int) = n := by omega
      simp only [decide_eq_true hn, ↓reduceIte, habs]
    · have habs : (n.natAbs : Int) = n := by omega
      simp only [decide_eq_false hn, Bool.false_eq_true, ↓reduceIte, habs]
  · exact fun rest hrest => .digits hne hdigits hrest
  · obtain ⟨c, cs, hcs⟩ := List.exists_cons_of_ne_nil hne
    exact ⟨c, cs, hcs, hdigits c (by simp [hcs])⟩

theorem isNumberText_double (negative : Bool) (size : Magnitude) :
    IsNumberText (.double (.finite negative size)) negative (size.text true).toList := by
  obtain ⟨whole, fraction, htext, hne, hdigits, hread⟩ := size.text_wide
  have hwhole : ∀ c ∈ whole, c ≠ '.' := by
    rintro c hc rfl
    exact absurd (hdigits _ (List.mem_append_left _ hc)) (by decide)
  rw [htext]
  refine ⟨?_, ?_, ?_, ?_⟩
  · have hsource : (Scalar.double (.finite negative size)).source =
        (if negative then "-" else "") ++ size.text true := rfl
    rw [hsource, String.toList_append, htext]
    cases negative <;> rfl
  · have htake : (whole ++ '.' :: fraction).takeWhile (· ≠ '.') = whole := by
      rw [List.takeWhile_append_of_pos (by simpa using hwhole)]
      simp
    have hdrop : (whole ++ '.' :: fraction).dropWhile (· ≠ '.') = '.' :: fraction := by
      rw [List.dropWhile_append_of_pos (by simpa using hwhole)]
      simp
    rw [readNumber, if_pos (by simp)]
    simp only [htake, hdrop, List.drop_succ_cons, List.drop_zero]
    rw [hread]
  · exact fun rest hrest => .decimal hne hdigits hrest
  · obtain ⟨c, cs, rfl⟩ := List.exists_cons_of_ne_nil hne
    exact ⟨c, cs ++ '.' :: fraction, rfl, hdigits c (by simp)⟩

namespace IsNumberText

variable {value : Scalar} {negative : Bool} {text : List Char}

theorem lexesSource (h : IsNumberText value negative text) {rest : List Char}
    (hrest : StopsNumber rest) :
    Lexes value.source.toList (numberShapes negative text) rest := by
  rw [h.source, numberShapes]
  cases negative with
  | false => exact h.lexes rest hrest
  | true => exact Lexes.minus.append (h.lexes rest hrest)

theorem isSolid (h : IsNumberText value negative text) : IsSolid value.source.toList := by
  obtain ⟨d, ds, htext, hd⟩ := h.begins
  rw [h.source, htext]
  cases negative with
  | false =>
      have hword : Text.isWordChar d = true := (digits_checked d (mem_usualDigits hd)).2.1
      exact ⟨d, ds, rfl, not_isBlank_of_isWordChar hword⟩
  | true => exact ⟨'-', d :: ds, rfl, by decide⟩

theorem stands (h : IsNumberText value negative text) :
    Grammar.Stands (.operand (.literal value)) (numberShapes negative text) := by
  have hread : readNumber negative (String.ofList text).toList = .ok value := by
    rw [String.toList_ofList, h.reads]
  cases negative with
  | false => exact .number hread
  | true => exact .negative hread

theorem not_isElse : ∀ shape ∈ numberShapes negative text, ¬ Grammar.IsElse shape := by
  cases negative <;> simp [numberShapes, Grammar.IsElse]

end IsNumberText

/-! ## Literals -/

namespace Scalar

/-- The shapes that a literal is written as. -/
def shapes : Scalar → List Shape
  | bool b => [(.name, if b then "True" else "False")]
  | int n => numberShapes (decide (n < 0)) (Nat.toDigits 10 n.natAbs)
  | double (.finite negative size) => numberShapes negative (size.text true).toList
  | double _ => []
  | string s => [(.string, s)]

theorem isNameText_truthValue (b : Bool) :
    IsNameText (if b then "True" else "False").toList := by
  cases b with
  | false => exact ⟨'F', ['a', 'l', 's', 'e'], by decide +kernel⟩
  | true => exact ⟨'T', ['r', 'u', 'e'], by decide +kernel⟩

theorem lexes {value : Scalar} (h : value.IsReadable) (hfinite : value.IsFinite)
    {rest : List Char} (hrest : Follows False rest) :
    Lexes value.source.toList value.shapes rest := by
  match value with
  | bool b =>
      have hnot : Text.lowerChars (if b then "True" else "False").toList ≠ ['n', 'o', 't'] := by
        cases b <;> decide +kernel
      have hlexes := Lexes.name (isNameText_truthValue b) (hrest.mono fun heq => hnot heq)
      rwa [String.ofList_toList] at hlexes
  | int n => exact (isNumberText_int h).lexesSource hrest.stopsNumber
  | double x =>
      obtain ⟨negative, size, rfl⟩ := hfinite
      exact (isNumberText_double negative size).lexesSource hrest.stopsNumber
  | string s => exact Lexes.quoteString h

theorem stands {value : Scalar} (h : value.IsReadable) (hfinite : value.IsFinite) :
    Grammar.Stands (.operand (.literal value)) value.shapes := by
  match value with
  | bool b => exact .truthValue (by cases b <;> decide +kernel)
  | int n => exact (isNumberText_int h).stands
  | double x =>
      obtain ⟨negative, size, rfl⟩ := hfinite
      exact (isNumberText_double negative size).stands
  | string s => exact .string s

theorem not_isElse {value : Scalar} : ∀ shape ∈ value.shapes, ¬ Grammar.IsElse shape := by
  match value with
  | bool b =>
      have hnot : Text.lower (if b then "True" else "False") ≠ "else" := by
        cases b <;> decide +kernel
      simpa [shapes, Grammar.IsElse] using hnot
  | int n => exact IsNumberText.not_isElse
  | double (.finite negative size) => exact IsNumberText.not_isElse
  | double (.infinite _) | double .nan => simp [shapes]
  | string s => simp [shapes, Grammar.IsElse]

theorem isSolid {value : Scalar} (h : value.IsReadable) (hfinite : value.IsFinite) :
    IsSolid value.source.toList := by
  match value with
  | bool b =>
      cases b with
      | false => exact ⟨'F', ['a', 'l', 's', 'e'], rfl, by decide⟩
      | true => exact ⟨'T', ['r', 'u', 'e'], rfl, by decide⟩
  | int n => exact (isNumberText_int h).isSolid
  | double x =>
      obtain ⟨negative, size, rfl⟩ := hfinite
      exact (isNumberText_double negative size).isSolid
  | string s =>
      have hsource : (string s).source = quoteString s := rfl
      rw [hsource, quoteString]
      split
      · exact ⟨'"', s.toList ++ ['"'], by simp, by decide⟩
      · exact ⟨'\'', s.toList ++ ['\''], by simp, by decide⟩

end Scalar

/-! ## Rows -/

/-- What stands between the first of some texts and a closing bracket. -/
def moreTexts (texts : List String) : List Char := texts.flatMap fun s => ',' :: ' ' :: s.toList

/-- The shapes between the first of some rows of shapes and a closing bracket. -/
def moreShapes (rows : List (List Shape)) : List Shape := rows.flatMap fun ls => (.comma, ",") :: ls

theorem toList_commaSeparated (s : String) (texts : List String) :
    (commaSeparated (s :: texts)).toList = s.toList ++ moreTexts texts := by
  induction texts generalizing s with
  | nil => simp [commaSeparated, moreTexts]
  | cons t texts ih =>
      have htail : (commaSeparated (t :: texts)).toList = t.toList ++ moreTexts texts := ih t
      rw [commaSeparated] at htail ⊢
      rw [String.intercalate_cons_cons, String.toList_append, String.toList_append, htail]
      simp [moreTexts]

/-- A bracket or a comma may stand behind any operand. -/
theorem follows_closer {isNot : Prop} {c : Char} {rest : List Char} (h : c ∈ closers) :
    Follows isNot (c :: rest) := by
  refine .inl fun d hd => ?_
  obtain rfl : c = d := by simpa using hd
  exact h

/-- A text that is cut into the given shapes wherever an operand ends. -/
structure IsWrittenAs (isNot : Prop) (text : String) (ls : List Shape) : Prop where
  solid : IsSolid text.toList
  lexes : ∀ rest, Follows isNot rest → Lexes text.toList ls rest

theorem IsWrittenAs.mono {isNot isNot' : Prop} {text : String} {ls : List Shape}
    (h : IsWrittenAs isNot text ls) (himp : isNot → isNot') : IsWrittenAs isNot' text ls where
  solid := h.solid
  lexes rest hrest := h.lexes rest (hrest.mono himp)

section Rows

variable {α : Type} {text : α → String} {row : α → List Shape} {closing : Char} {shape : Shape}

theorem follows_more {isNot : Prop} (texts : List String) (hclosing : closing ∈ closers)
    (rest : List Char) : Follows isNot (moreTexts texts ++ [closing] ++ rest) := by
  cases texts with
  | nil => exact follows_closer hclosing
  | cons s texts => exact follows_closer (by decide : ',' ∈ closers)

/-- The texts behind the first are cut one after the other. -/
theorem lexes_more {as : List α} (h : ∀ a ∈ as, IsWrittenAs True (text a) (row a))
    (hclosing : closing ∈ closers) (hshape : ∀ rest, Lexes [closing] [shape] rest)
    (rest : List Char) :
    Lexes (moreTexts (as.map text) ++ [closing]) (moreShapes (as.map row) ++ [shape]) rest := by
  induction as with
  | nil => exact hshape rest
  | cons a as ih =>
      have hmore := ih fun b hb => h b (List.mem_cons_of_mem _ hb)
      have ha := h a List.mem_cons_self
      have hrow := (ha.lexes _ (follows_more (as.map text) hclosing rest)).append hmore
      have hsolid := ((ha.solid.append (moreTexts (as.map text) ++ [closing])).append rest).begins
      simpa [moreTexts, moreShapes] using (Lexes.separator hsolid).append hrow

/-- Some texts with commas between them and a closing bracket behind them. -/
theorem lexes_row {a : α} {as : List α} (h : ∀ b ∈ a :: as, IsWrittenAs True (text b) (row b))
    (hclosing : closing ∈ closers) (hshape : ∀ rest, Lexes [closing] [shape] rest)
    (rest : List Char) :
    Lexes ((commaSeparated ((a :: as).map text)).toList ++ [closing])
      (row a ++ (moreShapes (as.map row) ++ [shape])) rest := by
  have hmore := lexes_more (fun b hb => h b (List.mem_cons_of_mem _ hb)) hclosing hshape rest
  have hfirst := (h a List.mem_cons_self).lexes _ (follows_more (as.map text) hclosing rest)
  rw [List.map_cons, toList_commaSeparated, List.append_assoc]
  exact hfirst.append hmore

end Rows

theorem Scalar.isWrittenAs {value : Scalar} (h : value.IsReadable) (hfinite : value.IsFinite) :
    IsWrittenAs False value.source value.shapes where
  solid := isSolid h hfinite
  lexes _ hrest := lexes h hfinite hrest

/-! ## Lists -/

namespace Grammar

/-- Tokens of the given shapes are an item of a list. -/
def StandsItem (known : Option Items) (ls : List Shape) (items : Items) : Prop :=
  ∀ ts : List Token, ts.map Token.shape = ls → ReadsItem known ts items

/-- Tokens of the given shapes complete a list, some items of which were read. -/
def StandsRest (items : Items) (ls : List Shape) (all : Items) : Prop :=
  ∀ ts : List Token, ts.map Token.shape = ls → ∀ {known : Option Items} {item : List Token},
    ReadsItem known item items → ReadsRow known (item ++ ts) all

theorem StandsRest.closing (items : Items) : StandsRest items [(.rightBracket, "]")] items := by
  intro ts hts known item hitem
  obtain ⟨right, rfl, hr, _⟩ := exists_of_map_shape_singleton hts
  exact .last hitem hr

theorem StandsRest.next {items more all : Items} {ls ms : List Shape}
    (hitem : StandsItem (some items) ls more) (hrest : StandsRest more ms all) :
    StandsRest items ((.comma, ",") :: (ls ++ ms)) all := by
  intro ts hts known item hbefore
  obtain ⟨comma, rest, rfl, hc, _, hafter⟩ := exists_of_map_shape_cons hts
  obtain ⟨us, vs, rfl, hus, hvs⟩ := List.map_eq_append_iff.1 hafter
  exact .more hbefore hc (hrest vs hvs (hitem us hus))

theorem StandsRest.list {items all : Items} {ls ms : List Shape}
    (hitem : StandsItem none ls items) (hrest : StandsRest items ms all) :
    Stands (.operand (.list all)) ((.leftBracket, "[") :: (ls ++ ms)) := by
  intro ts hts
  obtain ⟨left, rest, rfl, hl, _, hafter⟩ := exists_of_map_shape_cons hts
  obtain ⟨us, vs, rfl, hus, hvs⟩ := List.map_eq_append_iff.1 hafter
  exact .list hl (hrest vs hvs (hitem us hus))

end Grammar

/-- A row of items of one kind is read item by item. -/
theorem standsRest_of_kind {α : Type} {wrap : List α → Items} {scalar : α → Scalar} (as : List α)
    {bs : List α} (hitem : ∀ b ∈ bs, ∀ before,
      Grammar.StandsItem (some (wrap before)) (scalar b).shapes (wrap (before ++ [b]))) :
    Grammar.StandsRest (wrap as)
      (moreShapes (bs.map fun b => (scalar b).shapes) ++ [(.rightBracket, "]")])
      (wrap (as ++ bs)) := by
  induction bs generalizing as with
  | nil => simpa [moreShapes] using Grammar.StandsRest.closing (wrap as)
  | cons b bs ih =>
      have hrest := ih (as ++ [b]) fun c hc => hitem c (List.mem_cons_of_mem _ hc)
      rw [List.append_assoc, List.singleton_append] at hrest
      have hnext := Grammar.StandsRest.next (hitem b List.mem_cons_self as) hrest
      simpa [moreShapes] using hnext

theorem IsNumberText.standsItem {value : Scalar} {negative : Bool} {text : List Char}
    (h : IsNumberText value negative text) {known : Option Items} {items : Items}
    (hadd : ∀ mixed, Items.addNumber mixed known value = .ok items) :
    Grammar.StandsItem known (numberShapes negative text) items := by
  have hread : readNumber negative (String.ofList text).toList = .ok value := by
    rw [String.toList_ofList, h.reads]
  intro ts hts
  cases negative with
  | false =>
      obtain ⟨n, rfl, hk, hv⟩ := Grammar.exists_of_map_shape_singleton hts
      exact .number hk (by rw [hv, hread]) (hadd _)
  | true =>
      obtain ⟨s, rest, rfl, hks, hvs, hrest⟩ := Grammar.exists_of_map_shape_cons hts
      obtain ⟨n, rfl, hk, hv⟩ := Grammar.exists_of_map_shape_singleton hrest
      exact .negative ⟨hks, hvs⟩ hk (by rw [hv, hread]) (hadd _)

theorem standsItem_string {s : String} {known : Option Items} {items : Items}
    (hadd : ∀ mixed, Items.addString mixed known s = .ok items) :
    Grammar.StandsItem known (Scalar.string s).shapes items := by
  intro ts hts
  obtain ⟨t, rfl, hk, hv⟩ := Grammar.exists_of_map_shape_singleton hts
  refine .string hk ?_
  rw [hv]
  exact hadd _

/-- The shapes of some items between square brackets. -/
def listShapes : List (List Shape) → List Shape
  | [] => []
  | ls :: rows => (.leftBracket, "[") :: (ls ++ (moreShapes rows ++ [(.rightBracket, "]")]))

theorem not_isElse_list {rows : List (List Shape)}
    (h : ∀ ls ∈ rows, ∀ shape ∈ ls, ¬ Grammar.IsElse shape) :
    ∀ shape ∈ listShapes rows, ¬ Grammar.IsElse shape := by
  cases rows with
  | nil => simp [listShapes]
  | cons ls rows =>
      simp only [listShapes, moreShapes, List.mem_cons, List.mem_append, List.mem_flatMap,
        List.not_mem_nil, or_false]
      rintro shape (rfl | hmem | ⟨row, hrow, rfl | hmem⟩ | rfl)
      · simp [Grammar.IsElse]
      · exact h ls List.mem_cons_self shape hmem
      · simp [Grammar.IsElse]
      · exact h row (List.mem_cons_of_mem _ hrow) shape hmem
      · simp [Grammar.IsElse]

/-- Some texts in square brackets, whatever follows. -/
theorem lexes_list {α : Type} {text : α → String} {row : α → List Shape} {as : List α} (hne : as ≠ [])
    (h : ∀ a ∈ as, IsWrittenAs True (text a) (row a)) (rest : List Char) :
    Lexes ("[" ++ commaSeparated (as.map text) ++ "]").toList (listShapes (as.map row)) rest := by
  obtain ⟨a, as, rfl⟩ := List.exists_cons_of_ne_nil hne
  have hrow := lexes_row h (by decide) (fun rest => Lexes.rightBracket) rest
  have htext : ("[" ++ commaSeparated ((a :: as).map text) ++ "]").toList =
      ['['] ++ ((commaSeparated ((a :: as).map text)).toList ++ [']']) := by simp
  rw [htext]
  exact Lexes.leftBracket.append hrow

theorem isSolid_list (texts : List String) :
    IsSolid ("[" ++ commaSeparated texts ++ "]").toList := by
  refine ⟨'[', (commaSeparated texts).toList ++ [']'], ?_, by decide⟩
  simp

namespace Items

/-- The shapes that a list is written as. -/
def shapes (items : Items) : List Shape := listShapes (items.toList.map Scalar.shapes)

/-- The floating-point values among the items are finite. -/
def IsFinite (items : Items) : Prop := ∀ value ∈ items.toList, value.IsFinite

/-- Items of one kind, the first of which is read at the beginning of a list and any other behind
some of them, are read as a list. -/
theorem stands_of_kind {α : Type} {wrap : List α → Items} {scalar : α → Scalar}
    (hwrap : ∀ as, (wrap as).toList = as.map scalar) {as : List α} (hne : as ≠ [])
    (hfirst : ∀ a ∈ as, Grammar.StandsItem none (scalar a).shapes (wrap [a]))
    (hitem : ∀ a ∈ as, ∀ before,
      Grammar.StandsItem (some (wrap before)) (scalar a).shapes (wrap (before ++ [a]))) :
    Grammar.Stands (.operand (.list (wrap as))) (wrap as).shapes := by
  obtain ⟨a, as, rfl⟩ := List.exists_cons_of_ne_nil hne
  have hrest := standsRest_of_kind [a] fun b hb => hitem b (List.mem_cons_of_mem _ hb)
  have hlist := Grammar.StandsRest.list (hfirst a List.mem_cons_self) hrest
  rw [shapes, hwrap, List.map_cons, List.map_cons, listShapes]
  simpa [List.map_map, Function.comp_def] using hlist

theorem stands {items : Items} (h : items.IsReadable) (hfinite : items.IsFinite) :
    Grammar.Stands (.operand (.list items)) items.shapes := by
  match items with
  | ints ns =>
      have hne : ns ≠ [] := by simpa [toList] using h.nonempty
      have htext (n : Int) (hn : n ∈ ns) :=
        isNumberText_int (h.all (.int n) (List.mem_map_of_mem hn))
      exact stands_of_kind (fun _ => rfl) hne
        (fun n hn => (htext n hn).standsItem fun _ => rfl)
        fun n hn before => (htext n hn).standsItem fun _ => rfl
  | doubles xs =>
      have hne : xs ≠ [] := by simpa [toList] using h.nonempty
      refine stands_of_kind (fun _ => rfl) hne (fun x hx => ?_) fun x hx before => ?_
      · obtain ⟨negative, size, rfl⟩ := hfinite (.double x) (List.mem_map_of_mem hx)
        exact (isNumberText_double negative size).standsItem fun _ => rfl
      · obtain ⟨negative, size, rfl⟩ := hfinite (.double x) (List.mem_map_of_mem hx)
        exact (isNumberText_double negative size).standsItem fun _ => rfl
  | strings ss =>
      have hne : ss ≠ [] := by simpa [toList] using h.nonempty
      exact stands_of_kind (fun _ => rfl) hne (fun s _ => standsItem_string fun _ => rfl)
        fun s _ before => standsItem_string fun _ => rfl

theorem not_isElse {items : Items} : ∀ shape ∈ items.shapes, ¬ Grammar.IsElse shape := by
  refine not_isElse_list fun row hrow => ?_
  obtain ⟨value, _, rfl⟩ := List.mem_map.1 hrow
  exact Scalar.not_isElse

/-- The source of a list is cut into its items, whatever follows. -/
theorem lexes {items : Items} (h : items.IsReadable) (hfinite : items.IsFinite)
    (rest : List Char) : Lexes (Node.list items).source.toList items.shapes rest := by
  have hall : ∀ v ∈ items.toList, IsWrittenAs True v.source v.shapes := fun v hv =>
    (Scalar.isWrittenAs (h.all v hv) (hfinite v hv)).mono fun h => h.elim
  rw [Node.source]
  exact lexes_list h.nonempty hall rest

end Items

end Formula
