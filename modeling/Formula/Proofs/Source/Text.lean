import Formula.Proofs.Source.Display
import Formula.Proofs.Source.RoundTrip
import Formula.Proofs.Source.Weight

set_option autoImplicit false

/-! # The text of a tree is read back

The text of a tree brackets every operation and every conditional beside an operator. It is cut into
shapes that stand for the tree, unless a number is shown with an exponent or as a word, or the name
`not` stands before the operator `in`. Wherever that happens the shapes weigh more than the tree, and
so do not stand for any tree equal to it.

Main statement: `parse_text`. -/

namespace Formula

open Number (Binary64 powerOfTen powerOfTwo unitExponent unitsPerOne)

namespace Node

/-! ## Trees whose text is read back -/

/-- Whether a tree is the name `not`. -/
def isNot : Node → Bool
  | name n => Text.lower n == "not"
  | _ => false

/-- All floating-point values of a tree are finite and shown without an exponent, and the left operand
of no operation `in` is the name `not`. -/
structure IsLegible (n : Node) : Prop where
  positional : ∀ m ∈ n.walk, ∀ value ∈ m.values, value.IsPositional
  apart : ∀ left right, .binary .member left right ∈ n.walk → left.isNot = false

theorem IsLegible.part {m n : Node} (h : n.IsLegible) (hpart : ∀ k ∈ m.walk, k ∈ n.walk) :
    m.IsLegible where
  positional k hk := h.positional k (hpart k hk)
  apart left right hk := h.apart left right (hpart _ hk)

theorem isLegible_literal {value : Scalar} : (literal value).IsLegible ↔ value.IsPositional := by
  constructor
  · exact fun h => h.positional _ (mem_walk_self _) value (by simp [values])
  · exact fun h => ⟨by simpa [values] using h, by simp⟩

theorem isLegible_list {items : Items} :
    (list items).IsLegible ↔ ∀ value ∈ items.toList, value.IsPositional := by
  constructor
  · exact fun h => h.positional _ (mem_walk_self _)
  · exact fun h => ⟨by simpa [values] using h, by simp⟩

theorem isLegible_call {parent : Option String} {n : String} {arguments : List Node} :
    (call parent n arguments).IsLegible ↔ ∀ argument ∈ arguments, argument.IsLegible := by
  constructor
  · intro h argument hargument
    exact h.part fun k hk => mem_walk_call.2 (.inr ⟨argument, hargument, hk⟩)
  · intro h
    refine ⟨fun m hm => ?_, fun left right hm => ?_⟩
    · rcases mem_walk_call.1 hm with rfl | ⟨argument, hargument, hm⟩
      · simp [values]
      · exact (h argument hargument).positional m hm
    · rcases mem_walk_call.1 hm with hm | ⟨argument, hargument, hm⟩
      · cases hm
      · exact (h argument hargument).apart left right hm

theorem isLegible_binary {op : Operator} {left right : Node} :
    (binary op left right).IsLegible ↔
      (op = .member → left.isNot = false) ∧ left.IsLegible ∧ right.IsLegible := by
  constructor
  · intro h
    refine ⟨?_, h.part fun k hk => mem_walk_binary.2 (.inr (.inl hk)),
      h.part fun k hk => mem_walk_binary.2 (.inr (.inr hk))⟩
    rintro rfl
    exact h.apart left right (mem_walk_self _)
  · rintro ⟨hapart, hleft, hright⟩
    refine ⟨fun m hm => ?_, fun l r hm => ?_⟩
    · rcases mem_walk_binary.1 hm with rfl | hm | hm
      · simp [values]
      · exact hleft.positional m hm
      · exact hright.positional m hm
    · rcases mem_walk_binary.1 hm with hm | hm | hm
      · cases hm
        exact hapart rfl
      · exact hleft.apart l r hm
      · exact hright.apart l r hm

theorem isLegible_conditional {condition truthy falsy : Node} :
    (conditional condition truthy falsy).IsLegible ↔
      truthy.IsLegible ∧ condition.IsLegible ∧ falsy.IsLegible := by
  constructor
  · intro h
    exact ⟨h.part fun k hk => mem_walk_conditional.2 (.inr (.inr (.inl hk))),
      h.part fun k hk => mem_walk_conditional.2 (.inr (.inl hk)),
      h.part fun k hk => mem_walk_conditional.2 (.inr (.inr (.inr hk)))⟩
  · rintro ⟨htruthy, hcondition, hfalsy⟩
    refine ⟨fun m hm => ?_, fun l r hm => ?_⟩
    · rcases mem_walk_conditional.1 hm with rfl | hm | hm | hm
      · simp [values]
      · exact hcondition.positional m hm
      · exact htruthy.positional m hm
      · exact hfalsy.positional m hm
    · rcases mem_walk_conditional.1 hm with hm | hm | hm | hm
      · cases hm
      · exact hcondition.apart l r hm
      · exact htruthy.apart l r hm
      · exact hfalsy.apart l r hm

/-! ## Shapes -/

mutual

/-- The shapes that the text of a tree is cut into. -/
def displayShapes : Node → List Shape
  | literal value => value.displayShapes
  | list items => items.displayShapes
  | name n => [(.name, n)]
  | member parent n => [(.name, qualify (some parent) n)]
  | call parent n arguments =>
    (.name, qualify parent n) :: (.leftParen, "(") :: argumentShapes (displayShapesAll arguments)
  | binary op left right =>
    (if op = .member ∧ left.isNot = true then [(.operator, "not in")]
      else shownShapes left.isCompound (displayShapes left) ++ [(.operator, op.symbol)]) ++
        shownShapes right.isCompound (displayShapes right)
  | conditional condition truthy falsy =>
    shownShapes (isA .conditional truthy) (displayShapes truthy) ++
      (.name, "if") :: (shownShapes true (displayShapes condition) ++
        (.name, "else") :: displayShapes falsy)

/-- The shapes that the texts of some trees are cut into. -/
def displayShapesAll : List Node → List (List Shape)
  | [] => []
  | node :: nodes => displayShapes node :: displayShapesAll nodes

end

theorem displayShapesAll_eq (nodes : List Node) :
    displayShapesAll nodes = nodes.map displayShapes := by
  induction nodes with
  | nil => rfl
  | cons node nodes ih => rw [displayShapesAll, ih, List.map_cons]

theorem textAll_eq (nodes : List Node) : textAll nodes = nodes.map text := by
  induction nodes with
  | nil => rfl
  | cons node nodes ih => rw [textAll, ih, List.map_cons]

/-- Beside an operator every operation and every conditional is in brackets. -/
theorem text_binary (op : Operator) (left right : Node) :
    (binary op left right).text = shownText left.isCompound left.text ++ " " ++ op.symbol ++ " " ++
      shownText right.isCompound right.text := by
  rw [text]
  rfl

end Node

/-! ## Cutting the text -/

theorem isOpening_text : IsOpening " if(" := by
  refine ⟨⟨_, rfl⟩, fun rest => ?_⟩
  have hif : Lexes ['i', 'f'] [(.name, "if")] (['('] ++ rest) :=
    .word ⟨'i', ['f'], by decide +kernel⟩ (by decide +kernel) (follows_closer (by decide))
  have hspace : Lexes [' '] [] (['i', 'f'] ++ ['('] ++ rest) := .space rfl
  exact hspace.append (hif.append .leftParen)

/-- The name `not` before the operator `in`. -/
theorem IsWrittenAs.notIn {name right : String} {rs : List Shape} {isNot : Prop}
    (hname : Text.lower name = "not") (hright : IsWrittenAs isNot right rs) :
    IsWrittenAs isNot (name ++ " " ++ Operator.member.symbol ++ " " ++ right)
      ([(.operator, "not in")] ++ rs) := by
  have hchars : Text.lowerChars name.toList = ['n', 'o', 't'] := by
    have hlower := congrArg String.toList hname
    rwa [Text.lower, String.toList_ofList] at hlower
  have htext : (name ++ " " ++ Operator.member.symbol ++ " " ++ right).toList =
      (name.toList ++ [' ', 'i', 'n']) ++ ([' '] ++ right.toList) := by
    simp [Operator.symbol]
  constructor
  · obtain ⟨a, b, c, hcs, ha, _⟩ := exists_of_lowerChars_eq_not hchars
    rw [htext, hcs]
    exact ⟨a, _, rfl, by rcases ha with rfl | rfl <;> decide⟩
  · intro rest hrest
    have hspace : Lexes [' '] [] (right.toList ++ rest) :=
      .space (takeBlanks_eq_nil (hright.solid.append rest).begins)
    rw [htext]
    exact (Lexes.notIn hchars).append (hspace.append (hright.lexes rest hrest))

/-- The text of a tree is cut into its shapes. -/
theorem Readable.isWrittenAs_text {n : Node} (h : Readable n) :
    IsWrittenAs (n.isNot = true ∨ n.isCompound = true) n.text n.displayShapes := by
  induction h with
  | literal hvalue => exact (Scalar.isWrittenAs_text hvalue).mono fun h => h.elim
  | list hitems => exact Items.isWrittenAs_text hitems _
  | @name name hname _ _ =>
      refine hname.isWrittenAs fun hnot => .inl ?_
      have hlower : Text.lower name = "not" := hnot
      simp [Node.isNot, hlower]
  | member hname =>
      refine hname.isWrittenAs fun heq => absurd heq (lower_ne_of_point ?_ (by decide))
      simp [qualify]
  | @call parent name arguments hname _ ih =>
      have harguments : ∀ n ∈ arguments, IsWrittenAs True n.text n.displayShapes :=
        fun n hn => (ih n hn).mono fun _ => trivial
      have hcalled := @IsName.isWrittenAs _ _ hname True fun _ => trivial
      rw [Node.text, Node.textAll_eq, Node.displayShapes, Node.displayShapesAll_eq]
      constructor
      · rw [String.toList_append]
        exact hcalled.solid.append _
      · intro rest _
        have hopening : Follows True
            ((bracketed (commaSeparated (arguments.map Node.text))).toList ++ rest) := by
          rw [bracketed, String.toList_append, String.toList_append]
          exact follows_closer (by decide : '(' ∈ closers)
        rw [String.toList_append]
        exact (hcalled.lexes _ hopening).append (lexes_arguments harguments rest)
  | @binary op left right _ _ ihl ihr =>
      have hleft : IsWrittenAs (left.isNot = true)
          (shownText left.isCompound left.text) _ := ihl.shown fun hbare h =>
        h.resolve_right (by simp [hbare])
      have hright : IsWrittenAs (right.isNot = true)
          (shownText right.isCompound right.text) _ := ihr.shown fun hbare h =>
        h.resolve_right (by simp [hbare])
      have himp : right.isNot = true → (Node.binary op left right).isNot = true ∨
          (Node.binary op left right).isCompound = true := fun _ => .inr rfl
      by_cases hnot : op = .member ∧ left.isNot = true
      · obtain ⟨rfl, hname⟩ := hnot
        cases left with
        | name n =>
            have hlower : Text.lower n = "not" := by simpa [Node.isNot] using hname
            have hwritten := IsWrittenAs.notIn hlower (hright.mono himp)
            rw [Node.text_binary, Node.displayShapes, if_pos ⟨rfl, hname⟩]
            exact hwritten
        | _ => simp [Node.isNot] at hname
      · have hwritten := IsWrittenAs.binary hleft hright (fun hop hleft => hnot ⟨hop, hleft⟩) himp
        rw [Node.text_binary, Node.displayShapes, if_neg hnot, List.append_assoc]
        exact hwritten
  | @conditional condition truthy falsy _ _ _ _ ihc iht ihf =>
      have htruthy : IsWrittenAs True (shownText (Node.isA .conditional truthy) truthy.text) _ :=
        iht.shown fun _ _ => trivial
      exact (IsWrittenAs.conditional htruthy isOpening_text ihc ihf).mono fun _ => .inr rfl

/-! ## What the shapes stand for -/

theorem Scalar.not_isElse_display {value : Scalar} (h : value.IsPositional) :
    ∀ shape ∈ value.displayShapes, ¬ Grammar.IsElse shape := by
  by_cases hbool : ∃ b, value = .bool b
  · obtain ⟨b, rfl⟩ := hbool
    have hnot : Text.lower (if b then "true" else "false") ≠ "else" := by
      cases b <;> decide +kernel
    simpa [displayShapes, Grammar.IsElse] using hnot
  · rw [displayShapes_of_isPositional h fun b hb => hbool ⟨b, hb⟩]
    exact not_isElse

/-- A tree that says no `else` is shown without it. -/
theorem Readable.not_isElse_display {n : Node} (h : Readable n) (hlegible : n.IsLegible)
    (hno : n.NoElse) : ∀ shape ∈ n.displayShapes, ¬ Grammar.IsElse shape := by
  induction h with
  | literal _ => exact Scalar.not_isElse_display (Node.isLegible_literal.1 hlegible)
  | list _ =>
      rw [Node.displayShapes,
        Items.displayShapes_of_isPositional (Node.isLegible_list.1 hlegible)]
      exact Items.not_isElse
  | name _ _ _ => simpa [Node.displayShapes, Grammar.IsElse] using hno.name
  | @member parent name _ =>
      simpa [Node.displayShapes, Grammar.IsElse] using lower_qualify_ne parent name
  | call _ _ ih =>
      rw [Node.displayShapes, Node.displayShapesAll_eq]
      exact not_isElse_called hno.called fun n hn =>
        ih n hn (Node.isLegible_call.1 hlegible n hn) (hno.argument n hn)
  | @binary op left right _ _ ihl ihr =>
      obtain ⟨hapart, hleft, hright⟩ := Node.isLegible_binary.1 hlegible
      have hnot : ¬ (op = .member ∧ left.isNot = true) := by
        rintro ⟨hop, hname⟩
        simp [hapart hop] at hname
      simp only [Node.displayShapes, if_neg hnot, List.mem_append, List.mem_singleton]
      rintro shape ((hmem | rfl) | hmem)
      · exact not_isElse_shown (ihl hleft hno.left) _ shape hmem
      · simp [Grammar.IsElse]
      · exact not_isElse_shown (ihr hright hno.right) _ shape hmem
  | conditional _ _ _ _ _ _ _ => exact absurd hno Node.NoElse.not_conditional

/-- What the shapes of the text of a tree stand for: the tree itself, an operand unless it is an
operation or a conditional, and a chain unless it is a conditional. -/
structure Node.IsReread (n : Node) : Prop where
  operand : n.isCompound = false → Grammar.Stands (.operand n) n.displayShapes
  chain : isA .conditional n = false → ∃ first links,
    (Chain.group first links).toNode = n ∧ Grammar.Stands (.chain first links) n.displayShapes
  expression : Grammar.Stands (.expression n) n.displayShapes

namespace Node.IsReread

theorem of_operand {n : Node} (h : Grammar.Stands (.operand n) n.displayShapes) : n.IsReread where
  operand _ := h
  chain _ := ⟨n, [], rfl, .single h⟩
  expression := .expression (.single h)

/-- Beside an operator everything is an operand. -/
theorem shown {n : Node} (h : n.IsReread) :
    Grammar.Stands (.operand n) (shownShapes n.isCompound n.displayShapes) := by
  cases hcompound : n.isCompound with
  | false => exact h.operand hcompound
  | true => exact .brackets h.expression

theorem binary {op : Operator} {left right : Node} (hl : left.IsReread) (hr : right.IsReread)
    (hapart : ¬ (op = .member ∧ left.isNot = true)) : (Node.binary op left right).IsReread := by
  have hshapes : (Node.binary op left right).displayShapes =
      shownShapes left.isCompound left.displayShapes ++
        (.operator, op.symbol) :: shownShapes right.isCompound right.displayShapes := by
    rw [displayShapes, if_neg hapart, List.append_assoc]
    rfl
  have hchain : Grammar.Stands (.chain left ([] ++ [(op, right)]))
      (Node.binary op left right).displayShapes := by
    rw [hshapes]
    exact .joined (.single hl.shown) (.single hr.shown)
  exact ⟨fun h => by simp [isCompound, isA] at h, fun _ => ⟨left, [(op, right)], rfl, hchain⟩,
    .expression hchain⟩

theorem conditional {condition truthy falsy : Node} (hc : condition.IsReread)
    (ht : truthy.IsReread) (hf : falsy.IsReread)
    (hno : ∀ shape ∈ condition.displayShapes, ¬ Grammar.IsElse shape) :
    (Node.conditional condition truthy falsy).IsReread := by
  obtain ⟨first, links, hgroup, htruthy⟩ : ∃ first links, (Chain.group first links).toNode = truthy ∧
      Grammar.Stands (.chain first links)
        (shownShapes (isA .conditional truthy) truthy.displayShapes) := by
    cases hform : isA .conditional truthy with
    | false => exact ht.chain hform
    | true => exact ⟨truthy, [], rfl, .single (.brackets ht.expression)⟩
  have hcondition : Grammar.Stands (.expression condition)
      (shownShapes true condition.displayShapes) :=
    .expression (.single (.brackets hc.expression))
  have hexpression := Grammar.Stands.conditional htruthy hcondition (not_isElse_shown hno true)
    hf.expression
  rw [hgroup] at hexpression
  exact ⟨fun h => by simp [isCompound, isA] at h, fun h => by simp [isA] at h, hexpression⟩

end Node.IsReread

theorem Scalar.stands_display {value : Scalar} (h : value.IsReadable)
    (hpositional : value.IsPositional) :
    Grammar.Stands (.operand (.literal value)) value.displayShapes := by
  by_cases hbool : ∃ b, value = .bool b
  · obtain ⟨b, rfl⟩ := hbool
    exact .truthValue (by cases b <;> decide +kernel)
  · rw [displayShapes_of_isPositional hpositional fun b hb => hbool ⟨b, hb⟩]
    exact stands h hpositional.isFinite

/-- The shapes of a legible tree stand for the tree. -/
theorem Readable.isReread {n : Node} (h : Readable n) (hlegible : n.IsLegible) : n.IsReread := by
  induction h with
  | literal hvalue =>
      exact .of_operand (Scalar.stands_display hvalue (Node.isLegible_literal.1 hlegible))
  | @list items hitems =>
      have hpositional := Node.isLegible_list.1 hlegible
      refine .of_operand ?_
      rw [Node.displayShapes, Items.displayShapes_of_isPositional hpositional]
      exact Items.stands hitems fun value hvalue => (hpositional value hvalue).isFinite
  | name hname htrue hfalse => exact .of_operand (.name hname htrue hfalse)
  | member hname => exact .of_operand (.member hname)
  | @call parent name arguments hname _ ih =>
      have harguments : ∀ n ∈ arguments, n.IsReread := fun n hn =>
        ih n hn (Node.isLegible_call.1 hlegible n hn)
      refine .of_operand ?_
      rw [Node.displayShapes, Node.displayShapesAll_eq]
      exact .call hname (.argumentRows fun n hn => (harguments n hn).expression)
  | @binary op left right _ _ ihl ihr =>
      obtain ⟨hapart, hleft, hright⟩ := Node.isLegible_binary.1 hlegible
      exact .binary (ihl hleft) (ihr hright) fun ⟨hop, hname⟩ => by simp [hapart hop] at hname
  | conditional hcondition hno _ _ ihc iht ihf =>
      obtain ⟨htruthy, hc, hfalsy⟩ := Node.isLegible_conditional.1 hlegible
      exact .conditional (ihc hc) (iht htruthy) (ihf hfalsy) (hcondition.not_isElse_display hc hno)

/-! ## What the shapes weigh -/

/-- A row of shapes weighs no less than it should, and more unless something is the case. -/
structure Weighs (P : Prop) (w : Int) (ls : List Shape) : Prop where
  le : w ≤ weight ls
  of_eq : weight ls = w → P

namespace Weighs

variable {P Q : Prop} {v w : Int} {ls ms : List Shape}

theorem exactly (h : weight ls = w) (hP : P) : Weighs P w ls :=
  ⟨Int.le_of_eq h.symm, fun _ => hP⟩

theorem more (h : w < weight ls) : Weighs P w ls :=
  ⟨Int.le_of_lt h, fun heq => absurd heq (Int.ne_of_gt h)⟩

theorem append (hls : Weighs P v ls) (hms : Weighs Q w ms) : Weighs (P ∧ Q) (v + w) (ls ++ ms) where
  le := by
    rw [weight_append]
    exact Int.add_le_add hls.le hms.le
  of_eq h := by
    have hv := hls.le
    have hw := hms.le
    rw [weight_append] at h
    exact ⟨hls.of_eq (by omega), hms.of_eq (by omega)⟩

theorem cons (h : Weighs P w ls) (shape : Shape) :
    Weighs P (shapeWeight shape + w) (shape :: ls) where
  le := by
    have hw := h.le
    rw [weight_cons]
    omega
  of_eq heq := by
    rw [weight_cons] at heq
    exact h.of_eq (by omega)

theorem mono (h : Weighs P w ls) (himp : P → Q) : Weighs Q w ls :=
  ⟨h.le, fun heq => himp (h.of_eq heq)⟩

/-- A bracket behind a row adds nothing. -/
theorem closed (h : Weighs P w ls) (shape : Shape) (hshape : shapeWeight shape = 0) :
    Weighs P w (ls ++ [shape]) := by
  have hclosing : Weighs True 0 [shape] := exactly (by simp [hshape]) trivial
  have hall := h.append hclosing
  rw [Int.add_zero] at hall
  exact hall.mono And.left

theorem shown (h : Weighs P w ls) (b : Bool) : Weighs P w (Node.shownShapes b ls) := by
  cases b with
  | false => exact h
  | true =>
      have hopened := (h.closed (.rightParen, ")") rfl).cons (.leftParen, "(")
      rwa [show shapeWeight (.leftParen, "(") = 0 from rfl, Int.zero_add] at hopened

section Rows

variable {α : Type} {R : α → Prop} {row : α → List Shape} {size : α → Int}

/-- Rows with commas before them weigh what they weigh together. -/
theorem moreRows {as : List α} (h : ∀ a ∈ as, Weighs (R a) (size a) (row a)) :
    Weighs (∀ a ∈ as, R a) (as.foldr (size · + ·) 0) (moreShapes (as.map row)) := by
  induction as with
  | nil => exact exactly rfl (by simp)
  | cons a as ih =>
      have hmore := ih fun b hb => h b (List.mem_cons_of_mem _ hb)
      have hfirst := (h a List.mem_cons_self).cons (.comma, ",")
      rw [show shapeWeight (.comma, ",") = 0 from rfl, Int.zero_add] at hfirst
      exact (hfirst.append hmore).mono fun hall => List.forall_mem_cons.2 hall

theorem rows {a : α} {as : List α} (h : ∀ b ∈ a :: as, Weighs (R b) (size b) (row b)) :
    Weighs (∀ b ∈ a :: as, R b) ((a :: as).foldr (size · + ·) 0)
      (row a ++ moreShapes (as.map row)) := by
  have hmore := moreRows fun b hb => h b (List.mem_cons_of_mem _ hb)
  exact ((h a List.mem_cons_self).append hmore).mono fun hall => List.forall_mem_cons.2 hall

end Rows

end Weighs

theorem weight_signShapes (negative : Bool) : weight (signShapes negative) = 0 := by
  cases negative <;> rfl

theorem weight_exponentShapes (digits : List Char) (place : Int) :
    weight (exponentShapes digits place) = 1 := by
  have hsign : shapeWeight (.operator, String.singleton (exponentSign place)) = 0 := by
    unfold exponentSign
    split <;> rfl
  simp only [exponentShapes, weight_cons, weight_nil, hsign]
  rfl

/-- An exponent and a word for a number weigh one too many. -/
theorem Scalar.weighs (value : Scalar) :
    Weighs value.IsPositional value.weight value.displayShapes := by
  match value with
  | bool b => exact .exactly rfl trivial
  | string s => exact .exactly rfl trivial
  | int n =>
      refine .exactly ?_ trivial
      rw [displayShapes, shapes, numberShapes]
      cases decide (n < 0) <;> rfl
  | double .nan => exact .more (by decide)
  | double (.infinite negative) =>
      refine .more ?_
      rw [displayShapes, weight_append, weight_signShapes]
      exact Int.zero_lt_one
  | double (.finite negative size) =>
      rw [displayShapes, Number.Magnitude.displayShapes]
      by_cases htext : size.text false = size.text true
      · rw [if_pos htext]
        refine .exactly ?_ (isPositional_finite.2 htext)
        rw [weight_append, weight_signShapes]
        rfl
      · rw [if_neg htext]
        refine .more ?_
        rw [weight_append, weight_signShapes, weight_exponentShapes]
        exact Int.zero_lt_one

theorem Items.sum_weight (items : Items) : items.toList.foldr (Scalar.weight · + ·) 0 = 0 := by
  have hzero {values : List Scalar} (h : ∀ value ∈ values, value.weight = 0) :
      values.foldr (Scalar.weight · + ·) 0 = 0 := by
    induction values with
    | nil => rfl
    | cons value values ih =>
        rw [List.foldr_cons, h value List.mem_cons_self,
          ih fun v hv => h v (List.mem_cons_of_mem _ hv), Int.add_zero]
  refine hzero fun value hvalue => ?_
  cases value with
  | bool b => exact absurd rfl (ne_bool_of_mem hvalue b)
  | int | double | string => rfl

theorem Items.weighs (items : Items) :
    Weighs (∀ value ∈ items.toList, value.IsPositional) 0 items.displayShapes := by
  have hsum := items.sum_weight
  unfold displayShapes
  cases hvalues : items.toList with
  | nil => exact .exactly rfl (by simp)
  | cons value values =>
      have hrows : Weighs (∀ v ∈ value :: values, v.IsPositional) _
          (value.displayShapes ++ moreShapes (values.map Scalar.displayShapes)) :=
        .rows fun v _ => v.weighs
      rw [← hvalues, hsum] at hrows
      have hclosed := (hrows.closed (.rightBracket, "]") rfl).cons (.leftBracket, "[")
      rw [List.append_assoc, hvalues] at hclosed
      exact hclosed

theorem Node.weightAll_eq (nodes : List Node) :
    weightAll nodes = nodes.foldr (weight · + ·) 0 := by
  induction nodes with
  | nil => rfl
  | cons node nodes ih => rw [weightAll, ih, List.foldr_cons]

theorem Weighs.argumentRows {R : Node → Prop} {nodes : List Node}
    (h : ∀ n ∈ nodes, Weighs (R n) n.weight n.displayShapes) :
    Weighs (∀ n ∈ nodes, R n) (Node.weightAll nodes)
      (Node.argumentShapes (Node.displayShapesAll nodes)) := by
  rw [Node.weightAll_eq, Node.displayShapesAll_eq]
  cases nodes with
  | nil => exact .exactly rfl (by simp)
  | cons node nodes =>
      have hclosed := (Weighs.rows h).closed (.rightParen, ")") rfl
      rwa [List.append_assoc] at hclosed

/-- What a tree is shown as weighs as much as the tree only if it is legible. -/
theorem Node.weighs (n : Node) : Weighs n.IsLegible n.weight n.displayShapes := by
  induction n using parts with
  | literal value => exact value.weighs.mono isLegible_literal.2
  | list items => exact items.weighs.mono isLegible_list.2
  | name n => exact .exactly rfl ⟨by simp [values], by simp⟩
  | member parent n => exact .exactly rfl ⟨by simp [values], by simp⟩
  | call parent n arguments ih =>
      have hrow := (Weighs.argumentRows ih).cons (.leftParen, "(")
      rw [show shapeWeight (.leftParen, "(") = 0 from rfl, Int.zero_add] at hrow
      exact (hrow.cons (.name, qualify parent n)).mono isLegible_call.2
  | binary op left right ihl ihr =>
      have hright := ihr.shown right.isCompound
      rw [displayShapes]
      by_cases hnot : op = .member ∧ left.isNot = true
      · -- The name and the operator are gone, which together weigh less than nothing.
        rw [if_pos hnot]
        obtain ⟨rfl, hname⟩ := hnot
        refine .more ?_
        have hle := hright.le
        cases left with
        | name n =>
            show 1 + (-2 + right.weight) <
              0 + Formula.weight (shownShapes right.isCompound right.displayShapes)
            omega
        | _ => simp [isNot] at hname
      · rw [if_neg hnot, List.append_assoc]
        have hleft := ihl.shown left.isCompound
        have hop := hright.cons (.operator, op.symbol)
        rw [shapeWeight_symbol] at hop
        refine (hleft.append hop).mono fun hboth => isLegible_binary.2 ⟨fun hmember => ?_, hboth⟩
        rw [Bool.eq_false_iff]
        exact fun hname => hnot ⟨hmember, hname⟩
  | conditional condition truthy falsy ihc iht ihf =>
      have helse := ihf.cons (.name, "else")
      have hcondition := (ihc.shown true).append helse
      have hif := hcondition.cons (.name, "if")
      exact ((iht.shown _).append hif).mono isLegible_conditional.2

/-! ## The round trip -/

/-- The text of a tree that was read is read as the same tree if the tree is legible, and otherwise as
no tree that is equal to it. -/
theorem parse_text {strict strict' : Bool} {s : String} {ts : List Token} {t : Node}
    (hlex : tokenize strict s = .ok ts) (hparse : parseTokens ts = .ok t) :
    (t.IsLegible → ∃ ts', tokenize strict' t.text = .ok ts' ∧ parseTokens ts' = .ok t) ∧
      (¬ t.IsLegible → ∀ ts' t', tokenize strict' t.text = .ok ts' → parseTokens ts' = .ok t' →
        t'.same t = false) := by
  have hderives := Grammar.derives_of_parseTokens hparse
  have hreadable : Readable t :=
    hderives.readable (isLexed_of_tokenize hlex) t (by simp [Grammar.Meaning.nodes])
  have hlexes := hreadable.isWrittenAs_text.lexes [] (.inl (by simp))
  obtain ⟨us, htokens, hshapes⟩ := hlexes.tokenize strict'
  constructor
  · intro hlegible
    have hstands := (hreadable.isReread hlegible).expression us hshapes
    exact ⟨us, htokens, Grammar.parseTokens_of_derives hstands⟩
  · intro hnot ts' t' htokens' hparse'
    rw [htokens] at htokens'
    cases htokens'
    have hweight : weight t.displayShapes = t'.weight := by
      rw [← hshapes, (Grammar.derives_of_parseTokens hparse').weight_eq]
      rfl
    rw [Bool.eq_false_iff]
    intro hsame
    exact hnot (t.weighs.of_eq (hweight.trans (Node.weight_of_same hsame)))

/-! ## Examples -/

/-- The tokens of `10000000000000000.0`. -/
def hugeTokens : List Token := [⟨.number, "10000000000000000.0", 0, "10000000000000000.0"⟩]

/-- Ten to the sixteenth power. -/
def huge : Binary64 := .finite false ⟨powerOfTen 16 * unitsPerOne, by decide +kernel⟩

theorem parseTokens_huge : parseTokens hugeTokens = .ok (.literal (.double huge)) := by
  have hvalue : Binary64.ofDecimal false 100000000000000000 1 = huge := by decide +kernel
  have hread : readNumber false "10000000000000000.0".toList = .ok (.double huge) := by
    rw [← hvalue]
    rfl
  exact Grammar.parseTokens_of_derives (.chain (.single (.number rfl hread)))

/-- The tokens of `1e+16`. -/
def exponentTokens : List Token :=
  [⟨.number, "1", 0, "1"⟩, ⟨.name, "e", 1, "e"⟩, ⟨.operator, "+", 2, "+"⟩, ⟨.number, "16", 3, "16"⟩]

/-- A large number is shown with an exponent, and what is shown is no expression. -/
theorem text_exponent_unreadable :
    ∃ ts t, tokenize false "10000000000000000.0" = .ok ts ∧ parseTokens ts = .ok t ∧
      ¬ ∃ ts' t', tokenize false t.text = .ok ts' ∧ parseTokens ts' = .ok t' ∧
        t'.same t = true := by
  have htokens : tokenize false "10000000000000000.0" = .ok hugeTokens := by rfl
  have htext : (Node.literal (.double huge)).text = "1e+16" := by
    show huge.display = "1e+16"
    decide +kernel
  have hagain : tokenize false "1e+16" = .ok exponentTokens := by rfl
  have hfails : (parseTokens exponentTokens).isOk = false := by decide +kernel
  refine ⟨hugeTokens, _, htokens, parseTokens_huge, ?_⟩
  rintro ⟨ts', t', htokens', hparse', _⟩
  rw [htext, hagain] at htokens'
  cases htokens'
  rw [hparse'] at hfails
  cases hfails

/-- The tokens of `(x - 0.5) * y`. -/
def halfTokens : List Token :=
  [⟨.leftParen, "(", 0, "("⟩, ⟨.name, "x", 1, "x"⟩, ⟨.operator, "-", 2, "-"⟩,
    ⟨.number, "0.5", 3, "0.5"⟩, ⟨.rightParen, ")", 4, ")"⟩, ⟨.operator, "*", 5, "*"⟩,
    ⟨.name, "y", 6, "y"⟩]

/-- One half. -/
def half : Binary64 := .finite false ⟨powerOfTwo (unitExponent - 1), by decide +kernel⟩

/-- The tree of `(x - 0.5) * y`. -/
def halfTree : Node :=
  .binary .times (.binary .minus (.name "x") (.literal (.double half))) (.name "y")

theorem parseTokens_half : parseTokens halfTokens = .ok halfTree := by
  have hvalue : Binary64.ofDecimal false 5 1 = half := by decide +kernel
  have hread : readNumber false "0.5".toList = .ok (.double half) := by
    rw [← hvalue]
    rfl
  have hinner : Grammar.Derives (.expression (.binary .minus (.name "x") (.literal (.double half))))
      ([⟨.name, "x", 1, "x"⟩] ++ ⟨.operator, "-", 2, "-"⟩ :: [⟨.number, "0.5", 3, "0.5"⟩]) :=
    .chain (.link (.name rfl rfl) rfl (.single (.number rfl hread)))
  have hbrackets := @Grammar.Derives.brackets ⟨.leftParen, "(", 0, "("⟩ ⟨.rightParen, ")", 4, ")"⟩
    _ _ rfl hinner rfl
  have hname : Grammar.Derives (.operand (.name "y")) [⟨.name, "y", 6, "y"⟩] := .name rfl rfl
  have hlinked := @Grammar.Derives.link _ _ .times [] _ _ ⟨.operator, "*", 5, "*"⟩ hbrackets rfl
    (.single hname)
  exact Grammar.parseTokens_of_derives (.chain hlinked)

theorem isLegible_half : halfTree.IsLegible := by
  have hname (n : String) : (Node.name n).IsLegible := ⟨by simp [Node.values], by simp⟩
  have hhalf : half.IsPositional := isPositional_finite.2 (by decide +kernel)
  have hinner : (Node.binary .minus (.name "x") (.literal (.double half))).IsLegible :=
    Node.isLegible_binary.2 ⟨by decide, hname "x", Node.isLegible_literal.2 hhalf⟩
  exact Node.isLegible_binary.2 ⟨by decide, hinner, hname "y"⟩

/-- `(x - 0.5) * y` is read back from its text. -/
theorem parse_text_half :
    ∃ ts, tokenize true halfTree.text = .ok ts ∧ parseTokens ts = .ok halfTree := by
  have hlex : tokenize false "(x - 0.5) * y" = .ok halfTokens := by rfl
  exact (parse_text hlex parseTokens_half).1 isLegible_half

end Formula
