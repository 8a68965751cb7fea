import Formula.Proofs.Grammar.Completeness
import Formula.Proofs.Source.Literal

set_option autoImplicit false

/-! # The source of a tree is read back

The source of a tree is cut into the shapes that the tree is put together from, and those shapes
stand for the tree: an operand in brackets is an operand, one without brackets continues the chain
that is grouped by precedence.

Two trees cannot be written down: one with a value that is not finite, whose source is a name, and
one with an operation `in` behind the name `not`, since `not in` is an operator of its own.

Main statement: `parse_source`. -/

namespace Formula

namespace Node

/-! ## Trees that can be written down -/

/-- Whether the last thing in a tree is the name `not`. -/
def endsInNot : Node → Prop
  | name n => Text.lower n = "not"
  | binary _ _ right => right.endsInNot
  | _ => False

/-- The values that a node has as a literal, or as the items of a list. -/
def values : Node → List Scalar
  | literal value => [value]
  | list items => items.toList
  | _ => []

/-- All floating-point values of a tree are finite, and no operation `in` follows the name `not`. -/
structure IsWritable (n : Node) : Prop where
  finite : ∀ m ∈ n.walk, ∀ value ∈ m.values, value.IsFinite
  apart : ∀ left right, .binary .member left right ∈ n.walk → ¬ left.endsInNot

theorem IsWritable.part {m n : Node} (h : n.IsWritable) (hpart : ∀ k ∈ m.walk, k ∈ n.walk) :
    m.IsWritable where
  finite k hk := h.finite k (hpart k hk)
  apart left right hk := h.apart left right (hpart _ hk)

/-! ## Shapes -/

/-- The shapes of an operand, perhaps in brackets. -/
def shownShapes (inBrackets : Bool) (ls : List Shape) : List Shape :=
  if inBrackets then (.leftParen, "(") :: (ls ++ [(.rightParen, ")")]) else ls

/-- The shapes of arguments with their closing bracket. -/
def argumentShapes : List (List Shape) → List Shape
  | [] => [(.rightParen, ")")]
  | ls :: rows => ls ++ (moreShapes rows ++ [(.rightParen, ")")])

mutual

/-- The shapes that a tree is written as. -/
def shapes : Node → List Shape
  | literal value => value.shapes
  | list items => items.shapes
  | name n => [(.name, n)]
  | member parent n => [(.name, qualify (some parent) n)]
  | call parent n arguments =>
    (.name, qualify parent n) :: (.leftParen, "(") :: argumentShapes (shapesAll arguments)
  | binary op left right =>
    shownShapes (isBracketed op false left) (shapes left) ++
      (.operator, op.symbol) :: shownShapes (isBracketed op true right) (shapes right)
  | conditional condition truthy falsy =>
    shownShapes (isA .conditional truthy) (shapes truthy) ++
      (.name, "if") :: (shownShapes true (shapes condition) ++ (.name, "else") :: shapes falsy)

/-- The shapes that some trees are written as. -/
def shapesAll : List Node → List (List Shape)
  | [] => []
  | node :: nodes => shapes node :: shapesAll nodes

end

theorem shapesAll_eq (nodes : List Node) : shapesAll nodes = nodes.map shapes := by
  induction nodes with
  | nil => rfl
  | cons node nodes ih => rw [shapesAll, ih, List.map_cons]

theorem sourceAll_eq (nodes : List Node) : sourceAll nodes = nodes.map source := by
  induction nodes with
  | nil => rfl
  | cons node nodes ih => rw [sourceAll, ih, List.map_cons]

/-- Only conditionals are never operands without brackets. -/
theorem not_conditional_of_not_isBracketed {op : Operator} {onRight : Bool} {n : Node}
    (h : isBracketed op onRight n = false) : isA .conditional n = false := by
  cases n with
  | conditional _ _ _ => simp [isBracketed, needsBrackets] at h
  | literal | list | name | member | call | binary => rfl

end Node

/-! ## Cutting the source -/

/-- A text that is perhaps shown in brackets. -/
def shownText (inBrackets : Bool) (text : String) : String :=
  if inBrackets then bracketed text else text

theorem IsWrittenAs.bracketed {isNot : Prop} {text : String} {ls : List Shape}
    (h : IsWrittenAs isNot text ls) {rest : List Char} :
    Lexes (bracketed text).toList (Node.shownShapes true ls) rest := by
  have hinner : Lexes text.toList ls ([')'] ++ rest) := h.lexes _ (follows_closer (by decide))
  have hall := Lexes.leftParen.append (hinner.append Lexes.rightParen)
  simpa [Formula.bracketed, Node.shownShapes] using hall

/-- An operand in brackets may stand before anything. -/
theorem IsWrittenAs.shown {isNot isNot' : Prop} {text : String} {ls : List Shape}
    (h : IsWrittenAs isNot text ls) {b : Bool} (hbare : b = false → isNot → isNot') :
    IsWrittenAs isNot' (shownText b text) (Node.shownShapes b ls) := by
  cases b with
  | false =>
      refine ⟨h.solid, fun rest hrest => ?_⟩
      exact h.lexes rest (hrest.mono (hbare rfl))
  | true =>
      have hsolid : IsSolid (Formula.bracketed text).toList := by
        refine ⟨'(', text.toList ++ [')'], ?_, by decide⟩
        simp [Formula.bracketed]
      exact ⟨hsolid, fun rest _ => h.bracketed⟩

/-- What follows the left operand of an operation. -/
theorem follows_operator {isNot : Prop} {op : Operator} (h : op = .member → ¬ isNot)
    (rest : List Char) : Follows isNot (' ' :: (op.symbol.toList ++ [' ']) ++ rest) := by
  have hfollower : ∃ x y more, op.symbol.toList ++ [' '] = x :: y :: more ∧ (x, y) ∈ followers ∧
      ((x, y) = ('i', 'n') → op = .member) := by
    cases op with
    | either => exact ⟨'o', 'r', [' '], rfl, by decide, by decide⟩
    | both => exact ⟨'a', 'n', ['d', ' '], rfl, by decide, by decide⟩
    | member => exact ⟨'i', 'n', [' '], rfl, by decide, by decide⟩
    | absent => exact ⟨'n', 'o', ['t', ' ', 'i', 'n', ' '], rfl, by decide, by decide⟩
    | equal => exact ⟨'=', '=', [' '], rfl, by decide, by decide⟩
    | unequal => exact ⟨'!', '=', [' '], rfl, by decide, by decide⟩
    | greater => exact ⟨'>', ' ', [], rfl, by decide, by decide⟩
    | less => exact ⟨'<', ' ', [], rfl, by decide, by decide⟩
    | greaterOrEqual => exact ⟨'>', '=', [' '], rfl, by decide, by decide⟩
    | lessOrEqual => exact ⟨'<', '=', [' '], rfl, by decide, by decide⟩
    | plus => exact ⟨'+', ' ', [], rfl, by decide, by decide⟩
    | minus => exact ⟨'-', ' ', [], rfl, by decide, by decide⟩
    | times => exact ⟨'*', ' ', [], rfl, by decide, by decide⟩
    | dividedBy => exact ⟨'/', ' ', [], rfl, by decide, by decide⟩
  obtain ⟨x, y, more, hsymbol, hmem, hmember⟩ := hfollower
  refine .inr ⟨x, y, more ++ rest, ?_, hmem, fun hnot hxy => h (hmember hxy) hnot⟩
  rw [hsymbol]
  rfl

/-- A name is cut off as written, if it is not `not` before `in`. -/
theorem IsName.isWrittenAs {parent : Option String} {name : String} (h : IsName parent name)
    {isNot : Prop} (hnot : Text.lower (qualify parent name) = "not" → isNot) :
    IsWrittenAs isNot (qualify parent name) [(.name, qualify parent name)] where
  solid := by
    obtain ⟨c, cs, hfirst⟩ := h.text
    obtain ⟨hcuts, htext⟩ := cutsName_of_first hfirst
    have hpath : Piece.path (c :: cs) =
        c :: (cs.takeWhile Text.isWordChar ++ Piece.pathRest 0 (cs.dropWhile Text.isWordChar)) := by
      simp [Piece.path, hcuts.word]
    exact ⟨c, _, htext.trans hpath, hcuts.blank⟩
  lexes rest hrest := by
    have hlexes := Lexes.name h.text (hrest.mono fun heq => hnot (by rw [Text.lower, heq]))
    rwa [String.ofList_toList] at hlexes

/-- The arguments of a call with their brackets. -/
theorem lexes_arguments {text : Node → String} {row : Node → List Shape} {nodes : List Node}
    (h : ∀ n ∈ nodes, IsWrittenAs True (text n) (row n)) (rest : List Char) :
    Lexes (bracketed (commaSeparated (nodes.map text))).toList
      ((.leftParen, "(") :: Node.argumentShapes (nodes.map row)) rest := by
  cases nodes with
  | nil =>
      have hempty : Lexes (bracketed (commaSeparated [])).toList
          [(.leftParen, "("), (.rightParen, ")")] rest := Lexes.leftParen.append Lexes.rightParen
      exact hempty
  | cons node nodes =>
      have hrow := lexes_row h (by decide : ')' ∈ closers) (fun rest => Lexes.rightParen) rest
      simpa [bracketed, Node.argumentShapes] using Lexes.leftParen.append hrow

theorem IsWrittenAs.binary {isLeft isRight isNot : Prop} {left right : String}
    {ls rs : List Shape} {op : Operator} (hleft : IsWrittenAs isLeft left ls)
    (hright : IsWrittenAs isRight right rs) (hop : op = .member → ¬ isLeft)
    (himp : isRight → isNot) :
    IsWrittenAs isNot (left ++ " " ++ op.symbol ++ " " ++ right)
      (ls ++ (.operator, op.symbol) :: rs) where
  solid := by
    have hsolid := hleft.solid.append (' ' :: (op.symbol.toList ++ ' ' :: right.toList))
    simpa using hsolid
  lexes rest hrest := by
    have hr := (hright.mono himp).lexes rest hrest
    have hsolid : BeginsSolid (right.toList ++ rest) := (hright.solid.append rest).begins
    have hop := follows_operator hop (right.toList ++ rest)
    rw [← List.append_assoc] at hop
    have hall := (hleft.lexes _ hop).append ((Lexes.operator op hsolid).append hr)
    simpa using hall

/-- What stands between the first operand of a conditional and its condition. -/
structure IsOpening (opening : String) : Prop where
  begins : ∃ more, opening.toList = ' ' :: 'i' :: 'f' :: more
  lexes : ∀ rest, Lexes opening.toList [(.name, "if"), (.leftParen, "(")] rest

theorem isOpening_source : IsOpening " if (" := ⟨⟨_, rfl⟩, fun _ => Lexes.ifWord⟩

theorem IsWrittenAs.conditional {isTruthy isCondition isFalsy : Prop}
    {truthy condition falsy opening : String} {ts cs fs : List Shape}
    (htruthy : IsWrittenAs isTruthy truthy ts) (hopening : IsOpening opening)
    (hcondition : IsWrittenAs isCondition condition cs) (hfalsy : IsWrittenAs isFalsy falsy fs) :
    IsWrittenAs isFalsy (truthy ++ opening ++ condition ++ ") else " ++ falsy)
      (ts ++ (.name, "if") :: (Node.shownShapes true cs ++ (.name, "else") :: fs)) where
  solid := by
    have hsolid := htruthy.solid.append
      (opening.toList ++ condition.toList ++ ") else ".toList ++ falsy.toList)
    simpa using hsolid
  lexes rest hrest := by
    have hsolid : BeginsSolid (falsy.toList ++ rest) := (hfalsy.solid.append rest).begins
    have hlast := (Lexes.elseWord hsolid).append (hfalsy.lexes rest hrest)
    have hclosed : Follows isCondition
        ([')', ' ', 'e', 'l', 's', 'e', ' '] ++ falsy.toList ++ rest) :=
      follows_closer (by decide)
    have hmiddle := (hopening.lexes _).append ((hcondition.lexes _ hclosed).append hlast)
    obtain ⟨more, hmore⟩ := hopening.begins
    have hif : Follows isTruthy (opening.toList ++
        (condition.toList ++ ([')', ' ', 'e', 'l', 's', 'e', ' '] ++ falsy.toList)) ++ rest) := by
      rw [hmore]
      exact .inr ⟨'i', 'f', _, rfl, by decide, by simp⟩
    have hall := (htruthy.lexes _ hif).append hmiddle
    simpa [Node.shownShapes] using hall

/-- The source of a tree is cut into its shapes. -/
theorem Readable.isWrittenAs {n : Node} (h : Readable n) (hw : n.IsWritable) :
    IsWrittenAs (n.endsInNot ∨ Node.isA .conditional n = true) n.source n.shapes := by
  induction h with
  | @literal value hvalue =>
      have hfinite := hw.finite _ (Node.mem_walk_self _) value (by simp [Node.values])
      exact (Scalar.isWrittenAs hvalue hfinite).mono fun h => h.elim
  | @list items hitems =>
      have hfinite : items.IsFinite := hw.finite _ (Node.mem_walk_self _)
      exact ⟨isSolid_list _, fun rest _ => Items.lexes hitems hfinite rest⟩
  | name hname _ _ => exact hname.isWrittenAs .inl
  | member hname =>
      refine hname.isWrittenAs fun heq => absurd heq (lower_ne_of_point ?_ (by decide))
      simp [qualify]
  | @call parent name arguments hname _ ih =>
      have harguments : ∀ n ∈ arguments, IsWrittenAs True n.source n.shapes := by
        intro n hn
        refine (ih n hn (hw.part fun m hm => ?_)).mono fun _ => trivial
        exact Node.mem_walk_call.2 (.inr ⟨n, hn, hm⟩)
      have hcalled := @IsName.isWrittenAs _ _ hname True fun _ => trivial
      constructor
      · rw [Node.source, String.toList_append]
        exact hcalled.solid.append _
      · intro rest _
        have hlist := lexes_arguments harguments rest
        have hopening : Follows True
            ((bracketed (commaSeparated (arguments.map Node.source))).toList ++ rest) := by
          rw [bracketed, String.toList_append, String.toList_append]
          exact follows_closer (by decide : '(' ∈ closers)
        rw [Node.source, String.toList_append, Node.sourceAll_eq, Node.shapes, Node.shapesAll_eq]
        exact (hcalled.lexes _ hopening).append hlist
  | @binary op left right _ _ ihl ihr =>
      have hl := ihl (hw.part fun m hm => Node.mem_walk_binary.2 (.inr (.inl hm)))
      have hr := ihr (hw.part fun m hm => Node.mem_walk_binary.2 (.inr (.inr hm)))
      have hleft : IsWrittenAs left.endsInNot
          (shownText (Node.isBracketed op false left) left.source) _ := hl.shown fun hbare h =>
        h.resolve_right (by simp [Node.not_conditional_of_not_isBracketed hbare])
      have hright : IsWrittenAs right.endsInNot
          (shownText (Node.isBracketed op true right) right.source) _ := hr.shown fun hbare h =>
        h.resolve_right (by simp [Node.not_conditional_of_not_isBracketed hbare])
      refine IsWrittenAs.binary hleft hright ?_ .inl
      rintro rfl
      exact hw.apart left right (Node.mem_walk_self _)
  | @conditional condition truthy falsy _ _ _ _ ihc iht ihf =>
      have hc := ihc (hw.part fun m hm => Node.mem_walk_conditional.2 (.inr (.inl hm)))
      have ht := iht (hw.part fun m hm => Node.mem_walk_conditional.2 (.inr (.inr (.inl hm))))
      have hf := ihf (hw.part fun m hm => Node.mem_walk_conditional.2 (.inr (.inr (.inr hm))))
      have htruthy : IsWrittenAs True
          (shownText (Node.isA .conditional truthy) truthy.source) _ :=
        ht.shown fun _ _ => trivial
      exact (IsWrittenAs.conditional htruthy isOpening_source hc hf).mono fun _ => .inr rfl

/-! ## What the shapes stand for -/

theorem Node.NoElse.part {m n : Node} (h : n.NoElse) (hpart : ∀ k ∈ m.walk, k ∈ n.walk) :
    m.NoElse :=
  fun k hk => h k (hpart k hk)

theorem not_isElse_shown {ls : List Shape} (h : ∀ shape ∈ ls, ¬ Grammar.IsElse shape) (b : Bool) :
    ∀ shape ∈ Node.shownShapes b ls, ¬ Grammar.IsElse shape := by
  cases b with
  | false => exact h
  | true =>
      simp only [Node.shownShapes, ↓reduceIte, List.mem_cons, List.mem_append, List.not_mem_nil,
        or_false]
      rintro shape (rfl | hmem | rfl)
      · simp [Grammar.IsElse]
      · exact h shape hmem
      · simp [Grammar.IsElse]

/-- A call is written without `else` if neither its name nor its arguments say it. -/
theorem not_isElse_called {called : String} {row : Node → List Shape} {arguments : List Node}
    (hcalled : Text.lower called ≠ "else")
    (h : ∀ n ∈ arguments, ∀ shape ∈ row n, ¬ Grammar.IsElse shape) :
    ∀ shape ∈ (.name, called) :: (.leftParen, "(") :: Node.argumentShapes (arguments.map row),
      ¬ Grammar.IsElse shape := by
  have hmore : ∀ nodes : List Node, (∀ n ∈ nodes, n ∈ arguments) →
      ∀ shape ∈ moreShapes (nodes.map row) ++ [(.rightParen, ")")], ¬ Grammar.IsElse shape := by
    intro nodes hnodes
    simp only [moreShapes, List.mem_append, List.mem_flatMap, List.mem_map, List.mem_cons,
      List.not_mem_nil, or_false]
    rintro shape (⟨_, ⟨n, hn, rfl⟩, rfl | hmem⟩ | rfl)
    · simp [Grammar.IsElse]
    · exact h n (hnodes n hn) shape hmem
    · simp [Grammar.IsElse]
  rintro shape (_ | ⟨_, _ | ⟨_, hmem⟩⟩)
  · exact fun helse => hcalled helse.2
  · simp [Grammar.IsElse]
  · cases arguments with
    | nil => exact hmore [] (by simp) shape hmem
    | cons n nodes =>
        rcases List.mem_append.1 hmem with hmem | hmem
        · exact h n List.mem_cons_self shape hmem
        · exact hmore nodes (fun m hm => List.mem_cons_of_mem _ hm) shape hmem

theorem lower_qualify_ne (parent name : String) :
    Text.lower (qualify (some parent) name) ≠ "else" :=
  lower_ne_of_point (by simp [qualify]) (by decide)

theorem Node.NoElse.called {parent : Option String} {name : String} {arguments : List Node}
    (h : (Node.call parent name arguments).NoElse) : Text.lower (qualify parent name) ≠ "else" := by
  cases parent with
  | some parent => exact lower_qualify_ne parent name
  | none => simpa [Node.saysElse, qualify] using h _ (Node.mem_walk_self _)

theorem Node.NoElse.argument {parent : Option String} {name : String} {arguments : List Node}
    (h : (Node.call parent name arguments).NoElse) : ∀ n ∈ arguments, n.NoElse :=
  fun n hn => h.part fun _ hm => Node.mem_walk_call.2 (.inr ⟨n, hn, hm⟩)

theorem Node.NoElse.left {op : Operator} {left right : Node}
    (h : (Node.binary op left right).NoElse) : left.NoElse :=
  h.part fun _ hm => Node.mem_walk_binary.2 (.inr (.inl hm))

theorem Node.NoElse.right {op : Operator} {left right : Node}
    (h : (Node.binary op left right).NoElse) : right.NoElse :=
  h.part fun _ hm => Node.mem_walk_binary.2 (.inr (.inr hm))

theorem Node.NoElse.name {n : String} (h : (Node.name n).NoElse) : Text.lower n ≠ "else" := by
  simpa [Node.saysElse] using h _ (Node.mem_walk_self _)

theorem Node.NoElse.not_conditional {condition truthy falsy : Node} :
    ¬ (Node.conditional condition truthy falsy).NoElse :=
  fun h => absurd (h _ (Node.mem_walk_self _)) (by simp [Node.saysElse])

/-- A tree that says no `else` is written without it. -/
theorem Readable.not_isElse {n : Node} (h : Readable n) (hno : n.NoElse) :
    ∀ shape ∈ n.shapes, ¬ Grammar.IsElse shape := by
  induction h with
  | literal _ => exact Scalar.not_isElse
  | list _ => exact Items.not_isElse
  | name _ _ _ => simpa [Node.shapes, Grammar.IsElse] using hno.name
  | @member parent name _ => simpa [Node.shapes, Grammar.IsElse] using lower_qualify_ne parent name
  | call _ _ ih =>
      rw [Node.shapes, Node.shapesAll_eq]
      exact not_isElse_called hno.called fun n hn => ih n hn (hno.argument n hn)
  | binary _ _ ihl ihr =>
      simp only [Node.shapes, List.mem_append, List.mem_cons]
      rintro shape (hmem | rfl | hmem)
      · exact not_isElse_shown (ihl hno.left) _ shape hmem
      · simp [Grammar.IsElse]
      · exact not_isElse_shown (ihr hno.right) _ shape hmem
  | conditional _ _ _ _ _ _ _ => exact absurd hno Node.NoElse.not_conditional

/-- What the shapes of a tree stand for: the tree itself, and its chain unless it is a conditional. -/
structure Node.IsRead (n : Node) : Prop where
  chain : isA .conditional n = false →
    Grammar.Stands (.chain n.chain.head n.chain.links) n.shapes
  expression : Grammar.Stands (.expression n) n.shapes

/-- An operand is its own chain. -/
theorem Node.IsRead.of_operand {n : Node} (h : Grammar.Stands (.operand n) n.shapes)
    (hchain : n.chain = .operand n) : n.IsRead where
  chain _ := by
    rw [hchain]
    exact .single h
  expression := by
    have hexpression := Grammar.Stands.expression (.single h)
    exact hexpression

/-- The chain of an operand that is perhaps shown in brackets. -/
def Node.shownChain (inBrackets : Bool) (n : Node) : Chain :=
  if inBrackets then .operand n else n.chain

theorem Node.group_shownChain (b : Bool) (n : Node) :
    (Chain.group (shownChain b n).head (shownChain b n).links).toNode = n := by
  cases b with
  | false => exact n.group_chain
  | true => rfl

/-- An operand as it is shown beside an operator. -/
theorem Node.IsRead.shown {n : Node} (h : n.IsRead) {b : Bool}
    (hb : b = false → isA .conditional n = false) :
    Grammar.Stands (.chain (shownChain b n).head (shownChain b n).links)
      (shownShapes b n.shapes) := by
  cases b with
  | false => exact h.chain (hb rfl)
  | true => exact .single (.brackets h.expression)

theorem Node.IsRead.binary {op : Operator} {left right : Node} (hl : left.IsRead)
    (hr : right.IsRead) : (Node.binary op left right).IsRead := by
  have hleft := @IsRead.shown left hl (isBracketed op false left) not_conditional_of_not_isBracketed
  have hright := @IsRead.shown right hr (isBracketed op true right)
    not_conditional_of_not_isBracketed
  have hchain : Grammar.Stands
      (.chain (Node.binary op left right).chain.head (Node.binary op left right).chain.links)
      (Node.binary op left right).shapes := .joined hleft hright
  have hexpression := Grammar.Stands.expression hchain
  rw [group_chain] at hexpression
  exact ⟨fun _ => hchain, hexpression⟩

theorem Node.IsRead.conditional {condition truthy falsy : Node} (hc : condition.IsRead)
    (ht : truthy.IsRead) (hf : falsy.IsRead)
    (hno : ∀ shape ∈ condition.shapes, ¬ Grammar.IsElse shape) :
    (Node.conditional condition truthy falsy).IsRead := by
  have htruthy := @IsRead.shown truthy ht (isA .conditional truthy) id
  have hcondition : Grammar.Stands (.expression condition) (shownShapes true condition.shapes) :=
    .expression (.single (.brackets hc.expression))
  have hexpression := Grammar.Stands.conditional htruthy hcondition (not_isElse_shown hno true)
    hf.expression
  rw [group_shownChain] at hexpression
  exact ⟨fun h => absurd h (by simp [isA]), hexpression⟩

theorem Grammar.Stands.argumentRows {row : Node → List Shape} {nodes : List Node}
    (h : ∀ n ∈ nodes, Stands (.expression n) (row n)) :
    Stands (.arguments nodes) (Node.argumentShapes (nodes.map row)) := by
  have hmore {nodes : List Node} (h : ∀ n ∈ nodes, Stands (.expression n) (row n)) :
      Stands (.moreArguments nodes) (moreShapes (nodes.map row) ++ [(.rightParen, ")")]) := by
    induction nodes with
    | nil => exact .lastArgument
    | cons node nodes ih =>
        have hrest := ih fun n hn => h n (List.mem_cons_of_mem _ hn)
        have hnext := Stands.nextArgument (h node List.mem_cons_self) hrest
        simpa [moreShapes] using hnext
  cases nodes with
  | nil => exact .noArguments
  | cons node nodes =>
      have hrest := hmore fun n hn => h n (List.mem_cons_of_mem _ hn)
      exact .arguments (h node List.mem_cons_self) hrest

/-- The shapes of a tree stand for the tree. -/
theorem Readable.isRead {n : Node} (h : Readable n)
    (hfinite : ∀ m ∈ n.walk, ∀ value ∈ m.values, value.IsFinite) : n.IsRead := by
  induction h with
  | @literal value hvalue =>
      have hvalue' := hfinite _ (Node.mem_walk_self _) value (by simp [Node.values])
      exact .of_operand (Scalar.stands hvalue hvalue') rfl
  | list hitems => exact .of_operand (Items.stands hitems (hfinite _ (Node.mem_walk_self _))) rfl
  | name hname htrue hfalse => exact .of_operand (.name hname htrue hfalse) rfl
  | member hname => exact .of_operand (.member hname) rfl
  | @call parent name arguments hname _ ih =>
      have harguments : ∀ n ∈ arguments, n.IsRead := by
        refine fun n hn => ih n hn fun m hm => hfinite m ?_
        exact Node.mem_walk_call.2 (.inr ⟨n, hn, hm⟩)
      refine .of_operand ?_ rfl
      rw [Node.shapes, Node.shapesAll_eq]
      exact .call hname (.argumentRows fun n hn => (harguments n hn).expression)
  | binary _ _ ihl ihr =>
      have hl := ihl fun m hm => hfinite m (Node.mem_walk_binary.2 (.inr (.inl hm)))
      have hr := ihr fun m hm => hfinite m (Node.mem_walk_binary.2 (.inr (.inr hm)))
      exact .binary hl hr
  | conditional hcondition hno _ _ ihc iht ihf =>
      have hc := ihc fun m hm => hfinite m (Node.mem_walk_conditional.2 (.inr (.inl hm)))
      have ht := iht fun m hm => hfinite m (Node.mem_walk_conditional.2 (.inr (.inr (.inl hm))))
      have hf := ihf fun m hm => hfinite m (Node.mem_walk_conditional.2 (.inr (.inr (.inr hm))))
      exact .conditional hc ht hf (hcondition.not_isElse hno)

/-! ## The round trip -/

/-- The source of a tree that was read is read as the same tree, if it is written down with finite
values and with nothing named `not` before the operator `in`. -/
theorem parse_source {strict strict' : Bool} {s : String} {ts : List Token} {t : Node}
    (hlex : tokenize strict s = .ok ts) (hparse : parseTokens ts = .ok t)
    (hfinite : ∀ n ∈ t.walk, ∀ value ∈ n.values, value.IsFinite)
    (hnot : ∀ left right, .binary .member left right ∈ t.walk → ¬ left.endsInNot) :
    ∃ ts', tokenize strict' t.source = .ok ts' ∧ parseTokens ts' = .ok t := by
  have hderives := Grammar.derives_of_parseTokens hparse
  have hreadable : Readable t :=
    hderives.readable (isLexed_of_tokenize hlex) t (by simp [Grammar.Meaning.nodes])
  have hwritten := hreadable.isWrittenAs ⟨hfinite, hnot⟩
  have hlexes := hwritten.lexes [] (.inl (by simp))
  obtain ⟨ts', htokens, hshapes⟩ := hlexes.tokenize strict'
  have hstands := (hreadable.isRead hfinite).expression ts' hshapes
  exact ⟨ts', htokens, Grammar.parseTokens_of_derives hstands⟩

/-- The tokens of `a - (b - 1) if x in ['u'] else c`. -/
def bracketedTokens : List Token :=
  [⟨.name, "a", 0, "a"⟩, ⟨.operator, "-", 1, "-"⟩, ⟨.leftParen, "(", 2, "("⟩, ⟨.name, "b", 3, "b"⟩,
    ⟨.operator, "-", 4, "-"⟩, ⟨.number, "1", 5, "1"⟩, ⟨.rightParen, ")", 6, ")"⟩,
    ⟨.name, "if", 7, "if"⟩, ⟨.name, "x", 8, "x"⟩, ⟨.operator, "in", 9, "in"⟩,
    ⟨.leftBracket, "[", 10, "["⟩, ⟨.string, "u", 11, "'u'"⟩, ⟨.rightBracket, "]", 12, "]"⟩,
    ⟨.name, "else", 13, "else"⟩, ⟨.name, "c", 14, "c"⟩]

/-- The tree of `a - (b - 1) if x in ['u'] else c`. -/
def bracketedTree : Node :=
  .conditional (.binary .member (.name "x") (.list (.strings ["u"])))
    (.binary .minus (.name "a") (.binary .minus (.name "b") (.literal (.int 1)))) (.name "c")

theorem parse_source_bracketedTree :
    ∃ ts, tokenize false bracketedTree.source = .ok ts ∧ parseTokens ts = .ok bracketedTree := by
  have hlex : tokenize true "a - (b - 1) if x in ['u'] else c" = .ok bracketedTokens := by rfl
  have hparse : parseTokens bracketedTokens = .ok bracketedTree := by cbv
  refine parse_source hlex hparse ?_ ?_
  · simp [bracketedTree, Node.values, Items.toList, Scalar.IsFinite, or_imp, forall_and]
  · have hname : Text.lower "x" ≠ "not" := by decide
    simpa [bracketedTree, Node.endsInNot] using hname

end Formula
