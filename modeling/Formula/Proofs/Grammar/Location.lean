import Formula.Proofs.Grammar.Soundness
import Formula.Proofs.Lexing.Coverage
import Formula.Proofs.Validation.Checks

set_option autoImplicit false

/-! # Where a text is found to be malformed

An error of reading names one of the tokens and gives its index, or it names nothing and gives the
place behind some token. The condition of a conditional is a range of tokens that is read by itself;
the end of the range is the place behind its last token, so an error in it is still one of the whole
row. `Locates` says all this of a computation, and is closed under doing one after the other.

Main statements: `Grammar.locates_parseTokens` and, for tokens that were numbered by reading a text,
`Interpreter.read_points`. -/

namespace Formula

namespace Grammar

/-! ## Places -/

/-- The place of an error in a row of tokens: one of them, which the error names; or the end of the
reading, or the place behind one of them, where no token is named. -/
inductive Blames (stop : Nat) (ts : List Token) : SyntaxError → Prop
  | token {fault : SyntaxFault} {t : Token} : t ∈ ts → Blames stop ts ⟨fault, t.index, some t.text⟩
  | atStop {fault : SyntaxFault} {name : Option String} :
      name.getD "" = "" → Blames stop ts ⟨fault, stop, name⟩
  | behind {fault : SyntaxFault} {name : Option String} {t : Token} :
      t ∈ ts → name.getD "" = "" → Blames stop ts ⟨fault, t.index + 1, name⟩

/-- If a computation finds the tokens malformed, it says where. -/
def Locates {α : Type} (stop : Nat) (ts : List Token) (r : Except Unreadable α) : Prop :=
  ∀ e, r = .error (.malformed e) → Blames stop ts e

section

variable {stop : Nat} {ts us : List Token} {t : Token} {fault : SyntaxFault} {α β : Type}

theorem Blames.mono {e : SyntaxError} (h : Blames stop us e) (hsub : us ⊆ ts) :
    Blames stop ts e := by
  cases h with
  | token hmem => exact .token (hsub hmem)
  | atStop hname => exact .atStop hname
  | behind hmem hname => exact .behind (hsub hmem) hname

/-- The end of a range of tokens is the place behind one of them. -/
theorem exists_endIndex (h : us ≠ []) : ∃ t ∈ us, endIndex us = t.index + 1 := by
  refine ⟨us.getLast h, List.getLast_mem h, ?_⟩
  rw [endIndex, List.getLast?_eq_some_getLast h]

/-- So whoever reads a range as a whole still blames one of all tokens. -/
theorem Blames.range {e : SyntaxError} (h : Blames (endIndex us) us e) (hne : us ≠ [])
    (hsub : us ⊆ ts) : Blames stop ts e := by
  cases h with
  | token hmem => exact .token (hsub hmem)
  | atStop hname =>
      obtain ⟨t, ht, hend⟩ := exists_endIndex hne
      rw [hend]
      exact .behind (hsub ht) hname
  | behind hmem hname => exact .behind (hsub hmem) hname

namespace Locates

theorem ok (a : α) : Locates stop ts (.ok a) := by
  intro e h
  cases h

theorem token (h : t ∈ ts) : Locates (α := α) stop ts (fault.at t) := by
  intro e he
  cases he
  exact .token h

theorem atFirst (h : us ⊆ ts) : Locates (α := α) stop ts (fault.atFirst stop us) := by
  cases us with
  | nil =>
      intro e he
      cases he
      exact .atStop rfl
  | cons t us => exact .token (h (by simp))

theorem atEnd : Locates (α := α) stop ts (fault.atEnd stop) := by
  intro e he
  cases he
  exact .atStop rfl

theorem bind {x : Except Unreadable α} {f : α → Except Unreadable β} (hx : Locates stop ts x)
    (hf : ∀ a, x = .ok a → Locates stop ts (f a)) : Locates stop ts (do let a ← x; f a) := by
  cases x with
  | error cause =>
      intro e he
      cases he
      exact hx e rfl
  | ok a => exact hf a rfl

theorem mono {r : Except Unreadable α} (h : Locates stop us r) (hsub : us ⊆ ts) :
    Locates stop ts r :=
  fun e he => (h e he).mono hsub

theorem range {r : Except Unreadable α} (h : Locates (endIndex us) us r) (hne : us ≠ [])
    (hsub : us ⊆ ts) : Locates stop ts r :=
  fun e he => (h e he).range hne hsub

end Locates

/-! ## Single tokens -/

/-- A number may have no value, but is not malformed. -/
theorem locates_readNumber (negative : Bool) (text : List Char) :
    Locates stop ts (readNumber negative text) := by
  intro e he
  unfold readNumber at he
  split at he
  · cases he
  · split at he <;> cases he

theorem locates_doubleOfInt (n : Int) : Locates stop ts (doubleOfInt n) := by
  intro e he
  unfold doubleOfInt at he
  cases hn : Number.Binary64.ofInt? n <;> rw [hn] at he <;> cases he

theorem locates_mapM {f : α → Except Unreadable β} (h : ∀ a, Locates stop ts (f a))
    (as : List α) : Locates stop ts (as.mapM f) := by
  induction as with
  | nil => exact .ok _
  | cons a as ih =>
      rw [List.mapM_cons]
      exact .bind (h a) fun _ _ => .bind ih fun _ _ => .ok _

/-- The token at which a list mixes kinds is named. -/
theorem locates_mixedAt (h : t ∈ ts) : Locates (α := α) stop ts (.error (mixedAt t)) := by
  intro e he
  cases he
  exact .token h

theorem locates_addNumber (h : t ∈ ts) (known : Option Items) (x : Scalar) :
    Locates stop ts (Items.addNumber (mixedAt t) known x) := by
  unfold Items.addNumber
  split
  · exact locates_mixedAt h
  · exact .ok _
  · exact .bind (locates_mapM locates_doubleOfInt _) fun _ _ => .ok _
  · exact .ok _
  · exact .ok _
  · exact .ok _
  · exact .bind (locates_doubleOfInt _) fun _ _ => .ok _
  · exact locates_mixedAt h

theorem locates_addString (h : t ∈ ts) (known : Option Items) (s : String) :
    Locates stop ts (Items.addString (mixedAt t) known s) := by
  unfold Items.addString
  split
  · exact .ok _
  · exact .ok _
  · exact locates_mixedAt h

theorem locates_splitPath (h : t ∈ ts) : Locates stop ts (splitPath t) := by
  unfold splitPath
  split
  · exact .ok _
  · exact .ok _
  · exact .token h

theorem locates_readName (h : t ∈ ts) : Locates stop ts (readName t) := by
  simp only [readName]
  split
  · exact .ok _
  · split
    · exact .ok _
    · refine .bind (locates_splitPath h) ?_
      rintro ⟨parent, name⟩ _
      cases parent <;> exact .ok _

/-- What is left over behind an expression is named. -/
theorem locates_atEnd (a : α) (h : us ⊆ ts) : Locates stop ts (atEnd a us) := by
  cases us with
  | nil => exact .ok a
  | cons t us =>
      have ht : t ∈ ts := h (by simp)
      rw [Formula.atEnd]
      split
      · exact .token ht
      · exact .token ht

/-! ## Lists -/

mutual

theorem locates_readItems (known : Option Items) (us : List Token) (h : us ⊆ ts) :
    Locates stop ts (readItems stop known us) := by
  match us with
  | [] =>
      rw [readItems.eq_def]
      exact .atEnd
  | t :: us =>
      obtain ⟨ht, hus⟩ := List.cons_subset.1 h
      rw [readItems.eq_def]
      simp only
      split
      · split
        · exact .ok _
        · exact .token ht
      · exact .bind (locates_addString ht _ _) fun items _ => locates_readSeparator items us hus
      · exact .bind (locates_readNumber _ _) fun _ _ =>
          .bind (locates_addNumber ht _ _) fun items _ => locates_readSeparator items us hus
      · split
        · match us with
          | [] => exact .atFirst (List.nil_subset _)
          | n :: us =>
              obtain ⟨hn, hus⟩ := List.cons_subset.1 hus
              simp only
              split
              · exact .bind (locates_readNumber _ _) fun _ _ =>
                  .bind (locates_addNumber ht _ _) fun items _ => locates_readSeparator items us hus
              · exact .token hn
        · exact .token ht
      · exact .token ht
termination_by us.length

theorem locates_readSeparator (items : Items) (us : List Token) (h : us ⊆ ts) :
    Locates stop ts (readSeparator stop items us) := by
  match us with
  | [] =>
      rw [readSeparator]
      exact .atFirst (List.nil_subset _)
  | t :: us =>
      obtain ⟨ht, hus⟩ := List.cons_subset.1 h
      rw [readSeparator]
      split
      · exact locates_readItems (some items) us hus
      · exact .ok _
      · exact .token ht
termination_by us.length

end

theorem locates_readList (ht : t ∈ ts) (h : us ⊆ ts) : Locates stop ts (readList stop t us) := by
  cases us with
  | nil => exact .atEnd
  | cons u us =>
      rw [readList]
      split
      · exact .token ht
      · exact .bind (locates_readItems none _ h) fun _ _ => .ok _

end

/-! ## Expressions -/

/-- Every reader says where the tokens are malformed, at some depth of calls. -/
structure Locating (fuel : Nat) : Prop where
  expression : ∀ (stop : Nat) (ts : List Token), Locates stop ts (readExpression fuel stop ts)
  whole : ∀ ts : List Token, Locates (endIndex ts) ts (readWhole fuel ts)
  links : ∀ (stop : Nat) (ts : List Token), Locates stop ts (readLinks fuel stop ts)
  operand : ∀ (stop : Nat) (ts : List Token), Locates stop ts (readOperand fuel stop ts)
  arguments : ∀ (stop : Nat) (ts : List Token), Locates stop ts (readArguments fuel stop ts)
  moreArguments : ∀ (stop : Nat) (ts : List Token),
    Locates stop ts (readMoreArguments fuel stop ts)

namespace Locating

variable {fuel : Nat} (ih : Locating fuel) (stop : Nat) (ts : List Token)

include ih

theorem readExpression_succ : Locates stop ts (readExpression (fuel + 1) stop ts) := by
  rw [readExpression]
  refine .bind (ih.operand stop ts) ?_
  rintro ⟨first, after⟩ hfirst
  obtain ⟨us, rfl, _⟩ := (sound fuel).operand hfirst
  refine .bind ((ih.links stop after).mono (List.subset_append_right _ _)) ?_
  rintro ⟨links, rest⟩ hlinks
  obtain ⟨vs, rfl, _⟩ := (sound fuel).links hlinks
  have hsub : rest ⊆ us ++ (vs ++ rest) :=
    fun t ht => List.mem_append_right _ (List.mem_append_right _ ht)
  cases rest with
  | nil => exact .ok _
  | cons i rest =>
      obtain ⟨hi, hrest⟩ := List.cons_subset.1 hsub
      simp only
      split
      · split
        · exact .token hi
        · exact .token hi
        next range alternative hne hsplit =>
          obtain ⟨e, _, _, rfl⟩ := splitElse_sound hsplit
          have hrange : range ⊆ us ++ (vs ++ i :: (range ++ e :: alternative)) :=
            fun t ht => hrest (List.mem_append_left _ ht)
          have halternative : alternative ⊆ us ++ (vs ++ i :: (range ++ e :: alternative)) :=
            fun t ht => hrest (List.mem_append_right _ (List.mem_cons_of_mem _ ht))
          refine .bind ((ih.whole range).range hne hrange) fun condition _ => ?_
          cases alternative with
          | nil => exact .atEnd
          | cons t alternative =>
              exact .bind ((ih.expression stop _).mono halternative) fun _ _ => .ok _
      · exact .ok _

theorem readWhole_succ : Locates (endIndex ts) ts (readWhole (fuel + 1) ts) := by
  rw [readWhole]
  refine .bind (ih.expression _ ts) ?_
  rintro ⟨node, rest⟩ hread
  obtain ⟨used, rfl, _⟩ := (sound fuel).expression hread
  exact locates_atEnd node (List.subset_append_right _ _)

theorem readLinks_succ : Locates stop ts (readLinks (fuel + 1) stop ts) := by
  cases ts with
  | nil =>
      rw [readLinks]
      exact .ok _
  | cons o ts =>
      rw [readLinks]
      split
      · exact .ok _
      · refine .bind ((ih.operand stop ts).mono (List.subset_cons_self _ _)) ?_
        rintro ⟨node, rest⟩ hnode
        obtain ⟨us, rfl, _⟩ := (sound fuel).operand hnode
        have hsub : rest ⊆ o :: (us ++ rest) :=
          fun t ht => List.mem_cons_of_mem _ (List.mem_append_right _ ht)
        exact .bind ((ih.links stop rest).mono hsub) fun _ _ => .ok _

theorem readOperand_succ : Locates stop ts (readOperand (fuel + 1) stop ts) := by
  cases ts with
  | nil =>
      rw [readOperand.eq_def]
      exact .atEnd
  | cons t ts =>
      have ht : t ∈ t :: ts := List.mem_cons_self
      have hts : ts ⊆ t :: ts := List.subset_cons_self _ _
      have hname : Locates stop (t :: ts) (do return (← readName t, ts)) :=
        .bind (locates_readName ht) fun _ _ => .ok _
      rw [readOperand.eq_def]
      simp only
      split
      · refine .bind ((ih.expression stop ts).mono hts) ?_
        rintro ⟨node, rest⟩ hnode
        obtain ⟨used, rfl, _⟩ := (sound fuel).expression hnode
        cases rest with
        | nil => exact .atFirst (List.nil_subset _)
        | cons close rest =>
            simp only
            split
            · exact .ok _
            · exact .token (hts (by simp))
      · exact .ok _
      · exact locates_readList ht hts
      · split
        · cases ts with
          | nil => exact .atFirst (List.nil_subset _)
          | cons n ts =>
              simp only
              split
              · exact .bind (locates_readNumber _ _) fun _ _ => .ok _
              · exact .token (hts (by simp))
        · exact .token ht
      · exact .bind (locates_readNumber _ _) fun _ _ => .ok _
      · cases ts with
        | nil => exact hname
        | cons opening ts =>
            simp only
            split
            · refine .bind (locates_splitPath ht) ?_
              rintro ⟨parent, name⟩ _
              have hsub : ts ⊆ t :: opening :: ts := fun u hu => hts (List.mem_cons_of_mem _ hu)
              exact .bind ((ih.arguments stop ts).mono hsub) fun _ _ => .ok _
            · exact hname
      · exact .token ht

theorem readArguments_succ : Locates stop ts (readArguments (fuel + 1) stop ts) := by
  cases ts with
  | nil =>
      rw [readArguments]
      exact .atEnd
  | cons t ts =>
      simp only [readArguments]
      split
      · exact .ok _
      · refine .bind (ih.expression stop _) ?_
        rintro ⟨node, rest⟩ hnode
        obtain ⟨used, hused, _⟩ := (sound fuel).expression hnode
        rw [hused]
        have hmore := (ih.moreArguments stop rest).mono (List.subset_append_right used rest)
        exact .bind hmore fun _ _ => .ok _

theorem readMoreArguments_succ : Locates stop ts (readMoreArguments (fuel + 1) stop ts) := by
  cases ts with
  | nil =>
      rw [readMoreArguments]
      exact .atFirst (List.nil_subset _)
  | cons t ts =>
      simp only [readMoreArguments]
      split
      · exact .ok _
      · refine .bind ((ih.expression stop ts).mono (List.subset_cons_self _ _)) ?_
        rintro ⟨node, rest⟩ hnode
        obtain ⟨used, rfl, _⟩ := (sound fuel).expression hnode
        have hsub : rest ⊆ t :: (used ++ rest) :=
          fun u hu => List.mem_cons_of_mem _ (List.mem_append_right _ hu)
        exact .bind ((ih.moreArguments stop rest).mono hsub) fun _ _ => .ok _
      · exact .token List.mem_cons_self

end Locating

theorem locating (fuel : Nat) : Locating fuel := by
  induction fuel with
  | zero =>
      constructor <;> intros <;>
        simp only [readExpression, readWhole, readLinks, readOperand, readArguments,
          readMoreArguments] <;>
        exact .atEnd
  | succ fuel ih =>
      exact {
        expression := ih.readExpression_succ
        whole := ih.readWhole_succ
        links := ih.readLinks_succ
        operand := ih.readOperand_succ
        arguments := ih.readArguments_succ
        moreArguments := ih.readMoreArguments_succ }

/-- A row of tokens that is malformed is so at one of its tokens, which is named, or behind one of
them, where nothing is. -/
theorem locates_parseTokens {ts : List Token} (h : ts ≠ []) :
    Locates (endIndex ts) ts (parseTokens ts) := by
  cases ts with
  | nil => exact absurd rfl h
  | cons t ts => exact (locating _).whole (t :: ts)

end Grammar

/-! ## Numbered tokens -/

section

variable {strict : Bool} {text : String} {tokens : List Token}

theorem index_of_tokenize (h : tokenize strict text = .ok tokens) {i : Nat} {t : Token}
    (hi : tokens[i]? = some t) : t.index = i := by
  rw [eq_tokensFrom_of_tokenize h] at hi
  rw [index_of_getElem?_tokensFrom hi, Nat.zero_add]

theorem pairwise_index_of_tokenize (h : tokenize strict text = .ok tokens) :
    tokens.Pairwise (·.index < ·.index) := by
  refine List.pairwise_iff_getElem.2 fun i j hi hj hij => ?_
  rw [index_of_tokenize h (List.getElem?_eq_getElem hi),
    index_of_tokenize h (List.getElem?_eq_getElem hj)]
  exact hij

/-- A token is found again under its index. -/
theorem getElem?_index_of_tokenize (h : tokenize strict text = .ok tokens) {t : Token}
    (ht : t ∈ tokens) : tokens[t.index]? = some t := by
  obtain ⟨i, hi⟩ := List.mem_iff_getElem?.1 ht
  rw [index_of_tokenize h hi]
  exact hi

theorem index_lt_of_tokenize (h : tokenize strict text = .ok tokens) {t : Token}
    (ht : t ∈ tokens) : t.index < tokens.length :=
  (List.getElem?_eq_some_iff.1 (getElem?_index_of_tokenize h ht)).1

theorem endIndex_of_tokenize (h : tokenize strict text = .ok tokens) (hne : tokens ≠ []) :
    endIndex tokens = tokens.length := by
  have hlast : tokens[tokens.length - 1]? = some (tokens.getLast hne) := by
    rw [← List.getLast?_eq_getElem?, List.getLast?_eq_some_getLast hne]
  have hindex := index_of_tokenize h hlast
  have hpos : 0 < tokens.length := List.length_pos_iff.2 hne
  rw [endIndex, List.getLast?_eq_some_getLast hne]
  simp only
  omega

/-- Among numbered tokens the index of an error is that of the token it names, or that of any token
or the one behind the last. -/
theorem Grammar.Blames.index_le {e : SyntaxError} (he : Blames (endIndex tokens) tokens e)
    (h : tokenize strict text = .ok tokens) (hne : tokens ≠ []) :
    e.index ≤ tokens.length ∧ ∀ name ∈ e.token, name ≠ "" →
      ∃ t, tokens[e.index]? = some t ∧ t.text = name := by
  have hunnamed {name : Option String} (hname : name.getD "" = "") : ∀ s ∈ name, s = "" := by
    rintro s rfl
    exact hname
  cases he with
  | token ht =>
      refine ⟨Nat.le_of_lt (index_lt_of_tokenize h ht), ?_⟩
      rintro name ⟨⟩ _
      exact ⟨_, getElem?_index_of_tokenize h ht, rfl⟩
  | atStop hname =>
      refine ⟨Nat.le_of_eq (endIndex_of_tokenize h hne), fun s hs hsome => ?_⟩
      exact absurd (hunnamed hname s hs) hsome
  | behind ht hname =>
      refine ⟨index_lt_of_tokenize h ht, fun s hs hsome => ?_⟩
      exact absurd (hunnamed hname s hs) hsome

end

/-! ## Main statement -/

theorem Interpreter.run_read (i : Interpreter) (text : String) (σ : Store) :
    (i.read text σ).1 = readText i.config.strict text :=
  congrArg Prod.fst (Setting.run_ofExcept _ _)

/-- The error of a text that is malformed points at one of its tokens, or behind the last: its index
is no greater than their number, and where it names a token it is the token of that index. What the
interpreter reports then is the error at the last token at most, and names the token there. (Where
the tokens before the error are nested too deeply to be read, it is not the error that is met.) -/
theorem Interpreter.read_points {i : Interpreter} {text : String} {tokens : List Token}
    {e : SyntaxError} (htokens : tokenize i.config.strict text = .ok tokens) (hne : tokens ≠ [])
    (hparse : parseTokens tokens = .error (.malformed e)) :
    e.index ≤ tokens.length ∧
      (∀ name ∈ e.token, name ≠ "" →
        e.index < tokens.length ∧ ∃ t, tokens[e.index]? = some t ∧ t.text = name) ∧
      (isTooDeep (tokens.take e.index) = false →
        ∃ t, tokens[min e.index (tokens.length - 1)]? = some t ∧
          ∀ σ, (i.read text σ).1 = .error (.unreadable ⟨sanitize text, e.fault.message,
            some (min e.index (tokens.length - 1), t.text)⟩)) := by
  have hblames := Grammar.locates_parseTokens hne e hparse
  obtain ⟨hindex, hnamed⟩ := hblames.index_le htokens hne
  refine ⟨hindex, fun name hname hsome => ?_, fun hshallow => ?_⟩
  · obtain ⟨t, ht, htext⟩ := hnamed name hname hsome
    exact ⟨(List.getElem?_eq_some_iff.1 ht).1, t, ht, htext⟩
  · have hpos : 0 < tokens.length := List.length_pos_iff.2 hne
    have hlt : min e.index (tokens.length - 1) < tokens.length := by omega
    have ht := List.getElem?_eq_getElem hlt
    refine ⟨_, ht, fun σ => ?_⟩
    rw [run_read, readText, htokens]
    simp only [readTokens, hparse, hshallow]
    simp [ReadError.ofSyntax, hne, ht]

/-- The tokens of `1 if 2 3 else 4`. -/
def crowdedTokens : List Token :=
  [⟨.number, "1", 0, "1"⟩, ⟨.name, "if", 1, "if"⟩, ⟨.number, "2", 2, "2"⟩,
    ⟨.number, "3", 3, "3"⟩, ⟨.name, "else", 4, "else"⟩, ⟨.number, "4", 5, "4"⟩]

/-- In the condition `2 3` of `1 if 2 3 else 4` the token `3` is one too many; it is the second one
of its range and the fourth of the text. -/
theorem Interpreter.read_points_condition :
    tokenize echoing.config.strict "1 if 2 3 else 4" = .ok crowdedTokens ∧ crowdedTokens ≠ [] ∧
      parseTokens crowdedTokens = .error (.malformed ⟨.unexpected "3", 3, some "3"⟩) ∧
      isTooDeep (crowdedTokens.take 3) = false ∧
      3 ≤ crowdedTokens.length ∧
      (∀ name ∈ some "3", name ≠ "" →
        3 < crowdedTokens.length ∧ ∃ t, crowdedTokens[3]? = some t ∧ t.text = name) ∧
      ∃ t, crowdedTokens[min 3 (crowdedTokens.length - 1)]? = some t ∧
        ∀ σ, (echoing.read "1 if 2 3 else 4" σ).1 =
          .error (.unreadable ⟨sanitize "1 if 2 3 else 4", (SyntaxFault.unexpected "3").message,
            some (min 3 (crowdedTokens.length - 1), t.text)⟩) := by
  have htokens : tokenize echoing.config.strict "1 if 2 3 else 4" = .ok crowdedTokens := by rfl
  have hne : crowdedTokens ≠ [] := by simp [crowdedTokens]
  have hparse : parseTokens crowdedTokens =
      .error (.malformed ⟨.unexpected "3", 3, some "3"⟩) := by cbv
  have hdepth : Nesting.deepest [] (crowdedTokens.take 3) = 0 := by rfl
  have hshallow : isTooDeep (crowdedTokens.take 3) = false := by
    rw [isTooDeep, hdepth]
    rfl
  obtain ⟨hindex, hnamed, hread⟩ := read_points htokens hne hparse
  exact ⟨htokens, hne, hparse, hshallow, hindex, hnamed, hread hshallow⟩

end Formula
