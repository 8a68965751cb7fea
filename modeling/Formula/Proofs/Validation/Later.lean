import Formula.Interpreter.Expression
import Formula.Proofs.Member.Reading
import Formula.Proofs.Member.Resolution
import Formula.Proofs.Scope.Binding

set_option autoImplicit false

/-! # The life of an expression

After it was validated an expression is given values for its variables, again and again, while the
globals stay as they are (`Expression.Later`). What this keeps is that the scope of the expression
binds the same names, with the same tables, that nothing else is bound in another way, and that the
objects of the globals have the data that they had (`Expression.Since`).

Main statement: `Expression.Later.since`. -/

namespace Formula

/-- Whatever data the objects of the globals have of their own, they keep. -/
def Interpreter.KeepsGlobals (i : Interpreter) (w : World) (heap heap' : Heap) : Prop :=
  ∀ g b name, w.lookup i.globals g = some b → OwnsData i.host heap b.value name →
    OwnsData i.host heap' b.value name

namespace Interpreter.KeepsGlobals

variable {i : Interpreter} {w : World} {heap heap' heap'' : Heap}

theorem refl (i : Interpreter) (w : World) (heap : Heap) : i.KeepsGlobals w heap heap :=
  fun _ _ _ _ h => h

theorem trans (h : i.KeepsGlobals w heap heap') (h' : i.KeepsGlobals w heap' heap'') :
    i.KeepsGlobals w heap heap'' :=
  fun g b name hlookup hdata => h' g b name hlookup (h g b name hlookup hdata)

end Interpreter.KeepsGlobals

namespace Expression

/-- The worlds that come after a world while only variables with the given names are bound in the
expression. Elsewhere the heap may change, but no data of the objects of the globals is lost, and
signatures may be kept in the tables. -/
inductive Later (i : Interpreter) (e : Expression) (names : List String) (w : World) : World → Prop
  | now : Later i e names w w
  | assign {w₁ w₂ : World} {name : String} {v : Value} : Later i e names w w₁ → name ∈ names →
      e.assign i name v w₁ = (.ok (), w₂) → Later i e names w w₂
  | assignAll {w₁ w₂ : World} {values : Dictionary String Value} : Later i e names w w₁ →
      (∀ name ∈ values.keys, name ∈ names) → e.assignAll i values w₁ = (.ok (), w₂) →
      Later i e names w w₂
  | elsewhere {w₁ : World} {store : Store} : Later i e names w w₁ → w₁.store.Alike i.host store →
      i.KeepsGlobals w w₁.store.heap store.heap → Later i e names w { w₁ with store }

/-- What stays as it is while an expression is given values. -/
structure Since (i : Interpreter) (e : Expression) (w w' : World) : Prop
    extends World.OnlyBinds e.scope w w' where
  tables : w.store.Alike i.host w'.store
  globals : i.KeepsGlobals w w.store.heap w'.store.heap
  bound : ∀ {name b}, (w.scope e.scope).bindings.find? name = some b →
    ∃ b', (w'.scope e.scope).bindings.find? name = some b' ∧ b'.members = b.members
  unbound : ∀ {name}, (w.scope e.scope).bindings.find? name = none →
    (w'.scope e.scope).bindings.find? name = none

namespace Since

variable {i : Interpreter} {e : Expression} {w w₁ w₂ : World}

theorem refl (i : Interpreter) (e : Expression) (w : World) : Since i e w w where
  toOnlyBinds := .refl e.scope w
  tables := .refl w.store
  globals := .refl i w w.store.heap
  bound hb := ⟨_, hb, rfl⟩
  unbound hb := hb

/-- A value for a variable that is bound already. -/
theorem assign (h : Since i e w w₁) (hscope : e.scope < w.scopes.length) {name : String} {v : Value}
    (hname : ((w.scope e.scope).bindings.find? name).isSome = true)
    (hassign : e.assign i name v w₁ = (.ok (), w₂)) : Since i e w w₂ := by
  obtain ⟨b, hb⟩ := Option.isSome_iff_exists.1 hname
  obtain ⟨b₁, hb₁, hmembers⟩ := h.bound hb
  obtain ⟨x, rfl⟩ := WorldAction.of_assign_eq_ok hb₁ hassign
  have hfind := World.find?_bind (w := w₁) (h.count ▸ hscope) name
  refine ⟨h.trans (World.onlyBinds_bind w₁ e.scope name _), h.tables, h.globals, ?_, ?_⟩
  · intro k c hc
    rw [hfind]
    by_cases hk : k = name
    · subst hk
      rw [hb] at hc
      cases hc
      exact ⟨_, if_pos rfl, hmembers⟩
    · rw [if_neg hk]
      exact h.bound hc
  · intro k hk
    rw [hfind, if_neg]
    · exact h.unbound hk
    · rintro rfl
      rw [hb] at hk
      cases hk

theorem assignAll (h : Since i e w w₁) (hscope : e.scope < w.scopes.length)
    {entries : List (String × Value)}
    (hnames : ∀ entry ∈ entries, ((w.scope e.scope).bindings.find? entry.1).isSome = true)
    (hassign : WorldAction.assignAll i.host e.scope entries w₁ = (.ok (), w₂)) : Since i e w w₂ := by
  induction entries generalizing w₁ with
  | nil =>
      rw [WorldAction.assignAll] at hassign
      cases hassign
      exact h
  | cons entry rest ih =>
      obtain ⟨name, v⟩ := entry
      rw [WorldAction.assignAll] at hassign
      obtain ⟨_, w', hfirst, hrest⟩ := of_run_bind_eq_ok hassign
      have hnext := h.assign hscope (hnames _ List.mem_cons_self) hfirst
      exact ih hnext (fun entry hentry => hnames entry (List.mem_cons_of_mem _ hentry)) hrest

/-- What an expression could see it sees still: a variable of its own, with the same table, or a
global as it was. -/
theorem lookup (h : Since i e w w₁) (hparent : (w.scope e.scope).parent = some i.globals)
    {name : String} {b : Binding} (hb : w.lookup e.scope name = some b) :
    ((w.scope e.scope).bindings.find? name = some b ∧
        ∃ b', w₁.lookup e.scope name = some b' ∧ b'.members = b.members) ∨
      (w.lookup i.globals name = some b ∧ w₁.lookup e.scope name = some b) := by
  rw [World.lookup_eq, hparent] at hb
  rw [World.lookup_eq w₁, h.parent, hparent]
  cases hown : (w.scope e.scope).bindings.find? name with
  | some c =>
      rw [hown] at hb
      cases hb
      obtain ⟨b', hb', hmembers⟩ := h.bound hown
      exact .inl ⟨rfl, b', by rw [hb']; rfl, hmembers⟩
  | none =>
      rw [hown] at hb
      rw [h.unbound hown]
      simp only [Option.none_or, Option.bind_some] at hb ⊢
      by_cases hbefore : i.globals < e.scope
      · rw [if_pos hbefore] at hb ⊢
        rw [h.lookup_before hbefore]
        exact .inr ⟨hb, hb⟩
      · rw [if_neg hbefore] at hb
        cases hb

end Since

/-- All that stays while an expression is given values for variables that are bound already. -/
theorem Later.since {i : Interpreter} {e : Expression} {names : List String} {w w' : World}
    (h : Later i e names w w') (hscope : e.scope < w.scopes.length)
    (hbound : ∀ name ∈ names, ((w.scope e.scope).bindings.find? name).isSome = true) :
    Since i e w w' := by
  induction h with
  | now => exact .refl i e w
  | assign _ hname hassign ih => exact ih.assign hscope (hbound _ hname) hassign
  | assignAll _ hnames hassign ih =>
      refine ih.assignAll hscope (fun entry hentry => hbound _ (hnames _ ?_)) hassign
      exact List.mem_map_of_mem hentry
  | elsewhere _ halike hglobals ih =>
      exact { ih with
        tables := ih.tables.trans halike
        globals := ih.globals.trans hglobals }

end Expression

end Formula
