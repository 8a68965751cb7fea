import Formula.Function.Catalogue
import Mathlib.Data.List.Induction
import Mathlib.Data.List.Nodup

set_option autoImplicit false

/-! # The views of a function table

A table in which every function stands under its own name, and no name stands twice, shows the same
functions in all its views: sorted by name, category by category, and in the catalogue.

Main statements: `FunctionTable.IsNamed.pairwise_sorted`,
`FunctionTable.IsNamed.perm_flatMap_ofCategory` and `FunctionTable.IsNamed.perm_listed`. -/

namespace Formula

/-! ## Categories -/

namespace FunctionCategory

theorem mem_all (c : FunctionCategory) : c ∈ all := by
  cases c <;> decide

theorem nodup_all : all.Nodup := by decide

theorem label_injective : Function.Injective label := by
  intro c c' h
  cases c <;> cases c' <;> first | rfl | exact absurd h (by decide)

end FunctionCategory

/-! ## Dictionaries with other keys and values -/

namespace Dictionary

variable {κ κ' α β : Type} {g : κ → κ'}

/-- Keys that are renamed apart lead to what stood under them. -/
theorem find?_map [DecidableEq κ] [DecidableEq κ'] (hg : Function.Injective g) (h : α → β)
    (d : Dictionary κ α) (key : κ) :
    (⟨d.entries.map fun e => (g e.1, h e.2)⟩ : Dictionary κ' β).find? (g key) =
      (d.find? key).map h := by
  obtain ⟨entries⟩ := d
  simp only [find?]
  induction entries with
  | nil => rfl
  | cons e rest ih =>
      obtain ⟨k, a⟩ := e
      by_cases hkey : k = key
      · simp [findIn, hkey]
      · simp [findIn, hkey, hg.ne hkey, ih]

theorem nodup_keys_map (hg : Function.Injective g) (h : α → β) {d : Dictionary κ α}
    (hd : d.keys.Nodup) :
    (⟨d.entries.map fun e => (g e.1, h e.2)⟩ : Dictionary κ' β).keys.Nodup := by
  have hkeys : (⟨d.entries.map fun e => (g e.1, h e.2)⟩ : Dictionary κ' β).keys = d.keys.map g := by
    simp [keys]
  rw [hkeys]
  exact hd.map hg

end Dictionary

namespace FunctionTable

variable {table : FunctionTable} {f : FunctionDefinition}

/-! ## Tables by name -/

/-- Every function stands under its own name, and no name stands twice. -/
structure IsNamed (table : FunctionTable) : Prop where
  distinct : table.keys.Nodup
  named : ∀ {name f}, table.find? name = some f → f.name = name

theorem isNamed_empty : IsNamed .empty := ⟨List.nodup_nil, fun h => by cases h⟩

theorem find?_register (table : FunctionTable) (f : FunctionDefinition) (name : String) :
    (table.register f).find? name = if name = f.name then some f else table.find? name :=
  Dictionary.find?_put table f.name name f

theorem IsNamed.register (h : table.IsNamed) (f : FunctionDefinition) :
    (table.register f).IsNamed where
  distinct := Dictionary.nodup_keys_put h.distinct f.name f
  named {name g} hfound := by
    rw [find?_register] at hfound
    split at hfound
    next hname =>
      cases hfound
      exact hname.symm
    · exact h.named hfound

namespace IsNamed

theorem mem_values (h : table.IsNamed) : f ∈ table.values ↔ table.find? f.name = some f := by
  constructor
  · intro hmem
    obtain ⟨⟨name, g⟩, hentry, rfl⟩ := List.mem_map.1 hmem
    have hfound := (Dictionary.mem_entries_iff h.distinct).1 hentry
    rwa [h.named hfound]
  · intro hfound
    exact List.mem_map.2 ⟨_, (Dictionary.mem_entries_iff h.distinct).2 hfound, rfl⟩

theorem map_name_values (h : table.IsNamed) : table.values.map (·.name) = table.keys := by
  unfold Dictionary.values Dictionary.keys
  rw [List.map_map]
  refine List.map_congr_left fun e he => ?_
  exact h.named ((Dictionary.mem_entries_iff h.distinct).1 he)

theorem nodup_values (h : table.IsNamed) : table.values.Nodup :=
  .of_map (·.name) (h.map_name_values ▸ h.distinct)

end IsNamed

/-! ## Sorted by name -/

theorem perm_sorted (table : FunctionTable) : table.sorted.Perm table.values :=
  List.mergeSort_perm _ _

/-- The sorted functions have names that increase strictly. -/
theorem IsNamed.pairwise_sorted (h : table.IsNamed) :
    table.sorted.Pairwise fun f g => f.name < g.name := by
  have hordered : table.sorted.Pairwise fun f g => decide (f.name ≤ g.name) = true := by
    refine List.pairwise_mergeSort ?_ ?_ table.values
    · intro f g k hfg hgk
      simp only [decide_eq_true_eq] at hfg hgk ⊢
      exact String.le_trans hfg hgk
    · intro f g
      simpa using String.le_total f.name g.name
  have hdistinct : table.sorted.Pairwise fun f g => f.name ≠ g.name := by
    have hnames : (table.sorted.map (·.name)).Nodup :=
      ((table.perm_sorted.map (·.name)).nodup_iff).2 (h.map_name_values ▸ h.distinct)
    exact List.pairwise_map.1 hnames
  refine (hordered.and hdistinct).imp fun {f g} hboth => ?_
  obtain ⟨hle, hne⟩ := hboth
  exact String.not_le.1 fun hge => hne (String.le_antisymm (of_decide_eq_true hle) hge)

/-! ## Category by category -/

theorem mem_ofCategory {c : FunctionCategory} :
    f ∈ table.ofCategory c ↔ f ∈ table.values ∧ f.category = c := by
  simp [ofCategory, List.mem_filter]

/-- The functions of different categories, put together, are all functions, if no category is left
out that has one. -/
theorem IsNamed.perm_flatMap_ofCategory (h : table.IsNamed) {cs : List FunctionCategory}
    (hcs : cs.Nodup) (hall : ∀ f ∈ table.values, f.category ∈ cs) :
    (cs.flatMap table.ofCategory).Perm table.values := by
  have hnodup : (cs.flatMap table.ofCategory).Nodup := by
    refine List.nodup_flatMap.2 ⟨fun c _ => h.nodup_values.filter _, hcs.imp fun hne => ?_⟩
    intro f hf hf'
    exact hne ((mem_ofCategory.1 hf).2.symm.trans (mem_ofCategory.1 hf').2)
  refine (List.perm_ext_iff_of_nodup hnodup h.nodup_values).2 fun f => ?_
  rw [List.mem_flatMap]
  constructor
  · rintro ⟨c, _, hf⟩
    exact (mem_ofCategory.1 hf).1
  · intro hf
    exact ⟨f.category, hall f hf, mem_ofCategory.2 ⟨hf, rfl⟩⟩

/-- Groups of functions by category, with one more function. -/
def addToGroup (groups : Dictionary FunctionCategory (List FunctionDefinition))
    (f : FunctionDefinition) : Dictionary FunctionCategory (List FunctionDefinition) :=
  groups.put f.category ((groups.find? f.category).getD [] ++ [f])

theorem find?_foldl_addToGroup (fs : List FunctionDefinition) (c : FunctionCategory) :
    (fs.foldl addToGroup .empty).find? c =
      if fs.filter (·.category == c) = [] then none else some (fs.filter (·.category == c)) := by
  induction fs using List.reverseRecOn with
  | nil => rfl
  | append_singleton fs f ih =>
      rw [List.foldl_append, List.foldl_cons, List.foldl_nil, addToGroup, Dictionary.find?_put]
      by_cases hc : c = f.category
      · subst hc
        rw [if_pos rfl, ih]
        by_cases hnone : fs.filter (·.category == f.category) = []
        · simp [hnone]
        · simp [hnone]
      · have hother : (f.category == c) = false := by simpa using Ne.symm hc
        rw [if_neg hc, ih, List.filter_append]
        simp [hother]

/-- Under each category the groups have the functions of it, if there are any. -/
theorem find?_byCategory (table : FunctionTable) (c : FunctionCategory) :
    table.byCategory.find? c =
      if table.ofCategory c = [] then none else some (table.ofCategory c) :=
  find?_foldl_addToGroup table.values c

theorem nodup_keys_byCategory (table : FunctionTable) : table.byCategory.keys.Nodup :=
  List.foldlRecOn (motive := fun groups : Dictionary FunctionCategory _ => groups.keys.Nodup) _ _
    List.nodup_nil fun _ h _ _ => Dictionary.nodup_keys_put h _ _

theorem entries_byCategory (table : FunctionTable) :
    table.byCategory.entries = table.byCategory.keys.map fun c => (c, table.ofCategory c) := by
  unfold Dictionary.keys
  rw [List.map_map]
  refine (List.map_id' _).symm.trans (List.map_congr_left fun group hgroup => ?_)
  have hfound := (Dictionary.mem_entries_iff table.nodup_keys_byCategory).1 hgroup
  rw [find?_byCategory] at hfound
  split at hfound
  · cases hfound
  · exact Prod.ext rfl (Option.some_inj.1 hfound).symm

theorem category_mem_keys_byCategory (hf : f ∈ table.values) :
    f.category ∈ table.byCategory.keys := by
  have hne : table.ofCategory f.category ≠ [] :=
    List.ne_nil_of_mem (mem_ofCategory.2 ⟨hf, rfl⟩)
  rw [Dictionary.mem_keys, Dictionary.contains, find?_byCategory, if_neg hne]
  rfl

/-! ## The catalogue -/

theorem find?_functions_catalogue (table : FunctionTable) (name : String) :
    table.catalogue.functions.find? name = (table.find? name).map (·.entry) :=
  Dictionary.find?_map Function.injective_id (·.entry) table name

/-- No label stands twice in the catalogue, and no name. -/
theorem IsNamed.distinct_catalogue (h : table.IsNamed) :
    table.catalogue.functions.keys.Nodup ∧ table.catalogue.byCategory.keys.Nodup :=
  ⟨Dictionary.nodup_keys_map Function.injective_id _ h.distinct,
    Dictionary.nodup_keys_map FunctionCategory.label_injective _ table.nodup_keys_byCategory⟩

/-- By category the catalogue shows each function once, under the label of its category. -/
theorem IsNamed.perm_listed (h : table.IsNamed) :
    table.catalogue.listed.Perm (table.values.map fun f => (f.category.label, f.entry)) := by
  have hlisted : table.catalogue.listed =
      (table.byCategory.keys.flatMap table.ofCategory).map fun f => (f.category.label, f.entry) := by
    show ((table.byCategory.entries.map fun group =>
      (group.1.label, group.2.map (·.entry))).flatMap fun group =>
        group.2.map fun entry => (group.1, entry)) = _
    rw [entries_byCategory, List.map_map, List.flatMap_map, List.map_flatMap]
    refine List.flatMap_congr fun c _ => ?_
    simp only [Function.comp_apply, List.map_map]
    refine List.map_congr_left fun f hf => ?_
    rw [Function.comp_apply, (mem_ofCategory.1 hf).2]
  rw [hlisted]
  exact (h.perm_flatMap_ofCategory table.nodup_keys_byCategory
    fun f hf => category_mem_keys_byCategory hf).map _

/-- So it shows a function in no other place and in no other way. -/
theorem IsNamed.filter_listed (h : table.IsNamed) (hf : table.find? f.name = some f) :
    table.catalogue.listed.filter (·.2.name == f.name) = [(f.category.label, f.entry)] := by
  have honly : (table.values.filter fun g => g.name == f.name).Perm [f] := by
    refine (List.perm_ext_iff_of_nodup (h.nodup_values.filter _) (List.nodup_singleton f)).2 ?_
    intro g
    rw [List.mem_filter, h.mem_values, List.mem_singleton, beq_iff_eq]
    constructor
    · rintro ⟨hg, hname⟩
      rw [hname, hf] at hg
      exact (Option.some_inj.1 hg).symm
    · rintro rfl
      exact ⟨hf, rfl⟩
  have hshown := h.perm_listed.filter (·.2.name == f.name)
  rw [List.filter_map] at hshown
  exact List.perm_singleton.1 (hshown.trans (honly.map _))

end FunctionTable

end Formula
