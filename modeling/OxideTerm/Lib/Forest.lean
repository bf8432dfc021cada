import Mathlib.Data.Set.Basic

/-!
# Forests

A forest as its nodes know it: each one has the name of its parent and the names of its children, and
the names of the roots are listed. Some of the nodes with all that is above them are a forest again,
with the same links as far as they stay inside.

`prune` keeps of a list of items the largest part in which no parent is missing.
-/

namespace OxideTerm.Lib

/-! ## Forests and their restrictions -/

structure Forest (ι : Type*) where
  nodes : Set ι
  parent : ι → Option ι
  children : ι → List ι
  roots : List ι

namespace Forest

variable {ι : Type*}

/-- `a` is above `n`. -/
inductive Ancestor (f : Forest ι) : ι → ι → Prop
  | parent {a n : ι} (h : f.parent n = some a) : f.Ancestor a n
  | above {a p n : ι} (h : f.parent n = some p) (ha : f.Ancestor a p) : f.Ancestor a n

/-- The links agree with each other, and nothing is above itself. -/
structure WellFormed (f : Forest ι) : Prop where
  parent_mem : ∀ n ∈ f.nodes, ∀ p, f.parent n = some p → p ∈ f.nodes
  mem_children : ∀ p ∈ f.nodes, ∀ n, n ∈ f.children p ↔ n ∈ f.nodes ∧ f.parent n = some p
  nodup_children : ∀ p ∈ f.nodes, (f.children p).Nodup
  mem_roots : ∀ n, n ∈ f.roots ↔ n ∈ f.nodes ∧ f.parent n = none
  nodup_roots : f.roots.Nodup
  acyclic : ∀ n ∈ f.nodes, ¬ f.Ancestor n n

/-- What is above a set is in it. -/
def UpClosed (f : Forest ι) (keep : Set ι) : Prop :=
  ∀ n ∈ keep, ∀ p, f.parent n = some p → p ∈ keep

theorem UpClosed.ancestor {f : Forest ι} {keep : Set ι} (h : f.UpClosed keep) {a n : ι}
    (ha : f.Ancestor a n) (hn : n ∈ keep) : a ∈ keep := by
  induction ha with
  | parent hp => exact h _ hn _ hp
  | above hp _ ih => exact ih (h _ hn _ hp)

section Restrict

open scoped Classical

/-- The nodes of a set, with the links that stay inside. -/
noncomputable def restrict (f : Forest ι) (keep : Set ι) : Forest ι where
  nodes := {n ∈ f.nodes | n ∈ keep}
  parent n := if n ∈ f.nodes ∧ n ∈ keep then (f.parent n).filter fun p => decide (p ∈ keep) else none
  children n := if n ∈ f.nodes ∧ n ∈ keep then (f.children n).filter fun m => decide (m ∈ keep) else []
  roots := f.roots.filter fun n => decide (n ∈ keep)

variable {f : Forest ι} {keep : Set ι}

/-- A parent of the restriction is a parent. -/
theorem parent_of_restrict {n p : ι} (h : (f.restrict keep).parent n = some p) :
    f.parent n = some p := by
  dsimp only [restrict] at h
  split at h
  · exact (Option.filter_eq_some_iff.mp h).1
  · cases h

theorem parent_restrict (hclosed : f.UpClosed keep) {n : ι} (hn : n ∈ f.nodes) (hkeep : n ∈ keep) :
    (f.restrict keep).parent n = f.parent n := by
  dsimp only [restrict]
  rw [if_pos ⟨hn, hkeep⟩]
  cases hp : f.parent n with
  | none => rfl
  | some p => rw [Option.filter_some, if_pos (decide_eq_true (hclosed n hkeep p hp))]

theorem children_restrict {n : ι} (hn : n ∈ f.nodes) (hkeep : n ∈ keep) :
    (f.restrict keep).children n = (f.children n).filter fun m => decide (m ∈ keep) :=
  if_pos ⟨hn, hkeep⟩

theorem links_restrict_of_not {n : ι} (h : ¬ (n ∈ f.nodes ∧ n ∈ keep)) :
    (f.restrict keep).parent n = none ∧ (f.restrict keep).children n = [] :=
  ⟨if_neg h, if_neg h⟩

theorem ancestor_of_restrict {a n : ι} (h : (f.restrict keep).Ancestor a n) : f.Ancestor a n := by
  induction h with
  | parent hp => exact .parent (parent_of_restrict hp)
  | above hp _ ih => exact .above (parent_of_restrict hp) ih

/-- **A part of a forest is a forest, if it contains what is above it.** -/
theorem WellFormed.restrict (h : f.WellFormed) (hclosed : f.UpClosed keep) :
    (f.restrict keep).WellFormed where
  parent_mem := by
    rintro n ⟨hn, hkeep⟩ p hp
    have hp := parent_of_restrict hp
    exact ⟨h.parent_mem n hn p hp, hclosed n hkeep p hp⟩
  mem_children := by
    rintro p ⟨hp, hkeep⟩ n
    rw [children_restrict hp hkeep, List.mem_filter, decide_eq_true_iff, h.mem_children p hp]
    constructor
    · rintro ⟨⟨hn, hparent⟩, hn'⟩
      exact ⟨⟨hn, hn'⟩, by rw [← hparent]; exact parent_restrict hclosed hn hn'⟩
    · rintro ⟨⟨hn, hn'⟩, hparent⟩
      exact ⟨⟨hn, parent_of_restrict hparent⟩, hn'⟩
  nodup_children := by
    rintro p ⟨hp, hkeep⟩
    rw [children_restrict hp hkeep]
    exact (h.nodup_children p hp).filter _
  mem_roots := by
    intro n
    have hroots : n ∈ (f.restrict keep).roots ↔ n ∈ f.roots ∧ n ∈ keep := by
      dsimp only [Forest.restrict]
      rw [List.mem_filter, decide_eq_true_iff]
    rw [hroots, h.mem_roots]
    constructor
    · rintro ⟨⟨hn, hparent⟩, hkeep⟩
      exact ⟨⟨hn, hkeep⟩, (parent_restrict hclosed hn hkeep).trans hparent⟩
    · rintro ⟨⟨hn, hkeep⟩, hparent⟩
      exact ⟨⟨hn, (parent_restrict hclosed hn hkeep).symm.trans hparent⟩, hkeep⟩
  nodup_roots := h.nodup_roots.filter _
  acyclic := by
    rintro n ⟨hn, -⟩ hcycle
    exact h.acyclic n hn (ancestor_of_restrict hcycle)

end Restrict

/-! ## Forests from lists -/

section OfList

variable [DecidableEq ι] {α β : Type*}

/-- The forest of the items of a list, by what they say of themselves. -/
def ofList (name : α → ι) (parent : α → Option ι) (children : α → List ι) (items : List α)
    (roots : List ι) : Forest ι where
  nodes := {n | n ∈ items.map name}
  parent n := (items.find? fun item => name item = n).bind parent
  children n := ((items.find? fun item => name item = n).map children).getD []
  roots := roots

variable {name : α → ι} {parent : α → Option ι} {children : α → List ι} {items : List α}
  {roots : List ι}

theorem find?_name (hdistinct : (items.map name).Nodup) {item : α} (hitem : item ∈ items) :
    (items.find? fun other => name other = name item) = some item := by
  induction items with
  | nil => cases hitem
  | cons first rest ih =>
    rw [List.map_cons, List.nodup_cons] at hdistinct
    by_cases hname : name first = name item
    · rw [List.find?_cons, decide_eq_true hname]
      rcases List.mem_cons.mp hitem with rfl | hrest
      · rfl
      · exact absurd (hname ▸ List.mem_map_of_mem hrest) hdistinct.1
    · rw [List.find?_cons, decide_eq_false hname]
      rcases List.mem_cons.mp hitem with rfl | hrest
      · exact absurd rfl hname
      · exact ih hdistinct.2 hrest

theorem find?_name_eq_none {n : ι} (hn : n ∉ items.map name) :
    (items.find? fun other => name other = n) = none := by
  refine List.find?_eq_none.mpr fun item hitem hname => hn ?_
  exact of_decide_eq_true hname ▸ List.mem_map_of_mem hitem

theorem parent_ofList (hdistinct : (items.map name).Nodup) {item : α} (hitem : item ∈ items) :
    (ofList name parent children items roots).parent (name item) = parent item := by
  dsimp only [ofList]
  rw [find?_name hdistinct hitem]
  rfl

theorem children_ofList (hdistinct : (items.map name).Nodup) {item : α} (hitem : item ∈ items) :
    (ofList name parent children items roots).children (name item) = children item := by
  dsimp only [ofList]
  rw [find?_name hdistinct hitem]
  rfl

open scoped Classical in
/-- A list with some of the items, and their links as far as they stay inside, is a restriction. -/
theorem ofList_eq_restrict {name' : β → ι} {parent' : β → Option ι} {children' : β → List ι}
    {items' : List β} {roots' : List ι} {keep : Set ι} (hdistinct : (items.map name).Nodup)
    (hdistinct' : (items'.map name').Nodup)
    (hnames : ∀ n, n ∈ items'.map name' ↔ n ∈ items.map name ∧ n ∈ keep)
    (hlinks : ∀ item' ∈ items', ∃ item ∈ items, name item = name' item' ∧
      parent' item' = parent item ∧
      children' item' = (children item).filter fun m => decide (m ∈ keep))
    (hclosed : (ofList name parent children items roots).UpClosed keep)
    (hroots : roots' = roots.filter fun n => decide (n ∈ keep)) :
    ofList name' parent' children' items' roots' =
      (ofList name parent children items roots).restrict keep := by
  have hlinks' : ∀ n, (ofList name' parent' children' items' roots').parent n =
        ((ofList name parent children items roots).restrict keep).parent n ∧
      (ofList name' parent' children' items' roots').children n =
        ((ofList name parent children items roots).restrict keep).children n := by
    intro n
    by_cases hn : n ∈ items'.map name'
    · have hkeep := (hnames n).mp hn
      obtain ⟨item', hitem', rfl⟩ := List.mem_map.mp hn
      obtain ⟨item, hitem, hname, hparent, hchildren⟩ := hlinks item' hitem'
      rw [parent_restrict hclosed hkeep.1 hkeep.2, children_restrict hkeep.1 hkeep.2,
        parent_ofList hdistinct' hitem', children_ofList hdistinct' hitem', hparent, hchildren,
        ← hname, parent_ofList hdistinct hitem, children_ofList hdistinct hitem]
      exact ⟨rfl, rfl⟩
    · have hout := links_restrict_of_not (f := ofList name parent children items roots)
        ((hnames n).not.mp hn)
      rw [hout.1, hout.2]
      dsimp only [ofList]
      rw [find?_name_eq_none hn]
      exact ⟨rfl, rfl⟩
  unfold ofList restrict at hlinks' ⊢
  rw [Forest.mk.injEq]
  exact ⟨Set.ext hnames, funext fun n => (hlinks' n).1, funext fun n => (hlinks' n).2, hroots⟩

end OfList

end Forest

/-! ## Pruning -/

section Prune

variable {α ι : Type*} [DecidableEq ι] (name : α → ι) (parent : α → Option ι)

/-- The items that have no parent, or one among the items. -/
def attached (items : List α) : List α :=
  let names := items.map name
  items.filter fun item => (parent item).all fun p => names.contains p

/-- Removes the items whose parent is missing, until there are none. -/
def prune (items : List α) : List α :=
  let kept := attached name parent items
  if kept.length = items.length then kept else prune kept
termination_by items.length
decreasing_by
  rename_i hne
  have hle : (attached name parent items).length ≤ items.length := List.length_filter_le _ _
  exact Nat.lt_of_le_of_ne hle hne

variable {name parent}

theorem mem_attached {items : List α} {item : α} :
    item ∈ attached name parent items ↔
      item ∈ items ∧ ∀ p, parent item = some p → ∃ other ∈ items, name other = p := by
  rw [attached, List.mem_filter]
  refine and_congr_right fun _ => ?_
  cases parent item <;> simp

theorem prune_sublist (items : List α) : (prune name parent items).Sublist items := by
  rw [prune]
  have hsub : (attached name parent items).Sublist items := List.filter_sublist
  split
  · exact hsub
  · next hne =>
    have : (attached name parent items).length < items.length :=
      Nat.lt_of_le_of_ne hsub.length_le hne
    exact (prune_sublist _).trans hsub
termination_by items.length

/-- In what is left no parent is missing. -/
theorem prune_closed (items : List α) : ∀ item ∈ prune name parent items, ∀ p,
    parent item = some p → ∃ other ∈ prune name parent items, name other = p := by
  rw [prune]
  have hsub : (attached name parent items).Sublist items := List.filter_sublist
  split
  · next hlength =>
    intro item hitem p hp
    have hsame := hsub.eq_of_length hlength
    rw [hsame]
    exact (mem_attached.mp hitem).2 p hp
  · next hne =>
    have : (attached name parent items).length < items.length :=
      Nat.lt_of_le_of_ne hsub.length_le hne
    exact prune_closed _
termination_by items.length

/-- Whatever has no parent missing is left. -/
theorem subset_prune (items : List α) {part : Set α} (hpart : ∀ item ∈ part, item ∈ items)
    (hclosed : ∀ item ∈ part, ∀ p, parent item = some p → ∃ other ∈ part, name other = p) :
    ∀ item ∈ part, item ∈ prune name parent items := by
  have hattached : ∀ item ∈ part, item ∈ attached name parent items := by
    intro item hitem
    refine mem_attached.mpr ⟨hpart item hitem, fun p hp => ?_⟩
    obtain ⟨other, hother, hname⟩ := hclosed item hitem p hp
    exact ⟨other, hpart other hother, hname⟩
  rw [prune]
  split
  · exact hattached
  · next hne =>
    have hle : (attached name parent items).length ≤ items.length := List.length_filter_le _ _
    have : (attached name parent items).length < items.length := Nat.lt_of_le_of_ne hle hne
    exact subset_prune _ hattached hclosed
termination_by items.length

end Prune

end OxideTerm.Lib
