import Mathlib

/-!
# Multi-value registers

A document is a set of writes to registers. Each write names the writes it overwrites, which are
those its writer saw. What nothing overwrites is visible; several writers who do not see each
other leave several visible writes. Documents are merged by taking the union.
-/

namespace OxideTerm.Lib

/-- The identity of a write: a counter beyond all that its writer saw, and the writer. -/
structure WriteId (W : Type) where
  counter : Nat
  writer : W
deriving DecidableEq

namespace WriteId

variable {W : Type} [LinearOrder W]

instance : LinearOrder (WriteId W) :=
  LinearOrder.lift' (fun i : WriteId W => (toLex (i.counter, i.writer) : Nat ×ₗ W)) fun i j h => by
    obtain ⟨c, w⟩ := i
    obtain ⟨c', w'⟩ := j
    simpa using h

end WriteId

/-- A write to a register. -/
structure Put (K W V : Type) where
  key : K
  id : WriteId W
  value : V
  /-- The writes that this one replaces. -/
  overwrites : Finset (WriteId W)
deriving DecidableEq

/-- The writes that a document consists of. -/
abbrev Document (K W V : Type) := Finset (Put K W V)

namespace Document

set_option linter.unusedSectionVars false

variable {K W V : Type} [DecidableEq K] [DecidableEq W] [DecidableEq V]

/-! ## Reading -/

/-- The writes to a register that no other write to it overwrites. -/
def visible (d : Document K W V) (k : K) : Document K W V :=
  d.filter fun p => p.key = k ∧ ∀ q ∈ d, q.key = k → p.id ∉ q.overwrites

theorem mem_visible {d : Document K W V} {k : K} {p : Put K W V} :
    p ∈ d.visible k ↔ p ∈ d ∧ p.key = k ∧ ∀ q ∈ d, q.key = k → p.id ∉ q.overwrites :=
  Finset.mem_filter

/-- The registers that were written to. -/
def keys (d : Document K W V) : Finset K := d.image Put.key

theorem mem_keys {d : Document K W V} {k : K} : k ∈ d.keys ↔ ∃ p ∈ d, p.key = k :=
  Finset.mem_image

@[simp] theorem keys_empty : (∅ : Document K W V).keys = ∅ := rfl

theorem keys_union (d e : Document K W V) : Document.keys (d ∪ e) = d.keys ∪ e.keys :=
  Finset.image_union ..

/-- Each write comes after those it overwrites. -/
def Ordered (d : Document K W V) : Prop :=
  ∀ q ∈ d, ∀ i ∈ q.overwrites, i.counter < q.id.counter

theorem ordered_empty : Ordered (∅ : Document K W V) := by simp [Ordered]

theorem Ordered.union {d e : Document K W V} (hd : d.Ordered) (he : e.Ordered) :
    Document.Ordered (d ∪ e) := by
  intro q hq
  rcases Finset.mem_union.mp hq with h | h
  · exact hd q h
  · exact he q h

/-- **A register that was written to shows something:** the last write is visible. -/
theorem Ordered.visible_nonempty {d : Document K W V} (h : d.Ordered) {k : K} (hk : k ∈ d.keys) :
    (d.visible k).Nonempty := by
  obtain ⟨p₀, hp₀, hkey₀⟩ := mem_keys.mp hk
  have hne : (d.filter fun p => p.key = k).Nonempty :=
    ⟨p₀, Finset.mem_filter.mpr ⟨hp₀, hkey₀⟩⟩
  obtain ⟨p, hp, hlast⟩ := Finset.exists_max_image _ (fun p => p.id.counter) hne
  obtain ⟨hmem, hkey⟩ := Finset.mem_filter.mp hp
  refine ⟨p, mem_visible.mpr ⟨hmem, hkey, fun q hq hqk hover => ?_⟩⟩
  have hlater := h q hq p.id hover
  exact absurd (hlast q (Finset.mem_filter.mpr ⟨hq, hqk⟩)) (Nat.not_le.mpr hlater)

theorem Ordered.mem_keys_iff {d : Document K W V} (h : d.Ordered) {k : K} :
    k ∈ d.keys ↔ (d.visible k).Nonempty := by
  refine ⟨h.visible_nonempty, ?_⟩
  rintro ⟨p, hp⟩
  obtain ⟨hmem, hkey, -⟩ := mem_visible.mp hp
  exact mem_keys.mpr ⟨p, hmem, hkey⟩

/-- What a merged document shows, one of the two showed. -/
theorem visible_union_subset (d e : Document K W V) (k : K) :
    Document.visible (d ∪ e) k ⊆ d.visible k ∪ e.visible k := by
  intro p hp
  obtain ⟨hmem, hkey, hfree⟩ := mem_visible.mp hp
  rcases Finset.mem_union.mp hmem with h | h
  · exact Finset.mem_union_left _ (mem_visible.mpr
      ⟨h, hkey, fun q hq => hfree q (Finset.mem_union_left _ hq)⟩)
  · exact Finset.mem_union_right _ (mem_visible.mpr
      ⟨h, hkey, fun q hq => hfree q (Finset.mem_union_right _ hq)⟩)

/-! ## Writing -/

/-- A counter beyond those of all writes. -/
def nextCounter (d : Document K W V) : Nat := d.sup (fun p => p.id.counter) + 1

theorem counter_lt_nextCounter {d : Document K W V} {p : Put K W V} (hp : p ∈ d) :
    p.id.counter < d.nextCounter :=
  Nat.lt_succ_of_le (Finset.le_sup (f := fun p : Put K W V => p.id.counter) hp)

/-- The identity of the writer's next write. -/
def nextId (d : Document K W V) (w : W) : WriteId W := { counter := d.nextCounter, writer := w }

/-- The write that replaces what the register shows. -/
def nextPut (d : Document K W V) (w : W) (k : K) (v : V) : Put K W V where
  key := k
  id := d.nextId w
  value := v
  overwrites := (d.visible k).image Put.id

/-- Whether the register shows one write, and that with this value. -/
def Shows (d : Document K W V) (k : K) (v : V) : Prop :=
  (d.visible k).card = 1 ∧ ∀ p ∈ d.visible k, p.value = v

instance (d : Document K W V) (k : K) (v : V) : Decidable (d.Shows k v) :=
  inferInstanceAs (Decidable (_ ∧ _))

/-- Writes to a register. What the register shows already is not written again. -/
def put (d : Document K W V) (w : W) (k : K) (v : V) : Document K W V :=
  if d.Shows k v then d else insert (d.nextPut w k v) d

theorem put_of_shows {d : Document K W V} {w : W} {k : K} {v : V} (h : d.Shows k v) :
    d.put w k v = d := if_pos h

theorem put_of_not_shows {d : Document K W V} {w : W} {k : K} {v : V} (h : ¬ d.Shows k v) :
    d.put w k v = insert (d.nextPut w k v) d := if_neg h

theorem subset_put (d : Document K W V) (w : W) (k : K) (v : V) : d ⊆ d.put w k v := by
  rw [put]
  split
  · exact Finset.Subset.refl d
  · exact Finset.subset_insert _ d

theorem Ordered.put {d : Document K W V} (h : d.Ordered) (w : W) (k : K) (v : V) :
    (d.put w k v).Ordered := by
  rw [Document.put]
  split
  · exact h
  · intro q hq i hi
    rcases Finset.mem_insert.mp hq with rfl | hq
    · obtain ⟨p, hp, rfl⟩ := Finset.mem_image.mp hi
      exact counter_lt_nextCounter (mem_visible.mp hp).1
    · exact h q hq i hi

theorem keys_put (d : Document K W V) (w : W) (k : K) (v : V) :
    (d.put w k v).keys = insert k d.keys := by
  rw [Document.put]
  split
  · next h =>
    obtain ⟨p, hp⟩ := Finset.card_pos.mp (by rw [h.1]; exact Nat.one_pos)
    obtain ⟨hmem, hkey, -⟩ := mem_visible.mp hp
    rw [Finset.insert_eq_of_mem (mem_keys.mpr ⟨p, hmem, hkey⟩)]
  · exact Finset.image_insert ..

/-- **A write shows, alone, in its register.** -/
theorem Ordered.visible_insert_nextPut {d : Document K W V} (h : d.Ordered) (w : W) (k : K)
    (v : V) : Document.visible (insert (d.nextPut w k v) d) k = {d.nextPut w k v} := by
  ext p
  rw [mem_visible, Finset.mem_singleton]
  constructor
  · rintro ⟨hmem, hkey, hfree⟩
    rcases Finset.mem_insert.mp hmem with rfl | hmem
    · rfl
    · -- an older write is overwritten by the new one, or was overwritten before
      have hnot : p.id ∉ (d.nextPut w k v).overwrites :=
        hfree _ (Finset.mem_insert_self _ _) rfl
      refine absurd (Finset.mem_image_of_mem _ (mem_visible.mpr ⟨hmem, hkey, ?_⟩)) hnot
      exact fun q hq => hfree q (Finset.mem_insert_of_mem hq)
  · rintro rfl
    refine ⟨Finset.mem_insert_self _ _, rfl, fun q hq _ hover => ?_⟩
    rcases Finset.mem_insert.mp hq with rfl | hq
    · obtain ⟨p, hp, hid⟩ := Finset.mem_image.mp hover
      have hlt := counter_lt_nextCounter (mem_visible.mp hp).1
      rw [hid] at hlt
      exact absurd hlt (Nat.lt_irrefl _)
    · have hlt := h q hq _ hover
      exact absurd (Nat.lt_trans hlt (counter_lt_nextCounter hq)) (Nat.lt_irrefl _)

/-- **After a write the register shows the value,** in one write. -/
theorem Ordered.shows_put {d : Document K W V} (h : d.Ordered) (w : W) (k : K) (v : V) :
    (d.put w k v).Shows k v := by
  by_cases hshows : d.Shows k v
  · rw [put_of_shows hshows]
    exact hshows
  · rw [put_of_not_shows hshows, Shows, h.visible_insert_nextPut]
    refine ⟨Finset.card_singleton _, fun p hp => ?_⟩
    rw [Finset.mem_singleton.mp hp]
    rfl

/-- The other registers show what they did. -/
theorem visible_put_of_ne (d : Document K W V) (w : W) {k k' : K} (hne : k' ≠ k) (v : V) :
    (d.put w k v).visible k' = d.visible k' := by
  rw [Document.put]
  split
  · rfl
  · ext p
    rw [mem_visible, mem_visible]
    constructor
    · rintro ⟨hmem, hkey, hfree⟩
      rcases Finset.mem_insert.mp hmem with rfl | hmem
      · exact absurd hkey.symm hne
      · exact ⟨hmem, hkey, fun q hq => hfree q (Finset.mem_insert_of_mem hq)⟩
    · rintro ⟨hmem, hkey, hfree⟩
      refine ⟨Finset.mem_insert_of_mem hmem, hkey, fun q hq hqk => ?_⟩
      rcases Finset.mem_insert.mp hq with rfl | hq
      · exact absurd hqk.symm hne
      · exact hfree q hq hqk

/-! ## Merging -/

/-- Every write that is overwritten is there. -/
def Grounded (d : Document K W V) : Prop :=
  ∀ q ∈ d, ∀ i ∈ q.overwrites, ∃ p ∈ d, p.id = i

/-- Writes with one identity are one write. -/
def Agree (d e : Document K W V) : Prop := ∀ p ∈ d, ∀ q ∈ e, p.id = q.id → p = q

theorem Agree.symm {d e : Document K W V} (h : d.Agree e) : e.Agree d :=
  fun p hp q hq hid => (h q hq p hp hid.symm).symm

theorem grounded_empty : (∅ : Document K W V).Grounded := by simp [Grounded]

theorem Grounded.union {d e : Document K W V} (hd : d.Grounded) (he : e.Grounded) :
    Document.Grounded (d ∪ e) := by
  intro q hq i hi
  rcases Finset.mem_union.mp hq with h | h
  · obtain ⟨p, hp, hid⟩ := hd q h i hi
    exact ⟨p, Finset.mem_union_left _ hp, hid⟩
  · obtain ⟨p, hp, hid⟩ := he q h i hi
    exact ⟨p, Finset.mem_union_right _ hp, hid⟩

theorem Grounded.put {d : Document K W V} (h : d.Grounded) (w : W) (k : K) (v : V) :
    (d.put w k v).Grounded := by
  rw [Document.put]
  split
  · exact h
  · intro q hq i hi
    rcases Finset.mem_insert.mp hq with rfl | hq
    · obtain ⟨p, hp, hid⟩ := Finset.mem_image.mp hi
      exact ⟨p, Finset.mem_insert_of_mem (mem_visible.mp hp).1, hid⟩
    · obtain ⟨p, hp, hid⟩ := h q hq i hi
      exact ⟨p, Finset.mem_insert_of_mem hp, hid⟩

/-- A visible write stays visible next to a document that does not know it. -/
theorem Grounded.visible_union_of_notMem {d e : Document K W V} (he : e.Grounded)
    (hagree : d.Agree e) {k : K} {p : Put K W V} (hp : p ∈ d.visible k) (hnot : p ∉ e) :
    p ∈ Document.visible (d ∪ e) k := by
  obtain ⟨hmem, hkey, hfree⟩ := mem_visible.mp hp
  refine mem_visible.mpr ⟨Finset.mem_union_left _ hmem, hkey, fun q hq hqk hover => ?_⟩
  rcases Finset.mem_union.mp hq with h | h
  · exact hfree q h hqk hover
  · -- who overwrites a write has seen it
    obtain ⟨p', hp', hid⟩ := he q h _ hover
    exact hnot (by rwa [hagree p hmem p' hp' hid.symm])

/-- **What a merged document shows:** the writes that are visible wherever they are known. -/
theorem mem_visible_union {d e : Document K W V} (hd : d.Grounded) (he : e.Grounded)
    (hagree : d.Agree e) {k : K} {p : Put K W V} :
    p ∈ Document.visible (d ∪ e) k ↔
      (p ∈ d ∨ p ∈ e) ∧ (p ∈ d → p ∈ d.visible k) ∧ (p ∈ e → p ∈ e.visible k) := by
  constructor
  · intro hp
    obtain ⟨hmem, hkey, hfree⟩ := mem_visible.mp hp
    exact ⟨Finset.mem_union.mp hmem,
      fun h => mem_visible.mpr ⟨h, hkey, fun q hq => hfree q (Finset.mem_union_left _ hq)⟩,
      fun h => mem_visible.mpr ⟨h, hkey, fun q hq => hfree q (Finset.mem_union_right _ hq)⟩⟩
  · rintro ⟨hmem, hpd, hpe⟩
    by_cases h : p ∈ d
    · by_cases h' : p ∈ e
      · obtain ⟨-, hkey, hfree⟩ := mem_visible.mp (hpd h)
        obtain ⟨-, -, hfree'⟩ := mem_visible.mp (hpe h')
        refine mem_visible.mpr ⟨Finset.mem_union_left _ h, hkey, fun q hq => ?_⟩
        rcases Finset.mem_union.mp hq with hq | hq
        · exact hfree q hq
        · exact hfree' q hq
      · exact he.visible_union_of_notMem hagree (hpd h) h'
    · have h' : p ∈ e := hmem.resolve_left h
      rw [Finset.union_comm]
      exact hd.visible_union_of_notMem hagree.symm (hpe h') h

/-! ## Documents of one origin -/

/-- What holds of every document that comes from writes and merges. -/
structure Causal (d : Document K W V) : Prop where
  ordered : d.Ordered
  grounded : d.Grounded
  unique : d.Agree d

theorem causal_empty : (∅ : Document K W V).Causal :=
  ⟨ordered_empty, grounded_empty, by simp [Agree]⟩

theorem mem_put {d : Document K W V} {w : W} {k : K} {v : V} {p : Put K W V}
    (h : p ∈ d.put w k v) : p ∈ d ∨ p = d.nextPut w k v := by
  rw [put] at h
  split at h
  · exact Or.inl h
  · rcases Finset.mem_insert.mp h with h | h
    · exact Or.inr h
    · exact Or.inl h

theorem Causal.put {d : Document K W V} (h : d.Causal) (w : W) (k : K) (v : V) :
    (d.put w k v).Causal where
  ordered := h.ordered.put w k v
  grounded := h.grounded.put w k v
  unique p hp q hq hid := by
    have hfresh : ∀ o ∈ d, o.id ≠ (d.nextPut w k v).id := by
      intro o ho heq
      have hlt := counter_lt_nextCounter ho
      rw [heq] at hlt
      exact absurd hlt (Nat.lt_irrefl _)
    rcases mem_put hp with hp | rfl <;> rcases mem_put hq with hq | rfl
    · exact h.unique p hp q hq hid
    · exact absurd hid (hfresh p hp)
    · exact absurd hid.symm (hfresh q hq)
    · rfl

theorem Causal.union {d e : Document K W V} (hd : d.Causal) (he : e.Causal) (h : d.Agree e) :
    Document.Causal (d ∪ e) where
  ordered := hd.ordered.union he.ordered
  grounded := hd.grounded.union he.grounded
  unique p hp q hq hid := by
    rcases Finset.mem_union.mp hp with hp | hp <;> rcases Finset.mem_union.mp hq with hq | hq
    · exact hd.unique p hp q hq hid
    · exact h p hp q hq hid
    · exact h.symm p hp q hq hid
    · exact he.unique p hp q hq hid

end Document

end OxideTerm.Lib
