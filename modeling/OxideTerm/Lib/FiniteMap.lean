import Mathlib.Data.Finset.Union
import Mathlib.Data.List.Sort

/-!
# Finite maps

A map with finitely many keys, as a function together with the set of its keys. Two such maps
are equal when they look the same, and the keys can be listed in order.
-/

namespace OxideTerm.Lib

/-! ## Finite sets in order -/

section InOrder

variable {α : Type*} [LinearOrder α]

/-- The elements of a finite set, in ascending order. -/
def inOrder (s : Finset α) : List α :=
  Quot.liftOn s.val (List.insertionSort (· ≤ ·)) fun a b h =>
    List.Perm.eq_of_pairwise' (List.pairwise_insertionSort _ a) (List.pairwise_insertionSort _ b)
      ((List.perm_insertionSort _ a).trans (h.trans (List.perm_insertionSort _ b).symm))

theorem coe_inOrder (s : Finset α) : (inOrder s : Multiset α) = s.val := by
  obtain ⟨⟨l⟩, h⟩ := s
  exact Quot.sound (List.perm_insertionSort _ l)

@[simp] theorem mem_inOrder {s : Finset α} {a : α} : a ∈ inOrder s ↔ a ∈ s := by
  rw [← Multiset.mem_coe, coe_inOrder]
  rfl

theorem nodup_inOrder (s : Finset α) : (inOrder s).Nodup := by
  rw [← Multiset.coe_nodup, coe_inOrder]
  exact s.nodup

@[simp] theorem inOrder_eq_nil {s : Finset α} : inOrder s = [] ↔ s = ∅ := by
  rw [List.eq_nil_iff_forall_not_mem, Finset.eq_empty_iff_forall_notMem]
  exact forall_congr' fun a => not_congr mem_inOrder

end InOrder

/-! ## Maps -/

/-- A partial function with a finite set of keys. -/
structure FiniteMap (K V : Type*) where
  keys : Finset K
  get : K → Option V
  mem_keys : ∀ k, k ∈ keys ↔ (get k).isSome

namespace FiniteMap

variable {K V : Type*}

/-- Maps that look the same are the same. -/
@[ext] theorem ext {m m' : FiniteMap K V} (h : ∀ k, m.get k = m'.get k) : m = m' := by
  have hkeys : m.keys = m'.keys := by
    ext k
    rw [m.mem_keys, m'.mem_keys, h]
  obtain ⟨keys, get, _⟩ := m
  obtain ⟨keys', get', _⟩ := m'
  obtain rfl : keys = keys' := hkeys
  obtain rfl : get = get' := funext h
  rfl

theorem mem_keys_of_get {m : FiniteMap K V} {k : K} {v : V} (h : m.get k = some v) :
    k ∈ m.keys := by
  rw [m.mem_keys, h]
  rfl

theorem exists_of_mem_keys {m : FiniteMap K V} {k : K} (h : k ∈ m.keys) :
    ∃ v, m.get k = some v := Option.isSome_iff_exists.mp ((m.mem_keys k).mp h)

theorem get_of_notMem {m : FiniteMap K V} {k : K} (h : k ∉ m.keys) : m.get k = none := by
  rw [m.mem_keys] at h
  simpa using h

/-- The map without keys. -/
def empty : FiniteMap K V where
  keys := ∅
  get _ := none
  mem_keys := by simp

@[simp] theorem get_empty (k : K) : (empty : FiniteMap K V).get k = none := rfl

@[simp] theorem keys_empty : (empty : FiniteMap K V).keys = ∅ := rfl

/-- The map restricted to the keys that satisfy the predicate. -/
def retain (m : FiniteMap K V) (p : K → Bool) : FiniteMap K V where
  keys := m.keys.filter (p · = true)
  get k := if p k then m.get k else none
  mem_keys k := by
    rw [Finset.mem_filter, m.mem_keys]
    by_cases h : p k <;> simp [h]

theorem get_retain (m : FiniteMap K V) (p : K → Bool) (k : K) :
    (m.retain p).get k = if p k then m.get k else none := rfl

theorem get_of_get_retain {m : FiniteMap K V} {p : K → Bool} {k : K} {v : V}
    (h : (m.retain p).get k = some v) : m.get k = some v := by
  rw [get_retain] at h
  split at h
  · exact h
  · exact nomatch h

/-- The map with every value changed. -/
def mapValues (m : FiniteMap K V) (f : V → V) : FiniteMap K V where
  keys := m.keys
  get k := (m.get k).map f
  mem_keys k := by rw [m.mem_keys, Option.isSome_map]

theorem get_mapValues (m : FiniteMap K V) (f : V → V) (k : K) :
    (m.mapValues f).get k = (m.get k).map f := rfl

variable [DecidableEq K]

def insert (m : FiniteMap K V) (k : K) (v : V) : FiniteMap K V where
  keys := Insert.insert k m.keys
  get k' := if k' = k then some v else m.get k'
  mem_keys k' := by
    rw [Finset.mem_insert, m.mem_keys]
    by_cases h : k' = k <;> simp [h]

theorem get_insert (m : FiniteMap K V) (k : K) (v : V) (k' : K) :
    (m.insert k v).get k' = if k' = k then some v else m.get k' := rfl

@[simp] theorem get_insert_self (m : FiniteMap K V) (k : K) (v : V) :
    (m.insert k v).get k = some v := if_pos rfl

theorem get_insert_of_ne (m : FiniteMap K V) {k k' : K} (h : k' ≠ k) (v : V) :
    (m.insert k v).get k' = m.get k' := if_neg h

def erase (m : FiniteMap K V) (k : K) : FiniteMap K V where
  keys := m.keys.erase k
  get k' := if k' = k then none else m.get k'
  mem_keys k' := by
    rw [Finset.mem_erase, m.mem_keys]
    by_cases h : k' = k <;> simp [h]

theorem get_erase (m : FiniteMap K V) (k k' : K) :
    (m.erase k).get k' = if k' = k then none else m.get k' := rfl

/-- The map with the value of one key changed, if it has that key. -/
def modify (m : FiniteMap K V) (k : K) (f : V → V) : FiniteMap K V where
  keys := m.keys
  get k' := if k' = k then (m.get k').map f else m.get k'
  mem_keys k' := by
    rw [m.mem_keys]
    by_cases h : k' = k <;> simp [h]

theorem get_modify (m : FiniteMap K V) (k : K) (f : V → V) (k' : K) :
    (m.modify k f).get k' = if k' = k then (m.get k').map f else m.get k' := rfl

/-- Both maps together; the second one decides where both have a value. -/
def extend (m m' : FiniteMap K V) : FiniteMap K V where
  keys := m.keys ∪ m'.keys
  get k := (m'.get k).or (m.get k)
  mem_keys k := by
    rw [Finset.mem_union, m.mem_keys, m'.mem_keys, Option.isSome_or, Bool.or_eq_true, or_comm]

theorem get_extend (m m' : FiniteMap K V) (k : K) :
    (m.extend m').get k = (m'.get k).or (m.get k) := rfl

/-- The map with these entries; a later entry for a key replaces an earlier one. -/
def ofList (entries : List (K × V)) : FiniteMap K V :=
  entries.foldl (fun m e => m.insert e.1 e.2) empty

theorem get_foldl_insert_of_notMem {k : K} : ∀ (entries : List (K × V)) (m : FiniteMap K V),
    k ∉ entries.map Prod.fst → (entries.foldl (fun m e => m.insert e.1 e.2) m).get k = m.get k
  | [], _, _ => rfl
  | e :: entries, m, h => by
    rw [List.map_cons, List.mem_cons, not_or] at h
    rw [List.foldl_cons, get_foldl_insert_of_notMem entries _ h.2, get_insert_of_ne _ h.1]

theorem get_foldl_insert_of_mem {k : K} {v : V} : ∀ (entries : List (K × V)) (m : FiniteMap K V),
    (entries.map Prod.fst).Nodup → (k, v) ∈ entries →
      (entries.foldl (fun m e => m.insert e.1 e.2) m).get k = some v
  | e :: entries, m, hnodup, h => by
    rw [List.map_cons, List.nodup_cons] at hnodup
    rw [List.foldl_cons]
    rcases List.mem_cons.mp h with rfl | h
    · rw [get_foldl_insert_of_notMem entries _ hnodup.1, get_insert_self]
    · exact get_foldl_insert_of_mem entries _ hnodup.2 h

/-- Where the keys differ, every entry is found. -/
theorem get_ofList_of_mem {entries : List (K × V)} (hnodup : (entries.map Prod.fst).Nodup) {k : K}
    {v : V} (h : (k, v) ∈ entries) : (ofList entries).get k = some v :=
  get_foldl_insert_of_mem entries _ hnodup h

theorem get_ofList_of_notMem {entries : List (K × V)} {k : K} (h : k ∉ entries.map Prod.fst) :
    (ofList entries).get k = none :=
  get_foldl_insert_of_notMem entries _ h

instance [DecidableEq V] : DecidableEq (FiniteMap K V) := fun m m' =>
  decidable_of_iff (m.keys = m'.keys ∧ ∀ k ∈ m.keys, m.get k = m'.get k) <| by
    constructor
    · rintro ⟨hkeys, hget⟩
      refine FiniteMap.ext fun k => ?_
      by_cases hk : k ∈ m.keys
      · exact hget k hk
      · rw [get_of_notMem hk, get_of_notMem (by rwa [← hkeys])]
    · rintro rfl
      exact ⟨rfl, fun _ _ => rfl⟩

end FiniteMap

end OxideTerm.Lib
