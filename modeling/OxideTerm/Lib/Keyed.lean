import Mathlib.Data.List.Nodup
import Mathlib.Data.List.Dedup

/-!
# Lists by key

Lists of entries that have a key, where the first entry of a key counts. One entry is changed, or
replaced, or put at the end; all entries of some keys are dropped. While no key occurs twice, a
list is known up to its order by what is found under each key.
-/

namespace OxideTerm.Lib.Keyed

variable {α κ : Type*} (key : α → κ)

/-- No key occurs twice. -/
def Unique (l : List α) : Prop := (l.map key).Nodup

section Dropping

variable {key} {l : List α}

theorem Unique.nodup (h : Unique key l) : l.Nodup := h.of_map

theorem Unique.filter (h : Unique key l) (p : α → Bool) : Unique key (l.filter p) :=
  (List.filter_sublist.map key).nodup h

/-- An entry of a new key is put at the end. -/
theorem Unique.append_singleton {a : α} (h : Unique key l) (ha : key a ∉ l.map key) :
    Unique key (l ++ [a]) := by
  rw [Unique, List.map_append, List.nodup_append]
  refine ⟨h, List.nodup_singleton _, fun k hk k' hk' heq => ha ?_⟩
  rw [List.map_singleton, List.mem_singleton] at hk'
  rwa [← hk', ← heq]

end Dropping

variable [DecidableEq κ]

/-- The first entry of a key. -/
def lookup (k : κ) (l : List α) : Option α := l.find? fun a => key a = k

/-- The first entry of a key is changed. -/
def modifyFirst (k : κ) (f : α → α) : List α → List α
  | [] => []
  | a :: rest => if key a = k then f a :: rest else a :: modifyFirst k f rest

/-- The first entry of the key is changed, or else the new entry is put at the end. -/
def upsert (f : α → α) (new : α) : List α → List α
  | [] => [new]
  | a :: rest => if key a = key new then f a :: rest else a :: upsert f new rest

variable {key} {l : List α} {k k' : κ} {a : α}

/-! ## Looking up -/

@[simp] theorem lookup_nil : lookup key k [] = none := rfl

theorem lookup_cons : lookup key k (a :: l) = if key a = k then some a else lookup key k l := by
  by_cases h : key a = k
  · rw [lookup, List.find?_cons_of_pos (by simpa using h), if_pos h]
  · rw [lookup, List.find?_cons_of_neg (by simpa using h), if_neg h, lookup]

theorem lookup_eq_none : lookup key k l = none ↔ k ∉ l.map key := by
  rw [lookup, List.find?_eq_none, List.mem_map]
  simp

theorem lookup_isSome : (lookup key k l).isSome ↔ k ∈ l.map key := by
  rw [← Option.ne_none_iff_isSome, Ne, lookup_eq_none, not_not]

theorem key_of_lookup (h : lookup key k l = some a) : key a = k := by
  simpa using List.find?_some h

theorem mem_of_lookup (h : lookup key k l = some a) : a ∈ l := List.mem_of_find?_eq_some h

/-- What is found under a key is the entry of the key. -/
theorem Unique.lookup_eq_some_iff (h : Unique key l) :
    lookup key k l = some a ↔ a ∈ l ∧ key a = k := by
  constructor
  · intro ha
    exact ⟨mem_of_lookup ha, key_of_lookup ha⟩
  · rintro ⟨ha, rfl⟩
    induction l with
    | nil => cases ha
    | cons b rest ih =>
      rw [Unique, List.map_cons, List.nodup_cons] at h
      rw [lookup_cons]
      rcases List.mem_cons.mp ha with rfl | ha
      · rw [if_pos rfl]
      · have hne : key b ≠ key a := fun hkey => h.1 (hkey.symm ▸ List.mem_map_of_mem ha)
        rw [if_neg hne]
        exact ih h.2 ha

/-- The last entry of a key is the first. -/
theorem Unique.lookup_reverse (h : Unique key l) : lookup key k l.reverse = lookup key k l := by
  have hreverse : Unique key l.reverse := by
    rw [Unique, List.map_reverse, List.nodup_reverse]
    exact h
  ext a
  rw [hreverse.lookup_eq_some_iff, h.lookup_eq_some_iff, List.mem_reverse]

/-! ## Changing one entry -/

/-- The change keeps the key. -/
theorem map_key_modifyFirst {f : α → α} (hf : ∀ a ∈ l, key a = k → key (f a) = k) :
    (modifyFirst key k f l).map key = l.map key := by
  induction l with
  | nil => rfl
  | cons a rest ih =>
    rw [modifyFirst]
    split
    · next ha => rw [List.map_cons, List.map_cons, hf a List.mem_cons_self ha, ha]
    · rw [List.map_cons, List.map_cons, ih fun b hb => hf b (List.mem_cons_of_mem _ hb)]

/-! ## Replacing or adding an entry -/

section Upsert

variable {f : α → α} {new : α}

theorem map_key_upsert (hf : ∀ a ∈ l, key a = key new → key (f a) = key new) :
    (upsert key f new l).map key =
      if key new ∈ l.map key then l.map key else l.map key ++ [key new] := by
  induction l with
  | nil => rfl
  | cons a rest ih =>
    rw [upsert]
    split
    · next ha =>
      rw [List.map_cons, List.map_cons, hf a List.mem_cons_self ha, ha, if_pos List.mem_cons_self]
    · next ha =>
      have hmem : key new ∈ key a :: rest.map key ↔ key new ∈ rest.map key := by
        rw [List.mem_cons, or_iff_right (Ne.symm ha)]
      rw [List.map_cons, List.map_cons, ih fun b hb => hf b (List.mem_cons_of_mem _ hb)]
      simp only [hmem]
      split <;> rfl

theorem Unique.upsert (h : Unique key l) (hf : ∀ a ∈ l, key a = key new → key (f a) = key new) :
    Unique key (upsert key f new l) := by
  by_cases hnew : key new ∈ l.map key
  · rw [Unique, map_key_upsert hf, if_pos hnew]
    exact h
  · have hkeys : (Keyed.upsert key f new l).map key = (l ++ [new]).map key := by
      rw [map_key_upsert hf, if_neg hnew, List.map_append, List.map_singleton]
    rw [Unique, hkeys]
    exact h.append_singleton hnew

theorem mem_keys_upsert (hf : ∀ a ∈ l, key a = key new → key (f a) = key new) :
    k ∈ (upsert key f new l).map key ↔ k = key new ∨ k ∈ l.map key := by
  rw [map_key_upsert hf]
  split
  · next hnew => exact ⟨.inr, fun h => h.elim (fun heq => heq ▸ hnew) id⟩
  · rw [List.mem_append, List.mem_singleton, or_comm]

/-- What is found after an upsert. -/
theorem lookup_upsert (hf : ∀ a ∈ l, key a = key new → key (f a) = key new) :
    lookup key k (upsert key f new l) =
      if k = key new then some (((lookup key k l).map f).getD new) else lookup key k l := by
  induction l with
  | nil =>
    show lookup key k [new] = _
    rw [lookup_cons, lookup_nil]
    exact if_congr eq_comm rfl rfl
  | cons a rest ih =>
    rw [upsert, lookup_cons]
    split
    · next ha =>
      have hkey := hf a List.mem_cons_self ha
      rw [lookup_cons, hkey, ha]
      by_cases h : k = key new
      · subst h
        rw [if_pos rfl, if_pos rfl, if_pos rfl]
        rfl
      · rw [if_neg (Ne.symm h), if_neg h, if_neg (Ne.symm h)]
    · next ha =>
      rw [lookup_cons, ih fun b hb => hf b (List.mem_cons_of_mem _ hb)]
      by_cases h : k = key new
      · subst h
        rw [if_neg ha, if_pos rfl, if_pos rfl, if_neg ha]
      · rw [if_neg h, if_neg h]

end Upsert

/-! ## Dropping entries -/

/-- What is found after entries of some keys are dropped. -/
theorem lookup_filter_key (p : κ → Bool) :
    lookup key k (l.filter fun a => p (key a)) = if p k then lookup key k l else none := by
  induction l with
  | nil => exact (ite_self _).symm
  | cons a rest ih =>
    rw [List.filter_cons, lookup_cons]
    by_cases ha : key a = k
    · subst ha
      by_cases hp : p (key a) = true
      · rw [if_pos hp, lookup_cons, if_pos rfl, if_pos hp, if_pos rfl]
      · rw [if_neg hp, ih, if_neg hp, if_neg hp]
    · rw [if_neg ha, ← ih]
      split
      · rw [lookup_cons, if_neg ha]
      · rfl

/-- What is found after entries are dropped for what they are. -/
theorem Unique.lookup_filter (h : Unique key l) (p : α → Bool) :
    lookup key k (l.filter p) = (lookup key k l).filter p := by
  ext a
  rw [(h.filter p).lookup_eq_some_iff, List.mem_filter, Option.filter_eq_some_iff,
    h.lookup_eq_some_iff]
  tauto

end OxideTerm.Lib.Keyed
