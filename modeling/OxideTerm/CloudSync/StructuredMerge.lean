import OxideTerm.Lib.FiniteMap
import Mathlib.Data.String.Basic

/-!
# Merging structured values

The three-way merge of JSON values. Objects that differ on all three sides are merged field by
field; anything else is taken from the side that changed, and from the preferred side where both
did.

Numbers are compared as the source compares them. The fields of an object are listed in the order
of their keys, since two objects are equal whatever the order of their fields.
-/

namespace OxideTerm.CloudSync

open OxideTerm.Lib

mutual

inductive JsonValue (N : Type) where
  | null
  | bool (value : Bool)
  | number (value : N)
  | string (value : String)
  | array (elements : JsonElements N)
  | object (fields : JsonFields N)
deriving DecidableEq

inductive JsonElements (N : Type) where
  | nil
  | cons (value : JsonValue N) (rest : JsonElements N)
deriving DecidableEq

inductive JsonFields (N : Type) where
  | nil
  | cons (key : String) (value : JsonValue N) (rest : JsonFields N)
deriving DecidableEq

end

variable {N : Type}

namespace JsonFields

def get : JsonFields N → String → Option (JsonValue N)
  | .nil, _ => none
  | .cons key value rest, key' => if key = key' then some value else rest.get key'

def keys : JsonFields N → List String
  | .nil => []
  | .cons key _ rest => key :: rest.keys

def ofList : List (String × JsonValue N) → JsonFields N
  | [] => .nil
  | (key, value) :: rest => .cons key value (ofList rest)

theorem sizeOf_get : ∀ (fields : JsonFields N) (key : String),
    sizeOf (fields.get key) < 1 + (1 + sizeOf fields)
  | .nil, key => by
    simp [get]
  | .cons key value rest, key' => by
    have hrest := sizeOf_get rest key'
    rw [get]
    split
    · simp
      omega
    · simp only [cons.sizeOf_spec]
      omega

end JsonFields

inductive ConflictStrategy where
  | merge
  | replace
  | skip
  | rename
deriving DecidableEq

def mergeConflictPrefersLocal (strategy : ConflictStrategy) : Bool := strategy ≠ .replace

theorem pairwise_inOrder {α : Type} [LinearOrder α] (s : Finset α) :
    (inOrder s).Pairwise (· < ·) := by
  have hle : (inOrder s).Pairwise (· ≤ ·) := by
    obtain ⟨⟨l⟩, hl⟩ := s
    exact List.pairwise_insertionSort (· ≤ ·) l
  refine (hle.and (nodup_inOrder s)).imp ?_
  rintro a b ⟨hab, hne⟩
  exact lt_of_le_of_ne hab hne

/-- The keys of three objects. -/
def unionKeys (base localFields remote : JsonFields N) : List String :=
  inOrder (base.keys.toFinset ∪ localFields.keys.toFinset ∪ remote.keys.toFinset)

/-- The merged value, and whether anything of it is taken from the local side. -/
def mergeStructuredJsonValue [DecidableEq N] (strategy : ConflictStrategy)
    (base localValue remote : Option (JsonValue N)) : Option (JsonValue N) × Bool :=
  if localValue = remote then (remote, false)
  else if base = localValue then (remote, false)
  else if base = remote then (localValue, true)
  else
    match base, localValue, remote with
    | some (.object baseFields), some (.object localFields), some (.object remoteFields) =>
      let children := (unionKeys baseFields localFields remoteFields).map fun key =>
        (key, mergeStructuredJsonValue strategy (baseFields.get key) (localFields.get key)
          (remoteFields.get key))
      (some (.object (.ofList (children.filterMap fun child =>
        child.2.1.map fun value => (child.1, value)))), children.any fun child => child.2.2)
    | _, localValue, remote =>
      if mergeConflictPrefersLocal strategy then (localValue, true) else (remote, false)
termination_by sizeOf base
decreasing_by
  have h := JsonFields.sizeOf_get baseFields key
  simp
  omega

/-- The merge of models of any type that can be written as JSON values and read back. -/
def mergeStructuredModelFields [DecidableEq N] {T : Type} (toValue : T → Except String (JsonValue N))
    (fromValue : JsonValue N → Except String T) (strategy : ConflictStrategy)
    (base localModel remote : T) : Except String (Option T) := do
  let baseValue ← toValue base
  let localValue ← toValue localModel
  let remoteValue ← toValue remote
  let (merged, usedLocal) := mergeStructuredJsonValue strategy (some baseValue) (some localValue)
    (some remoteValue)
  match merged with
  | none => return none
  | some mergedValue =>
    if !usedLocal || mergedValue = remoteValue then return none
    else
      let model ← fromValue mergedValue
      return some model

/-! ## Well-formed values -/

mutual

/-- The fields of each object are in the order of their keys. -/
def JsonValue.WellFormed : JsonValue N → Prop
  | .array elements => elements.WellFormed
  | .object fields => fields.keys.Pairwise (· < ·) ∧ fields.WellFormed
  | _ => True

def JsonElements.WellFormed : JsonElements N → Prop
  | .nil => True
  | .cons value rest => value.WellFormed ∧ rest.WellFormed

def JsonFields.WellFormed : JsonFields N → Prop
  | .nil => True
  | .cons _ value rest => value.WellFormed ∧ rest.WellFormed

end

namespace JsonFields

theorem wellFormed_of_get : ∀ {fields : JsonFields N} {key : String} {value : JsonValue N},
    fields.WellFormed → fields.get key = some value → value.WellFormed
  | .nil, _, _, _, h => by
    rw [get] at h
    cases h
  | .cons key' value' rest, key, value, hwf, h => by
    rw [WellFormed] at hwf
    rw [get] at h
    split at h
    · rw [← Option.some.inj h]
      exact hwf.1
    · exact wellFormed_of_get hwf.2 h

theorem get_eq_none : ∀ {fields : JsonFields N} {key : String}, key ∉ fields.keys →
    fields.get key = none
  | .nil, _, _ => rfl
  | .cons key' value' rest, key, h => by
    rw [keys, List.mem_cons, not_or] at h
    rw [get, if_neg (Ne.symm h.1)]
    exact get_eq_none h.2

/-- The fields with some keys, as far as they have values. -/
def select (f : String → Option (JsonValue N)) (keys : List String) : JsonFields N :=
  .ofList (keys.filterMap fun key => (f key).map fun value => (key, value))

theorem select_cons (f : String → Option (JsonValue N)) (key : String) (keys : List String) :
    select f (key :: keys) = (f key).elim (select f keys) fun value => .cons key value (select f keys) := by
  unfold select
  cases hf : f key with
  | none => rw [List.filterMap_cons_none (by rw [hf]; rfl), Option.elim_none]
  | some value =>
    rw [List.filterMap_cons_some (by rw [hf]; rfl), Option.elim_some]
    rfl

theorem get_select (f : String → Option (JsonValue N)) : ∀ (keys : List String) (key : String),
    (select f keys).get key = if key ∈ keys then f key else none
  | [], key => by
    rw [if_neg List.not_mem_nil]
    rfl
  | key' :: keys, key => by
    have hrest := get_select f keys key
    rw [select_cons]
    by_cases heq : key' = key
    · subst heq
      rw [if_pos List.mem_cons_self]
      cases hf : f key' with
      | none =>
        rw [hf] at hrest
        rw [Option.elim_none, hrest]
        split
        · rfl
        · rfl
      | some value => rw [Option.elim_some, get, if_pos rfl]
    · have hmem : key ∈ key' :: keys ↔ key ∈ keys := by
        rw [List.mem_cons, or_iff_right (Ne.symm heq)]
      simp only [hmem]
      cases f key' with
      | none => rw [Option.elim_none, hrest]
      | some value => rw [Option.elim_some, get, if_neg heq, hrest]

theorem select_congr {f g : String → Option (JsonValue N)} {keys : List String}
    (h : ∀ key ∈ keys, f key = g key) : select f keys = select g keys := by
  unfold select
  rw [List.filterMap_congr fun key hkey => by rw [h key hkey]]

/-- Fields in order are what is selected of them by keys in order. -/
theorem select_get : ∀ {keys : List String} {fields : JsonFields N},
    fields.keys.Pairwise (· < ·) → keys.Pairwise (· < ·) → (∀ key ∈ fields.keys, key ∈ keys) →
    select fields.get keys = fields
  | [], .nil, _, _, _ => rfl
  | [], .cons key value rest, _, _, h => absurd (h key List.mem_cons_self) List.not_mem_nil
  | key :: keys, .nil, hfields, hkeys, _ => by
    rw [select_cons, get, Option.elim_none]
    exact select_get hfields (List.pairwise_cons.mp hkeys).2 fun _ h => absurd h List.not_mem_nil
  | key :: keys, .cons key' value rest, hfields, hkeys, h => by
    obtain ⟨hfirst, hrest⟩ := List.pairwise_cons.mp hkeys
    obtain ⟨hfirst', hrest'⟩ := List.pairwise_cons.mp hfields
    rw [select_cons]
    by_cases heq : key' = key
    · subst heq
      have hsame : select (get (.cons key' value rest)) keys = select rest.get keys := by
        refine select_congr fun other hother => ?_
        rw [get, if_neg (hfirst other hother).ne]
      rw [get, if_pos rfl, Option.elim_some, hsame, select_get hrest' hrest]
      intro other hother
      refine (List.mem_cons.mp (h other (List.mem_cons_of_mem _ hother))).resolve_left ?_
      exact (hfirst' other hother).ne'
    · have hmem : key' ∈ keys := (List.mem_cons.mp (h key' List.mem_cons_self)).resolve_left heq
      have hlt : ∀ other ∈ (JsonFields.cons key' value rest).keys, key < other := by
        intro other hother
        rcases List.mem_cons.mp hother with rfl | hother
        · exact hfirst _ hmem
        · exact (hfirst key' hmem).trans (hfirst' other hother)
      have hnone : get (.cons key' value rest) key = none :=
        get_eq_none fun hkey => absurd (hlt key hkey) (lt_irrefl key)
      rw [hnone, Option.elim_none, select_get hfields hrest]
      intro other hother
      exact (List.mem_cons.mp (h other hother)).resolve_left (hlt other hother).ne'

end JsonFields

end OxideTerm.CloudSync
