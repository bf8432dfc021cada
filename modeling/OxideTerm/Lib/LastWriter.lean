import Mathlib

/-!
# The last writer wins

A register keeps the entry of the greatest rank. An entry that arrives is dropped if what is there
ranks above it, and replaces it otherwise. If arrivals of one rank are the same, neither their order
nor how often they arrive matters.
-/

namespace OxideTerm.Lib.LastWriter

variable {ε ρ : Type*} [LinearOrder ρ] (rank : ε → ρ)

/-- What the register holds after an arrival. -/
def keep (held : Option ε) (arrival : ε) : Option ε :=
  match held with
  | none => some arrival
  | some entry => if rank arrival < rank entry then some entry else some arrival

/-- The greatest of what was held and what arrives; of two of one rank, the arrival. -/
def IsLatest (held : Option ε) (arrivals : List ε) (entry : ε) : Prop :=
  (entry ∈ arrivals ∧ (∀ arrival ∈ arrivals, rank arrival ≤ rank entry) ∧
      ∀ old ∈ held, rank old ≤ rank entry) ∨
    (held = some entry ∧ ∀ arrival ∈ arrivals, rank arrival < rank entry)

variable {rank} {held : Option ε} {arrivals : List ε} {entry : ε}

theorem keep_some_of_lt {arrival : ε} (h : rank arrival < rank entry) :
    keep rank (some entry) arrival = some entry := if_pos h

theorem keep_some_of_le {arrival : ε} (h : rank entry ≤ rank arrival) :
    keep rank (some entry) arrival = some arrival := if_neg (not_lt.mpr h)

/-- What is held stands against all that rank below it. -/
theorem foldl_keep_of_forall_lt : ∀ {arrivals : List ε},
    (∀ arrival ∈ arrivals, rank arrival < rank entry) →
      arrivals.foldl (keep rank) (some entry) = some entry
  | [], _ => rfl
  | arrival :: rest, h => by
    obtain ⟨harrival, hrest⟩ := List.forall_mem_cons.mp h
    rw [List.foldl_cons, keep_some_of_lt harrival, foldl_keep_of_forall_lt hrest]

/-- A register that held something, or to which something arrived, holds the latest. -/
theorem isLatest_of_foldl :
    ∀ {arrivals : List ε} {held : Option ε} {entry : ε},
      arrivals.foldl (keep rank) held = some entry → IsLatest rank held arrivals entry
  | [], _, _, h => .inr ⟨h, fun _ hmem => absurd hmem List.not_mem_nil⟩
  | arrival :: rest, none, entry, h => by
    rw [List.foldl_cons] at h
    rcases isLatest_of_foldl h with ⟨hmem, hrest, hheld⟩ | ⟨hheld, hrest⟩
    · exact .inl ⟨List.mem_cons_of_mem _ hmem, List.forall_mem_cons.mpr ⟨hheld _ rfl, hrest⟩,
        fun _ hnone => by cases hnone⟩
    · obtain rfl := Option.some.inj hheld
      exact .inl ⟨List.mem_cons_self, List.forall_mem_cons.mpr
        ⟨le_refl _, fun other hmem => (hrest other hmem).le⟩, fun _ hnone => by cases hnone⟩
  | arrival :: rest, some old, entry, h => by
    rw [List.foldl_cons] at h
    by_cases hlt : rank arrival < rank old
    · -- the arrival is dropped
      rw [keep_some_of_lt hlt] at h
      rcases isLatest_of_foldl h with ⟨hmem, hrest, hheld⟩ | ⟨hheld, hrest⟩
      · exact .inl ⟨List.mem_cons_of_mem _ hmem,
          List.forall_mem_cons.mpr ⟨hlt.le.trans (hheld old rfl), hrest⟩, hheld⟩
      · obtain rfl := Option.some.inj hheld
        exact .inr ⟨rfl, List.forall_mem_cons.mpr ⟨hlt, hrest⟩⟩
    · -- the arrival takes the place of what was held
      have hle := not_lt.mp hlt
      rw [keep_some_of_le hle] at h
      rcases isLatest_of_foldl h with ⟨hmem, hrest, hheld⟩ | ⟨hheld, hrest⟩
      · refine .inl ⟨List.mem_cons_of_mem _ hmem,
          List.forall_mem_cons.mpr ⟨hheld arrival rfl, hrest⟩, ?_⟩
        rintro _ ⟨⟩
        exact hle.trans (hheld arrival rfl)
      · obtain rfl := Option.some.inj hheld
        refine .inl ⟨List.mem_cons_self, List.forall_mem_cons.mpr
          ⟨le_refl _, fun other hmem => (hrest other hmem).le⟩, ?_⟩
        rintro _ ⟨⟩
        exact hle

theorem keep_ne_none (held : Option ε) (arrival : ε) : keep rank held arrival ≠ none := by
  cases held with
  | none => simp [keep]
  | some entry =>
    rw [keep]
    split <;> simp

/-- Only what was empty and got nothing is empty. -/
theorem foldl_keep_eq_none : ∀ {arrivals : List ε} {held : Option ε},
    arrivals.foldl (keep rank) held = none ↔ held = none ∧ arrivals = []
  | [], _ => by simp
  | arrival :: rest, held => by
    rw [List.foldl_cons, foldl_keep_eq_none]
    simp [keep_ne_none]

/-- There is one latest, if arrivals of one rank are the same. -/
theorem IsLatest.unique {arrivals' : List ε} {entry' : ε}
    (hsame : ∀ a ∈ arrivals, ∀ b ∈ arrivals, rank a = rank b → a = b)
    (hmem : ∀ a, a ∈ arrivals ↔ a ∈ arrivals') (h : IsLatest rank held arrivals entry)
    (h' : IsLatest rank held arrivals' entry') : entry = entry' := by
  rcases h with ⟨hentry, hle, hheld⟩ | ⟨hheld, hlt⟩
  · rcases h' with ⟨hentry', hle', -⟩ | ⟨hheld', hlt'⟩
    · have hentry'' := (hmem entry').mpr hentry'
      exact hsame entry hentry entry' hentry''
        (le_antisymm (hle' entry ((hmem entry).mp hentry)) (hle entry' hentry''))
    · exact absurd (hlt' entry ((hmem entry).mp hentry)) (not_lt.mpr (hheld entry' hheld'))
  · rcases h' with ⟨hentry', -, hheld'⟩ | ⟨hheld', -⟩
    · exact absurd (hlt entry' ((hmem entry').mpr hentry')) (not_lt.mpr (hheld' entry hheld))
    · exact Option.some.inj (hheld.symm.trans hheld')

/-- **The order of arrivals does not matter, nor does how often each arrives.** -/
theorem foldl_keep_congr {arrivals' : List ε}
    (hsame : ∀ a ∈ arrivals, ∀ b ∈ arrivals, rank a = rank b → a = b)
    (hmem : ∀ a, a ∈ arrivals ↔ a ∈ arrivals') :
    arrivals.foldl (keep rank) held = arrivals'.foldl (keep rank) held := by
  have hnil : arrivals = [] ↔ arrivals' = [] := by
    simp only [List.eq_nil_iff_forall_not_mem, hmem]
  cases hfirst : arrivals.foldl (keep rank) held with
  | none =>
    obtain ⟨hheld, harrivals⟩ := foldl_keep_eq_none.mp hfirst
    exact (foldl_keep_eq_none.mpr ⟨hheld, hnil.mp harrivals⟩).symm
  | some entry =>
    cases hsecond : arrivals'.foldl (keep rank) held with
    | none =>
      obtain ⟨hheld, harrivals'⟩ := foldl_keep_eq_none.mp hsecond
      rw [foldl_keep_eq_none.mpr ⟨hheld, hnil.mpr harrivals'⟩] at hfirst
      cases hfirst
    | some entry' =>
      rw [IsLatest.unique hsame hmem (isLatest_of_foldl hfirst) (isLatest_of_foldl hsecond)]

end OxideTerm.Lib.LastWriter
