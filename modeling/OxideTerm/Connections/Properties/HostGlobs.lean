import OxideTerm.Connections.HostGlobs
import OxideTerm.Lib.Glob

/-!
# What host globs match

The loop of the matchers ends, and finds a match just when there is a sparing one, in which a star in
front of a star of the value takes nothing else. What carries this is that no round changes whether a
match is still to be found, from where the loop is or from a later start behind the last star.
-/

namespace OxideTerm.Connections

open OxideTerm.Lib OxideTerm.Lib.Text OxideTerm.SshConfig

def globWildcards : Wildcards UInt8 := ⟨starByte, anyByte, by decide⟩

section Loop

variable {pattern value : Bytes} {state : GlobState}

/-! ## The invariant -/

/-- Behind the last star, the pattern fits the value up to where the loop is. -/
structure GlobState.Aligned (pattern value : Bytes) (state : GlobState) : Prop where
  pattern_le : state.patternIndex ≤ pattern.length
  value_le : state.valueIndex ≤ value.length
  behindStar : ∀ star, state.starIndex = some star →
    star < state.patternIndex ∧ state.starValueIndex ≤ state.valueIndex ∧
      ∃ stretch front, pattern.drop (star + 1) = stretch ++ pattern.drop state.patternIndex ∧
        value.drop state.starValueIndex = front ++ value.drop state.valueIndex ∧
        List.Forall₂ globWildcards.Fits stretch front

/-- A match is still to be found: from here, or from a later start behind the last star. -/
def GlobState.Hopeful (pattern value : Bytes) (state : GlobState) : Prop :=
  globWildcards.Sparing (pattern.drop state.patternIndex) (value.drop state.valueIndex) ∨
    ∃ star, state.starIndex = some star ∧ ∃ rest, rest <:+ value.drop (state.starValueIndex + 1) ∧
      globWildcards.Sparing (pattern.drop (star + 1)) rest

/-- The starts that are left behind the last star. -/
def GlobState.starts (value : Bytes) (state : GlobState) : Nat :=
  match state.starIndex with
  | some _ => value.length - state.starValueIndex
  | none => value.length + 1

/-- What gets smaller: the starts that are left, or else the pattern that is left. -/
def GlobState.measure (pattern value : Bytes) (state : GlobState) : Nat :=
  state.starts value * (pattern.length + 1) + (pattern.length - state.patternIndex)

theorem aligned_new (pattern value : Bytes) : GlobState.new.Aligned pattern value :=
  ⟨Nat.zero_le _, Nat.zero_le _, fun _ h => by cases h⟩

theorem hopeful_new (pattern value : Bytes) :
    GlobState.new.Hopeful pattern value ↔ globWildcards.Sparing pattern value := by
  rw [GlobState.Hopeful]
  constructor
  · rintro (h | ⟨_, h, _⟩)
    · exact h
    · cases h
  · exact .inl

theorem exists_drop_cons {l : Bytes} {i : Nat} (h : i < l.length) :
    ∃ x, l[i]? = some x ∧ l.drop i = x :: l.drop (i + 1) :=
  ⟨l[i], List.getElem?_eq_getElem h, List.drop_eq_getElem_cons h⟩

theorem suffix_iff_eq_or_suffix_drop {l rest : Bytes} {n : Nat} :
    rest <:+ l.drop n ↔ rest = l.drop n ∨ rest <:+ l.drop (n + 1) := by
  rw [← List.drop_drop]
  cases l.drop n with
  | nil => simp
  | cons x l => exact List.suffix_cons_iff

/-- From a later start, a match gets to where the loop is or behind it. -/
theorem GlobState.Aligned.exists_later (h : state.Aligned pattern value) {star : Nat}
    (hstar : state.starIndex = some star) {rest : Bytes}
    (hrest : rest <:+ value.drop (state.starValueIndex + 1))
    (hsparing : globWildcards.Sparing (pattern.drop (star + 1)) rest) :
    ∃ later, later <:+ value.drop state.valueIndex ∧
      globWildcards.Sparing (pattern.drop state.patternIndex) later := by
  obtain ⟨-, -, stretch, front, hpattern, hvalue, hfits⟩ := h.behindStar star hstar
  have hlate : rest <:+ front ++ value.drop state.valueIndex :=
    hvalue ▸ suffix_iff_eq_or_suffix_drop.mpr (.inr hrest)
  exact Wildcards.Sparing.align hfits hlate (hpattern ▸ hsparing)

/-! ## Rounds -/

/-- Nothing fits where the loop is stuck. -/
theorem not_sparing_of_stuck {x : UInt8} (hvalue : value.drop state.valueIndex =
      x :: value.drop (state.valueIndex + 1))
    (hfits : ∀ c, pattern[state.patternIndex]? = some c → ¬ globWildcards.Fits c x)
    (hstar : ∀ c, pattern[state.patternIndex]? = some c → c ≠ globWildcards.star) :
    ¬ globWildcards.Sparing (pattern.drop state.patternIndex) (value.drop state.valueIndex) := by
  intro h
  rw [hvalue] at h
  by_cases hlt : state.patternIndex < pattern.length
  · obtain ⟨c, hc, hdrop⟩ := exists_drop_cons hlt
    rw [hdrop, Wildcards.sparing_cons_of_ne (hstar c hc)] at h
    exact hfits c hc h.1
  · rw [List.drop_eq_nil_of_le (by omega), Wildcards.sparing_nil_left] at h
    cases h

theorem hopeful_iff_of_stuck (hnot : ¬ globWildcards.Sparing (pattern.drop state.patternIndex)
      (value.drop state.valueIndex)) :
    state.Hopeful pattern value ↔ ∃ star, state.starIndex = some star ∧
      ∃ rest, rest <:+ value.drop (state.starValueIndex + 1) ∧
        globWildcards.Sparing (pattern.drop (star + 1)) rest :=
  ⟨fun h => h.resolve_left hnot, .inr⟩

/-- What a round does: it goes on with the same hope and less to do, or decides. -/
theorem globStep_cases (h : state.Aligned pattern value) :
    (∃ next, globStep pattern value state = .next next ∧ next.Aligned pattern value ∧
      (next.Hopeful pattern value ↔ state.Hopeful pattern value) ∧
      next.measure pattern value < state.measure pattern value) ∨
    (globStep pattern value state = .mismatch ∧ ¬ state.Hopeful pattern value) ∨
    (globStep pattern value state = .finished state.patternIndex ∧
      (state.Hopeful pattern value ↔
        ∀ c ∈ pattern.drop state.patternIndex, c = starByte)) := by
  rw [globStep]
  split
  · next hlt =>
    obtain ⟨x, hx, hvalue⟩ := exists_drop_cons hlt
    rw [hx]
    split
    · -- the symbol fits: both indices go on
      next hfits =>
      obtain ⟨c, hc, hpattern⟩ := exists_drop_cons hfits.1
      have hfits : globWildcards.Fits c x := by
        rw [hc] at hfits
        exact hfits.2.imp Option.some.inj Option.some.inj
      refine .inl ⟨_, rfl, ⟨by show state.patternIndex + 1 ≤ _; omega,
        by show state.valueIndex + 1 ≤ _; omega, fun star hstar => ?_⟩, ?_, ?_⟩
      · obtain ⟨hlt', hle, stretch, front, hstretch, hfront, hall⟩ := h.behindStar star hstar
        refine ⟨by show star < state.patternIndex + 1; omega,
          by show state.starValueIndex ≤ state.valueIndex + 1; omega, stretch ++ [c], front ++ [x],
          ?_, ?_, List.rel_append hall (.cons hfits .nil)⟩
        · rw [hstretch, hpattern, List.append_assoc, List.singleton_append]
        · rw [hfront, hvalue, List.append_assoc, List.singleton_append]
      · refine or_congr ?_ Iff.rfl
        rw [hpattern, hvalue]
        by_cases hstar : c = globWildcards.star
        · subst hstar
          obtain rfl : globWildcards.star = x := hfits.resolve_left globWildcards.apart
          exact Wildcards.sparing_star_star.symm
        · rw [Wildcards.sparing_cons_of_ne hstar]
          exact ⟨fun h => ⟨hfits, h⟩, And.right⟩
      · have hless : pattern.length - (state.patternIndex + 1) <
            pattern.length - state.patternIndex := by omega
        exact Nat.add_lt_add_left hless _
    · next hfits =>
      split
      · -- a star: the loop comes back to it
        next hstar =>
        obtain ⟨c, hc, hpattern⟩ := exists_drop_cons hstar.1
        obtain rfl : c = globWildcards.star := Option.some.inj (hc.symm.trans hstar.2)
        have hne : (value.drop state.valueIndex).head? ≠ some globWildcards.star := by
          rw [hvalue]
          rintro heq
          obtain rfl := Option.some.inj heq
          exact hfits ⟨hstar.1, .inr hc⟩
        refine .inl ⟨_, rfl, ⟨by show state.patternIndex + 1 ≤ _; omega, h.value_le,
          fun star hstar => ?_⟩, ?_, ?_⟩
        · obtain rfl := Option.some.inj hstar
          exact ⟨Nat.lt_succ_self _, le_refl _, [], [], rfl, rfl, .nil⟩
        · have hhere : globWildcards.Sparing (pattern.drop state.patternIndex)
              (value.drop state.valueIndex) ↔ ∃ rest, rest <:+ value.drop state.valueIndex ∧
                globWildcards.Sparing (pattern.drop (state.patternIndex + 1)) rest := by
            rw [hpattern]
            exact Wildcards.sparing_star_of_head hne
          have hnext : GlobState.Hopeful pattern value { state with
              starIndex := some state.patternIndex
              patternIndex := state.patternIndex + 1
              starValueIndex := state.valueIndex } ↔
              ∃ rest, rest <:+ value.drop state.valueIndex ∧
                globWildcards.Sparing (pattern.drop (state.patternIndex + 1)) rest := by
            constructor
            · rintro (hnow | ⟨star, hstar, rest, hrest, hsparing⟩)
              · exact ⟨_, List.suffix_refl _, hnow⟩
              · obtain rfl := Option.some.inj hstar
                exact ⟨rest, suffix_iff_eq_or_suffix_drop.mpr (.inr hrest), hsparing⟩
            · rintro ⟨rest, hrest, hsparing⟩
              rcases suffix_iff_eq_or_suffix_drop.mp hrest with rfl | hrest
              · exact .inl hsparing
              · exact .inr ⟨_, rfl, rest, hrest, hsparing⟩
          rw [hnext, ← hhere]
          constructor
          · exact .inl
          · rintro (hnow | ⟨star, hstar, rest, hrest, hsparing⟩)
            · exact hnow
            · -- the start behind the older star would get here as well
              obtain ⟨later, hlater, hsparing⟩ := h.exists_later hstar hrest hsparing
              rw [hpattern] at hsparing
              obtain ⟨final, hfinal, hsparing⟩ := hsparing.exists_suffix
              exact hhere.mpr ⟨final, hfinal.trans hlater, hsparing⟩
        · have hless : pattern.length - (state.patternIndex + 1) <
              pattern.length - state.patternIndex := by omega
          have hle : value.length - state.valueIndex ≤ state.starts value := by
            unfold GlobState.starts
            split
            · next hindex =>
              obtain ⟨-, hle, -⟩ := h.behindStar _ hindex
              omega
            · omega
          exact Nat.add_lt_add_of_le_of_lt (Nat.mul_le_mul_right _ hle) hless
      · next hstar =>
        have hnot : ¬ globWildcards.Sparing (pattern.drop state.patternIndex)
            (value.drop state.valueIndex) := by
          refine not_sparing_of_stuck hvalue (fun c hc hfit => ?_) (fun c hc heq => ?_)
          · obtain ⟨hlt', -⟩ := List.getElem?_eq_some_iff.mp hc
            rw [hc] at hfits
            exact hfits ⟨hlt', hfit.imp (congrArg some) (congrArg some)⟩
          · obtain ⟨hlt', -⟩ := List.getElem?_eq_some_iff.mp hc
            exact hstar ⟨hlt', hc.trans (congrArg some heq)⟩
        rw [hopeful_iff_of_stuck hnot]
        cases hindex : state.starIndex with
        | none => exact .inr (.inl ⟨rfl, fun ⟨_, h, _⟩ => by cases h⟩)
        | some star =>
          -- back to the star, which takes one byte more
          obtain ⟨hlt', hle, -⟩ := h.behindStar star hindex
          have hpattern := h.pattern_le
          refine .inl ⟨_, rfl, ⟨by show star + 1 ≤ _; omega,
            by show state.starValueIndex + 1 ≤ _; omega, fun star' hstar' => ?_⟩, ?_, ?_⟩
          · obtain rfl := Option.some.inj hstar'
            exact ⟨Nat.lt_succ_self _, le_refl _, [], [], rfl, rfl, .nil⟩
          · constructor
            · rintro (hnow | ⟨star', hstar', rest, hrest, hsparing⟩)
              · exact ⟨star, rfl, _, List.suffix_refl _, hnow⟩
              · exact ⟨star', hstar', rest, suffix_iff_eq_or_suffix_drop.mpr (.inr hrest),
                  hsparing⟩
            · rintro ⟨star', hstar', rest, hrest, hsparing⟩
              obtain rfl := Option.some.inj hstar'
              rcases suffix_iff_eq_or_suffix_drop.mp hrest with rfl | hrest
              · exact .inl hsparing
              · exact .inr ⟨star, rfl, rest, hrest, hsparing⟩
          · have hless : value.length - (state.starValueIndex + 1) + 1 =
                value.length - state.starValueIndex := by omega
            simp only [GlobState.measure, GlobState.starts, hindex]
            rw [← hless, Nat.add_mul]
            omega
  · next hlt =>
    have hvalue : value.drop state.valueIndex = [] := List.drop_eq_nil_of_le (by omega)
    refine .inr (.inr ⟨rfl, ?_⟩)
    have hall := @Wildcards.sparing_nil_right _ globWildcards (pattern.drop state.patternIndex)
    rw [show (∀ c ∈ pattern.drop state.patternIndex, c = starByte) ↔ _ from hall.symm]
    constructor
    · rintro (hnow | ⟨star, hstar, rest, hrest, hsparing⟩)
      · rwa [hvalue] at hnow
      · obtain ⟨later, hlater, hsparing⟩ := h.exists_later hstar hrest hsparing
        rw [hvalue, List.suffix_nil] at hlater
        rwa [hlater] at hsparing
    · intro hnow
      exact .inl (by rwa [hvalue])

/-- The loop has decided whether there is a match. -/
def Decided (pattern : Bytes) (result : Option Nat) (matched : Prop) : Prop :=
  match result with
  | some patternIndex => patternIndex ≤ pattern.length ∧
      (matched ↔ ∀ c ∈ pattern.drop patternIndex, c = starByte)
  | none => ¬ matched

/-- **The loop ends, and decides.** -/
theorem globRun_decides : ∀ {rounds : Nat} {state : GlobState}, state.Aligned pattern value →
    state.measure pattern value < rounds →
      ∃ result, globRun pattern value rounds state = some result ∧
        Decided pattern result (state.Hopeful pattern value)
  | rounds + 1, state, h, hrounds => by
    rw [globRun]
    rcases globStep_cases h with ⟨next, hstep, haligned, hhopeful, hless⟩ | ⟨hstep, hnot⟩ |
      ⟨hstep, hall⟩
    · obtain ⟨result, hrun, hdecided⟩ := @globRun_decides rounds next haligned (by omega)
      rw [hstep]
      refine ⟨result, hrun, ?_⟩
      rwa [hhopeful] at hdecided
    · rw [hstep]
      exact ⟨none, rfl, hnot⟩
    · rw [hstep]
      exact ⟨some state.patternIndex, rfl, h.pattern_le, hall⟩

theorem globLoop_decides (pattern value : Bytes) :
    globRun pattern value (globRounds pattern value) .new ≠ none ∧
      Decided pattern (globLoop pattern value) (globWildcards.Sparing pattern value) := by
  obtain ⟨result, hrun, hdecided⟩ := @globRun_decides pattern value
    (globRounds pattern value) .new (aligned_new pattern value) (Nat.lt_succ_self _)
  rw [hopeful_new] at hdecided
  rw [globLoop, hrun]
  exact ⟨Option.some_ne_none _, hdecided⟩

end Loop

/-! ## The matchers -/

/-- What the loop sees of a text. -/
def globBytes (text : List Char) : Bytes := utf8Bytes (toAsciiLowercase text)

theorem wildcardMatch_iff (pattern value : List Char) :
    wildcardMatch pattern value = true ↔
      globWildcards.Sparing (globBytes pattern) (globBytes value) := by
  obtain ⟨-, hdecided⟩ := globLoop_decides (globBytes pattern) (globBytes value)
  unfold wildcardMatch
  simp only
  rw [← globBytes, ← globBytes]
  cases hloop : globLoop (globBytes pattern) (globBytes value) with
  | none =>
    rw [hloop] at hdecided
    exact iff_of_false Bool.false_ne_true hdecided
  | some patternIndex =>
    rw [hloop] at hdecided
    rw [hdecided.2]
    simp

theorem skipStars_eq_length_iff {pattern : Bytes} {patternIndex : Nat}
    (h : patternIndex ≤ pattern.length) :
    skipStars pattern patternIndex = pattern.length ↔
      ∀ c ∈ pattern.drop patternIndex, c = starByte := by
  have hlength : (pattern.drop patternIndex).length = pattern.length - patternIndex :=
    List.length_drop
  have htake := (List.takeWhile_prefix (fun c => c == starByte) (l := pattern.drop patternIndex))
  rw [skipStars]
  constructor
  · intro heq c hc
    have hself := htake.eq_of_length (by omega)
    rw [← hself] at hc
    simpa using List.mem_takeWhile_imp hc
  · intro hall
    have hself : (pattern.drop patternIndex).takeWhile (fun c => c == starByte) =
        pattern.drop patternIndex :=
      List.takeWhile_eq_self_iff.mpr fun c hc => by simpa using hall c hc
    rw [hself, hlength]
    omega

theorem privilegeHostPatternMatches_iff (host pattern : List Char) :
    privilegeHostPatternMatches host pattern = true ↔ trim pattern ≠ [] ∧
      globWildcards.Sparing (globBytes (trim pattern)) (globBytes (trim host)) := by
  obtain ⟨-, hdecided⟩ := globLoop_decides (globBytes (trim pattern)) (globBytes (trim host))
  unfold privilegeHostPatternMatches
  simp only
  split
  · next hnil =>
    exact iff_of_false Bool.false_ne_true fun h => h.1 (List.map_eq_nil_iff.mp hnil)
  · next hne =>
    have hpattern : trim pattern ≠ [] := fun h => hne (by rw [h]; rfl)
    rw [← globBytes, ← globBytes]
    cases hloop : globLoop (globBytes (trim pattern)) (globBytes (trim host)) with
    | none =>
      rw [hloop] at hdecided
      exact iff_of_false Bool.false_ne_true fun h => hdecided h.2
    | some patternIndex =>
      rw [hloop] at hdecided
      rw [hdecided.2, ← skipStars_eq_length_iff hdecided.1]
      simp [hpattern]

/-- Both matchers end and match exactly the language of the pattern. -/
structure GlobsExact (pattern value : List Char) : Prop where
  wildcardEnds : globRun (globBytes pattern) (globBytes value)
    (globRounds (globBytes pattern) (globBytes value)) .new ≠ none
  privilegeEnds : globRun (globBytes (trim pattern)) (globBytes (trim value))
    (globRounds (globBytes (trim pattern)) (globBytes (trim value))) .new ≠ none
  wildcard : wildcardMatch pattern value = true ↔
    globWildcards.Matches (globBytes pattern) (globBytes value)
  privilege : privilegeHostPatternMatches value pattern = true ↔ trim pattern ≠ [] ∧
    globWildcards.Matches (globBytes (trim pattern)) (globBytes (trim value))
  agree : trim pattern = pattern → trim value = value → pattern ≠ [] →
    wildcardMatch pattern value = privilegeHostPatternMatches value pattern

/-- If there is a match, there is one in which each star in front of a star of the value takes
nothing else. -/
def StarsSpared (pattern value : Bytes) : Prop :=
  globWildcards.Matches pattern value → globWildcards.Sparing pattern value

/-- **Host globs match exactly their language just where the stars can be spared.** -/
theorem hostGlobs_exact_iff (pattern value : List Char) :
    GlobsExact pattern value ↔
      StarsSpared (globBytes pattern) (globBytes value) ∧
        (trim pattern ≠ [] → StarsSpared (globBytes (trim pattern)) (globBytes (trim value))) := by
  constructor
  · intro h
    refine ⟨fun hmatches => ?_, fun hne hmatches => ?_⟩
    · exact (wildcardMatch_iff pattern value).mp (h.wildcard.mpr hmatches)
    · exact ((privilegeHostPatternMatches_iff value pattern).mp
        (h.privilege.mpr ⟨hne, hmatches⟩)).2
  · rintro ⟨hwildcard, hprivilege⟩
    refine ⟨(globLoop_decides _ _).1, (globLoop_decides _ _).1, ?_, ?_, ?_⟩
    · rw [wildcardMatch_iff]
      exact ⟨Wildcards.Sparing.matches, hwildcard⟩
    · rw [privilegeHostPatternMatches_iff]
      exact ⟨fun h => ⟨h.1, h.2.matches⟩, fun h => ⟨h.1, hprivilege h.1 h.2⟩⟩
    · intro hpattern hvalue hne
      rw [Bool.eq_iff_iff, wildcardMatch_iff, privilegeHostPatternMatches_iff, hpattern, hvalue]
      exact ⟨fun h => ⟨hne, h⟩, And.right⟩

/-- The pattern `*b` does not find its match in `*ab`. -/
theorem star_of_value_mistaken : ¬ GlobsExact ['*', 'b'] ['*', 'a', 'b'] := by
  intro h
  have hmatches : globWildcards.Matches (globBytes ['*', 'b']) (globBytes ['*', 'a', 'b']) :=
    ⟨[[0x2a, 0x61], [0x62]], .cons (.inl rfl) (.cons (.inr (.inr rfl)) .nil), by decide⟩
  have hnot : wildcardMatch ['*', 'b'] ['*', 'a', 'b'] = false := by decide
  rw [h.wildcard.mpr hmatches] at hnot
  cases hnot

end OxideTerm.Connections
