import OxideTerm.Editor.Search
import OxideTerm.Lib.Occurrences

/-!
# Streaming search is plain search

A hit is a matter of the character before it, of the query and of the character behind it. The window
of a streaming search shows all of this for every position that it tries, wherever the text is cut.
-/

namespace OxideTerm.Editor

open Lib Lib.Text
open SshConfig (eqIgnoreAsciiCase toAsciiLowercase)

variable {isAlphanumeric : Char → Bool} {options : FindOptions}
  {query source front behind pre after a b m r window part future whole : List Char}
  {caseSensitive : Bool} {base : Nat} {found : List FindMatch} {state : Search}

/-! ## Comparisons -/

/-- What is compared of a text. -/
def fold (caseSensitive : Bool) (text : List Char) : List Char :=
  if caseSensitive then text else toAsciiLowercase text

@[simp] theorem fold_nil : fold caseSensitive [] = [] := by
  cases caseSensitive <;> rfl

@[simp] theorem fold_append :
    fold caseSensitive (a ++ b) = fold caseSensitive a ++ fold caseSensitive b := by
  cases caseSensitive <;> simp [fold, toAsciiLowercase]

@[simp] theorem length_fold : (fold caseSensitive a).length = a.length := by
  cases caseSensitive <;> simp [fold, toAsciiLowercase]

/-- Lower-casing an ASCII letter gives an ASCII letter. -/
theorem utf8Size_toLower (ch : Char) : ch.toLower.utf8Size = ch.utf8Size := by
  by_cases h : ch.val ≥ 'A'.val ∧ ch.val ≤ 'Z'.val
  · have hch : ch.val.toNat ≤ 90 := UInt32.le_iff_toNat_le.mp h.2
    have hlow : ch.toLower.val.toNat ≤ 122 := by
      rw [Char.toLower, dif_pos h]
      show (ch.val + 32).toNat ≤ 122
      rw [UInt32.toNat_add]
      have : (32 : UInt32).toNat = 32 := rfl
      omega
    rw [Char.utf8Size_eq_one_iff.mpr (UInt32.le_iff_toNat_le.mpr (Nat.le_trans hlow (by decide))),
      Char.utf8Size_eq_one_iff.mpr (UInt32.le_iff_toNat_le.mpr (Nat.le_trans hch (by decide)))]
  · rw [Char.toLower, dif_neg h]

@[simp] theorem byteLength_fold (text : List Char) :
    byteLength (fold caseSensitive text) = byteLength text := by
  cases caseSensitive with
  | true => rfl
  | false =>
    simp only [fold, Bool.false_eq_true, if_false]
    induction text with
    | nil => rfl
    | cons ch text ih =>
      rw [toAsciiLowercase, List.map_cons, byteLength_cons, byteLength_cons, utf8Size_toLower]
      rw [toAsciiLowercase] at ih
      rw [ih]

/-- A text begins with the query. -/
def isCandidate (caseSensitive : Bool) (query behind : List Char) : Bool :=
  (fold caseSensitive query).isPrefixOf (fold caseSensitive behind)

/-- **A text begins with the query if a part of it compares as the query.** -/
theorem isCandidate_iff : isCandidate caseSensitive query behind = true ↔
    ∃ part rest, behind = part ++ rest ∧ fold caseSensitive part = fold caseSensitive query := by
  rw [isCandidate, List.isPrefixOf_iff_prefix]
  constructor
  · intro h
    refine ⟨behind.take query.length, behind.drop query.length,
      (List.take_append_drop _ _).symm, ?_⟩
    have htake := List.prefix_iff_eq_take.mp h
    rw [length_fold] at htake
    rw [htake]
    cases caseSensitive <;> simp [fold, toAsciiLowercase, List.map_take]
  · rintro ⟨part, rest, rfl, hpart⟩
    rw [fold_append, hpart]
    exact List.prefix_append _ _

theorem length_of_fold_eq (h : fold caseSensitive part = fold caseSensitive query) :
    part.length = query.length ∧ byteLength part = byteLength query := by
  have hlength := congrArg List.length h
  have hbytes := congrArg byteLength h
  rw [length_fold, length_fold] at hlength
  rw [byteLength_fold, byteLength_fold] at hbytes
  exact ⟨hlength, hbytes⟩

/-! ## The next match -/

/-- What is skipped before the first suffix with a property. -/
def firstSkip (p : List Char → Bool) : List Char → Option (List Char)
  | [] => none
  | ch :: rest => if p (ch :: rest) then some [] else (firstSkip p rest).map (ch :: ·)

theorem firstSkip_none {p : List Char → Bool} (h : firstSkip p b = none) :
    ∀ passed ch ahead, b = passed ++ ch :: ahead → p (ch :: ahead) = false := by
  induction b with
  | nil =>
    intro passed ch ahead hb
    exact absurd hb (by simp)
  | cons first b ih =>
    rw [firstSkip] at h
    split at h
    next => cases h
    next hp =>
      intro passed ch ahead hb
      cases passed with
      | nil =>
        obtain ⟨rfl, rfl⟩ := List.cons.inj hb
        exact Bool.eq_false_of_not_eq_true hp
      | cons other passed =>
        exact ih (Option.map_eq_none_iff.mp h) passed ch ahead (List.cons.inj hb).2

theorem firstSkip_some {p : List Char → Bool} {skip : List Char} (h : firstSkip p b = some skip) :
    ∃ ch rest, b = skip ++ ch :: rest ∧ p (ch :: rest) = true ∧
      ∀ passed x ahead, skip = passed ++ x :: ahead → p (x :: ahead ++ ch :: rest) = false := by
  induction b generalizing skip with
  | nil => cases h
  | cons first b ih =>
    rw [firstSkip] at h
    split at h
    next hp =>
      cases h
      exact ⟨first, b, rfl, hp, fun passed x ahead hskip => absurd hskip (by simp)⟩
    next hp =>
      obtain ⟨skip, hskip, rfl⟩ := Option.map_eq_some_iff.mp h
      obtain ⟨ch, rest, rfl, hfound, hbefore⟩ := ih hskip
      refine ⟨ch, rest, rfl, hfound, ?_⟩
      intro passed x ahead hpassed
      cases passed with
      | nil =>
        obtain ⟨rfl, rfl⟩ := List.cons.inj hpassed
        exact Bool.eq_false_of_not_eq_true hp
      | cons other passed =>
        exact hbefore passed x ahead (List.cons.inj hpassed).2

theorem find_eq_firstSkip (hquery : query ≠ []) (b : List Char) :
    find query b = (firstSkip (isCandidate true query) b).map byteLength := by
  induction b with
  | nil => rw [find, if_neg hquery, firstSkip, Option.map_none]
  | cons ch b ih =>
    rw [find, firstSkip, ih]
    have hcandidate : isCandidate true query (ch :: b) = query.isPrefixOf (ch :: b) := rfl
    rw [hcandidate]
    split
    next => rfl
    next => cases firstSkip (isCandidate true query) b <;> rfl

/-- At a position the comparison of slices is the comparison with what is behind it. -/
theorem matchesIgnoringCase_eq (hsource : source = a ++ b) :
    matchesIgnoringCase source query (byteLength a) = some (isCandidate false query b) := by
  have hboundary : ∀ part rest, b = part ++ rest → fold false part = fold false query →
      IsByteBoundary source (byteLength a + byteLength query) := by
    intro part rest hb hpart
    refine ⟨a ++ part, rest, by rw [hsource, hb, List.append_assoc], ?_⟩
    rw [weight_append, ← byteLength_eq_weight, ← byteLength_eq_weight, (length_of_fold_eq hpart).2]
  rw [matchesIgnoringCase]
  split
  next h =>
    obtain ⟨part, rest, rfl, hpart⟩ : ∃ part rest, b = part ++ rest ∧
        byteLength part = byteLength query := by
      have hstop := (isCharBoundary_iff _ _).mp h.2
      rw [hsource] at hstop
      exact isBoundary_append_right.mp hstop
    have hslice : slice source (byteLength a) (byteLength a + byteLength query) = some part := by
      rw [slice, if_neg (by omega), hsource, sliceFrom_byteLength, Option.bind_some, ← hpart,
        Nat.add_sub_cancel_left, sliceTo_byteLength]
    rw [hslice, Option.map_some, Option.some.injEq, Bool.eq_iff_iff, isCandidate_iff]
    rw [eqIgnoreAsciiCase, beq_iff_eq]
    constructor
    · intro heq
      exact ⟨part, rest, rfl, heq⟩
    · rintro ⟨part', rest', hb, heq⟩
      obtain ⟨rfl, -⟩ := append_inj_of_weight utf8Size_pos hb
        (hpart.trans (length_of_fold_eq heq).2.symm)
      exact heq
  next h =>
    rw [Option.some.injEq]
    refine (Bool.eq_false_of_not_eq_true fun hcandidate => h ?_).symm
    obtain ⟨part, rest, hb, hpart⟩ := isCandidate_iff.mp hcandidate
    have hstop := hboundary part rest hb hpart
    exact ⟨hstop.le, (isCharBoundary_iff _ _).mpr hstop⟩

theorem findIgnoringCase_eq (hsource : source = a ++ b) :
    findIgnoringCase source query ((charIndices b (byteLength a)).map Prod.fst) =
      some ((firstSkip (isCandidate false query) b).map fun skip => byteLength (a ++ skip)) := by
  induction b generalizing a with
  | nil => rfl
  | cons ch b ih =>
    rw [charIndices, List.map_cons, findIgnoringCase, matchesIgnoringCase_eq hsource,
      Option.bind_some, firstSkip]
    split
    next => simp
    next =>
      have hrest := @ih (a ++ [ch]) (by rw [hsource]; simp)
      rw [byteLength_append, byteLength_cons, byteLength_nil, Nat.add_zero] at hrest
      rw [hrest]
      cases firstSkip (isCandidate false query) b with
      | none => rfl
      | some skip => simp

theorem map_charIndices (b : List Char) (start k : Nat) :
    (charIndices b k).map (fun entry => start + entry.1) =
      (charIndices b (start + k)).map Prod.fst := by
  induction b generalizing k with
  | nil => rfl
  | cons ch b ih => rw [charIndices, charIndices, List.map_cons, List.map_cons, ih, Nat.add_assoc]

/-- **The next match is the first position with a candidate.** -/
theorem nextMatch_eq (hquery : query ≠ []) (hsource : source = a ++ b) :
    nextMatch source query (byteLength a) caseSensitive =
      some ((firstSkip (isCandidate caseSensitive query) b).map fun skip =>
        byteLength (a ++ skip)) := by
  have htail : sliceFrom source (byteLength a) = some b := by
    rw [hsource]
    exact sliceFrom_byteLength b a
  rw [nextMatch, htail, Option.bind_some]
  cases caseSensitive with
  | true =>
    rw [if_pos rfl, find_eq_firstSkip hquery]
    cases firstSkip (isCandidate true query) b with
    | none => rfl
    | some skip => simp
  | false =>
    rw [if_neg Bool.false_ne_true, map_charIndices, Nat.add_zero]
    exact findIgnoringCase_eq hsource

/-! ## Hits -/

/-- A hit: a candidate, and where whole words are asked for, no word goes on at its ends. -/
def isHit (isAlphanumeric : Char → Bool) (options : FindOptions) (query front behind : List Char) :
    Bool :=
  isCandidate options.caseSensitive query behind &&
    (!options.wholeWord || (!(front.getLast?).any (isWordChar isAlphanumeric) &&
      !((behind.drop query.length).head?).any (isWordChar isAlphanumeric)))

/-- The match at a hit. -/
def matchAt (base : Nat) (query front : List Char) : FindMatch :=
  ⟨TextRange.new (base + byteLength front) (base + (byteLength front + byteLength query))⟩

theorem isAccepted_eq (hsource : source = front ++ behind)
    (h : isCandidate options.caseSensitive query behind = true) :
    isAccepted isAlphanumeric source options (byteLength front)
      (byteLength front + byteLength query) =
        some (isHit isAlphanumeric options query front behind) := by
  obtain ⟨part, rest, rfl, hpart⟩ := isCandidate_iff.mp h
  obtain ⟨hlength, hbytes⟩ := length_of_fold_eq hpart
  have hstart : isCharBoundary source (byteLength front) = true := by
    rw [isCharBoundary_iff, hsource]
    exact isBoundary_append
  have hstop : isCharBoundary source (byteLength front + byteLength query) = true := by
    rw [isCharBoundary_iff, hsource, ← hbytes]
    exact isBoundary_append.right
  rw [isAccepted, if_pos ⟨hstart, hstop⟩, isHit, h, Bool.true_and]
  cases options.wholeWord with
  | false => simp
  | true =>
    have hbefore : sliceTo source (byteLength front) = some front := by
      rw [hsource]
      exact sliceTo_byteLength _ front
    have hafter : sliceFrom source (byteLength front + byteLength query) = some rest := by
      rw [hsource, ← hbytes, ← byteLength_append, ← List.append_assoc]
      exact sliceFrom_byteLength rest (front ++ part)
    have hdrop : (part ++ rest).drop query.length = rest := by
      rw [← hlength, List.drop_left]
    rw [if_pos rfl, isWholeWordMatch, hbefore, hafter, hdrop]
    simp

/-- **The loop finds the hits of a stretch**, in their order. -/
theorem appendWindowMatchesFrom_eq (hquery : query ≠ []) {fuel : Nat}
    (hfuel : (m ++ r).length < fuel) (hsource : source = a ++ (m ++ r)) :
    appendWindowMatchesFrom isAlphanumeric source query options base
        (base + byteLength (a ++ m)) fuel (byteLength a) found =
      some (found ++ (occurrences (isHit isAlphanumeric options query) a m r).map
        (matchAt base query)) := by
  induction fuel generalizing a m found with
  | zero => exact absurd hfuel (Nat.not_lt_zero _)
  | succ fuel ih =>
    rw [appendWindowMatchesFrom, nextMatch_eq hquery hsource]
    have hmiss : ∀ front behind, isCandidate options.caseSensitive query behind = false →
        isHit isAlphanumeric options query front behind = false := by
      intro front behind h
      rw [isHit, h, Bool.false_and]
    cases hskip : firstSkip (isCandidate options.caseSensitive query) (m ++ r) with
    | none =>
      have hnone := firstSkip_none hskip
      rw [occurrences_eq_nil (by
        intro passed ch ahead hm
        exact hmiss _ _ (hnone passed ch (ahead ++ r) (by rw [hm]; simp)))]
      simp
    | some skip =>
      obtain ⟨ch, rest, hb, hfound, hbefore⟩ := firstSkip_some hskip
      simp only [Option.map_some, Option.bind_some]
      split
      next hpast =>
        -- the candidate is behind the stretch, which is skipped
        rw [byteLength_append, byteLength_append] at hpast
        obtain ⟨more, rfl, -⟩ := exists_between utf8Size_pos hb
          (show byteLength m ≤ byteLength skip by omega)
        rw [occurrences_eq_nil (by
          intro passed x ahead hm
          have hx := hbefore passed x (ahead ++ more) (by rw [hm]; simp)
          rw [List.append_assoc] at hb
          have hr := List.append_cancel_left hb
          rw [hr]
          refine hmiss _ _ ?_
          rw [← hx]
          simp)]
        simp
      next hhere =>
        rw [byteLength_append, byteLength_append] at hhere
        obtain ⟨more, rfl, hmore⟩ := exists_between utf8Size_pos hb.symm
          (show byteLength skip ≤ byteLength m by omega)
        obtain ⟨m, rfl⟩ : ∃ m, more = ch :: m := by
          cases more with
          | nil =>
            rw [List.append_nil] at hhere
            omega
          | cons first m =>
            obtain ⟨rfl, -⟩ := List.cons.inj hmore
            exact ⟨m, rfl⟩
        obtain ⟨-, rfl⟩ := List.cons.inj hmore
        have hsource' : source = (a ++ skip) ++ ch :: (m ++ r) := by
          rw [hsource]
          simp
        have hnext : nextSearchOffset source (byteLength (a ++ skip)) =
            some (byteLength ((a ++ skip) ++ [ch])) := by
          rw [nextSearchOffset, charAt, hsource', sliceFrom_byteLength]
          simp [Nat.add_assoc]
        -- nothing is found in what is skipped
        have hskipped : occurrences (isHit isAlphanumeric options query) a skip
            (ch :: m ++ r) = [] := by
          refine occurrences_eq_nil fun passed x ahead hpassed => hmiss _ _ ?_
          exact hbefore passed x ahead hpassed
        rw [isAccepted_eq hsource' hfound, Option.bind_some, hnext, Option.bind_some,
          occurrences_append, hskipped, List.nil_append, occurrences, List.cons_append]
        have hstop : byteLength (a ++ (skip ++ ch :: m)) =
            byteLength (((a ++ skip) ++ [ch]) ++ m) := by
          simp
        split
        next hend =>
          -- nothing is left behind the candidate
          have hnil : m ++ r = [] := by
            rw [hsource'] at hend
            simp only [byteLength_append, byteLength_cons, byteLength_nil] at hend
            have hzero : byteLength (m ++ r) = 0 := by
              rw [byteLength_append]
              omega
            exact weight_eq_zero utf8Size_pos hzero
          obtain ⟨rfl, rfl⟩ := List.append_eq_nil_iff.mp hnil
          rw [List.append_nil]
          split <;> simp [matchAt, occurrences]
        next =>
          rw [hstop, ih (by simp only [List.append_assoc, List.length_append,
            List.length_cons] at hfuel ⊢; omega) (by rw [hsource']; simp)]
          split <;> simp [matchAt]

theorem appendWindowMatches_eq (hquery : query ≠ []) {start stop : Nat}
    (hsource : source = a ++ (m ++ r)) (hstart : start = base + byteLength a)
    (hstop : stop = base + byteLength (a ++ m)) :
    appendWindowMatches isAlphanumeric source query options base start stop found =
      some (found ++ (occurrences (isHit isAlphanumeric options query) a m r).map
        (matchAt base query)) := by
  subst hstart hstop
  have hlength : (m ++ r).length < byteLength source + 1 := by
    have hweight := length_le_weight utf8Size_pos (m ++ r)
    rw [hsource, byteLength_append]
    rw [← byteLength_eq_weight] at hweight
    omega
  rw [appendWindowMatches, checkedSub, if_pos (Nat.le_add_right _ _), Option.bind_some,
    Nat.add_sub_cancel_left]
  exact appendWindowMatchesFrom_eq hquery hlength hsource

/-- The hits of a text, from its start to its end. -/
def hitsOf (isAlphanumeric : Char → Bool) (options : FindOptions) (query source : List Char) :
    List FindMatch :=
  (occurrences (isHit isAlphanumeric options query) [] source []).map (matchAt 0 query)

/-- **Plain search lists the hits.** -/
theorem findAll_eq (hquery : query ≠ []) :
    findAll isAlphanumeric source query options =
      some (hitsOf isAlphanumeric options query source) := by
  rw [findAll, if_neg hquery]
  refine (appendWindowMatches_eq (a := []) hquery (List.append_nil source).symm ?_ ?_).trans ?_
  · simp
  · simp
  · rfl

/-! ## What a window shows -/

/-- **A hit depends on the character before it and on one more character than the query has.** -/
theorem isHit_local (hbefore : pre = [] ∨ front ≠ [])
    (hbehind : after = [] ∨ byteLength query < byteLength behind) :
    isHit isAlphanumeric options query (pre ++ front) (behind ++ after) =
      isHit isAlphanumeric options query front behind := by
  have hlast : (pre ++ front).getLast? = front.getLast? := by
    rcases hbefore with rfl | hfront
    · rfl
    · obtain ⟨front, ch, rfl⟩ := List.eq_nil_or_concat front |>.resolve_left hfront
      simp
  rcases hbehind with rfl | hlonger
  · rw [List.append_nil, isHit, isHit, hlast]
  · have hcandidate : isCandidate options.caseSensitive query (behind ++ after) =
        isCandidate options.caseSensitive query behind := by
      rw [Bool.eq_iff_iff, isCandidate_iff, isCandidate_iff]
      constructor
      · rintro ⟨part, rest, htext, hpart⟩
        obtain ⟨more, rfl, -⟩ := exists_between utf8Size_pos htext.symm (by
          rw [← byteLength_eq_weight, ← byteLength_eq_weight, (length_of_fold_eq hpart).2]
          exact Nat.le_of_lt hlonger)
        exact ⟨part, more, rfl, hpart⟩
      · rintro ⟨part, rest, rfl, hpart⟩
        exact ⟨part, rest ++ after, List.append_assoc _ _ _, hpart⟩
    rw [isHit, isHit, hcandidate, hlast]
    cases hfound : isCandidate options.caseSensitive query behind with
    | false => rfl
    | true =>
      -- the character behind the match is in the window
      obtain ⟨part, rest, rfl, hpart⟩ := isCandidate_iff.mp hfound
      obtain ⟨hlength, hbytes⟩ := length_of_fold_eq hpart
      rw [byteLength_append, hbytes] at hlonger
      obtain ⟨ch, rest, rfl⟩ : ∃ ch rest', rest = ch :: rest' := by
        cases rest with
        | nil => exact absurd hlonger (by simp)
        | cons ch rest => exact ⟨ch, rest, rfl⟩
      rw [List.append_assoc, ← hlength, List.drop_left, List.drop_left]
      rfl

theorem matchAt_append : matchAt 0 query (pre ++ front) = matchAt (byteLength pre) query front := by
  simp [matchAt, Nat.add_assoc]

/-- **The hits of a stretch can be seen in a window** that shows a character before it and a
candidate with one more character behind it. -/
theorem occurrences_window (hbefore : pre = [] ∨ a ≠ [])
    (hbehind : after = [] ∨ byteLength query ≤ byteLength r) :
    (occurrences (isHit isAlphanumeric options query) (pre ++ a) m (r ++ after)).map
        (matchAt 0 query) =
      (occurrences (isHit isAlphanumeric options query) a m r).map
        (matchAt (byteLength pre) query) := by
  rw [occurrences_congr, List.map_map]
  · refine List.map_congr_left fun front _ => ?_
    exact matchAt_append
  · intro passed ch ahead hm
    rw [← List.append_assoc (ch :: ahead)]
    refine isHit_local ?_ ?_
    · exact hbefore.imp_right fun ha => List.append_ne_nil_of_left_ne_nil ha _
    · refine hbehind.imp_right fun hlength => ?_
      rw [byteLength_append, byteLength_cons]
      have hpos := ch.utf8Size_pos
      omega

/-! ## The stream -/

/-- What the search has found in front of `future`: the window shows what is still to be tried, and
a character before it. -/
structure Search.Sound (isAlphanumeric : Char → Bool) (options : FindOptions)
    (query whole future : List Char) (state : Search) (pre tried untried : List Char) : Prop where
  whole : whole = pre ++ (tried ++ (untried ++ future))
  window : state.window = tried ++ untried
  base : state.base = byteLength pre
  scanned : state.scanned = byteLength pre + byteLength tried
  found : state.found = (occurrences (isHit isAlphanumeric options query) [] (pre ++ tried)
    (untried ++ future)).map (matchAt 0 query)
  context : pre = [] ∨ tried ≠ []

/-- A step keeps the search sound. -/
theorem Search.feed_sound (hquery : query ≠ []) {tried untried : List Char}
    (h : state.Sound isAlphanumeric options query whole (part ++ future) pre tried untried) :
    ∃ state' pre' tried' untried', state.feed isAlphanumeric query options part = some state' ∧
      state'.Sound isAlphanumeric options query whole future pre' tried' untried' := by
  have hwindow : state.window ++ part = tried ++ (untried ++ part) := by
    rw [h.window, List.append_assoc]
  have hlimit := floorCharBoundary_isFloor (tried ++ (untried ++ part))
    (byteLength (tried ++ (untried ++ part)) - (byteLength query + 4))
  rw [Search.feed]
  dsimp only
  rw [hwindow]
  generalize floorCharBoundary (tried ++ (untried ++ part))
    (byteLength (tried ++ (untried ++ part)) - (byteLength query + 4)) = limit at hlimit
  split
  next =>
    refine ⟨_, pre, tried, untried ++ part, rfl, ?_⟩
    exact {
      whole := by rw [h.whole]; simp only [List.append_assoc]
      window := rfl
      base := h.base
      scanned := h.scanned
      found := by rw [h.found]; simp only [List.append_assoc]
      context := h.context }
  next hpast =>
    rw [h.base, h.scanned] at hpast
    -- the window is cut at the limit, behind what has been tried
    obtain ⟨seen, ahead, hcut, hseen⟩ := hlimit.1
    have hseen' : byteLength seen = limit := hseen
    obtain ⟨fresh, rfl, hfresh⟩ := exists_between utf8Size_pos hcut
      (show byteLength tried ≤ byteLength seen by omega)
    have hahead : byteLength query + 4 ≤ byteLength ahead := by
      have hle := hlimit.2.1
      have hlength := congrArg byteLength hcut
      simp only [byteLength_append] at hle hlength hseen'
      omega
    obtain ⟨dropped, kept, hdrop, hdropped⟩ :=
      (floorCharBoundary_isFloor (tried ++ (untried ++ part)) (limit - 4)).1
    have hdropLe : byteLength dropped ≤ limit - 4 := by
      rw [byteLength_eq_weight, hdropped]
      exact floorCharBoundary_le
    obtain ⟨shown, hshown, rfl⟩ := exists_between utf8Size_pos
      (hdrop.symm.trans hcut) (show byteLength dropped ≤ byteLength (tried ++ fresh) by omega)
    have hslice : sliceFrom (tried ++ (untried ++ part))
        (floorCharBoundary (tried ++ (untried ++ part)) (limit - 4)) = some (shown ++ ahead) := by
      rw [← hdropped, hdrop]
      exact sliceFrom_byteLength _ _
    rw [appendWindowMatches_eq hquery (a := tried) (m := fresh) (r := ahead) (by rw [hfresh])
      (by rw [h.scanned, h.base]) (by rw [hseen']), Option.bind_some, hslice, Option.map_some]
    refine ⟨_, pre ++ dropped, shown, ahead, rfl, ?_⟩
    exact {
      whole := by
        rw [h.whole]
        have hrest : tried ++ (untried ++ (part ++ future)) =
            (dropped ++ (shown ++ ahead)) ++ future := by
          rw [← hdrop]
          simp only [List.append_assoc]
        rw [hrest]
        simp only [List.append_assoc]
      window := rfl
      base := by rw [h.base, byteLength_append, ← hdropped]; rfl
      scanned := by
        dsimp only
        rw [h.base, ← hseen', hshown, byteLength_append, byteLength_append, Nat.add_assoc]
      found := by
        have hfuture : untried ++ (part ++ future) = fresh ++ (ahead ++ future) := by
          rw [← List.append_assoc, hfresh, List.append_assoc]
        have hstretch : (pre ++ dropped) ++ shown = (pre ++ tried) ++ fresh := by
          rw [List.append_assoc, ← hshown, List.append_assoc]
        have hsplit : occurrences (isHit isAlphanumeric options query) [] ((pre ++ tried) ++ fresh)
            (ahead ++ future) = _ ++ _ := occurrences_append
        dsimp only
        rw [h.found, hfuture, hstretch, hsplit, List.map_append, List.nil_append,
          occurrences_window h.context (.inr (Nat.le_of_add_right_le hahead)), h.base]
      context := by
        rcases Nat.lt_or_ge limit 4 with hsmall | hlarge
        · -- nothing is dropped
          have hnil : dropped = [] := weight_eq_zero utf8Size_pos (show byteLength dropped = 0 by
            omega)
          subst hnil
          rcases h.context with rfl | htried
          · exact .inl rfl
          · refine .inr ?_
            rw [List.nil_append] at hshown
            rw [← hshown]
            exact List.append_ne_nil_of_left_ne_nil htried _
        · refine .inr ?_
          rintro rfl
          rw [List.append_nil] at hshown
          rw [hshown] at hseen'
          omega }

/-- The loop over a piece ends, and keeps the search sound. -/
theorem Search.feedPiece_sound (hquery : query ≠ []) {fuel : Nat} {remaining : List Char}
    (hfuel : remaining.length < fuel) {tried untried : List Char}
    (h : state.Sound isAlphanumeric options query whole (remaining ++ future) pre tried untried) :
    ∃ state' pre' tried' untried',
      Search.feedPiece isAlphanumeric query options fuel state remaining = some state' ∧
      state'.Sound isAlphanumeric options query whole future pre' tried' untried' := by
  induction fuel generalizing state remaining pre tried untried with
  | zero => exact absurd hfuel (Nat.not_lt_zero _)
  | succ fuel ih =>
    rw [Search.feedPiece]
    split
    next hnil =>
      subst hnil
      exact ⟨state, pre, tried, untried, rfl, h⟩
    next hne =>
      have hfloor := floorCharBoundary_isFloor remaining (min (byteLength remaining) chunkBytes)
      obtain ⟨part, rest, hremaining, hpart⟩ := hfloor.1
      -- a character is at most four bytes long, so that one is taken
      obtain ⟨ch, more, rfl⟩ := List.exists_cons_of_ne_nil hne
      have hfirst : ch.utf8Size ≤ byteLength part := by
        rw [byteLength_eq_weight, hpart]
        refine hfloor.2.2 _ ⟨[ch], more, rfl, Nat.add_zero _⟩ ?_
        have hsize := ch.utf8Size_le_four
        rw [byteLength_cons, chunkBytes]
        omega
      have hshorter : rest.length < fuel := by
        have hpartNe : part ≠ [] := by
          rintro rfl
          have hpos := ch.utf8Size_pos
          rw [byteLength_nil] at hfirst
          omega
        have hlength := congrArg List.length hremaining
        have hpartPos := List.length_pos_of_ne_nil hpartNe
        rw [List.length_append] at hlength
        omega
      dsimp only
      rw [← hpart, hremaining, ← byteLength_eq_weight, sliceTo_byteLength, Option.bind_some,
        sliceFrom_byteLength, Option.bind_some]
      rw [hremaining, List.append_assoc] at h
      obtain ⟨state', pre', tried', untried', hfeed, hsound⟩ := Search.feed_sound hquery h
      rw [hfeed, Option.bind_some]
      exact ih hshorter hsound

/-- The loop over the pieces keeps the search sound. -/
theorem Search.feedPieces_sound (hquery : query ≠ []) {pieces : List (List Char)}
    {tried untried : List Char}
    (h : state.Sound isAlphanumeric options query whole pieces.flatten pre tried untried) :
    ∃ state' pre' tried' untried',
      Search.feedPieces isAlphanumeric query options state pieces = some state' ∧
      state'.Sound isAlphanumeric options query whole [] pre' tried' untried' := by
  induction pieces generalizing state pre tried untried with
  | nil => exact ⟨state, pre, tried, untried, rfl, h⟩
  | cons piece pieces ih =>
    rw [List.flatten_cons] at h
    obtain ⟨state', pre', tried', untried', hpiece, hsound⟩ :=
      Search.feedPiece_sound hquery (Nat.lt_succ_self piece.length) h
    rw [Search.feedPieces, hpiece, Option.bind_some]
    exact ih hsound

/-- **Streaming search is plain search**, however the text is divided. -/
theorem findAllInPieces_eq_findAll (isAlphanumeric : Char → Bool) (pieces : List (List Char))
    (query : List Char) (options : FindOptions) : ∃ matches',
      findAllInPieces isAlphanumeric pieces query options = some matches' ∧
      findAll isAlphanumeric pieces.flatten query options = some matches' := by
  by_cases hquery : query = []
  · subst hquery
    exact ⟨[], rfl, rfl⟩
  · refine ⟨hitsOf isAlphanumeric options query pieces.flatten, ?_, findAll_eq hquery⟩
    have hinit : Search.Sound isAlphanumeric options query pieces.flatten pieces.flatten
        ⟨[], 0, 0, []⟩ [] [] [] := ⟨rfl, rfl, rfl, rfl, rfl, .inl rfl⟩
    obtain ⟨state, pre, tried, untried, hrun, hsound⟩ := Search.feedPieces_sound hquery hinit
    have hwhole : pieces.flatten = pre ++ (tried ++ untried) := by
      rw [hsound.whole, List.append_nil]
    rw [findAllInPieces, if_neg hquery, hrun, Option.bind_some]
    rw [appendWindowMatches_eq hquery (a := tried) (m := untried) (r := [])
      (by rw [hsound.window, List.append_nil]) (by rw [hsound.scanned, hsound.base])
      (by rw [chunksLength, hwhole, byteLength_append, hsound.base])]
    have hrest := @occurrences_window isAlphanumeric options query pre [] tried untried []
      hsound.context (.inl rfl)
    have hsplit : occurrences (isHit isAlphanumeric options query) [] ((pre ++ tried) ++ untried)
        [] = _ ++ _ := occurrences_append
    rw [hsound.found, hsound.base, ← hrest, hitsOf, hwhole, ← List.append_assoc, hsplit,
      List.map_append, List.nil_append]
    rfl

end OxideTerm.Editor
