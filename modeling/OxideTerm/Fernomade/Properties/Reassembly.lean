import OxideTerm.Fernomade.Accumulator

/-!
# Fragments in any order

An accumulator that is fed the fragments of one message knows nothing but which of them it has
seen (`HasSeen`). So neither their order nor their number matters: the message is there from the
moment on at which each fragment has been seen once.
-/

namespace OxideTerm.Fernomade

open OxideTerm.Lib

namespace FragmentAccumulator

/-- What an accumulator holds when the fragments with just these indices have arrived. -/
structure HasSeen (message : Bytes) (maximum : Nat) (seen : Finset Nat)
    (a : FragmentAccumulator) : Prop where
  maximum_eq : a.maximumMessageBytes = maximum
  lt_count : ∀ i ∈ seen, i < Fragment.chunkCount message
  fragments_eq : ∀ i, a.fragments[i]? =
    if i ∈ seen then some (chunkAt maxFragmentBodyBytes message i) else none
  size_eq : a.fragments.size = seen.card
  finalIndex_eq : a.finalIndex = if Fragment.chunkCount message - 1 ∈ seen then
    some (Fragment.chunkCount message - 1) else none
  totalBytes_eq : a.totalBytes = ∑ i ∈ seen, (chunkAt maxFragmentBodyBytes message i).length

variable {message : Bytes} {maximum : Nat} {seen : Finset Nat} {a : FragmentAccumulator} {i : Nat}

theorem hasSeen_new (message : Bytes) (stateId : UInt64) (maximum : Nat) :
    HasSeen message maximum ∅ (new stateId maximum) where
  maximum_eq := rfl
  lt_count := by simp
  fragments_eq := by simp [new]
  size_eq := by simp [new]
  finalIndex_eq := by simp [new]
  totalBytes_eq := by simp [new]

theorem HasSeen.holds (h : HasSeen message maximum seen a) : Holds message a where
  pieces := by
    intro i body hbody
    rw [h.fragments_eq] at hbody
    split at hbody
    · next hi => exact ⟨h.lt_count i hi, (Option.some.inj hbody).symm⟩
    · cases hbody
  last := by
    intro i hi
    have hpos := Fragment.chunkCount_pos message
    rw [h.finalIndex_eq] at hi
    split at hi
    · obtain rfl := Option.some.inj hi
      omega
    · cases hi

/-! ## Sizes -/

/-- The bodies of all fragments are as long as the message. -/
theorem sum_length_chunks (message : Bytes) :
    ∑ i ∈ Finset.range (Fragment.chunkCount message),
      (chunkAt maxFragmentBodyBytes message i).length = message.length := by
  have hflat := congrArg List.length (Fragment.flatten_chunks message)
  rw [List.length_flatten, List.map_map] at hflat
  rw [← hflat, Finset.sum_range]
  rw [← List.sum_ofFn, List.ofFn_eq_map, ← List.map_coe_finRange_eq_range, List.map_map]
  rfl

theorem sum_length_le (hlt : ∀ i ∈ seen, i < Fragment.chunkCount message) :
    ∑ i ∈ seen, (chunkAt maxFragmentBodyBytes message i).length ≤ message.length := by
  rw [← sum_length_chunks message]
  exact Finset.sum_le_sum_of_subset fun i hi => Finset.mem_range.mpr (hlt i hi)

/-! ## The last fragment that is missing -/

/-- **The message is complete when all fragments have been seen.** -/
theorem HasSeen.tryComplete_eq (h : HasSeen message maximum seen a) :
    a.tryComplete = .ok
      (if seen = Finset.range (Fragment.chunkCount message) then some message else none) := by
  have hpos := Fragment.chunkCount_pos message
  have hsubset : seen ⊆ Finset.range (Fragment.chunkCount message) := fun i hi =>
    Finset.mem_range.mpr (h.lt_count i hi)
  unfold tryComplete
  by_cases hlast : Fragment.chunkCount message - 1 ∈ seen
  · rw [h.finalIndex_eq, if_pos hlast]
    simp only
    rw [h.size_eq, Nat.sub_add_cancel hpos]
    by_cases hcard : seen.card = Fragment.chunkCount message
    · have hall : seen = Finset.range (Fragment.chunkCount message) :=
        Finset.eq_of_subset_of_card_le hsubset (by rw [Finset.card_range, hcard])
      have hbodies : (List.range (Fragment.chunkCount message)).mapM
          (fun index => a.fragments[index]?) = some ((List.range (Fragment.chunkCount message)).map
            (chunkAt maxFragmentBodyBytes message)) := by
        refine mapM_eq_some fun i hi => ?_
        rw [h.fragments_eq, if_pos]
        rw [hall, Finset.mem_range]
        exact List.mem_range.mp hi
      rw [if_neg (not_not.mpr hcard), hbodies, if_pos hall]
      simp only
      rw [Fragment.flatten_chunks]
    · have hsome : seen ≠ Finset.range (Fragment.chunkCount message) := by
        rintro rfl
        exact hcard (Finset.card_range _)
      rw [if_pos hcard, if_neg hsome]
  · have hsome : seen ≠ Finset.range (Fragment.chunkCount message) := by
      rintro rfl
      exact hlast (Finset.mem_range.mpr (by omega))
    rw [h.finalIndex_eq, if_neg hlast, if_neg hsome]

/-! ## One fragment more -/

/-- An accumulator that has noted whether this fragment is the last one. -/
theorem HasSeen.finalIndex_noteFinal (h : HasSeen message maximum seen a) :
    (noteFinal message a i).finalIndex =
      if Fragment.chunkCount message - 1 ∈ insert i seen then
        some (Fragment.chunkCount message - 1) else none := by
  have hpos := Fragment.chunkCount_pos message
  unfold noteFinal
  by_cases hfinal : i + 1 = Fragment.chunkCount message
  · obtain rfl : i = Fragment.chunkCount message - 1 := by omega
    rw [if_pos hfinal, if_pos (Finset.mem_insert_self _ _)]
  · have hiff : Fragment.chunkCount message - 1 ∈ insert i seen ↔
        Fragment.chunkCount message - 1 ∈ seen := by
      rw [Finset.mem_insert, or_iff_right]
      omega
    rw [if_neg hfinal, h.finalIndex_eq]
    simp only [hiff]

theorem noteFinal_fields (message : Bytes) (a : FragmentAccumulator) (i : Nat) :
    (noteFinal message a i).fragments = a.fragments ∧
      (noteFinal message a i).maximumMessageBytes = a.maximumMessageBytes ∧
      (noteFinal message a i).totalBytes = a.totalBytes ∧
      (noteFinal message a i).stateId = a.stateId := by
  unfold noteFinal
  split
  · exact ⟨rfl, rfl, rfl, rfl⟩
  · exact ⟨rfl, rfl, rfl, rfl⟩

/-- **What one fragment adds**, and what is returned. -/
theorem hasSeen_push (h : HasSeen message maximum seen a) (hi : i < Fragment.chunkCount message)
    (hmax : message.length ≤ maximum) (hlength : message.length < 2 ^ 64) (sent echoed : UInt16) :
    HasSeen message maximum (insert i seen)
        (a.push (Fragment.fragmentAt message sent echoed a.stateId i)).1 ∧
      (a.push (Fragment.fragmentAt message sent echoed a.stateId i)).2 = .ok
        (if insert i seen = Finset.range (Fragment.chunkCount message) then some message
          else none) ∧
      (a.push (Fragment.fragmentAt message sent echoed a.stateId i)).1.stateId = a.stateId := by
  obtain ⟨hfragments, hmaximum, htotal, hid⟩ := noteFinal_fields message a i
  have hlt : ∀ j ∈ insert i seen, j < Fragment.chunkCount message := by
    intro j hj
    rcases Finset.mem_insert.mp hj with rfl | hj
    · exact hi
    · exact h.lt_count j hj
  rw [push_eq_of_holds h.holds hi]
  by_cases hseen : i ∈ seen
  · -- The fragment is a duplicate.
    have hsame : HasSeen message maximum (insert i seen) (noteFinal message a i) := by
      refine ⟨hmaximum.trans h.maximum_eq, hlt, ?_, ?_, h.finalIndex_noteFinal, ?_⟩
      · rw [hfragments, Finset.insert_eq_of_mem hseen]
        exact h.fragments_eq
      · rw [hfragments, Finset.insert_eq_of_mem hseen]
        exact h.size_eq
      · rw [htotal, Finset.insert_eq_of_mem hseen]
        exact h.totalBytes_eq
    have hheld : (noteFinal message a i).fragments[i]? =
        some (chunkAt maxFragmentBodyBytes message i) := by
      rw [hfragments, h.fragments_eq, if_pos hseen]
    rw [hheld]
    simp only [if_true]
    exact ⟨hsame, hsame.tryComplete_eq, hid⟩
  · have hfree : (noteFinal message a i).fragments[i]? = none := by
      rw [hfragments, h.fragments_eq, if_neg hseen]
    have hsum : a.totalBytes + (chunkAt maxFragmentBodyBytes message i).length =
        ∑ j ∈ insert i seen, (chunkAt maxFragmentBodyBytes message j).length := by
      rw [Finset.sum_insert hseen, h.totalBytes_eq, Nat.add_comm]
    have hle := sum_length_le hlt
    have hadd : checkedAdd (noteFinal message a i).totalBytes
        (chunkAt maxFragmentBodyBytes message i).length =
        some (∑ j ∈ insert i seen, (chunkAt maxFragmentBodyBytes message j).length) := by
      rw [checkedAdd, htotal, hsum, if_pos (by omega)]
    have hroom : ¬ ∑ j ∈ insert i seen, (chunkAt maxFragmentBodyBytes message j).length >
        (noteFinal message a i).maximumMessageBytes := by
      rw [hmaximum, h.maximum_eq]
      omega
    have hstored : HasSeen message maximum (insert i seen) { noteFinal message a i with
        totalBytes := ∑ j ∈ insert i seen, (chunkAt maxFragmentBodyBytes message j).length
        fragments := (noteFinal message a i).fragments.insert i
          (chunkAt maxFragmentBodyBytes message i) } := by
      refine ⟨hmaximum.trans h.maximum_eq, hlt, ?_, ?_, h.finalIndex_noteFinal, rfl⟩
      · intro j
        simp only
        rw [Std.ExtTreeMap.getElem?_insert, hfragments, h.fragments_eq]
        by_cases hj : i = j
        · subst hj
          rw [if_pos (Nat.compare_eq_eq.mpr rfl), if_pos (Finset.mem_insert_self _ _)]
        · have hiff : j ∈ insert i seen ↔ j ∈ seen := by
            rw [Finset.mem_insert, or_iff_right (Ne.symm hj)]
          rw [if_neg fun heq => hj (Nat.compare_eq_eq.mp heq)]
          simp only [hiff]
      · simp only
        have habsent : ¬ (noteFinal message a i).fragments.contains i = true := by
          rw [Std.ExtTreeMap.contains_iff_mem, Std.ExtTreeMap.mem_iff_isSome_getElem?, hfree]
          exact Bool.false_ne_true
        rw [Std.ExtTreeMap.size_insert, if_neg habsent, hfragments, h.size_eq,
          Finset.card_insert_of_notMem hseen]
    rw [hfree]
    simp only
    unfold store
    rw [hadd]
    simp only
    rw [if_neg hroom]
    exact ⟨hstored, hstored.tryComplete_eq, hid⟩

/-! ## All fragments -/

/-- The results of any sequence of fragments. -/
theorem pushAll_fragmentAt (hmax : message.length ≤ maximum) (hlength : message.length < 2 ^ 64)
    (sent echoed : UInt16) (stateId : UInt64) :
    ∀ (indices : List Nat) (seen : Finset Nat) (a : FragmentAccumulator),
      HasSeen message maximum seen a → a.stateId = stateId →
      (∀ i ∈ indices, i < Fragment.chunkCount message) → ∀ k < indices.length,
        (a.pushAll (indices.map (Fragment.fragmentAt message sent echoed stateId)))[k]? =
          some (.ok (if seen ∪ (indices.take (k + 1)).toFinset =
            Finset.range (Fragment.chunkCount message) then some message else none))
  | [], _, _, _, _, _, k, hk => absurd hk (Nat.not_lt_zero k)
  | i :: indices, seen, a, h, hid, hlt, k, hk => by
    obtain ⟨hseen, hresult, hsame⟩ :=
      hasSeen_push h (hlt i List.mem_cons_self) hmax hlength sent echoed
    rw [hid] at hseen hresult hsame
    rw [List.map_cons, pushAll]
    cases k with
    | zero =>
      rw [List.getElem?_cons_zero, hresult, Finset.union_comm]
      rfl
    | succ k =>
      rw [List.getElem?_cons_succ, pushAll_fragmentAt hmax hlength sent echoed stateId indices _ _
        hseen hsame (fun j hj => hlt j (List.mem_cons_of_mem _ hj)) k (Nat.lt_of_succ_lt_succ hk)]
      rw [List.take_succ_cons, List.toFinset_cons, Finset.insert_union, Finset.union_insert]

theorem fragmentAt_injective (message : Bytes) (sent echoed : UInt16) (stateId : UInt64) :
    Function.Injective (Fragment.fragmentAt message sent echoed stateId) := fun _ _ h =>
  congrArg (fun f : Fragment => f.header.index) h

/-- All fragments of a message are among these, or some index is missing. -/
theorem all_mem_iff (sent echoed : UInt16) (stateId : UInt64) {indices : List Nat}
    (hlt : ∀ i ∈ indices, i < Fragment.chunkCount message) {fs : List Fragment}
    (hfs : Fragment.split message sent echoed stateId = .ok fs) :
    (∀ f ∈ fs, f ∈ indices.map (Fragment.fragmentAt message sent echoed stateId)) ↔
      indices.toFinset = Finset.range (Fragment.chunkCount message) := by
  constructor
  · intro hall
    ext i
    rw [List.mem_toFinset, Finset.mem_range]
    refine ⟨hlt i, fun hi => ?_⟩
    have hmem := hall _ ((Fragment.mem_split hfs).mpr ⟨i, hi, rfl⟩)
    exact (List.mem_map_of_injective (fragmentAt_injective message sent echoed stateId)).mp hmem
  · intro hall f hf
    obtain ⟨i, hi, rfl⟩ := (Fragment.mem_split hfs).mp hf
    refine List.mem_map_of_mem ?_
    rw [← List.mem_toFinset, hall, Finset.mem_range]
    exact hi

end FragmentAccumulator

/-- Fragments of a message are given by their indices. -/
theorem exists_indices {message : Bytes} {sent echoed : UInt16} {stateId : UInt64}
    {fs : List Fragment} (hfs : Fragment.split message sent echoed stateId = .ok fs) :
    ∀ {received : List Fragment}, (∀ f ∈ received, f ∈ fs) →
      ∃ indices : List Nat, (∀ i ∈ indices, i < Fragment.chunkCount message) ∧
        received = indices.map (Fragment.fragmentAt message sent echoed stateId)
  | [], _ => ⟨[], by simp, rfl⟩
  | f :: received, h => by
    obtain ⟨hf, hrest⟩ := List.forall_mem_cons.mp h
    obtain ⟨i, hi, rfl⟩ := (Fragment.mem_split hfs).mp hf
    obtain ⟨indices, hlt, rfl⟩ := exists_indices hfs hrest
    exact ⟨i :: indices, List.forall_mem_cons.mpr ⟨hi, hlt⟩, rfl⟩

/-- Splitting fails for messages that are too long, and for no others. -/
theorem split_error_iff (message : Bytes) (sent echoed : UInt16) (stateId : UInt64) :
    (∃ e, Fragment.split message sent echoed stateId = .error e) ↔
      32768 * maxFragmentBodyBytes < message.length := by
  have hcount : Fragment.chunkCount message ≤ 2 ^ 15 ↔
      message.length ≤ 32768 * maxFragmentBodyBytes := by
    rw [Fragment.chunkCount, divCeil_maxFragmentBodyBytes, maxFragmentBodyBytes]
    omega
  rw [Fragment.split_eq]
  by_cases hfits : Fragment.chunkCount message ≤ 2 ^ 15
  · rw [if_pos hfits]
    refine iff_of_false (by simp) ?_
    exact Nat.not_lt.mpr (hcount.mp hfits)
  · rw [if_neg hfits]
    refine iff_of_true ⟨_, rfl⟩ ?_
    exact Nat.not_le.mp fun hle => hfits (hcount.mpr hle)

/-- **Splitting, encoding, parsing and putting together is the identity**, whatever the order of the
fragments and however often each of them arrives. -/
theorem split_reassembles (message : Bytes) (sent echoed : UInt16) (stateId : UInt64)
    (maximum : Nat) (hmax : message.length ≤ maximum) :
    ((∃ e, Fragment.split message sent echoed stateId = .error e) ↔
      32768 * maxFragmentBodyBytes < message.length) ∧
    ∀ fs, Fragment.split message sent echoed stateId = .ok fs →
      ∀ received : List Fragment, (∀ f ∈ received, f ∈ fs) →
        ∃ parsed, received.mapM (fun f => Fragment.parse f.encode) = .ok parsed ∧
          ∀ k < received.length,
            ((FragmentAccumulator.new stateId maximum).pushAll parsed)[k]? = some (.ok
              (if ∀ f ∈ fs, f ∈ received.take (k + 1) then some message else none)) := by
  refine ⟨split_error_iff message sent echoed stateId, fun fs hfs received hreceived => ?_⟩
  have hfits : ¬ 32768 * maxFragmentBodyBytes < message.length := fun hlong => by
    obtain ⟨e, he⟩ := (split_error_iff message sent echoed stateId).mpr hlong
    rw [he] at hfs
    cases hfs
  have hcount : Fragment.chunkCount message ≤ 2 ^ 15 := by
    rw [maxFragmentBodyBytes] at hfits
    rw [Fragment.chunkCount, divCeil_maxFragmentBodyBytes]
    omega
  have hlength : message.length < 2 ^ 64 := by
    rw [maxFragmentBodyBytes] at hfits
    omega
  obtain ⟨indices, hlt, rfl⟩ := exists_indices hfs hreceived
  refine ⟨indices.map (Fragment.fragmentAt message sent echoed stateId), ?_, fun k hk => ?_⟩
  · have hparse := @mapM_eq_ok _ _ FragmentError (fun f => Fragment.parse f.encode) id
      (indices.map (Fragment.fragmentAt message sent echoed stateId)) fun f hf => by
        obtain ⟨i, hi, rfl⟩ := List.mem_map.mp hf
        exact Fragment.parse_encode_fragmentAt hcount (hlt i hi)
    rwa [List.map_id] at hparse
  · rw [FragmentAccumulator.pushAll_fragmentAt hmax hlength sent echoed stateId indices ∅ _
      (FragmentAccumulator.hasSeen_new message stateId maximum) rfl hlt k
      (by rwa [List.length_map] at hk)]
    have hall := FragmentAccumulator.all_mem_iff sent echoed stateId
      (fun i (hi : i ∈ indices.take (k + 1)) => hlt i (List.mem_of_mem_take hi)) hfs
    rw [Finset.empty_union, ← List.map_take]
    simp only [hall]

/-- A message of one byte that arrives twice. -/
theorem split_reassembles_byte :
    ((∃ e, Fragment.split [0x61] 1 2 3 = .error e) ↔ 32768 * maxFragmentBodyBytes < 1) ∧
    ∀ fs, Fragment.split [0x61] 1 2 3 = .ok fs →
      ∀ received : List Fragment, (∀ f ∈ received, f ∈ fs) →
        ∃ parsed, received.mapM (fun f => Fragment.parse f.encode) = .ok parsed ∧
          ∀ k < received.length,
            ((FragmentAccumulator.new 3 1).pushAll parsed)[k]? = some (.ok
              (if ∀ f ∈ fs, f ∈ received.take (k + 1) then some [0x61] else none)) :=
  split_reassembles [0x61] 1 2 3 1 (Nat.le_refl _)

end OxideTerm.Fernomade
