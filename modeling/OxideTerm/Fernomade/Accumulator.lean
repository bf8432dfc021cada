import OxideTerm.Fernomade.Fragment

/-!
# Putting one message together

What an accumulator holds while it is fed fragments of a single message (`Holds`): pieces of
that message, and its last index once known. Such a push reports no conflict, and a message
it completes is that message.
-/

namespace OxideTerm.Fernomade

open OxideTerm.Lib

/-- The errors that say two fragments do not belong together. -/
def FragmentError.IsConflict : FragmentError → Prop
  | .conflictingDuplicate => True
  | .conflictingFinalIndex => True
  | .indexAfterFinal => True
  | _ => False

namespace FragmentAccumulator

/-- The accumulator holds nothing but pieces of this message. -/
structure Holds (message : Bytes) (a : FragmentAccumulator) : Prop where
  pieces : ∀ i body, a.fragments[i]? = some body →
    i < Fragment.chunkCount message ∧ body = chunkAt maxFragmentBodyBytes message i
  last : ∀ i, a.finalIndex = some i → i + 1 = Fragment.chunkCount message

theorem holds_new (message : Bytes) (stateId : UInt64) (maximum : Nat) :
    Holds message (new stateId maximum) where
  pieces := by simp [new]
  last := by simp [new]

theorem tryComplete_no_conflict (a : FragmentAccumulator) {e : FragmentError}
    (h : a.tryComplete = .error e) : ¬ e.IsConflict := by
  unfold tryComplete at h
  split at h
  · simp at h
  · split at h
    · simp at h
    · split at h
      · simp only [Except.error.injEq] at h
        subst h
        simp [FragmentError.IsConflict]
      · simp at h

/-- A lookup of several values that finds them all finds what each lookup can only find. -/
theorem mapM_eq_map {α β : Type} {f : α → Option β} {g : α → β} :
    ∀ {l : List α} {bs : List β}, l.mapM f = some bs →
      (∀ x ∈ l, ∀ b, f x = some b → b = g x) → bs = l.map g
  | [], bs, h, _ => by simpa using h.symm
  | x :: xs, bs, h, hg => by
    rw [List.mapM_cons] at h
    cases hx : f x with
    | none => rw [hx] at h; simp at h
    | some b =>
      cases hxs : xs.mapM f with
      | none => rw [hx, hxs] at h; simp at h
      | some rest =>
        rw [hx, hxs] at h
        have hrest := mapM_eq_map hxs fun y hy => hg y (List.mem_cons_of_mem _ hy)
        have hb := hg x List.mem_cons_self b hx
        rw [List.map_cons, ← hb, ← hrest]
        simpa using h.symm

/-- A lookup of several values that are all there. -/
theorem mapM_eq_some {α β : Type} {f : α → Option β} {g : α → β} :
    ∀ {l : List α}, (∀ x ∈ l, f x = some (g x)) → l.mapM f = some (l.map g)
  | [], _ => rfl
  | x :: xs, h => by
    rw [List.mapM_cons, h x List.mem_cons_self,
      mapM_eq_some fun y hy => h y (List.mem_cons_of_mem _ hy)]
    rfl

/-- A message that is complete is the message that is held. -/
theorem Holds.tryComplete_eq {message : Bytes} {a : FragmentAccumulator} (h : Holds message a)
    {result : Bytes} (hr : a.tryComplete = .ok (some result)) : result = message := by
  unfold tryComplete at hr
  split at hr
  · simp at hr
  · next last hlast =>
    split at hr
    · simp at hr
    · split at hr
      · simp at hr
      · next bodies hbodies =>
        simp only [Except.ok.injEq, Option.some.injEq] at hr
        subst hr
        rw [h.last last hlast] at hbodies
        rw [mapM_eq_map hbodies fun i _ body hi => (h.pieces i body hi).2,
          Fragment.flatten_chunks]

/-- Storing a piece of the message keeps the accumulator to that message. -/
theorem holds_store {message : Bytes} {a : FragmentAccumulator} (h : Holds message a) {i : Nat}
    (hi : i < Fragment.chunkCount message) :
    Holds message (a.store i (chunkAt maxFragmentBodyBytes message i)).1 ∧
    (∀ e, (a.store i (chunkAt maxFragmentBodyBytes message i)).2 = .error e → ¬ e.IsConflict) ∧
    (∀ result, (a.store i (chunkAt maxFragmentBodyBytes message i)).2 = .ok (some result) →
      result = message) ∧
    (a.store i (chunkAt maxFragmentBodyBytes message i)).1.stateId = a.stateId := by
  unfold store
  split
  · exact ⟨h, by simp [FragmentError.IsConflict], by simp, rfl⟩
  · next total _ =>
    dsimp only
    split
    · exact ⟨⟨h.pieces, h.last⟩, by simp [FragmentError.IsConflict], by simp, rfl⟩
    · have hstored : Holds message { a with
          totalBytes := total
          fragments := a.fragments.insert i (chunkAt maxFragmentBodyBytes message i) } := by
        refine ⟨?_, h.last⟩
        intro j body hj
        rw [Std.ExtTreeMap.getElem?_insert] at hj
        split at hj
        · next heq =>
          obtain rfl : i = j := Nat.compare_eq_eq.mp heq
          simp only [Option.some.injEq] at hj
          exact ⟨hi, hj.symm⟩
        · exact h.pieces j body hj
      exact ⟨hstored, fun e he => tryComplete_no_conflict _ he, fun result hr => hstored.tryComplete_eq hr, rfl⟩

/-- The accumulator that has noted whether piece `i` of the message is the last one. -/
def noteFinal (message : Bytes) (a : FragmentAccumulator) (i : Nat) : FragmentAccumulator :=
  if i + 1 = Fragment.chunkCount message then { a with finalIndex := some i } else a

theorem holds_noteFinal {message : Bytes} {a : FragmentAccumulator} (h : Holds message a) (i : Nat) :
    Holds message (noteFinal message a i) ∧ (a.noteFinal message i).stateId = a.stateId := by
  unfold noteFinal
  split
  · next hfinal =>
    refine ⟨⟨h.pieces, ?_⟩, rfl⟩
    intro j hj
    obtain rfl : i = j := Option.some.inj hj
    exact hfinal
  · exact ⟨h, rfl⟩

/-- The checks of `push` all pass on a fragment of the message held. -/
theorem push_eq_of_holds {message : Bytes} {a : FragmentAccumulator} (h : Holds message a) {i : Nat}
    (hi : i < Fragment.chunkCount message) (sent echoed : UInt16) :
    a.push (Fragment.fragmentAt message sent echoed a.stateId i) =
      match (noteFinal message a i).fragments[i]? with
      | some existing =>
        if existing = chunkAt maxFragmentBodyBytes message i then
          (noteFinal message a i, (noteFinal message a i).tryComplete)
        else (noteFinal message a i, .error .conflictingDuplicate)
      | none => (noteFinal message a i).store i (chunkAt maxFragmentBodyBytes message i) := by
  have hafter : a.finalIndex.any (fun finalIndex => finalIndex < i) = false := by
    cases hf : a.finalIndex with
    | none => rfl
    | some j =>
      have := h.last j hf
      simp only [Option.any_some, decide_eq_false_iff_not]
      omega
  have hconflict : (decide (i + 1 = Fragment.chunkCount message) &&
      a.finalIndex.any (fun finalIndex => finalIndex ≠ i)) = false := by
    cases hf : a.finalIndex with
    | none => simp
    | some j =>
      have := h.last j hf
      simp only [Option.any_some, Bool.and_eq_false_iff, decide_eq_false_iff_not]
      omega
  have hbeyond : (decide (i + 1 = Fragment.chunkCount message) &&
      a.fragments.keys.any (fun index => i < index)) = false := by
    rw [Bool.and_eq_false_iff]
    by_cases hfinal : i + 1 = Fragment.chunkCount message
    · refine Or.inr (List.any_eq_false.mpr ?_)
      intro j hj
      rw [Std.ExtTreeMap.mem_keys, Std.ExtTreeMap.mem_iff_isSome_getElem?] at hj
      obtain ⟨body, hbody⟩ := Option.isSome_iff_exists.mp hj
      have := (h.pieces j body hbody).1
      simp only [decide_eq_true_eq]
      omega
    · exact Or.inl (decide_eq_false hfinal)
  have hnote : (if decide (i + 1 = Fragment.chunkCount message) = true then
      ({ a with finalIndex := some i } : FragmentAccumulator) else a) = noteFinal message a i := by
    by_cases hfinal : i + 1 = Fragment.chunkCount message
    · rw [noteFinal, if_pos hfinal, if_pos (decide_eq_true hfinal)]
    · rw [noteFinal, if_neg hfinal, if_neg (by simpa using hfinal)]
  unfold push Fragment.fragmentAt
  dsimp only
  rewrite [if_neg (by simp), if_neg (Bool.eq_false_iff.mp hafter),
    if_neg (Bool.eq_false_iff.mp hconflict), if_neg (Bool.eq_false_iff.mp hbeyond), hnote]
  cases (noteFinal message a i).fragments[i]? <;> rfl

/-- **A fragment of the message held is taken without conflict.** -/
theorem holds_push {message : Bytes} {a : FragmentAccumulator} (h : Holds message a) {i : Nat}
    (hi : i < Fragment.chunkCount message) (sent echoed : UInt16) :
    Holds message (a.push (Fragment.fragmentAt message sent echoed a.stateId i)).1 ∧
    (∀ e, (a.push (Fragment.fragmentAt message sent echoed a.stateId i)).2 = .error e →
      ¬ e.IsConflict) ∧
    (∀ result, (a.push (Fragment.fragmentAt message sent echoed a.stateId i)).2
      = .ok (some result) → result = message) ∧
    (a.push (Fragment.fragmentAt message sent echoed a.stateId i)).1.stateId = a.stateId := by
  obtain ⟨hholds, hid⟩ := holds_noteFinal h i
  rw [push_eq_of_holds h hi]
  cases hget : (noteFinal message a i).fragments[i]? with
  | none => exact hid ▸ holds_store hholds hi
  | some existing =>
    dsimp only
    rw [(hholds.pieces i existing hget).2, if_pos rfl]
    exact ⟨hholds, fun e he => tryComplete_no_conflict _ he,
      fun result hres => hholds.tryComplete_eq hres, hid⟩

/-- The results of pushing fragments one after the other. -/
def pushAll : FragmentAccumulator → List Fragment → List (Except FragmentError (Option Bytes))
  | _, [] => []
  | a, f :: fs => (a.push f).2 :: pushAll (a.push f).1 fs

/-- **Fragments of one message never conflict, and complete to that message only.** -/
theorem pushAll_of_holds {message : Bytes} : ∀ {fs : List Fragment} {a : FragmentAccumulator},
    Holds message a → (∀ f ∈ fs, ∃ i < Fragment.chunkCount message, ∃ sent echoed,
      f = Fragment.fragmentAt message sent echoed a.stateId i) →
    ∀ r ∈ a.pushAll fs, (∀ e, r = .error e → ¬ e.IsConflict) ∧
      (∀ result, r = .ok (some result) → result = message)
  | [], _, _, _, r, hr => by simp [pushAll] at hr
  | f :: fs, a, h, hfs, r, hr => by
    obtain ⟨i, hi, sent, echoed, rfl⟩ := hfs f List.mem_cons_self
    obtain ⟨hholds, hconflict, hcomplete, hid⟩ := holds_push h hi sent echoed
    rcases List.mem_cons.mp hr with rfl | hr
    · exact ⟨hconflict, hcomplete⟩
    · refine pushAll_of_holds hholds ?_ r hr
      intro g hg
      rw [hid]
      exact hfs g (List.mem_cons_of_mem _ hg)

/-! ## Fragments of two messages -/

/-- The first fragment an accumulator takes. -/
theorem push_new {message : Bytes} {stateId : UInt64} {maximum i : Nat} (sent echoed : UInt16)
    (hmax : maxFragmentBodyBytes ≤ maximum) (hmax' : maximum < 2 ^ 64) :
    ((new stateId maximum).push (Fragment.fragmentAt message sent echoed stateId i)).1 =
      { stateId, maximumMessageBytes := maximum
        fragments := (∅ : Std.ExtTreeMap Nat Bytes).insert i
          (chunkAt maxFragmentBodyBytes message i)
        finalIndex := if i + 1 = Fragment.chunkCount message then some i else none
        totalBytes := (chunkAt maxFragmentBodyBytes message i).length } := by
  have hlen : (chunkAt maxFragmentBodyBytes message i).length ≤ maxFragmentBodyBytes :=
    List.length_take_le ..
  have hadd : checkedAdd 0 (chunkAt maxFragmentBodyBytes message i).length =
      some (chunkAt maxFragmentBodyBytes message i).length := by
    rw [checkedAdd, Nat.zero_add, if_pos (by omega)]
  have hfits : ¬ (chunkAt maxFragmentBodyBytes message i).length > maximum :=
    Nat.not_lt.mpr (hlen.trans hmax)
  unfold push
  by_cases hfinal : i + 1 = Fragment.chunkCount message <;>
    simp [Fragment.fragmentAt, new, hfinal, store, hadd, hfits]

/-- Messages of one length that differ, differ in a piece. -/
theorem exists_chunkAt_ne {m₁ m₂ : Bytes} (hne : m₁ ≠ m₂)
    (hcount : Fragment.chunkCount m₁ = Fragment.chunkCount m₂) :
    ∃ i < Fragment.chunkCount m₁,
      chunkAt maxFragmentBodyBytes m₁ i ≠ chunkAt maxFragmentBodyBytes m₂ i := by
  by_contra hall
  push Not at hall
  apply hne
  rw [← Fragment.flatten_chunks m₁, ← Fragment.flatten_chunks m₂, ← hcount]
  congr 1
  exact List.map_congr_left fun i hi => hall i (List.mem_range.mp hi)

/-- A second fragment under the same index that says something else. -/
theorem push_conflictingDuplicate {m₁ m₂ : Bytes} {stateId : UInt64} {maximum i : Nat}
    (s₁ e₁ s₂ e₂ : UInt16) (hmax : maxFragmentBodyBytes ≤ maximum) (hmax' : maximum < 2 ^ 64)
    (hcount : Fragment.chunkCount m₁ = Fragment.chunkCount m₂)
    (hne : chunkAt maxFragmentBodyBytes m₁ i ≠ chunkAt maxFragmentBodyBytes m₂ i) :
    (((new stateId maximum).push (Fragment.fragmentAt m₁ s₁ e₁ stateId i)).1.push
      (Fragment.fragmentAt m₂ s₂ e₂ stateId i)).2 = .error .conflictingDuplicate := by
  rw [push_new s₁ e₁ hmax hmax', hcount]
  unfold push
  by_cases hfinal : i + 1 = Fragment.chunkCount m₂ <;>
    simp [Fragment.fragmentAt, hfinal, hne]

/-- A fragment behind the last one of a shorter message. -/
theorem push_indexAfterFinal {m₁ m₂ : Bytes} {stateId : UInt64} {maximum i j : Nat}
    (s₁ e₁ s₂ e₂ : UInt16) (hmax : maxFragmentBodyBytes ≤ maximum) (hmax' : maximum < 2 ^ 64)
    (hlast : i + 1 = Fragment.chunkCount m₁) (hij : i < j) :
    (((new stateId maximum).push (Fragment.fragmentAt m₁ s₁ e₁ stateId i)).1.push
      (Fragment.fragmentAt m₂ s₂ e₂ stateId j)).2 = .error .indexAfterFinal := by
  rw [push_new s₁ e₁ hmax hmax', if_pos hlast]
  unfold push
  simp [Fragment.fragmentAt, hij]

/-- **Two messages under one identifier can be made to conflict**, by one fragment of each. -/
theorem exists_conflict {m₁ m₂ : Bytes} (hne : m₁ ≠ m₂) (stateId : UInt64) (maximum : Nat)
    (s₁ e₁ s₂ e₂ : UInt16) (hmax : maxFragmentBodyBytes ≤ maximum) (hmax' : maximum < 2 ^ 64) :
    ∃ i j fs, i < Fragment.chunkCount m₁ ∧ j < Fragment.chunkCount m₂ ∧
      (∀ f ∈ fs, f = Fragment.fragmentAt m₁ s₁ e₁ stateId i ∨
        f = Fragment.fragmentAt m₂ s₂ e₂ stateId j) ∧
      ∃ e, FragmentError.IsConflict e ∧ .error e ∈ (new stateId maximum).pushAll fs := by
  have h₁ := Fragment.chunkCount_pos m₁
  have h₂ := Fragment.chunkCount_pos m₂
  rcases Nat.lt_trichotomy (Fragment.chunkCount m₁) (Fragment.chunkCount m₂) with hlt | heq | hgt
  · refine ⟨Fragment.chunkCount m₁ - 1, Fragment.chunkCount m₂ - 1,
      [Fragment.fragmentAt m₁ s₁ e₁ stateId _, Fragment.fragmentAt m₂ s₂ e₂ stateId _],
      by omega, by omega, fun f hf => by simpa using hf, .indexAfterFinal, trivial, ?_⟩
    rw [pushAll, pushAll, push_indexAfterFinal s₁ e₁ s₂ e₂ hmax hmax' (by omega) (by omega)]
    simp
  · obtain ⟨i, hi, hpiece⟩ := exists_chunkAt_ne hne heq
    refine ⟨i, i, [Fragment.fragmentAt m₁ s₁ e₁ stateId i, Fragment.fragmentAt m₂ s₂ e₂ stateId i],
      hi, heq ▸ hi, fun f hf => by simpa using hf, .conflictingDuplicate, trivial, ?_⟩
    rw [pushAll, pushAll, push_conflictingDuplicate s₁ e₁ s₂ e₂ hmax hmax' heq hpiece]
    simp
  · refine ⟨Fragment.chunkCount m₁ - 1, Fragment.chunkCount m₂ - 1,
      [Fragment.fragmentAt m₂ s₂ e₂ stateId _, Fragment.fragmentAt m₁ s₁ e₁ stateId _],
      by omega, by omega, fun f hf => Or.symm (by simpa using hf), .indexAfterFinal, trivial, ?_⟩
    rw [pushAll, pushAll, push_indexAfterFinal s₂ e₂ s₁ e₁ hmax hmax' (by omega) (by omega)]
    simp

end FragmentAccumulator

end OxideTerm.Fernomade
