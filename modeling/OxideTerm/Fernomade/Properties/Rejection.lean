import OxideTerm.Fernomade.Accumulator

/-!
# Fragments that are rejected

`push` checks the header of a fragment first and its body last, and notes in between where the
message ends and how long it has become. So a fragment that is rejected for its body may leave a
trace: an end of the message, or a length beyond the bound.
-/

namespace OxideTerm.Fernomade

open OxideTerm.Lib

namespace FragmentAccumulator

/-- What is left of an accumulator by these fragments. -/
def pushed (a : FragmentAccumulator) (fs : List Fragment) : FragmentAccumulator :=
  fs.foldl (fun a f => (a.push f).1) a

/-- The index of a fragment has 16 bits. -/
def IndicesFit (fs : List Fragment) : Prop := ∀ f ∈ fs, f.header.index < 2 ^ 16

/-- The accumulators that come of new ones. -/
def Reachable (a : FragmentAccumulator) : Prop :=
  ∃ stateId maximum fs, IndicesFit fs ∧ a = (new stateId maximum).pushed fs

/-- Every later sequence of fragments has the same results. -/
def ObservablyEqual (a b : FragmentAccumulator) : Prop :=
  ∀ fs, IndicesFit fs → a.pushAll fs = b.pushAll fs

/-- The checks of the header. -/
structure HeaderAccepted (a : FragmentAccumulator) (f : Fragment) : Prop where
  stateId_eq : f.header.stateId = a.stateId
  le_final : ∀ last, a.finalIndex = some last → f.header.index ≤ last
  final_eq : f.header.isFinal = true → ∀ last, a.finalIndex = some last → last = f.header.index
  none_after : f.header.isFinal = true → ∀ index ∈ a.fragments.keys, index ≤ f.header.index

/-- The error of the checks of the header. -/
def headerError (a : FragmentAccumulator) (f : Fragment) : Option FragmentError :=
  if f.header.stateId ≠ a.stateId then some .mismatchedState
  else if a.finalIndex.any (fun finalIndex => finalIndex < f.header.index) then
    some .indexAfterFinal
  else if f.header.isFinal && a.finalIndex.any (fun finalIndex => finalIndex ≠ f.header.index) then
    some .conflictingFinalIndex
  else if f.header.isFinal && a.fragments.keys.any (fun index => f.header.index < index) then
    some .indexAfterFinal
  else none

/-- The accumulator that has noted whether the fragment is the last one. -/
def noted (a : FragmentAccumulator) (f : Fragment) : FragmentAccumulator :=
  if f.header.isFinal then { a with finalIndex := some f.header.index } else a

/-- What follows the checks of the header. -/
def pushBody (a : FragmentAccumulator) (f : Fragment) :
    FragmentAccumulator × Except FragmentError (Option Bytes) :=
  match a.fragments[f.header.index]? with
  | some existing => if existing = f.body then (a, a.tryComplete) else (a, .error .conflictingDuplicate)
  | none => a.store f.header.index f.body

theorem pushBody_of_some {a : FragmentAccumulator} {f : Fragment} {existing : Bytes}
    (h : a.fragments[f.header.index]? = some existing) :
    a.pushBody f =
      if existing = f.body then (a, a.tryComplete) else (a, .error .conflictingDuplicate) := by
  rw [pushBody, h]

theorem pushBody_of_none {a : FragmentAccumulator} {f : Fragment}
    (h : a.fragments[f.header.index]? = none) :
    a.pushBody f = a.store f.header.index f.body := by
  rw [pushBody, h]

theorem push_eq (a : FragmentAccumulator) (f : Fragment) :
    a.push f = (a.headerError f).elim ((a.noted f).pushBody f) fun e => (a, .error e) := by
  unfold push headerError
  by_cases hstate : f.header.stateId ≠ a.stateId
  · rw [if_pos hstate, if_pos hstate]
    rfl
  rw [if_neg hstate, if_neg hstate]
  by_cases hafter : (a.finalIndex.any fun finalIndex => finalIndex < f.header.index) = true
  · rw [if_pos hafter, if_pos hafter]
    rfl
  rw [if_neg hafter, if_neg hafter]
  by_cases hconflict : (f.header.isFinal &&
      a.finalIndex.any fun finalIndex => finalIndex ≠ f.header.index) = true
  · rw [if_pos hconflict, if_pos hconflict]
    rfl
  rw [if_neg hconflict, if_neg hconflict]
  by_cases hbeyond : (f.header.isFinal &&
      a.fragments.keys.any fun index => f.header.index < index) = true
  · rw [if_pos hbeyond, if_pos hbeyond]
    rfl
  rw [if_neg hbeyond, if_neg hbeyond]
  rfl

theorem headerError_eq_none {a : FragmentAccumulator} {f : Fragment} :
    a.headerError f = none ↔ a.HeaderAccepted f := by
  unfold headerError
  constructor
  · intro h
    split at h
    · cases h
    next hstate =>
    split at h
    · cases h
    next hafter =>
    split at h
    · cases h
    next hconflict =>
    split at h
    · cases h
    next hbeyond =>
    refine ⟨not_not.mp hstate, fun last hlast => ?_, fun hfinal last hlast => ?_,
      fun hfinal index hindex => ?_⟩
    · by_contra hlt
      exact hafter (Option.any_eq_true _ _ |>.mpr ⟨last, hlast, decide_eq_true (Nat.not_le.mp hlt)⟩)
    · by_contra hne
      exact hconflict (Bool.and_eq_true _ _ |>.mpr
        ⟨hfinal, Option.any_eq_true _ _ |>.mpr ⟨last, hlast, decide_eq_true hne⟩⟩)
    · by_contra hlt
      exact hbeyond (Bool.and_eq_true _ _ |>.mpr
        ⟨hfinal, List.any_eq_true.mpr ⟨index, hindex, decide_eq_true (Nat.not_le.mp hlt)⟩⟩)
  · intro h
    rw [if_neg (not_not.mpr h.stateId_eq), if_neg, if_neg, if_neg]
    · intro hbeyond
      obtain ⟨hfinal, hany⟩ := Bool.and_eq_true _ _ |>.mp hbeyond
      obtain ⟨index, hindex, hlt⟩ := List.any_eq_true.mp hany
      exact absurd (of_decide_eq_true hlt) (Nat.not_lt.mpr (h.none_after hfinal index hindex))
    · intro hconflict
      obtain ⟨hfinal, hany⟩ := Bool.and_eq_true _ _ |>.mp hconflict
      obtain ⟨last, hlast, hne⟩ := Option.any_eq_true _ _ |>.mp hany
      exact of_decide_eq_true hne (h.final_eq hfinal last hlast)
    · intro hafter
      obtain ⟨last, hlast, hlt⟩ := Option.any_eq_true _ _ |>.mp hafter
      exact absurd (of_decide_eq_true hlt) (Nat.not_lt.mpr (h.le_final last hlast))

theorem headerError_ne_missing {a : FragmentAccumulator} {f : Fragment} {e : FragmentError}
    (h : a.headerError f = some e) :
    e = .mismatchedState ∨ e = .indexAfterFinal ∨ e = .conflictingFinalIndex := by
  unfold headerError at h
  split at h
  · exact .inl (Option.some.inj h).symm
  split at h
  · exact .inr (.inl (Option.some.inj h).symm)
  split at h
  · exact .inr (.inr (Option.some.inj h).symm)
  split at h
  · exact .inr (.inl (Option.some.inj h).symm)
  · cases h

/-- **What a push does**: the header is refused and nothing changes, or the body comes to its
turn. -/
theorem push_cases (a : FragmentAccumulator) (f : Fragment) :
    (∃ e, a.headerError f = some e ∧ a.push f = (a, .error e)) ∨
      (a.HeaderAccepted f ∧ a.push f = (a.noted f).pushBody f) := by
  rw [push_eq]
  cases herror : a.headerError f with
  | some e => exact .inl ⟨e, rfl, rfl⟩
  | none => exact .inr ⟨headerError_eq_none.mp herror, rfl⟩

theorem push_of_accepted {a : FragmentAccumulator} {f : Fragment} (h : a.HeaderAccepted f) :
    a.push f = (a.noted f).pushBody f := by
  rw [push_eq, headerError_eq_none.mpr h]
  rfl

/-- What comes of a body under an index that is still free. -/
theorem store_cases (a : FragmentAccumulator) (index : Nat) (body : Bytes) :
    (2 ^ 64 ≤ a.totalBytes + body.length ∧ a.store index body = (a, .error .messageTooLarge)) ∨
    (a.totalBytes + body.length < 2 ^ 64 ∧
      a.maximumMessageBytes < a.totalBytes + body.length ∧
      a.store index body = ({ a with totalBytes := a.totalBytes + body.length },
        .error .messageTooLarge)) ∨
    (a.totalBytes + body.length < 2 ^ 64 ∧
      a.totalBytes + body.length ≤ a.maximumMessageBytes ∧
      ∃ a' : FragmentAccumulator, a' = { a with
          totalBytes := a.totalBytes + body.length
          fragments := a.fragments.insert index body } ∧
        a.store index body = (a', a'.tryComplete)) := by
  unfold store checkedAdd
  by_cases hfits : a.totalBytes + body.length < 2 ^ 64
  · rw [if_pos hfits]
    simp only
    by_cases hlarge : a.totalBytes + body.length > a.maximumMessageBytes
    · rw [if_pos hlarge]
      exact .inr (.inl ⟨hfits, hlarge, rfl⟩)
    · rw [if_neg hlarge]
      exact .inr (.inr ⟨hfits, Nat.not_lt.mp hlarge, _, rfl, rfl⟩)
  · rw [if_neg hfits]
    exact .inl ⟨Nat.not_lt.mp hfits, rfl⟩

/-! ## No fragment is ever missing -/

/-- No index lies behind the last one. -/
def WithinFinal (a : FragmentAccumulator) : Prop :=
  ∀ last, a.finalIndex = some last → ∀ index ∈ a.fragments.keys, index ≤ last

theorem withinFinal_noted {a : FragmentAccumulator} {f : Fragment} (h : a.WithinFinal)
    (hheader : a.HeaderAccepted f) : (a.noted f).WithinFinal := by
  unfold noted
  split
  · next hfinal =>
    intro last hlast index hindex
    obtain rfl := Option.some.inj hlast
    exact hheader.none_after hfinal index hindex
  · exact h

theorem index_le_noted {a : FragmentAccumulator} {f : Fragment} (hheader : a.HeaderAccepted f) :
    ∀ last, (a.noted f).finalIndex = some last → f.header.index ≤ last := by
  unfold noted
  split
  · intro last hlast
    exact Nat.le_of_eq (Option.some.inj hlast)
  · exact hheader.le_final

theorem withinFinal_insert {a : FragmentAccumulator} (h : a.WithinFinal) {index : Nat}
    (hindex : ∀ last, a.finalIndex = some last → index ≤ last) (body : Bytes) (total : Nat) :
    WithinFinal { a with
      totalBytes := total
      fragments := a.fragments.insert index body } := by
  intro last hlast held hheld
  rw [Std.ExtTreeMap.mem_keys, Std.ExtTreeMap.mem_insert] at hheld
  rcases hheld with heq | hmem
  · obtain rfl : index = held := Nat.compare_eq_eq.mp heq
    exact hindex last hlast
  · exact h last hlast held (Std.ExtTreeMap.mem_keys.mpr hmem)

theorem withinFinal_push {a : FragmentAccumulator} (h : a.WithinFinal) (f : Fragment) :
    (a.push f).1.WithinFinal := by
  rcases push_cases a f with ⟨e, -, hpush⟩ | ⟨hheader, hpush⟩
  · rw [hpush]
    exact h
  have hnoted := withinFinal_noted h hheader
  rw [hpush]
  cases hheld : (a.noted f).fragments[f.header.index]? with
  | some existing =>
    rw [pushBody_of_some hheld]
    split
    · exact hnoted
    · exact hnoted
  | none =>
    rw [pushBody_of_none hheld]
    rcases store_cases (a.noted f) f.header.index f.body with
      ⟨-, hstore⟩ | ⟨-, -, hstore⟩ | ⟨-, -, a', rfl, hstore⟩
    · rw [hstore]
      exact hnoted
    · rw [hstore]
      exact hnoted
    · rw [hstore]
      exact withinFinal_insert hnoted (index_le_noted hheader) f.body _

theorem Reachable.withinFinal {a : FragmentAccumulator} (h : a.Reachable) : a.WithinFinal := by
  obtain ⟨stateId, maximum, fs, -, rfl⟩ := h
  have hall : ∀ (fs : List Fragment) {a : FragmentAccumulator}, a.WithinFinal →
      (a.pushed fs).WithinFinal := by
    intro fs
    induction fs with
    | nil => exact fun ha => ha
    | cons f fs ih => exact fun ha => ih (withinFinal_push ha f)
  exact hall fs fun last hlast => nomatch hlast

/-- As many indices as there are up to the last one are all of them. -/
theorem tryComplete_ne_missing {a : FragmentAccumulator} (h : a.WithinFinal) :
    ∃ result, a.tryComplete = .ok result := by
  unfold tryComplete
  cases hlast : a.finalIndex with
  | none => exact ⟨none, rfl⟩
  | some last =>
    simp only
    by_cases hsize : a.fragments.size ≠ last + 1
    · rw [if_pos hsize]
      exact ⟨none, rfl⟩
    rw [if_neg hsize]
    have hsubset : a.fragments.keys.toFinset ⊆ Finset.range (last + 1) := by
      intro index hindex
      rw [List.mem_toFinset] at hindex
      exact Finset.mem_range.mpr (Nat.lt_succ_of_le (h last hlast index hindex))
    have hnodup : a.fragments.keys.Nodup := Std.ExtTreeMap.nodup_keys
    have hall : a.fragments.keys.toFinset = Finset.range (last + 1) := by
      refine Finset.eq_of_subset_of_card_le hsubset ?_
      rw [Finset.card_range, List.toFinset_card_of_nodup hnodup, Std.ExtTreeMap.length_keys]
      exact Nat.le_of_eq (not_not.mp hsize).symm
    have hbodies : (List.range (last + 1)).mapM (fun index => a.fragments[index]?) =
        some ((List.range (last + 1)).map fun index => (a.fragments[index]?).getD []) := by
      refine mapM_eq_some fun index hindex => ?_
      have hmem : index ∈ a.fragments.keys := by
        rw [← List.mem_toFinset, hall, Finset.mem_range]
        exact List.mem_range.mp hindex
      rw [Std.ExtTreeMap.mem_keys, Std.ExtTreeMap.mem_iff_isSome_getElem?] at hmem
      obtain ⟨body, hbody⟩ := Option.isSome_iff_exists.mp hmem
      rw [hbody]
      rfl
    rw [hbodies]
    exact ⟨_, rfl⟩

/-! ## What a trace cannot show -/

variable {a : FragmentAccumulator} {f : Fragment}

/-- An accumulator that is beyond its bound takes no body any more. -/
theorem store_overfull (h : a.maximumMessageBytes < a.totalBytes) (index : Nat) (body : Bytes) :
    (a.store index body).2 = .error .messageTooLarge ∧
      ∃ total, a.maximumMessageBytes < total ∧
        (a.store index body).1 = { a with totalBytes := total } := by
  rcases store_cases a index body with ⟨-, hstore⟩ | ⟨-, hlarge, hstore⟩ | ⟨-, hfits, -⟩
  · rw [hstore]
    exact ⟨rfl, a.totalBytes, h, rfl⟩
  · rw [hstore]
    exact ⟨rfl, _, hlarge, rfl⟩
  · omega

/-- How far it is beyond its bound makes no difference to what follows the header. -/
theorem pushBody_overfull (h : a.maximumMessageBytes < a.totalBytes) {total : Nat}
    (htotal : a.maximumMessageBytes < total) (g : Fragment) :
    (a.pushBody g).2 = (({ a with totalBytes := total } : FragmentAccumulator).pushBody g).2 ∧
      (a.pushBody g).1.maximumMessageBytes < (a.pushBody g).1.totalBytes ∧
      ∃ total', (a.pushBody g).1.maximumMessageBytes < total' ∧
        (({ a with totalBytes := total } : FragmentAccumulator).pushBody g).1 =
          { (a.pushBody g).1 with totalBytes := total' } := by
  cases hheld : a.fragments[g.header.index]? with
  | some existing =>
    rw [pushBody_of_some hheld, pushBody_of_some (show ({ a with totalBytes := total } :
      FragmentAccumulator).fragments[g.header.index]? = some existing from hheld)]
    by_cases hsame : existing = g.body
    · rw [if_pos hsame, if_pos hsame]
      exact ⟨rfl, h, total, htotal, rfl⟩
    · rw [if_neg hsame, if_neg hsame]
      exact ⟨rfl, h, total, htotal, rfl⟩
  | none =>
    rw [pushBody_of_none hheld, pushBody_of_none (show ({ a with totalBytes := total } :
      FragmentAccumulator).fragments[g.header.index]? = none from hheld)]
    obtain ⟨hleft, left, hlarge, hstore⟩ := store_overfull h g.header.index g.body
    obtain ⟨hright, right, hlarge', hstore'⟩ :=
      store_overfull (a := { a with totalBytes := total }) htotal g.header.index g.body
    rw [hleft, hright, hstore, hstore']
    exact ⟨rfl, hlarge, right, hlarge', rfl⟩

theorem noted_totalBytes (a : FragmentAccumulator) (total : Nat) (g : Fragment) :
    ({ a with totalBytes := total } : FragmentAccumulator).noted g =
      { a.noted g with totalBytes := total } := by
  unfold noted
  split
  · rfl
  · rfl

/-- How far it is beyond its bound makes no difference to one push. -/
theorem push_overfull (h : a.maximumMessageBytes < a.totalBytes) {total : Nat}
    (htotal : a.maximumMessageBytes < total) (g : Fragment) :
    (a.push g).2 = (({ a with totalBytes := total } : FragmentAccumulator).push g).2 ∧
      (a.push g).1.maximumMessageBytes < (a.push g).1.totalBytes ∧
      ∃ total', (a.push g).1.maximumMessageBytes < total' ∧
        (({ a with totalBytes := total } : FragmentAccumulator).push g).1 =
          { (a.push g).1 with totalBytes := total' } := by
  -- the header is judged by fields that are the same on both sides
  have hheader : ({ a with totalBytes := total } : FragmentAccumulator).headerError g =
      a.headerError g := rfl
  rw [push_eq, push_eq, hheader]
  cases a.headerError g with
  | some e => exact ⟨rfl, h, total, htotal, rfl⟩
  | none =>
    have hbounds : (a.noted g).maximumMessageBytes = a.maximumMessageBytes ∧
        (a.noted g).totalBytes = a.totalBytes := by
      unfold noted
      split
      · exact ⟨rfl, rfl⟩
      · exact ⟨rfl, rfl⟩
    rw [noted_totalBytes a total g]
    exact pushBody_overfull (by omega) (by omega) g

/-- How far it is beyond its bound makes no difference at all. -/
theorem observablyEqual_overfull : ∀ (fs : List Fragment) {a : FragmentAccumulator} {total : Nat},
    a.maximumMessageBytes < a.totalBytes → a.maximumMessageBytes < total →
    ({ a with totalBytes := total } : FragmentAccumulator).pushAll fs = a.pushAll fs
  | [], _, _, _, _ => rfl
  | g :: fs, a, total, h, htotal => by
    obtain ⟨hresult, hlarge, total', hlarge', hpush⟩ := push_overfull h htotal g
    rw [pushAll, pushAll, ← hresult, hpush, observablyEqual_overfull fs hlarge hlarge']

/-! ## What a trace shows -/

/-- A fragment that is accepted so far and has something noted: that it is the last one, or a
length beyond the bound. -/
def LeavesTrace (a : FragmentAccumulator) (f : Fragment) : Prop :=
  a.HeaderAccepted f ∧
    ((f.header.isFinal = true ∧ a.finalIndex = none) ∨
      (a.fragments[f.header.index]? = none ∧ a.totalBytes ≤ a.maximumMessageBytes ∧
        a.totalBytes + f.body.length < 2 ^ 64))

/-- What a rejected body leaves behind. -/
theorem pushBody_error {e : FragmentError} (hwithin : a.WithinFinal)
    (hindex : ∀ last, a.finalIndex = some last → f.header.index ≤ last)
    (h : (a.pushBody f).2 = .error e) :
    (e = .conflictingDuplicate ∧ (a.pushBody f).1 = a) ∨
    (e = .messageTooLarge ∧ a.fragments[f.header.index]? = none ∧
      ((2 ^ 64 ≤ a.totalBytes + f.body.length ∧ (a.pushBody f).1 = a) ∨
        (a.totalBytes + f.body.length < 2 ^ 64 ∧
          a.maximumMessageBytes < a.totalBytes + f.body.length ∧
          (a.pushBody f).1 = { a with totalBytes := a.totalBytes + f.body.length }))) := by
  cases hheld : a.fragments[f.header.index]? with
  | some existing =>
    rw [pushBody_of_some hheld] at h ⊢
    by_cases hsame : existing = f.body
    · rw [if_pos hsame] at h
      obtain ⟨result, hok⟩ := tryComplete_ne_missing hwithin
      cases hok.symm.trans h
    · rw [if_neg hsame] at h ⊢
      exact .inl ⟨(Except.error.inj h).symm, rfl⟩
  | none =>
    rw [pushBody_of_none hheld] at h ⊢
    rcases store_cases a f.header.index f.body with
      ⟨hlong, hstore⟩ | ⟨hshort, hlarge, hstore⟩ | ⟨-, -, a', rfl, hstore⟩
    · rw [hstore] at h ⊢
      exact .inr ⟨(Except.error.inj h).symm, rfl, .inl ⟨hlong, rfl⟩⟩
    · rw [hstore] at h ⊢
      exact .inr ⟨(Except.error.inj h).symm, rfl, .inr ⟨hshort, hlarge, rfl⟩⟩
    · rw [hstore] at h
      obtain ⟨result, hok⟩ := tryComplete_ne_missing
        (withinFinal_insert hwithin hindex f.body (a.totalBytes + f.body.length))
      cases hok.symm.trans h

theorem pushBody_error_ne {e : FragmentError} (hwithin : a.WithinFinal)
    (hindex : ∀ last, a.finalIndex = some last → f.header.index ≤ last)
    (h : (a.pushBody f).2 = .error e) : e = .conflictingDuplicate ∨ e = .messageTooLarge := by
  rcases pushBody_error hwithin hindex h with ⟨he, -⟩ | ⟨he, -⟩
  · exact .inl he
  · exact .inr he

/-- Only the first final fragment changes what is known of the end. -/
theorem noted_eq_self (hheader : a.HeaderAccepted f)
    (h : ¬ (f.header.isFinal = true ∧ a.finalIndex = none)) : a.noted f = a := by
  unfold noted
  split
  · next hfinal =>
    cases hlast : a.finalIndex with
    | none => exact absurd ⟨hfinal, hlast⟩ h
    | some last =>
      rw [← hheader.final_eq hfinal last hlast, ← hlast]
  · rfl

theorem ObservablyEqual.push_eq {a b : FragmentAccumulator} (h : ObservablyEqual a b)
    {g : Fragment} (hg : g.header.index < 2 ^ 16) : (a.push g).2 = (b.push g).2 := by
  have hall := h [g] fun f hf => by
    rw [List.mem_singleton.mp hf]
    exact hg
  exact (List.cons.inj hall).1

/-- A fragment without a body, to see what an accumulator says of it. -/
def probe (a : FragmentAccumulator) (index : Nat) (isFinal : Bool) : Fragment where
  header := { sentTimestamp := 0, echoedTimestamp := 0, stateId := a.stateId, index, isFinal }
  body := []

theorem headerError_open {e : FragmentError} (hopen : a.finalIndex = none)
    (h : a.headerError f = some e) :
    e ≠ .conflictingFinalIndex ∧ (f.header.isFinal = false → e ≠ .indexAfterFinal) := by
  unfold headerError at h
  rw [hopen] at h
  split at h
  · obtain rfl := Option.some.inj h
    exact ⟨by decide, fun _ => by decide⟩
  rw [Option.any_none, if_neg Bool.false_ne_true] at h
  split at h
  · next hconflict =>
    rw [Option.any_none, Bool.and_false] at hconflict
    cases hconflict
  split at h
  · next hbeyond =>
    obtain rfl := Option.some.inj h
    refine ⟨by decide, fun hfinal => ?_⟩
    rw [hfinal, Bool.false_and] at hbeyond
    cases hbeyond
  · cases h

/-- An accumulator that does not know its end complains of no end. -/
theorem probe_open (hwithin : a.WithinFinal) (hopen : a.finalIndex = none) (index : Nat) :
    (a.push (a.probe index false)).2 ≠ .error .indexAfterFinal ∧
      (a.push (a.probe index true)).2 ≠ .error .conflictingFinalIndex := by
  constructor
  · intro herror
    rcases push_cases a (a.probe index false) with ⟨e, hrefused, hpush⟩ | ⟨hheader, hpush⟩
    · rw [hpush] at herror
      obtain rfl := Except.error.inj herror
      exact (headerError_open hopen hrefused).2 rfl rfl
    · rw [hpush] at herror
      rcases pushBody_error_ne (withinFinal_noted hwithin hheader) (index_le_noted hheader) herror
        with he | he
      · cases he
      · cases he
  · intro herror
    rcases push_cases a (a.probe index true) with ⟨e, hrefused, hpush⟩ | ⟨hheader, hpush⟩
    · rw [hpush] at herror
      obtain rfl := Except.error.inj herror
      exact (headerError_open hopen hrefused).1 rfl
    · rw [hpush] at herror
      rcases pushBody_error_ne (withinFinal_noted hwithin hheader) (index_le_noted hheader) herror
        with he | he
      · cases he
      · cases he

/-- An accumulator that knows its end complains of another one. -/
theorem probe_closed {a : FragmentAccumulator} {last : Nat} (hlast : a.finalIndex = some last) :
    (last = 0 → (a.push (a.probe 1 false)).2 = .error .indexAfterFinal) ∧
      (last ≠ 0 → (a.push (a.probe 0 true)).2 = .error .conflictingFinalIndex) := by
  constructor
  · rintro rfl
    have herror : a.headerError (a.probe 1 false) = some .indexAfterFinal := by
      simp [headerError, probe, hlast]
    rw [push_eq, herror]
    rfl
  · intro hne
    have herror : a.headerError (a.probe 0 true) = some .conflictingFinalIndex := by
      simp [headerError, probe, hlast, hne]
    rw [push_eq, herror]
    rfl

/-- **A new end shows**: a fragment outside it is refused from then on. -/
theorem new_end_shows {b : FragmentAccumulator} (hwithin : a.WithinFinal)
    (hopen : a.finalIndex = none) {last : Nat} (hlast : b.finalIndex = some last)
    (hstate : b.stateId = a.stateId) : ¬ ObservablyEqual b a := by
  intro h
  have hprobe : ∀ index isFinal, b.probe index isFinal = a.probe index isFinal := by
    intro index isFinal
    rw [probe, probe, hstate]
  by_cases hzero : last = 0
  · have hrefused := (probe_closed hlast).1 hzero
    rw [hprobe, h.push_eq (show 1 < 2 ^ 16 by omega)] at hrefused
    exact (probe_open hwithin hopen 1).1 hrefused
  · have hrefused := (probe_closed hlast).2 hzero
    rw [hprobe, h.push_eq (show 0 < 2 ^ 16 by omega)] at hrefused
    exact (probe_open hwithin hopen 0).2 hrefused

/-- **A length beyond the bound shows**: not even an empty body is taken from then on. -/
theorem overfull_shows (hwithin : a.WithinFinal) (hheader : a.HeaderAccepted f)
    (hnoted : a.noted f = a) (hfree : a.fragments[f.header.index]? = none)
    (hfits : a.totalBytes ≤ a.maximumMessageBytes) {total : Nat} (htotal : total < 2 ^ 64)
    (hlarge : a.maximumMessageBytes < total)
    (hindex : f.header.index < 2 ^ 16) :
    ¬ ObservablyEqual { a with totalBytes := total } a := by
  intro h
  have hbefore : ∃ result, (a.push { f with body := [] }).2 = .ok result := by
    have hpush : a.push { f with body := [] } = a.store f.header.index [] := by
      rw [push_of_accepted (show a.HeaderAccepted { f with body := [] } from
        ⟨hheader.1, hheader.2, hheader.3, hheader.4⟩)]
      rw [show a.noted { f with body := [] } = a from hnoted]
      exact pushBody_of_none hfree
    rcases store_cases a f.header.index [] with ⟨hlong, -⟩ | ⟨-, hlong, -⟩ | ⟨-, -, a', rfl, hstore⟩
    · rw [List.length_nil] at hlong
      omega
    · rw [List.length_nil] at hlong
      omega
    · rw [hpush, hstore]
      refine tryComplete_ne_missing (withinFinal_insert hwithin ?_ [] _)
      rw [← hnoted]
      exact index_le_noted hheader
  have hafter : (({ a with totalBytes := total } : FragmentAccumulator).push
      { f with body := [] }).2 = .error .messageTooLarge := by
    rw [push_of_accepted (show ({ a with totalBytes := total } :
      FragmentAccumulator).HeaderAccepted { f with body := [] } from
      ⟨hheader.1, hheader.2, hheader.3, hheader.4⟩)]
    rw [noted_totalBytes a total, show a.noted { f with body := [] } = a from hnoted]
    have hstore : ({ a with totalBytes := total } : FragmentAccumulator).pushBody
        { f with body := [] } =
        ({ a with totalBytes := total } : FragmentAccumulator).store f.header.index [] :=
      pushBody_of_none hfree
    exact (congrArg Prod.snd hstore).trans
      (store_overfull (a := { a with totalBytes := total }) hlarge f.header.index []).1
  obtain ⟨result, hok⟩ := hbefore
  rw [h.push_eq (show ({ f with body := [] } : Fragment).header.index < 2 ^ 16 from hindex), hok]
    at hafter
  cases hafter

/-! ## When a rejected fragment leaves no trace -/

theorem leavesTrace_shows {e : FragmentError} (hwithin : a.WithinFinal)
    (hindex : f.header.index < 2 ^ 16) (herror : (a.push f).2 = .error e)
    (htrace : a.LeavesTrace f) : ¬ ObservablyEqual (a.push f).1 a := by
  obtain ⟨hheader, htrace⟩ := htrace
  have hbody := pushBody_error (withinFinal_noted hwithin hheader) (index_le_noted hheader)
    (push_of_accepted hheader ▸ herror)
  rw [push_of_accepted hheader] at herror ⊢
  by_cases hfirst : f.header.isFinal = true ∧ a.finalIndex = none
  · have hnoted : a.noted f = { a with finalIndex := some f.header.index } := if_pos hfirst.1
    have hleft : ((a.noted f).pushBody f).1.finalIndex = some f.header.index ∧
        ((a.noted f).pushBody f).1.stateId = a.stateId := by
      rcases hbody with ⟨-, hsame⟩ | ⟨-, -, ⟨-, hsame⟩ | ⟨-, -, hsame⟩⟩
      · rw [hsame, hnoted]
        exact ⟨rfl, rfl⟩
      · rw [hsame, hnoted]
        exact ⟨rfl, rfl⟩
      · rw [hsame, hnoted]
        exact ⟨rfl, rfl⟩
    exact new_end_shows hwithin hfirst.2 hleft.1 hleft.2
  · obtain ⟨hfree, hfits, hshort⟩ := htrace.resolve_left hfirst
    have hnoted := noted_eq_self hheader hfirst
    rw [hnoted] at hbody ⊢
    rcases hbody with ⟨rfl, -⟩ | ⟨-, -, ⟨hlong, -⟩ | ⟨-, hlarge, hsame⟩⟩
    · rw [hnoted, pushBody_of_none hfree] at herror
      rcases store_cases a f.header.index f.body with
        ⟨hlong, -⟩ | ⟨-, -, hstore⟩ | ⟨-, -, a', rfl, hstore⟩
      · omega
      · rw [hstore] at herror
        cases herror
      · rw [hstore] at herror
        obtain ⟨result, hok⟩ := tryComplete_ne_missing (withinFinal_insert hwithin
          hheader.le_final f.body (a.totalBytes + f.body.length))
        cases hok.symm.trans herror
    · omega
    · rw [hsame]
      exact overfull_shows hwithin hheader hnoted hfree hfits hshort hlarge hindex

theorem no_trace {e : FragmentError} (hwithin : a.WithinFinal)
    (herror : (a.push f).2 = .error e) (htrace : ¬ a.LeavesTrace f) :
    ObservablyEqual (a.push f).1 a := by
  rcases push_cases a f with ⟨e', -, hpush⟩ | ⟨hheader, hpush⟩
  · rw [hpush]
    exact fun fs _ => rfl
  have hfirst : ¬ (f.header.isFinal = true ∧ a.finalIndex = none) := fun hfirst =>
    htrace ⟨hheader, .inl hfirst⟩
  have hbody := pushBody_error (withinFinal_noted hwithin hheader) (index_le_noted hheader)
    (hpush ▸ herror)
  rw [hpush]
  rw [noted_eq_self hheader hfirst] at hbody ⊢
  rcases hbody with ⟨-, hsame⟩ | ⟨-, hfree, ⟨-, hsame⟩ | ⟨hshort, hlarge, hsame⟩⟩
  · rw [hsame]
    exact fun fs _ => rfl
  · rw [hsame]
    exact fun fs _ => rfl
  · have hfull : a.maximumMessageBytes < a.totalBytes := by
      by_contra hfits
      exact htrace ⟨hheader, .inr ⟨hfree, Nat.not_lt.mp hfits, hshort⟩⟩
    rw [hsame]
    exact fun fs _ => observablyEqual_overfull fs hfull hlarge

theorem push_ne_missing {e : FragmentError} (hwithin : a.WithinFinal)
    (herror : (a.push f).2 = .error e) : e ≠ .missingFragment := by
  rcases push_cases a f with ⟨e', hrefused, hpush⟩ | ⟨hheader, hpush⟩
  · rw [hpush] at herror
    obtain rfl := Except.error.inj herror
    rcases headerError_ne_missing hrefused with rfl | rfl | rfl
    · decide
    · decide
    · decide
  · rw [hpush] at herror
    rcases pushBody_error_ne (withinFinal_noted hwithin hheader) (index_le_noted hheader) herror
      with rfl | rfl
    · decide
    · decide

/-- **A rejected fragment leaves no trace iff nothing was noted before its body was rejected**: its
header was refused already, or it is not the first one that tells the end and its body has no room
of its own, where the message is beyond its bound already or too long to be counted. And no
fragment is ever missing. -/
theorem rejected_no_trace_iff (h : a.Reachable) (hindex : f.header.index < 2 ^ 16)
    {e : FragmentError} (herror : (a.push f).2 = .error e) :
    (ObservablyEqual (a.push f).1 a ↔ ¬ a.LeavesTrace f) ∧ e ≠ .missingFragment :=
  ⟨⟨fun hsame htrace => leavesTrace_shows h.withinFinal hindex herror htrace hsame,
    no_trace h.withinFinal herror⟩, push_ne_missing h.withinFinal herror⟩

/-- The first fragment of message 3, with this body. -/
def part (isFinal : Bool) (body : Bytes) : Fragment where
  header := { sentTimestamp := 0, echoedTimestamp := 0, stateId := 3, index := 0, isFinal }
  body

theorem reachable_new (stateId : UInt64) (maximum : Nat) : (new stateId maximum).Reachable :=
  ⟨stateId, maximum, [], fun _ hf => absurd hf List.not_mem_nil, rfl⟩

theorem rejected_no_trace_iff_mismatched :
    (ObservablyEqual ((new 4 100).push (part true [1])).1 (new 4 100) ↔
      ¬ (new 4 100).LeavesTrace (part true [1])) ∧
        FragmentError.mismatchedState ≠ .missingFragment :=
  rejected_no_trace_iff (reachable_new 4 100) (by decide) rfl

theorem conflicting_end_leaves_trace :
    ((new 3 100).push (part false [1])).1.Reachable ∧ (part true [2]).header.index < 2 ^ 16 ∧
      (((new 3 100).push (part false [1])).1.push (part true [2])).2 =
        .error .conflictingDuplicate ∧
      ¬ ObservablyEqual (((new 3 100).push (part false [1])).1.push (part true [2])).1
        ((new 3 100).push (part false [1])).1 := by
  have hreachable : ((new 3 100).push (part false [1])).1.Reachable := by
    refine ⟨3, 100, [part false [1]], fun f hf => ?_, rfl⟩
    rw [List.mem_singleton.mp hf]
    decide
  refine ⟨hreachable, by decide, by decide +kernel, ?_⟩
  exact new_end_shows hreachable.withinFinal (by decide +kernel)
    (show _ = some 0 by decide +kernel) (by decide +kernel)

end FragmentAccumulator

end OxideTerm.Fernomade
