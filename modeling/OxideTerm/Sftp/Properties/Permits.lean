import Mathlib.Data.List.Basic
import OxideTerm.Sftp.Permits

/-!
# When the limit on concurrent transfers holds

The count of active transfers is the number of permits in every run. The limit holds as long as a
call passes the check only when there is room for it next to all calls that have passed, and as
long as no new limit is below the calls that have passed. The first step that breaks this can be
continued to a permit beyond the limit.
-/

namespace OxideTerm.Sftp

open OxideTerm.Lib

namespace PermitState

variable {T : Type}

/-- The calls that passed the check and have not returned. -/
def admitted (s : PermitState T) : Nat := s.waiting.length + s.acquired.length

/-- The calls that passed the check, with the permits they became. -/
def claimed (s : PermitState T) : Nat := s.admitted + s.outstanding.length

/-- A permit is granted within the limit in force. -/
def WithinLimit (e : Event (PermitState T) (PermitStep T) (PermitOutcome T)) : Prop :=
  ∀ caller, e.output = .granted caller →
    e.post.outstanding.length ≤ e.pre.maxConcurrentTransfers

/-- What is true of the counts in every state. -/
structure Counted (s : PermitState T) : Prop where
  active : s.activeCount = s.outstanding.length
  semaphore : s.available + s.acquired.length + s.outstanding.length + s.releasing.length =
    maxSftpConcurrentTransfers
  limit : 1 ≤ s.maxConcurrentTransfers ∧ s.maxConcurrentTransfers ≤ maxSftpConcurrentTransfers

/-- Every call that passed the check has room for its permit. The semaphore is room enough. -/
def Roomy (s : PermitState T) : Prop :=
  s.admitted = 0 ∨ s.claimed ≤ s.maxConcurrentTransfers ∨
    s.maxConcurrentTransfers = maxSftpConcurrentTransfers

/-- A call that passes the check, or a new limit, leaves room for every call that passed it. -/
def KeepsRoom (s : PermitState T) : PermitStep T → Prop
  | .check _ => s.activeCount < s.maxConcurrentTransfers →
      s.claimed < s.maxConcurrentTransfers ∨
        s.maxConcurrentTransfers = maxSftpConcurrentTransfers
  | .setMaxConcurrent max => s.admitted = 0 ∨
      s.claimed ≤ clamp max 1 maxSftpConcurrentTransfers ∨
        clamp max 1 maxSftpConcurrentTransfers = maxSftpConcurrentTransfers
  | _ => True

/-- Permits that are granted or dropped, with no new call and no new limit. -/
def Finishes : PermitStep T → Prop
  | .check _ | .giveUp _ | .setMaxConcurrent _ => False
  | .acquire _ | .count _ | .drop _ | .release _ => True

theorem KeepsRoom.of_finishes {s : PermitState T} {l : PermitStep T} (h : Finishes l) :
    s.KeepsRoom l := by
  cases l <;> first | exact trivial | exact h.elim

/-- The count is never decremented below zero. -/
theorem activeCount_pos {s : PermitState T} {caller : T} (h : Counted s)
    (hmem : caller ∈ s.outstanding) : 0 < s.activeCount := by
  rw [h.active]
  exact List.length_pos_of_mem hmem

theorem clamp_bounds (value : Nat) : 1 ≤ clamp value 1 maxSftpConcurrentTransfers ∧
    clamp value 1 maxSftpConcurrentTransfers ≤ maxSftpConcurrentTransfers := by
  unfold clamp maxSftpConcurrentTransfers
  omega

variable [DecidableEq T] {s : PermitState T}

/-! ## What a step can do -/

/-- The steps, with what they need. -/
inductive Change (s : PermitState T) : PermitStep T → PermitState T → PermitOutcome T → Prop
  | idle (l : PermitStep T) (hidle : ∀ max, l ≠ .setMaxConcurrent max) : Change s l s .other
  | checked (caller : T) (hroom : s.activeCount < s.maxConcurrentTransfers) :
      Change s (.check caller) { s with waiting := caller :: s.waiting } .other
  | gaveUp (caller : T) : Change s (.giveUp caller)
      { s with waiting := s.waiting.erase caller } .other
  | acquired (caller : T) (hmem : caller ∈ s.waiting) (havailable : 0 < s.available) :
      Change s (.acquire caller)
        { s with
          waiting := s.waiting.erase caller
          available := s.available - 1
          acquired := caller :: s.acquired } .other
  | counted (caller : T) (hmem : caller ∈ s.acquired) :
      Change s (.count caller)
        { s with
          acquired := s.acquired.erase caller
          activeCount := s.activeCount + 1
          outstanding := caller :: s.outstanding } (.granted caller)
  | dropped (caller : T) (hmem : caller ∈ s.outstanding) :
      Change s (.drop caller)
        { s with
          outstanding := s.outstanding.erase caller
          activeCount := s.activeCount - 1
          releasing := caller :: s.releasing } (.dropped caller)
  | released (caller : T) (hmem : caller ∈ s.releasing) :
      Change s (.release caller)
        { s with releasing := s.releasing.erase caller, available := s.available + 1 } .other
  | limited (max : Nat) : Change s (.setMaxConcurrent max) (s.setMaxConcurrent max) .other

/-- **What a step does.** -/
theorem change_step (s : PermitState T) (l : PermitStep T) :
    Change s l (s.step l).1 (s.step l).2 := by
  have hidle (l : PermitStep T) (h : ∀ max, l ≠ .setMaxConcurrent max) : Change s l s .other :=
    .idle l h
  cases l with
  | check caller =>
    simp only [step]
    split
    · next hroom => exact .checked caller hroom
    · exact hidle _ nofun
  | giveUp caller => exact .gaveUp caller
  | acquire caller =>
    simp only [step]
    split
    · next hready => exact .acquired caller hready.1 hready.2
    · exact hidle _ nofun
  | count caller =>
    simp only [step]
    split
    · next hmem => exact .counted caller hmem
    · exact hidle _ nofun
  | drop caller =>
    simp only [step]
    split
    · next hmem => exact .dropped caller hmem
    · exact hidle _ nofun
  | release caller =>
    simp only [step]
    split
    · next hmem => exact .released caller hmem
    · exact hidle _ nofun
  | setMaxConcurrent max => exact .limited max

/-! ## The counts -/

theorem Counted.change {l : PermitStep T} {s' : PermitState T} {outcome : PermitOutcome T}
    (h : Counted s) (hchange : Change s l s' outcome) : Counted s' := by
  obtain ⟨hactive, hsemaphore, hlimit⟩ := h
  cases hchange with
  | idle | checked | gaveUp => exact ⟨hactive, hsemaphore, hlimit⟩
  | acquired caller hmem havailable =>
    refine ⟨hactive, ?_, hlimit⟩
    simp only [List.length_cons]
    omega
  | counted caller hmem =>
    have hlength := List.length_erase_add_one hmem
    refine ⟨?_, ?_, hlimit⟩
    · simp only [List.length_cons, hactive]
    · simp only [List.length_cons]
      omega
  | dropped caller hmem =>
    have hlength := List.length_erase_add_one hmem
    refine ⟨?_, ?_, hlimit⟩
    · simp only [hactive]
      omega
    · simp only [List.length_cons]
      omega
  | released caller hmem =>
    have hlength := List.length_erase_add_one hmem
    refine ⟨hactive, ?_, hlimit⟩
    simp only
    omega
  | limited max => exact ⟨hactive, hsemaphore, clamp_bounds max⟩

theorem counted_final (labels : List (PermitStep T)) : Counted ((machine T).final labels) :=
  (machine T).final_invariant ⟨rfl, rfl, Nat.le_of_ble_eq_true rfl, Nat.le_of_ble_eq_true rfl⟩
    (fun s l h => h.change (change_step s l)) labels

/-! ## The limit -/

theorem Roomy.change {l : PermitStep T} {s' : PermitState T} {outcome : PermitOutcome T}
    (h : Roomy s) (hkeeps : KeepsRoom s l) (hchange : Change s l s' outcome) : Roomy s' := by
  unfold Roomy claimed admitted at *
  cases hchange with
  | idle => exact h
  | checked caller hroom =>
    rcases hkeeps hroom with hkeeps | hkeeps
    · right
      left
      unfold claimed admitted at hkeeps
      simp only [List.length_cons]
      omega
    · exact .inr (.inr hkeeps)
  | gaveUp caller =>
    have hlength := List.length_erase_le (a := caller) (l := s.waiting)
    simp only
    omega
  | acquired caller hmem havailable =>
    have hlength := List.length_erase_add_one hmem
    simp only [List.length_cons]
    omega
  | counted caller hmem =>
    have hlength := List.length_erase_add_one hmem
    simp only [List.length_cons]
    omega
  | dropped caller hmem =>
    have hlength := List.length_erase_add_one hmem
    simp only
    omega
  | released => exact h
  | limited max => exact hkeeps

/-- A call that has room is granted a permit within the limit. -/
theorem withinLimit_of_roomy (hcounted : Counted s) (h : Roomy s) (l : PermitStep T) :
    WithinLimit ((machine T).event s l) := by
  intro caller houtput
  have hchange := change_step s l
  rw [show (s.step l).2 = .granted caller from houtput] at hchange
  show (s.step l).1.outstanding.length ≤ s.maxConcurrentTransfers
  generalize (s.step l).1 = s' at hchange
  cases hchange with
  | counted _ hmem =>
    have hlength := List.length_erase_add_one hmem
    have hsemaphore := hcounted.semaphore
    unfold Roomy claimed admitted at h
    simp only [List.length_cons]
    omega

/-! ## Beyond the limit -/

theorem step_acquire {caller : T} (hmem : caller ∈ s.waiting) (havailable : 0 < s.available) :
    s.step (.acquire caller) =
      ({ s with
        waiting := s.waiting.erase caller
        available := s.available - 1
        acquired := caller :: s.acquired }, .other) := if_pos ⟨hmem, havailable⟩

theorem step_count {caller : T} (hmem : caller ∈ s.acquired) :
    s.step (.count caller) =
      ({ s with
        acquired := s.acquired.erase caller
        activeCount := s.activeCount + 1
        outstanding := caller :: s.outstanding }, .granted caller) := if_pos hmem

theorem step_drop {caller : T} (hmem : caller ∈ s.outstanding) :
    s.step (.drop caller) =
      ({ s with
        outstanding := s.outstanding.erase caller
        activeCount := s.activeCount - 1
        releasing := caller :: s.releasing }, .dropped caller) := if_pos hmem

theorem step_release {caller : T} (hmem : caller ∈ s.releasing) :
    s.step (.release caller) =
      ({ s with releasing := s.releasing.erase caller, available := s.available + 1 }, .other) :=
  if_pos hmem

/-- Every step brings some call nearer to the point where its permit is given back. -/
def distance (s : PermitState T) : Nat :=
  4 * s.waiting.length + 3 * s.acquired.length + 2 * s.outstanding.length + s.releasing.length

/-- As long as there is no room, some step goes on, or grants a permit beyond the limit. -/
theorem exists_step_of_not_roomy (hcounted : Counted s) (h : ¬ Roomy s) :
    ∃ l, Finishes l ∧ (¬ WithinLimit ((machine T).event s l) ∨
      ¬ Roomy (s.step l).1 ∧ (s.step l).1.distance < s.distance) := by
  obtain ⟨-, hsemaphore, hlimit⟩ := hcounted
  unfold Roomy claimed admitted at h
  unfold Roomy claimed admitted distance
  cases hacquired : s.acquired with
  | cons caller rest =>
    have hmem : caller ∈ s.acquired := hacquired ▸ List.mem_cons_self
    have hlength := List.length_erase_add_one hmem
    have hcons : s.acquired.length = rest.length + 1 := congrArg List.length hacquired
    refine ⟨.count caller, trivial, ?_⟩
    by_cases hbeyond : s.maxConcurrentTransfers < s.outstanding.length + 1
    · left
      intro hwithin
      have hle := hwithin caller (congrArg Prod.snd (step_count hmem))
      have hpost : ((machine T).event s (.count caller)).post.outstanding.length =
          s.outstanding.length + 1 := by
        show (s.step (.count caller)).1.outstanding.length = _
        rw [step_count hmem]
        rfl
      exact absurd (hpost ▸ hle) (Nat.not_le.mpr hbeyond)
    · right
      rw [step_count hmem]
      simp only [List.length_cons]
      omega
  | nil =>
    have hwaiting : 0 < s.waiting.length := by
      rw [hacquired] at h
      simp only [List.length_nil] at h
      omega
    obtain ⟨caller, hmem⟩ := List.exists_mem_of_length_pos hwaiting
    have hlength := List.length_erase_add_one hmem
    rw [hacquired, List.length_nil] at h hsemaphore
    by_cases havailable : 0 < s.available
    · refine ⟨.acquire caller, trivial, .inr ?_⟩
      rw [step_acquire hmem havailable]
      simp only [List.length_cons, hacquired, List.length_nil]
      omega
    · cases hreleasing : s.releasing with
      | cons other rest =>
        have hmem : other ∈ s.releasing := hreleasing ▸ List.mem_cons_self
        have hlength := List.length_erase_add_one hmem
        refine ⟨.release other, trivial, .inr ?_⟩
        rw [step_release hmem]
        simp only [hacquired, List.length_nil]
        rw [hreleasing] at hlength ⊢
        omega
      | nil =>
        -- All permits are out. One of them has to be dropped first.
        rw [hreleasing, List.length_nil] at hsemaphore
        obtain ⟨other, hmem⟩ : ∃ other, other ∈ s.outstanding := by
          refine List.exists_mem_of_length_pos ?_
          unfold maxSftpConcurrentTransfers at hsemaphore
          omega
        have hlength := List.length_erase_add_one hmem
        refine ⟨.drop other, trivial, .inr ?_⟩
        rw [step_drop hmem]
        simp only [hacquired, hreleasing, List.length_cons, List.length_nil]
        omega

/-- Without room for every call that passed the check, the limit is exceeded in the end. -/
theorem exists_beyond_limit (labels : List (PermitStep T))
    (h : ¬ Roomy ((machine T).final labels)) :
    ∃ future l, (∀ l' ∈ future ++ [l], Finishes l') ∧
      ¬ WithinLimit ((machine T).event ((machine T).final (labels ++ future)) l) := by
  generalize hdistance : ((machine T).final labels).distance = d
  induction d using Nat.strongRecOn generalizing labels with
  | ind d ih =>
    obtain ⟨l, hl, hbeyond | ⟨hroom, hless⟩⟩ := exists_step_of_not_roomy (counted_final labels) h
    · refine ⟨[], l, ?_, ?_⟩
      · intro l' hl'
        rw [List.mem_singleton.mp hl']
        exact hl
      · rwa [List.append_nil]
    · have hfinal : (machine T).final (labels ++ [l]) = (((machine T).final labels).step l).1 :=
        Machine.final_snoc _ labels l
      rw [← hfinal] at hroom hless
      obtain ⟨future, l', hfinishes, hbeyond⟩ := ih _ (hdistance ▸ hless) (labels ++ [l]) hroom rfl
      refine ⟨l :: future, l', ?_, ?_⟩
      · intro l'' hl''
        rcases List.mem_cons.mp hl'' with rfl | hl''
        · exact hl
        · exact hfinishes l'' hl''
      · rwa [List.append_cons]

theorem not_roomy_of_not_keepsRoom {l : PermitStep T} (h : ¬ KeepsRoom s l) :
    ¬ Roomy (s.step l).1 := by
  cases l with
  | check caller =>
    obtain ⟨hroom, hfull⟩ := Classical.not_imp.mp h
    obtain ⟨hclaimed, hmax⟩ := not_or.mp hfull
    have hstep : s.step (.check caller) = ({ s with waiting := caller :: s.waiting }, .other) :=
      if_pos hroom
    rw [hstep]
    unfold Roomy claimed admitted at *
    simp only [List.length_cons]
    omega
  | setMaxConcurrent max => exact h
  | giveUp | acquire | count | drop | release => exact absurd trivial h

theorem roomy_final {labels : List (PermitStep T)} (h : (machine T).Along KeepsRoom labels) :
    Roomy ((machine T).final labels) :=
  (machine T).run_invariant_along (P := fun s _ => Roomy s) (Or.inl rfl)
    (fun s _ l hroom hkeeps => hroom.change hkeeps (change_step s l)) h

theorem along_append_finishes {labels future : List (PermitStep T)}
    (h : (machine T).Along KeepsRoom labels) (hfuture : ∀ l ∈ future, Finishes l) :
    (machine T).Along KeepsRoom (labels ++ future) := by
  induction future using List.reverseRecOn with
  | nil => rwa [List.append_nil]
  | append_singleton future l ih =>
    rw [← List.append_assoc, Machine.along_snoc]
    refine ⟨ih fun l' hl' => hfuture l' (List.mem_append_left _ hl'), ?_⟩
    exact .of_finishes (hfuture l (List.mem_append_right _ List.mem_cons_self))

/-- What the counts say in a state of a run. -/
structure Accounted (s : PermitState T) : Prop where
  active_eq : s.activeCount = s.outstanding.length
  active_le : s.activeCount ≤ maxSftpConcurrentTransfers
  /-- Counting down never saturates. -/
  drop_pos : ∀ caller, (s.step (.drop caller)).2 = .dropped caller →
    (s.step (.drop caller)).1.activeCount + 1 = s.activeCount

theorem Counted.accounted (h : Counted s) : Accounted s := by
  refine ⟨h.active, ?_, ?_⟩
  · have hactive := h.active
    have hsemaphore := h.semaphore
    omega
  · intro caller hdropped
    by_cases hmem : caller ∈ s.outstanding
    · rw [step_drop hmem]
      exact Nat.sub_add_cancel (activeCount_pos h hmem)
    · have hidle : s.step (.drop caller) = (s, .other) := if_neg hmem
      rw [hidle] at hdropped
      exact nomatch hdropped

/--
**The counts are right after every run, and the limit holds in every point of a run, however the
calls under way are finished, if and only if every check and every new limit keeps room.**
-/
theorem permits_within_limit_iff_keepsRoom (labels : List (PermitStep T)) :
    Accounted ((machine T).final labels) ∧
      ((∀ past future, past <+: labels → (∀ l ∈ future, Finishes l) →
          ∀ e ∈ (machine T).trace (past ++ future), WithinLimit e) ↔
        (machine T).Along KeepsRoom labels) := by
  refine ⟨(counted_final labels).accounted, ?_, ?_⟩
  · rintro h past l future rfl
    by_contra hkeeps
    have hroom : ¬ Roomy ((machine T).final (past ++ [l])) := by
      rw [Machine.final_snoc]
      exact not_roomy_of_not_keepsRoom hkeeps
    obtain ⟨later, l', hfinishes, hbeyond⟩ := exists_beyond_limit (past ++ [l]) hroom
    refine hbeyond (h (past ++ [l]) (later ++ [l']) ⟨future, by simp⟩ hfinishes _ ?_)
    rw [← List.append_assoc]
    exact Machine.event_mem_trace _ (past ++ [l] ++ later) l' []
  · rintro h past future ⟨rest, rfl⟩ hfuture e he
    have halong := along_append_finishes (Machine.along_append _ h) hfuture
    obtain ⟨pre, l, post, hlabels, rfl⟩ := Machine.mem_trace _ he
    rw [hlabels] at halong
    exact withinLimit_of_roomy (counted_final pre) (roomy_final (Machine.along_append _ halong)) l

/-- Two calls that check before either of them is counted are both granted a permit. -/
theorem two_permits_beyond_limit_of_one :
    ∃ labels caller, ¬ WithinLimit ((machine Bool).event ((machine Bool).final labels) (.count caller)) := by
  refine ⟨[.setMaxConcurrent 1, .check false, .check true, .acquire false, .acquire true,
    .count false], true, ?_⟩
  intro h
  exact absurd (h true (by decide +kernel)) (by decide +kernel)

end PermitState

end OxideTerm.Sftp
