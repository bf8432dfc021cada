import OxideTerm.Ssh.Reconnect

/-!
# Jobs that end once

A job has ended when it has an end; it looks ended when its status is a terminal phase. Four
operations write one or the other, and only two of them look first. What they keep in step, and
under which condition, is shown here for calls in any order.
-/

namespace OxideTerm.Ssh

open OxideTerm.Lib

/-- What is compared of a job. -/
def TerminalJob.of (n : String) (job : ReconnectJob) : TerminalJob :=
  { nodeId := n, endedAt := job.endedAt.getD job.startedAt, startedAt := job.startedAt }

theorem TerminalJob.le_trans (a b c : TerminalJob) (hab : a.le b) (hbc : b.le c) : a.le c := by
  simp only [TerminalJob.le, Bool.or_eq_true, Bool.and_eq_true, decide_eq_true_eq] at *
  grind

theorem TerminalJob.le_total (a b : TerminalJob) : a.le b || b.le a := by
  simp only [TerminalJob.le, Bool.or_eq_true, Bool.and_eq_true, decide_eq_true_eq]
  grind

namespace ReconnectOrchestratorStore

variable {store : ReconnectOrchestratorStore} {n : String}

/-! ## What a call does to a job -/

/-- What a call can make of the job of the node `n`, if it does not remove it. -/
inductive Touch (n : String) : Call → ReconnectJob → ReconnectJob → Prop
  | untouched (call : Call) (job : ReconnectJob) : Touch n call job job
  | advanced (phase : ReconnectPhase) (clock : Clock) (job : ReconnectJob) :
      Touch n (.advance n phase clock) job
        ({ job with status := phase }.pushPhase phase .running none clock)
  | completed (result : PhaseResult) (detail : Option String) (clock : Clock) (job : ReconnectJob) :
      Touch n (.completePhase n result detail clock) job (job.completeLastPhase result detail clock)
  | restored (count : Nat) (clock : Clock) (job : ReconnectJob) :
      Touch n (.finish n (.ok count) clock) job
        ({ job with endedAt := some (clock 0), status := .done, restoredCount := count }.pushPhase
          .done .ok none fun i => clock (i + 1))
  | failed (error : String) (clock : Clock) (job : ReconnectJob) :
      Touch n (.finish n (.error error) clock) job
        ({ job with endedAt := some (clock 0), status := .failed, error := some error }.pushPhase
          .failed .failed (some error) fun i => clock (i + 1))
  | cancelled (clock : Clock) (job : ReconnectJob) :
      Touch n (.cancel n clock) job
        ({ job with status := .cancelled, endedAt := some (clock 0) }.pushPhase .cancelled .ok none
          fun i => clock (i + 1))
  | attempted (job : ReconnectJob) (active : job.endedAt = none) :
      Touch n (.beginSshAttempt n) job
        { job with attempt := min (min (job.attempt + 1) u32Max) job.maxAttempts }
  | retried (delay : RetryDelay) (detail : String) (clock : Clock) (job : ReconnectJob)
      (active : job.endedAt = none) :
      Touch n (.scheduleRetry n delay clock) job
        ({ job with status := .queued }.pushPhase .queued .running (some detail) clock)

/-- The call schedules a job for the node `n`. -/
def Call.Schedules (n : String) : Call → Prop
  | .schedule nodeId _ _ _ => nodeId = n
  | _ => False

theorem get_modify (store : ReconnectOrchestratorStore) (k : String)
    (change : ReconnectJob → ReconnectJob) :
    (store.modify k change).1.jobs.get n =
      if n = k then (store.jobs.get n).map change else store.jobs.get n := by
  unfold modify
  split
  · next h =>
    split
    · next hn => rw [hn, h]; rfl
    · rfl
  · next job h =>
    show (store.jobs.insert k (change job)).get n = _
    rw [FiniteMap.get_insert]
    split
    · next hn => rw [hn, h]; rfl
    · rfl

theorem get_modify_self {job : ReconnectJob} (h : store.jobs.get n = some job)
    (change : ReconnectJob → ReconnectJob) :
    (store.modify n change).1.jobs.get n = some (change job) := by
  rw [get_modify, if_pos rfl, h]
  rfl

/-- The job that was there before one that a change of the job of `k` leaves. -/
theorem modify_some {k : String} {change : ReconnectJob → ReconnectJob} {job' : ReconnectJob}
    (h : (store.modify k change).1.jobs.get n = some job') :
    (n ≠ k ∧ store.jobs.get n = some job') ∨
      n = k ∧ ∃ job, store.jobs.get n = some job ∧ job' = change job := by
  rw [get_modify] at h
  split at h
  · next hn =>
    obtain ⟨job, hjob, rfl⟩ := Option.map_eq_some_iff.mp h
    exact Or.inr ⟨hn, job, hjob, rfl⟩
  · next hn => exact Or.inl ⟨hn, h⟩

theorem get_foldl_erase :
    (l : List TerminalJob) → (jobs : FiniteMap String ReconnectJob) →
      (l.foldl (fun jobs job => jobs.erase job.nodeId) jobs).get n =
        if n ∈ l.map TerminalJob.nodeId then none else jobs.get n
  | [], jobs => by simp
  | job :: l, jobs => by
    rw [List.foldl_cons, get_foldl_erase l, FiniteMap.get_erase, List.map_cons]
    by_cases hl : n ∈ l.map TerminalJob.nodeId
    · rw [if_pos hl, if_pos (List.mem_cons_of_mem _ hl)]
    · rw [if_neg hl]
      by_cases hn : n = job.nodeId
      · rw [if_pos hn, if_pos (hn ▸ List.mem_cons_self)]
      · rw [if_neg hn, if_neg (by simp [hn, hl])]

/-- The cap leaves a job as it is, or removes it. -/
theorem enforceTerminalJobCap_some {maxRetained : Nat} {rank : String → Nat} {job : ReconnectJob}
    (h : (store.enforceTerminalJobCap maxRetained rank).jobs.get n = some job) :
    store.jobs.get n = some job := by
  unfold enforceTerminalJobCap at h
  dsimp only at h
  split at h
  · exact h
  · dsimp only at h
    rw [get_foldl_erase] at h
    split at h
    · cases h
    · exact h

theorem cleanupTerminalJob_some {k : String} {startedAt : SystemTime} {job : ReconnectJob}
    (h : (store.cleanupTerminalJob k startedAt).1.jobs.get n = some job) :
    store.jobs.get n = some job := by
  unfold cleanupTerminalJob at h
  dsimp only at h
  split at h
  · rw [FiniteMap.get_erase] at h
    split at h
    · cases h
    · exact h
  · exact h

/-- **What a call can do.** A job that is there after it was there before, or was scheduled by it
where no job was active. -/
theorem step_some {call : Call} {job' : ReconnectJob}
    (h : (store.step call).1.jobs.get n = some job') :
    (∃ job, store.jobs.get n = some job ∧ Touch n call job job') ∨
      call.Schedules n ∧ (∀ old, store.jobs.get n = some old → old.endedAt.isSome) ∧
        job'.nodeId = n ∧ job'.status = .queued ∧ job'.endedAt = none ∧ job'.attempt = 0 := by
  cases call with
  | configure maxAttempts => exact Or.inl ⟨job', h, .untouched _ _⟩
  | schedule k nodeName jobId clock =>
    simp only [step, schedule] at h
    split at h
    · next hnone =>
      dsimp only at h
      rw [FiniteMap.get_insert] at h
      split at h
      · next hn =>
        obtain rfl := Option.some.inj h
        refine Or.inr ⟨hn.symm, fun old hold => ?_, hn.symm, rfl, rfl, rfl⟩
        rw [hn, hnone] at hold
        cases hold
      · exact Or.inl ⟨job', h, .untouched _ _⟩
    · next old hold =>
      split at h
      · exact Or.inl ⟨job', h, .untouched _ _⟩
      · next hended =>
        dsimp only at h
        rw [FiniteMap.get_insert] at h
        split at h
        · next hn =>
          obtain rfl := Option.some.inj h
          refine Or.inr ⟨hn.symm, fun old' hold' => ?_, hn.symm, rfl, rfl, rfl⟩
          rw [hn, hold] at hold'
          obtain rfl := Option.some.inj hold'
          exact Option.isSome_iff_ne_none.mpr (by simpa using hended)
        · next hn =>
          rw [FiniteMap.get_erase, if_neg hn] at h
          exact Or.inl ⟨job', h, .untouched _ _⟩
  | advance k phase clock =>
    rcases modify_some h with ⟨-, hsame⟩ | ⟨rfl, job, hjob, rfl⟩
    · exact Or.inl ⟨job', hsame, .untouched _ _⟩
    · exact Or.inl ⟨job, hjob, .advanced phase clock job⟩
  | completePhase k result detail clock =>
    rcases modify_some h with ⟨-, hsame⟩ | ⟨rfl, job, hjob, rfl⟩
    · exact Or.inl ⟨job', hsame, .untouched _ _⟩
    · exact Or.inl ⟨job, hjob, .completed result detail clock job⟩
  | finish k result clock =>
    rcases modify_some h with ⟨-, hsame⟩ | ⟨rfl, job, hjob, rfl⟩
    · exact Or.inl ⟨job', hsame, .untouched _ _⟩
    · cases result with
      | ok count => exact Or.inl ⟨job, hjob, .restored count clock job⟩
      | error error => exact Or.inl ⟨job, hjob, .failed error clock job⟩
  | cancel k clock =>
    rcases modify_some h with ⟨-, hsame⟩ | ⟨rfl, job, hjob, rfl⟩
    · exact Or.inl ⟨job', hsame, .untouched _ _⟩
    · exact Or.inl ⟨job, hjob, .cancelled clock job⟩
  | beginSshAttempt k =>
    simp only [step, beginSshAttempt] at h
    split at h
    · exact Or.inl ⟨job', h, .untouched _ _⟩
    · next old hold =>
      split at h
      · exact Or.inl ⟨job', h, .untouched _ _⟩
      · next hactive =>
        rcases modify_some h with ⟨-, hsame⟩ | ⟨rfl, job, hjob, rfl⟩
        · exact Or.inl ⟨job', hsame, .untouched _ _⟩
        · obtain rfl := Option.some.inj (hold.symm.trans hjob)
          exact Or.inl ⟨old, hjob, .attempted old (by simpa using hactive)⟩
  | scheduleRetry k delay clock =>
    simp only [step, scheduleRetry] at h
    split at h
    · exact Or.inl ⟨job', h, .untouched _ _⟩
    · next old hold =>
      split at h
      · exact Or.inl ⟨job', h, .untouched _ _⟩
      · next hactive =>
        rcases modify_some h with ⟨-, hsame⟩ | ⟨rfl, job, hjob, rfl⟩
        · exact Or.inl ⟨job', hsame, .untouched _ _⟩
        · obtain rfl := Option.some.inj (hold.symm.trans hjob)
          simp only [Bool.or_eq_true, not_or, Bool.not_eq_true, Option.isSome_eq_false_iff,
            Option.isNone_iff_eq_none] at hactive
          exact Or.inl ⟨old, hjob, .retried delay _ clock old hactive.1⟩
  | cleanupTerminalJob k startedAt =>
    exact Or.inl ⟨job', cleanupTerminalJob_some h, .untouched _ _⟩
  | enforceTerminalJobCap maxRetained rank =>
    exact Or.inl ⟨job', enforceTerminalJobCap_some h, .untouched _ _⟩

/-! ## The cap -/

theorem mem_terminalJobs {rank : String → Nat} {entry : TerminalJob} :
    entry ∈ store.terminalJobs rank ↔
      ∃ job, store.jobs.get entry.nodeId = some job ∧ isTerminalPhase job.status ∧
        entry = .of entry.nodeId job := by
  unfold terminalJobs visit
  simp only [List.mem_filterMap, List.mem_mergeSort, mem_inOrder, Option.bind_eq_some_iff,
    Option.ite_none_right_eq_some, Option.some.injEq]
  constructor
  · rintro ⟨n, -, job, hjob, hterminal, rfl⟩
    exact ⟨job, hjob, hterminal, rfl⟩
  · rintro ⟨job, hjob, hterminal, hentry⟩
    exact ⟨entry.nodeId, FiniteMap.mem_keys_of_get hjob, job, hjob, hterminal, hentry.symm⟩

theorem map_nodeId_sublist {rank : String → Nat} :
    ((store.terminalJobs rank).map TerminalJob.nodeId).Sublist (store.visit rank) := by
  unfold terminalJobs
  generalize store.visit rank = nodes
  induction nodes with
  | nil => exact List.Sublist.refl _
  | cons n nodes ih =>
    rw [List.filterMap_cons]
    split
    · exact ih.cons n
    · next entry hentry =>
      obtain ⟨job, -, hjob⟩ := Option.bind_eq_some_iff.mp hentry
      obtain ⟨-, hjob⟩ := Option.ite_none_right_eq_some.mp hjob
      obtain rfl := Option.some.inj hjob
      exact ih.cons_cons n

theorem nodup_terminalJobs (rank : String → Nat) :
    ((store.terminalJobs rank).map TerminalJob.nodeId).Nodup :=
  ((List.mergeSort_perm _ _).nodup_iff.mpr (nodup_inOrder _)).sublist map_nodeId_sublist

/-- What the cap does beyond its limit, to the sorted list of finished jobs. -/
theorem get_enforceTerminalJobCap {maxRetained : Nat} {rank : String → Nat}
    (h : maxRetained < (store.terminalJobs rank).length) :
    (store.enforceTerminalJobCap maxRetained rank).jobs.get n =
      if n ∈ (((store.terminalJobs rank).mergeSort TerminalJob.le).take
        ((store.terminalJobs rank).length - maxRetained)).map TerminalJob.nodeId then none
      else store.jobs.get n := by
  unfold enforceTerminalJobCap
  dsimp only
  rw [if_neg (Nat.not_le.mpr h)]
  exact get_foldl_erase _ _

/-- **The cap removes finished jobs, oldest first**, until they are within the limit. -/
theorem cap_removes_oldest (store : ReconnectOrchestratorStore) (maxRetained : Nat)
    (rank : String → Nat) :
    let after := store.enforceTerminalJobCap maxRetained rank
    (∀ n job, after.jobs.get n = some job → store.jobs.get n = some job) ∧
    (∀ n job, store.jobs.get n = some job → after.jobs.get n = none →
      isTerminalPhase job.status ∧ ∀ m kept, after.jobs.get m = some kept →
        isTerminalPhase kept.status → (TerminalJob.of n job).le (.of m kept)) ∧
    (after.terminalJobs rank).length = min maxRetained (store.terminalJobs rank).length := by
  intro after
  refine ⟨fun n job => enforceTerminalJobCap_some, ?_⟩
  by_cases hfits : (store.terminalJobs rank).length ≤ maxRetained
  · have hsame : after = store := if_pos hfits
    rw [hsame]
    refine ⟨fun n job hjob hgone => ?_, (Nat.min_eq_right hfits).symm⟩
    rw [hjob] at hgone
    cases hgone
  · have hget : ∀ n, after.jobs.get n = _ := fun n => get_enforceTerminalJobCap (by omega)
    have hperm := List.mergeSort_perm (store.terminalJobs rank) TerminalJob.le
    have hsorted := List.pairwise_mergeSort TerminalJob.le_trans TerminalJob.le_total
      (store.terminalJobs rank)
    have hnodup := (hperm.map TerminalJob.nodeId).nodup_iff.mpr (nodup_terminalJobs rank)
    have hlength := hperm.length_eq
    generalize (store.terminalJobs rank).mergeSort TerminalJob.le = sorted at *
    generalize hk : (store.terminalJobs rank).length - maxRetained = k at hget
    rw [← List.take_append_drop k sorted, List.map_append] at hnodup
    have hapart := (List.nodup_append.mp hnodup).2.2
    rw [← List.take_append_drop k sorted] at hsorted
    have holder := (List.pairwise_append.mp hsorted).2.2
    -- A finished job stays if and only if it is behind the cut.
    have hkept : ∀ entry, entry ∈ after.terminalJobs rank ↔ entry ∈ sorted.drop k := by
      intro entry
      rw [mem_terminalJobs]
      constructor
      · rintro ⟨job, hjob, hterminal, hentry⟩
        rw [hget] at hjob
        split at hjob
        · cases hjob
        · next hnot =>
          have hmem : entry ∈ sorted :=
            hperm.mem_iff.mpr (mem_terminalJobs.mpr ⟨job, hjob, hterminal, hentry⟩)
          rw [← List.take_append_drop k sorted] at hmem
          rcases List.mem_append.mp hmem with htake | hdrop
          · exact absurd (List.mem_map.mpr ⟨entry, htake, rfl⟩) hnot
          · exact hdrop
      · intro hdrop
        obtain ⟨job, hjob, hterminal, hentry⟩ :=
          mem_terminalJobs.mp (hperm.mem_iff.mp (List.mem_of_mem_drop hdrop))
        refine ⟨job, ?_, hterminal, hentry⟩
        rw [hget, if_neg]
        · exact hjob
        · intro htake
          exact hapart _ htake _ (List.mem_map.mpr ⟨entry, hdrop, rfl⟩) rfl
    refine ⟨fun n job hjob hgone => ?_, ?_⟩
    · rw [hget] at hgone
      split at hgone
      · next htake =>
        obtain ⟨entry, hentry, rfl⟩ := List.mem_map.mp htake
        obtain ⟨job', hjob', hterminal, hof⟩ :=
          mem_terminalJobs.mp (hperm.mem_iff.mp (List.mem_of_mem_take hentry))
        obtain rfl := Option.some.inj (hjob.symm.trans hjob')
        refine ⟨hterminal, fun m kept hm hkeptTerminal => ?_⟩
        rw [← hof]
        exact holder entry hentry _
          ((hkept _).mp (mem_terminalJobs.mpr ⟨kept, hm, hkeptTerminal, rfl⟩))
      · rw [hjob] at hgone
        cases hgone
    · have hsame : (after.terminalJobs rank).Perm (sorted.drop k) := by
        refine (List.perm_ext_iff_of_nodup ?_ ?_).mpr hkept
        · exact (nodup_terminalJobs rank).of_map _
        · exact (List.nodup_append.mp hnodup).2.1.of_map _
      rw [hsame.length_eq, List.length_drop]
      omega

/-! ## Keeping the end and the status in step -/

/-- What is true of every job: it is filed under its node, it has an end if and only if its status
is a terminal phase, and its attempts are counted up to the limit. -/
structure JobOrderly (n : String) (job : ReconnectJob) : Prop where
  filed : job.nodeId = n
  ended_iff : job.endedAt.isSome ↔ isTerminalPhase job.status
  attempts : job.attempt ≤ job.maxAttempts

/-- What does not change once a job has ended. -/
structure SameEnd (job job' : ReconnectJob) : Prop where
  status : job'.status = job.status
  endedAt : job'.endedAt = job.endedAt
  error : job'.error = job.error

theorem SameEnd.refl (job : ReconnectJob) : SameEnd job job := ⟨rfl, rfl, rfl⟩

theorem SameEnd.trans {a b c : ReconnectJob} (hab : SameEnd a b) (hbc : SameEnd b c) :
    SameEnd a c :=
  ⟨hbc.status.trans hab.status, hbc.endedAt.trans hab.endedAt, hbc.error.trans hab.error⟩

/-- The call comes in time: it does not end a job that has ended, unless that says what the job
already says, and a worker enters only phases of a job that goes on. -/
def Call.InTime (store : ReconnectOrchestratorStore) : Call → Prop
  | .advance n phase _ => ∀ job, store.jobs.get n = some job →
      if job.endedAt.isSome then phase = job.status else isTerminalPhase phase = false
  | .finish n (.ok _) clock => ∀ job, store.jobs.get n = some job → job.endedAt.isSome →
      job.status = .done ∧ job.endedAt = some (clock 0)
  | .finish n (.error error) clock => ∀ job, store.jobs.get n = some job → job.endedAt.isSome →
      job.status = .failed ∧ job.endedAt = some (clock 0) ∧ job.error = some error
  | .cancel n clock => ∀ job, store.jobs.get n = some job → job.endedAt.isSome →
      job.status = .cancelled ∧ job.endedAt = some (clock 0)
  | _ => True

theorem completeLastPhase_same (job : ReconnectJob) (result : PhaseResult) (detail : Option String)
    (clock : Clock) : ∃ history, job.completeLastPhase result detail clock =
      { job with phaseHistory := history } := by
  unfold ReconnectJob.completeLastPhase
  split
  · exact ⟨job.phaseHistory, rfl⟩
  · exact ⟨_, rfl⟩

/-- A touch in time keeps a job in order, and changes nothing of its end. -/
theorem Touch.keeps {call : Call} {job job' : ReconnectJob} (h : Touch n call job job')
    (hjob : store.jobs.get n = some job) (hintime : call.InTime store) (horder : JobOrderly n job) :
    JobOrderly n job' ∧ (job.endedAt.isSome → SameEnd job job') := by
  cases h with
  | untouched => exact ⟨horder, fun _ => .refl job⟩
  | advanced phase clock =>
    have hphase := hintime job hjob
    split at hphase
    · next hended =>
      subst hphase
      exact ⟨⟨horder.filed, horder.ended_iff, horder.attempts⟩, fun _ => ⟨rfl, rfl, rfl⟩⟩
    · next hactive =>
      refine ⟨⟨horder.filed, ⟨fun hended => absurd hended hactive, fun hterminal => ?_⟩,
        horder.attempts⟩, fun hended => absurd hended hactive⟩
      exact absurd hterminal (by simpa [ReconnectJob.pushPhase] using hphase)
  | completed result detail clock =>
    obtain ⟨history, heq⟩ := completeLastPhase_same job result detail clock
    rw [heq]
    exact ⟨⟨horder.filed, horder.ended_iff, horder.attempts⟩, fun _ => ⟨rfl, rfl, rfl⟩⟩
  | restored count clock =>
    refine ⟨⟨horder.filed, ⟨fun _ => rfl, fun _ => rfl⟩, horder.attempts⟩, fun hended => ?_⟩
    obtain ⟨hstatus, hend⟩ := hintime job hjob hended
    exact ⟨hstatus.symm, hend.symm, rfl⟩
  | failed error clock =>
    refine ⟨⟨horder.filed, ⟨fun _ => rfl, fun _ => rfl⟩, horder.attempts⟩, fun hended => ?_⟩
    obtain ⟨hstatus, hend, herror⟩ := hintime job hjob hended
    exact ⟨hstatus.symm, hend.symm, herror.symm⟩
  | cancelled clock =>
    refine ⟨⟨horder.filed, ⟨fun _ => rfl, fun _ => rfl⟩, horder.attempts⟩, fun hended => ?_⟩
    obtain ⟨hstatus, hend⟩ := hintime job hjob hended
    exact ⟨hstatus.symm, hend.symm, rfl⟩
  | attempted _ active =>
    refine ⟨⟨horder.filed, horder.ended_iff, Nat.min_le_right _ _⟩, fun _ => ⟨rfl, rfl, rfl⟩⟩
  | retried delay detail clock _ active =>
    have hactive : ¬ job.endedAt.isSome := by simp [active]
    refine ⟨⟨horder.filed, ⟨fun hended => absurd hended hactive, fun h => ?_⟩, horder.attempts⟩,
      fun hended => absurd hended hactive⟩
    cases h

/-- Whenever it comes, a touch keeps the counting of the attempts and the node. -/
theorem Touch.counts {call : Call} {job job' : ReconnectJob} (h : Touch n call job job')
    (hfiled : job.nodeId = n) (hattempts : job.attempt ≤ job.maxAttempts) :
    job'.nodeId = n ∧ job'.attempt ≤ job'.maxAttempts := by
  cases h with
  | completed result detail clock =>
    obtain ⟨history, heq⟩ := completeLastPhase_same job result detail clock
    rw [heq]
    exact ⟨hfiled, hattempts⟩
  | attempted _ active => exact ⟨hfiled, Nat.min_le_right _ _⟩
  | untouched => exact ⟨hfiled, hattempts⟩
  | advanced phase clock => exact ⟨hfiled, hattempts⟩
  | restored count clock => exact ⟨hfiled, hattempts⟩
  | failed error clock => exact ⟨hfiled, hattempts⟩
  | cancelled clock => exact ⟨hfiled, hattempts⟩
  | retried delay detail clock _ active => exact ⟨hfiled, hattempts⟩

/-! ## Runs -/

/-- Every job of the store is in order. -/
def Orderly (store : ReconnectOrchestratorStore) : Prop :=
  ∀ n job, store.jobs.get n = some job → JobOrderly n job

theorem orderly_step {call : Call} (h : store.Orderly) (hintime : call.InTime store) :
    (store.step call).1.Orderly := by
  intro n job' hjob'
  rcases step_some hjob' with ⟨job, hjob, htouch⟩ | ⟨-, -, hfiled, hstatus, hended, hattempt⟩
  · exact (htouch.keeps hjob hintime (h n job hjob)).1
  · refine ⟨hfiled, ?_, hattempt ▸ Nat.zero_le _⟩
    rw [hended, hstatus]
    exact ⟨fun h => absurd h (by simp), fun h => absurd h (by decide)⟩

variable (maxAttempts : Nat)

theorem orderly_final {labels : List Call}
    (h : (machine maxAttempts).Along (fun s c => c.InTime s) labels) :
    ((machine maxAttempts).final labels).Orderly :=
  (machine maxAttempts).run_invariant_along (P := fun s _ => s.Orderly)
    (fun _ _ h => by cases h) (fun _ _ _ hs hc => orderly_step hs hc) h

/-- **An ended job stays as it ended**, until another one is scheduled. -/
theorem sameEnd_final {pre : List Call} {job : ReconnectJob}
    (hjob : ((machine maxAttempts).final pre).jobs.get n = some job) (hended : job.endedAt.isSome)
    (mid : List Call)
    (h : (machine maxAttempts).Along (fun s c => c.InTime s) (pre ++ mid))
    (hmid : ∀ call ∈ mid, ¬ call.Schedules n) {job' : ReconnectJob}
    (hjob' : ((machine maxAttempts).final (pre ++ mid)).jobs.get n = some job') :
    SameEnd job job' := by
  induction mid using List.reverseRecOn generalizing job' with
  | nil =>
    rw [List.append_nil, hjob] at hjob'
    obtain rfl := Option.some.inj hjob'
    exact .refl job
  | append_singleton mid call ih =>
    rw [← List.append_assoc] at h hjob'
    rw [Machine.final_snoc] at hjob'
    obtain ⟨hbefore, hintime⟩ := (Machine.along_snoc _).mp h
    rcases step_some hjob' with ⟨between, hbetween, htouch⟩ | ⟨hschedules, -⟩
    · have hsame := ih hbefore (fun c hc => hmid c (List.mem_append_left _ hc)) hbetween
      have horder := orderly_final maxAttempts hbefore n between hbetween
      refine hsame.trans ((htouch.keeps hbetween hintime horder).2 ?_)
      rwa [hsame.endedAt]
    · exact absurd hschedules (hmid call (List.mem_append_right _ List.mem_cons_self))

/-! ## The whole of it -/

/-- **Reconnect jobs end once**: what holds in every state of a run, and of every call of it. -/
structure JobsEndOnce (maxAttempts : Nat) (labels : List Call) : Prop where
  /-- A job is filed under its node, so that a node has one job. -/
  filed : ∀ pre, pre <+: labels → ∀ n job,
    ((machine maxAttempts).final pre).jobs.get n = some job → job.nodeId = n
  ended_iff : ∀ pre, pre <+: labels → ∀ n job,
    ((machine maxAttempts).final pre).jobs.get n = some job →
      (job.endedAt.isSome ↔ isTerminalPhase job.status)
  ended_stays : ∀ pre mid, pre ++ mid <+: labels → ∀ n job job',
    ((machine maxAttempts).final pre).jobs.get n = some job → job.endedAt.isSome →
      (∀ call ∈ mid, ¬ call.Schedules n) →
        ((machine maxAttempts).final (pre ++ mid)).jobs.get n = some job' → SameEnd job job'
  attempts : ∀ pre, pre <+: labels → ∀ n job,
    ((machine maxAttempts).final pre).jobs.get n = some job → job.attempt ≤ job.maxAttempts
  /-- Scheduling a job for a node with an active one returns that one, and changes nothing. -/
  scheduled : ∀ pre, pre <+: labels → ∀ n job nodeName jobId clock,
    ((machine maxAttempts).final pre).jobs.get n = some job → job.endedAt = none →
      ((machine maxAttempts).final pre).schedule n nodeName jobId clock =
        ((machine maxAttempts).final pre, job)
  current : ∀ pre, pre <+: labels → ∀ n jobId,
    ((machine maxAttempts).final pre).isCurrent n jobId = true ↔
      ((machine maxAttempts).final pre).activeJobId n = some jobId
  /-- The cap removes finished jobs only, and none that ended after one that stays. -/
  capped : ∀ pre, pre <+: labels → ∀ maxRetained rank,
    let before := (machine maxAttempts).final pre
    let after := before.enforceTerminalJobCap maxRetained rank
    (∀ n job, after.jobs.get n = some job → before.jobs.get n = some job) ∧
    (∀ n job, before.jobs.get n = some job → after.jobs.get n = none →
      isTerminalPhase job.status ∧ ∀ m kept, after.jobs.get m = some kept →
        isTerminalPhase kept.status → (TerminalJob.of n job).le (.of m kept)) ∧
    (after.terminalJobs rank).length = min maxRetained (before.terminalJobs rank).length

/-- The attempts and the node are right in every run. -/
theorem counts_final (labels : List Call) (n : String) (job : ReconnectJob)
    (h : ((machine maxAttempts).final labels).jobs.get n = some job) :
    job.nodeId = n ∧ job.attempt ≤ job.maxAttempts := by
  induction labels using List.reverseRecOn generalizing job with
  | nil => cases h
  | append_singleton labels call ih =>
    rw [Machine.final_snoc] at h
    rcases step_some h with ⟨before, hbefore, htouch⟩ | ⟨-, -, hfiled, -, -, hattempt⟩
    · obtain ⟨hfiled, hattempts⟩ := ih before hbefore
      exact htouch.counts hfiled hattempts
    · exact ⟨hfiled, hattempt ▸ Nat.zero_le _⟩

theorem schedule_active {job : ReconnectJob} (hjob : store.jobs.get n = some job)
    (hactive : job.endedAt = none) (nodeName jobId : String) (clock : Clock) :
    store.schedule n nodeName jobId clock = (store, job) := by
  unfold schedule
  simp only [hjob, hactive, Option.isNone_none, if_true]

theorem isCurrent_iff {jobId : String} :
    store.isCurrent n jobId = true ↔ store.activeJobId n = some jobId := by
  unfold isCurrent activeJobId
  cases store.jobs.get n with
  | none => simp
  | some job => cases hended : job.endedAt <;> simp [hended]

/-- Calls that come in time are enough. -/
theorem jobsEndOnce_of_inTime {labels : List Call}
    (h : (machine maxAttempts).Along (fun s c => c.InTime s) labels) :
    JobsEndOnce maxAttempts labels where
  filed pre _ n job hjob := (counts_final maxAttempts pre n job hjob).1
  ended_iff pre hpre n job hjob := by
    obtain ⟨post, rfl⟩ := hpre
    exact (orderly_final maxAttempts ((machine maxAttempts).along_append h) n job hjob).ended_iff
  ended_stays pre mid hmid n job job' hjob hended hnot hjob' := by
    obtain ⟨post, rfl⟩ := hmid
    exact sameEnd_final maxAttempts hjob hended mid ((machine maxAttempts).along_append h) hnot hjob'
  attempts pre _ n job hjob := (counts_final maxAttempts pre n job hjob).2
  scheduled _ _ _ _ nodeName jobId clock hjob hactive :=
    schedule_active hjob hactive nodeName jobId clock
  current _ _ _ _ := isCurrent_iff
  capped _ _ := cap_removes_oldest _

/-- A call that comes too late or ends a job in passing shows. -/
theorem inTime_of_jobsEndOnce {labels : List Call} (h : JobsEndOnce maxAttempts labels) :
    (machine maxAttempts).Along (fun s c => c.InTime s) labels := by
  intro pre call post hlabels
  have hpre : pre <+: labels := ⟨call :: post, hlabels.symm⟩
  have hstep : pre ++ [call] <+: labels := ⟨post, by simp [hlabels]⟩
  have hended := h.ended_iff _ hstep
  have hstays := h.ended_stays pre [call] hstep
  rw [Machine.final_snoc] at hended hstays
  generalize (machine maxAttempts).final pre = store at hended hstays ⊢
  cases call with
  | advance n phase clock =>
    intro job hjob
    split
    · next hend =>
      exact (hstays n job _ hjob hend (by simp [Call.Schedules]) (get_modify_self hjob _)).status
    · next hactive =>
      have hiff := hended n _ (get_modify_self hjob _)
      simpa [ReconnectJob.pushPhase, hactive] using hiff
  | finish n result clock =>
    cases result with
    | ok count =>
      intro job hjob hend
      have hsame := hstays n job _ hjob hend (by simp [Call.Schedules]) (get_modify_self hjob _)
      exact ⟨hsame.status.symm, hsame.endedAt.symm⟩
    | error error =>
      intro job hjob hend
      have hsame := hstays n job _ hjob hend (by simp [Call.Schedules]) (get_modify_self hjob _)
      exact ⟨hsame.status.symm, hsame.endedAt.symm, hsame.error.symm⟩
  | cancel n clock =>
    intro job hjob hend
    have hsame := hstays n job _ hjob hend (by simp [Call.Schedules]) (get_modify_self hjob _)
    exact ⟨hsame.status.symm, hsame.endedAt.symm⟩
  | configure maxAttempts => trivial
  | schedule n nodeName jobId clock => trivial
  | completePhase n result detail clock => trivial
  | beginSshAttempt n => trivial
  | scheduleRetry n delay clock => trivial
  | cleanupTerminalJob n startedAt => trivial
  | enforceTerminalJobCap maxRetained rank => trivial

/-- **Jobs end once in exactly the runs whose calls come in time.** -/
theorem jobs_end_once_iff (labels : List Call) :
    JobsEndOnce maxAttempts labels ↔ (machine maxAttempts).Along (fun s c => c.InTime s) labels :=
  ⟨inTime_of_jobsEndOnce maxAttempts, jobsEndOnce_of_inTime maxAttempts⟩

/-- The user cancels a job; a worker of it that has not heard of this advances to the next phase.
The job has an end, and goes on. -/
theorem late_advance_revives_job :
    ¬ JobsEndOnce 5 [.schedule "node-a" "Node A" "job-a" (fun _ => 0), .cancel "node-a" (fun _ => 1),
      .advance "node-a" .sshConnect (fun _ => 2)] := by
  intro h
  have hstatus : (((machine 5).final [.schedule "node-a" "Node A" "job-a" (fun _ => 0),
      .cancel "node-a" (fun _ => 1), .advance "node-a" .sshConnect (fun _ => 2)]).jobs.get
        "node-a").any (fun job => job.endedAt.isSome && !isTerminalPhase job.status) = true := by
    decide +kernel
  obtain ⟨job, hjob, hboth⟩ := (Option.any_eq_true _ _).mp hstatus
  obtain ⟨hended, hactive⟩ := Bool.and_eq_true_iff.mp hboth
  have hterminal := (h.ended_iff _ (List.prefix_refl _) _ job hjob).mp hended
  rw [hterminal] at hactive
  cases hactive

end ReconnectOrchestratorStore

end OxideTerm.Ssh
