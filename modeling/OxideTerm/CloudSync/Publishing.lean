import OxideTerm.CloudSync.Storage
import OxideTerm.Lib.Machine

/-!
# A writer that publishes

One writer with its record in memory and on the disk. It takes new local captures, stages its
snapshot, hands the object to the backend, and learns or does not learn that it arrived. It can
crash at any point and goes on with what is on the disk.
-/

namespace OxideTerm.CloudSync

open OxideTerm.Lib

/-- The record in memory, while the writer runs, and the one on the disk. -/
structure Publisher where
  record : Option LocalReplica
  disk : Option LocalReplica

inductive PublisherStep (Context : Type) where
  /-- Whatever captures, merges and resolutions make of the snapshot. -/
  | capture (snapshot : ReplicaSnapshot) (effective : SyncValues)
      (observed : FiniteMap Uuid PublicationId)
  | save (outcome : WriteOutcome)
  | requestPublication
  | stage (context : Context) (now : Int) (outcome : WriteOutcome)
  /-- Hands the object that waits to the backend. -/
  | upload
  | confirm (path : String) (now : Int) (outcome : WriteOutcome)
  | remove (id : PublicationId) (outcome : WriteOutcome)
  | crash
  /-- Opens the store; without a record on the disk, the writer is a new one. -/
  | reload (fresh : Uuid)

namespace Publisher

variable {Context : Type} (codec : Codec Context)

def init : Publisher where
  record := none
  disk := none

/-- Goes on with what an operation on the record returns. -/
def stored (result : ReplicaStore.Stored) : Publisher × Result (Option PendingPublication) :=
  ({ record := some result.2.1, disk := result.1 }, result.2.2.map fun _ => none)

/-- The object that is handed to the backend, if any, is the output. -/
def step (p : Publisher) (i : PublisherStep Context) :
    Publisher × Result (Option PendingPublication) :=
  match p.record with
  | none =>
    match i with
    | .reload fresh =>
      match ReplicaStore.load codec p.disk with
      | .error e => (p, .error e)
      | .ok record => ({ p with record := some (record.getD (LocalReplica.new fresh)) }, .ok none)
    | _ => (p, .ok none)
  | some record =>
    match i with
    | .capture snapshot effective observed =>
      ({ p with record := some { record with
          snapshot
          effective
          observed := record.observed.extend observed } }, .ok none)
    | .save outcome => stored (ReplicaStore.replace codec p.disk record record outcome)
    | .requestPublication => ({ p with record := some record.requestPublication }, .ok none)
    | .stage context now outcome =>
      stored (ReplicaStore.stagePublication codec p.disk record context now outcome)
    | .upload => (p, .ok record.pending)
    | .confirm path now outcome =>
      stored (ReplicaStore.confirmPublication codec p.disk record path now outcome)
    | .remove id outcome => stored (ReplicaStore.confirmRemoval codec p.disk record id outcome)
    | .crash => ({ p with record := none }, .ok none)
    | .reload _ => (p, .ok none)

end Publisher

/-- The writer and what it does. -/
def publisher {Context : Type} (codec : Codec Context) :
    Machine Publisher (PublisherStep Context) (Result (Option PendingPublication)) where
  init := .init
  step := Publisher.step codec

/-! ## What is observed -/

section

variable {Context : Type} (codec : Codec Context)

/-- A step of the writer. -/
abbrev PublisherEvent (Context : Type) :=
  Event Publisher (PublisherStep Context) (Result (Option PendingPublication))

/-- What a step hands to the backend. -/
def handedBy (e : PublisherEvent Context) : Option PendingPublication :=
  match e.output with
  | .ok handed => handed
  | .error _ => none

/-- The objects handed to the backend, oldest first. -/
def handed (trace : List (PublisherEvent Context)) : List PendingPublication :=
  trace.filterMap handedBy

/-- The object whose arrival a step notes on the disk. -/
def confirmedBy (e : PublisherEvent Context) : Option PendingPublication :=
  match e.label, e.pre.record with
  | .confirm path now outcome, some record =>
    match ReplicaStore.committed codec record path now with
    | .ok updated =>
      if ReplicaStore.validateRecord codec updated = .ok () ∧ outcome.persists = true then
        record.pending
      else none
    | .error _ => none
  | _, _ => none

/-- The objects whose arrival was noted, oldest first. -/
def confirmations (trace : List (PublisherEvent Context)) : List PendingPublication :=
  trace.filterMap (confirmedBy codec)

theorem handed_snoc (trace : List (PublisherEvent Context)) (e : PublisherEvent Context) :
    handed (trace ++ [e]) = handed trace ++ (handedBy e).toList := by
  rw [handed, List.filterMap_append]
  cases h : handedBy e <;> simp [h, handed]

theorem confirmations_snoc (trace : List (PublisherEvent Context)) (e : PublisherEvent Context) :
    confirmations codec (trace ++ [e]) =
      confirmations codec trace ++ (confirmedBy codec e).toList := by
  rw [confirmations, List.filterMap_append]
  cases h : confirmedBy codec e <;> simp [h, confirmations]

end

/-! ## Steps -/

/-- The two records are in the same state of publishing, apart from a request to publish again. -/
structure LocalReplica.SameState (record record' : LocalReplica) : Prop where
  writer : record'.writer = record.writer
  nextSequence : record'.nextSequence = record.nextSequence
  pending : record'.pending = record.pending
  pendingDocument : record'.pendingDocument = record.pendingDocument
  publishedDocument : record'.publishedDocument = record.publishedDocument ∨
    record'.publishedDocument = none

/-- Everything that a step can do, with what it hands over and what it confirms. -/
inductive Publisher.Moved {Context : Type} (codec : Codec Context) (p : Publisher) :
    Option PendingPublication → Option PendingPublication → Publisher → Prop where
  | idle : Moved codec p none none p
  | crash : Moved codec p none none { p with record := none }
  | start (fresh : Uuid) : p.record = none → p.disk = none →
      Moved codec p none none { p with record := some (LocalReplica.new fresh) }
  | resume (d : LocalReplica) : p.record = none → p.disk = some d →
      Moved codec p none none { p with record := some d }
  | touch (r r' : LocalReplica) : p.record = some r → r.SameState r' →
      Moved codec p none none { p with record := some r' }
  | save (r r' r'' : LocalReplica) : p.record = some r → r.SameState r' → (r'' = r ∨ r'' = r') →
      ReplicaStore.validateRecord codec r' = .ok () →
      Moved codec p none none { record := some r'', disk := some r' }
  | stage (r r' r'' : LocalReplica) (context : Context) (now : Int) : p.record = some r →
      r.pending = none → ReplicaStore.staged codec r context now = .ok r' → (r'' = r ∨ r'' = r') →
      ReplicaStore.validateRecord codec r' = .ok () →
      Moved codec p none none { record := some r'', disk := some r' }
  | upload (r : LocalReplica) : p.record = some r → Moved codec p r.pending none p
  | confirm (r r' r'' : LocalReplica) (path : String) (now : Int) : p.record = some r →
      ReplicaStore.committed codec r path now = .ok r' → (r'' = r ∨ r'' = r') →
      ReplicaStore.validateRecord codec r' = .ok () →
      Moved codec p none r.pending { record := some r'', disk := some r' }

namespace Publisher

variable {Context : Type} {codec : Codec Context}

theorem handedBy_stored {p : Publisher} {i : PublisherStep Context} {result : ReplicaStore.Stored}
    (h : p.step codec i = stored result) : handedBy ((publisher codec).event p i) = none := by
  have houtput : ((publisher codec).event p i).output = result.2.2.map fun _ => none := by
    show (p.step codec i).2 = _
    rw [h, stored]
  rw [handedBy, houtput]
  cases result.2.2 <;> rfl

/-- What a step comes to that replaces the record. -/
theorem stored_replace {p : Publisher} {r r' : LocalReplica} (hrecord : p.record = some r)
    (outcome : WriteOutcome) :
    ((stored (ReplicaStore.replace codec p.disk r r' outcome)).1 = p ∧
        ¬ (ReplicaStore.validateRecord codec r' = .ok () ∧ outcome.persists = true)) ∨
      ∃ r'', (r'' = r ∨ r'' = r') ∧
        (stored (ReplicaStore.replace codec p.disk r r' outcome)).1 =
          { record := some r'', disk := some r' } ∧
        ReplicaStore.validateRecord codec r' = .ok () ∧ outcome.persists = true := by
  obtain ⟨record, disk⟩ := p
  obtain rfl : record = some r := hrecord
  rcases @ReplicaStore.replace_cases Context codec disk r r' outcome with
    ⟨hdisk, hkept, hnot⟩ | ⟨hdisk, hnew, hvalid⟩
  · left
    rw [stored, hdisk, hkept]
    exact ⟨rfl, hnot⟩
  · right
    refine ⟨_, hnew, ?_, hvalid⟩
    rw [stored, hdisk]

theorem sameState_refl (r : LocalReplica) : r.SameState r := ⟨rfl, rfl, rfl, rfl, Or.inl rfl⟩

/-- A step that saves a record in the same state of publishing. -/
theorem moved_replace {p : Publisher} {r r' : LocalReplica} (hrecord : p.record = some r)
    (hsame : r.SameState r') (outcome : WriteOutcome) :
    Moved codec p none none (stored (ReplicaStore.replace codec p.disk r r' outcome)).1 := by
  rcases @stored_replace _ codec p r r' hrecord outcome with
    ⟨hp, -⟩ | ⟨r'', hr'', hp, hvalid, -⟩
  · rw [hp]
    exact Moved.idle
  · rw [hp]
    exact Moved.save r r' r'' hrecord hsame hr'' hvalid

/-- **A step does one of the things that are listed.** -/
theorem moved (p : Publisher) (i : PublisherStep Context) :
    Moved codec p (handedBy ((publisher codec).event p i))
      (confirmedBy codec ((publisher codec).event p i)) (p.step codec i).1 := by
  cases hrecord : p.record with
  | none =>
    have hconfirmed : confirmedBy codec ((publisher codec).event p i) = none := by
      simp only [confirmedBy, Machine.event_pre, hrecord]
      cases i <;> rfl
    rw [hconfirmed]
    cases i with
    | reload fresh =>
      cases hdisk : p.disk with
      | none =>
        have hstep : p.step codec (.reload fresh) =
            ({ p with record := some (LocalReplica.new fresh) }, .ok none) := by
          simp [step, hrecord, hdisk, ReplicaStore.load]
        have hhanded : handedBy ((publisher codec).event p (.reload fresh)) = none := by
          simp [handedBy, publisher, hstep]
        rw [hhanded, hstep]
        exact Moved.start fresh hrecord hdisk
      | some d =>
        cases hvalid : ReplicaStore.validateRecord codec d with
        | error e =>
          have hstep : p.step codec (.reload fresh) = (p, .error e) := by
            simp [step, hrecord, hdisk, ReplicaStore.load, hvalid]
          have hhanded : handedBy ((publisher codec).event p (.reload fresh)) = none := by
            simp [handedBy, publisher, hstep]
          rw [hhanded, hstep]
          exact Moved.idle
        | ok u =>
          have hstep : p.step codec (.reload fresh) =
              ({ p with record := some d }, .ok none) := by
            simp [step, hrecord, hdisk, ReplicaStore.load, hvalid]
          have hhanded : handedBy ((publisher codec).event p (.reload fresh)) = none := by
            simp [handedBy, publisher, hstep]
          rw [hhanded, hstep]
          exact Moved.resume d hrecord hdisk
    | _ =>
      simp only [handedBy, Machine.event_output, publisher, step, hrecord]
      exact Moved.idle
  | some r =>
    cases i with
    | capture snapshot effective observed =>
      simp only [handedBy, confirmedBy, Machine.event_output, Machine.event_label, publisher, step,
        hrecord]
      exact Moved.touch r _ hrecord ⟨rfl, rfl, rfl, rfl, Or.inl rfl⟩
    | requestPublication =>
      simp only [handedBy, confirmedBy, Machine.event_output, Machine.event_label, publisher, step,
        hrecord]
      exact Moved.touch r _ hrecord ⟨rfl, rfl, rfl, rfl, Or.inr rfl⟩
    | crash =>
      simp only [handedBy, confirmedBy, Machine.event_output, Machine.event_label, publisher, step,
        hrecord]
      exact Moved.crash
    | reload fresh =>
      simp only [handedBy, confirmedBy, Machine.event_output, Machine.event_label, publisher, step,
        hrecord]
      exact Moved.idle
    | upload =>
      simp only [handedBy, confirmedBy, Machine.event_output, Machine.event_label, publisher, step,
        hrecord]
      exact Moved.upload r hrecord
    | save outcome =>
      have hstep : p.step codec (.save outcome) =
          stored (ReplicaStore.replace codec p.disk r r outcome) := by
        simp only [step, hrecord]
      rw [handedBy_stored hstep, hstep]
      exact moved_replace hrecord (sameState_refl r) outcome
    | remove id outcome =>
      have hstep : p.step codec (.remove id outcome) =
          stored (ReplicaStore.confirmRemoval codec p.disk r id outcome) := by
        simp only [step, hrecord]
      rw [handedBy_stored hstep, hstep]
      unfold ReplicaStore.confirmRemoval
      split
      · obtain ⟨record, disk⟩ := p
        obtain rfl : record = some r := hrecord
        exact Moved.idle
      · have hsame : r.SameState
            { r with publications := r.publications.filter fun p => p.1 ≠ id } :=
          ⟨rfl, rfl, rfl, rfl, Or.inl rfl⟩
        exact moved_replace hrecord hsame outcome
    | stage context now outcome =>
      have hstep : p.step codec (.stage context now outcome) =
          stored (ReplicaStore.stagePublication codec p.disk r context now outcome) := by
        simp only [step, hrecord]
      have hidle : ∀ result : Result Unit,
          Moved codec p none none (stored (p.disk, r, result)).1 := by
        obtain ⟨record, disk⟩ := p
        obtain rfl : record = some r := hrecord
        exact fun _ => Moved.idle
      rw [handedBy_stored hstep, hstep]
      unfold ReplicaStore.stagePublication
      split
      · exact hidle _
      next hpending =>
      rw [Option.not_isSome_iff_eq_none] at hpending
      split
      · exact hidle _
      next r' hstaged =>
      rcases @stored_replace _ codec p r r' hrecord outcome with
        ⟨hp, -⟩ | ⟨r'', hr'', hp, hvalid, -⟩
      · rw [hp]
        exact Moved.idle
      · rw [hp]
        exact Moved.stage r r' r'' context now hrecord hpending hstaged hr'' hvalid
    | confirm path now outcome =>
      have hstep : p.step codec (.confirm path now outcome) =
          stored (ReplicaStore.confirmPublication codec p.disk r path now outcome) := by
        simp only [step, hrecord]
      rw [handedBy_stored hstep, hstep]
      simp only [confirmedBy, Machine.event_label, Machine.event_pre, hrecord]
      unfold ReplicaStore.confirmPublication
      cases hcommitted : ReplicaStore.committed codec r path now with
      | error e =>
        obtain ⟨record, disk⟩ := p
        obtain rfl : record = some r := hrecord
        exact Moved.idle
      | ok r' =>
        rcases @stored_replace _ codec p r r' hrecord outcome with
          ⟨hp, hnot⟩ | ⟨r'', hr'', hp, hvalid⟩
        · dsimp only
          rw [if_neg hnot, hp]
          exact Moved.idle
        · dsimp only
          rw [if_pos hvalid, hp]
          exact Moved.confirm r r' r'' path now hrecord hcommitted hr'' hvalid.1

end Publisher

end OxideTerm.CloudSync
