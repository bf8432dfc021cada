import Mathlib
import OxideTerm.Fernomade.Remote
import OxideTerm.Fernomade.Runtime

/-!
# What a poll sends

A poll makes at most two calls to the protocol: one for the association, and one for the
transmission that is due (`dueCall`). `poll_cases` says how a poll ends in terms of these calls, so
nothing after it unfolds `poll`.
-/

namespace OxideTerm.Fernomade

open OxideTerm.Lib

/-- The datagrams a call returned, which are at least one. -/
theorem ClientProtocol.call_ne_nil {X : Externals} {p : ClientProtocol X} {i : ClientCall}
    {packets : List Bytes} (h : (p.call i).2 = .datagrams (.ok packets)) : packets ≠ [] := by
  obtain ⟨u, -, hseal⟩ := p.call_sealed i h
  obtain ⟨compressed, fs, -, hsplit, heach⟩ := ClientProtocol.sealUpdate_ok hseal
  have hfs : fs ≠ [] := by
    rw [Fragment.split_eq] at hsplit
    split at hsplit
    · simp only [Except.ok.injEq] at hsplit
      have := Fragment.chunkCount_pos compressed
      rw [← hsplit, ne_eq, List.map_eq_nil_iff, List.range_eq_nil]
      omega
    · simp at hsplit
  cases fs with
  | nil => exact absurd rfl hfs
  | cons f rest =>
    intro hnil
    subst hnil
    unfold sealEach at heach
    split at heach
    · simp at heach
    · split at heach <;> simp at heach

namespace SessionRuntime

variable {X : Externals}

/-! ## The calls of a poll -/

/-- The call by which queued input or an unsent shutdown is put into a state. -/
def queuedCall (s : SessionRuntime X) (now : Nat) : ClientCall :=
  if s.shutdownAckDue then .buildShutdownAck (timestamp now)
  else if s.localShutdownUnsent then
    .buildShutdown (timestamp now) { instructions := s.queuedInstructions }
  else .buildUpdate (timestamp now) { instructions := s.queuedInstructions }

/-- Something waits to be put into a state. -/
def hasQueued (s : SessionRuntime X) : Bool :=
  !s.queuedInstructions.isEmpty || s.localShutdownUnsent

/-- The call for the transmission that is due. -/
def dueCall (s : SessionRuntime X) (now : Nat) : Option ClientCall :=
  if s.hasQueued && !s.protocol.hasPendingUpdate then some (s.queuedCall now)
  else if !s.acknowledgementDue && !s.heartbeatDue now then none
  else if s.protocol.hasPendingUpdate then some (.retransmitPending (timestamp now))
  else some (.buildAcknowledgement (timestamp now))

theorem dueCall_isSome (s : SessionRuntime X) (now : Nat) :
    (s.dueCall now).isSome =
      ((s.hasQueued && !s.protocol.hasPendingUpdate) || s.acknowledgementDue ||
        s.heartbeatDue now) := by
  unfold dueCall
  cases s.hasQueued <;> cases s.protocol.hasPendingUpdate <;> cases s.acknowledgementDue <;>
    cases s.heartbeatDue now <;> rfl

/-- The shutdown ends at a poll before anything but the association is sent. -/
def endsShutdown (s : SessionRuntime X) (now : Nat) : Bool :=
  !s.peerShutdownAcknowledgementDue &&
    (s.protocol.localShutdownAcknowledged || s.shutdownTimedOut now)

/-- The state after the association datagram, if that is due. -/
def associated (s : SessionRuntime X) (now : Nat) : SessionRuntime X :=
  match s.association with
  | .sent => s
  | .due =>
    { s with
      protocol := (s.protocol.call (.buildAssociation (timestamp now))).1
      association := .sent
      lastSend := some now }

theorem associated_of_sent {s : SessionRuntime X} (h : s.association = .sent) (now : Nat) :
    s.associated now = s := by
  simp only [associated, h]

/-! ## How a transmission ends -/

/-- What a transmission leaves of a shutdown. -/
def shutdownAfterSend (s : SessionRuntime X) (call : ClientCall) : ShutdownState :=
  if s.peerShutdownAcknowledgementDue then .complete .peerRequested
  else
    match call with
    | .buildAcknowledgement _ => s.shutdown
    | _ => s.recordShutdownTransmission.shutdown

theorem shutdownAfterSend_of_ne (s : SessionRuntime X) {call : ClientCall}
    (h : ∀ t, call ≠ .buildAcknowledgement t) :
    s.shutdownAfterSend call =
      if s.peerShutdownAcknowledgementDue then .complete .peerRequested
      else s.recordShutdownTransmission.shutdown := by
  cases call with
  | buildAcknowledgement t => exact absurd rfl (h t)
  | _ => rfl

/-- What a transmission that completes the peer's shutdown reports. -/
def completion (s : SessionRuntime X) : List SessionAction :=
  if s.peerShutdownAcknowledgementDue then
    [.shutdownComplete .peerRequested, .diagnostic (.shutdownComplete .peerRequested)]
  else []

@[simp] theorem recordShutdownTransmission_peer (s : SessionRuntime X) :
    s.recordShutdownTransmission.peerShutdownAcknowledgementDue =
      s.peerShutdownAcknowledgementDue := by
  unfold recordShutdownTransmission
  split <;> rfl

@[simp] theorem recordShutdownTransmission_protocol (s : SessionRuntime X) :
    s.recordShutdownTransmission.protocol = s.protocol := by
  unfold recordShutdownTransmission
  split <;> rfl

@[simp] theorem recordShutdownTransmission_lastSend (s : SessionRuntime X) :
    s.recordShutdownTransmission.lastSend = s.lastSend := by
  unfold recordShutdownTransmission
  split <;> rfl

theorem recordShutdownTransmission_congr {s s' : SessionRuntime X}
    (h : s'.shutdown = s.shutdown) :
    s'.recordShutdownTransmission.shutdown = s.recordShutdownTransmission.shutdown := by
  unfold recordShutdownTransmission
  rw [h]
  cases hs : s.shutdown with
  | localRequested startedAt transmissions => rfl
  | «open» => exact h
  | peerRequested => exact h
  | complete outcome => exact h

theorem completePeerShutdownAfterAck_eq (s : SessionRuntime X) :
    s.completePeerShutdownAfterAck.1.protocol = s.protocol ∧
    s.completePeerShutdownAfterAck.1.lastSend = s.lastSend ∧
    s.completePeerShutdownAfterAck.1.shutdown =
      (if s.peerShutdownAcknowledgementDue then .complete .peerRequested else s.shutdown) ∧
    s.completePeerShutdownAfterAck.1.peerShutdownAcknowledgementDue = false ∧
    s.completePeerShutdownAfterAck.2 = s.completion := by
  unfold completePeerShutdownAfterAck completion
  by_cases h : s.peerShutdownAcknowledgementDue
  · rw [if_pos h, if_pos h, if_pos h]
    exact ⟨rfl, rfl, rfl, rfl, rfl⟩
  · rw [if_neg h, if_neg h, if_neg h]
    exact ⟨rfl, rfl, rfl, Bool.not_eq_true _ ▸ h, rfl⟩

/-- The outcome of a transmission: nothing due, a failed call, or datagrams of a call. -/
inductive Transmission (s : SessionRuntime X) (now : Nat) :
    SessionRuntime X → Except RuntimeError (List SessionAction) → Prop where
  | idle (hcall : s.dueCall now = none) : Transmission s now s (.ok [])
  | failed {s' : SessionRuntime X} {call : ClientCall} {e : SessionError}
      (hcall : s.dueCall now = some call)
      (hreply : (s.protocol.call call).2 = .datagrams (.error e))
      (hprotocol : s'.protocol = (s.protocol.call call).1)
      (hlastSend : s'.lastSend = s.lastSend) (hshutdown : s'.shutdown = s.shutdown)
      (hpeer : s'.peerShutdownAcknowledgementDue = s.peerShutdownAcknowledgementDue) :
      Transmission s now s' (.error (.session e))
  | sent {s' : SessionRuntime X} {call : ClientCall} {packets : List Bytes}
      {diagnostic : DiagnosticEvent} (hcall : s.dueCall now = some call)
      (hreply : (s.protocol.call call).2 = .datagrams (.ok packets))
      (hprotocol : s'.protocol = (s.protocol.call call).1)
      (hlastSend : s'.lastSend = some now) (hshutdown : s'.shutdown = s.shutdownAfterSend call)
      (hpeer : s'.peerShutdownAcknowledgementDue = false) :
      Transmission s now s'
        (.ok (sendActions packets ++ [.diagnostic diagnostic] ++ s.completion))

/-- Queued input is put into a state by the call for it. -/
theorem buildQueuedUpdate_cases (s : SessionRuntime X) (now : Nat) :
    (∃ s' e, s.buildQueuedUpdate now = (s', .error (.session e)) ∧
      (s.protocol.call (s.queuedCall now)).2 = .datagrams (.error e) ∧
      s'.protocol = (s.protocol.call (s.queuedCall now)).1 ∧ s'.lastSend = s.lastSend ∧
      s'.shutdown = s.shutdown ∧
      s'.peerShutdownAcknowledgementDue = s.peerShutdownAcknowledgementDue) ∨
    (∃ s' packets diagnostic, s.buildQueuedUpdate now = (s', .ok (packets, diagnostic)) ∧
      (s.protocol.call (s.queuedCall now)).2 = .datagrams (.ok packets) ∧
      s'.protocol = (s.protocol.call (s.queuedCall now)).1 ∧ s'.lastSend = some now ∧
      s'.shutdown = s.shutdown ∧
      s'.peerShutdownAcknowledgementDue = s.peerShutdownAcknowledgementDue) := by
  have hbuilt :
      (s.protocol.call (s.queuedCall now)) =
        (if s.shutdownAckDue then s.protocol.buildShutdownAck (timestamp now)
          else if s.localShutdownUnsent then
            s.protocol.buildShutdown (timestamp now) { instructions := s.queuedInstructions }
          else s.protocol.buildUpdate (timestamp now)
            { instructions := s.queuedInstructions }).map id .datagrams := by
    unfold queuedCall
    split
    · rfl
    · split <;> rfl
  unfold buildQueuedUpdate
  dsimp only
  rw [hbuilt]
  generalize (if s.shutdownAckDue then s.protocol.buildShutdownAck (timestamp now)
    else if s.localShutdownUnsent then
      s.protocol.buildShutdown (timestamp now) { instructions := s.queuedInstructions }
    else s.protocol.buildUpdate (timestamp now)
      { instructions := s.queuedInstructions }) = built
  obtain ⟨protocol, e | packets⟩ := built
  · exact Or.inl ⟨_, e, rfl, rfl, rfl, rfl, rfl, rfl⟩
  · exact Or.inr ⟨_, packets, _, rfl, rfl, rfl, rfl, rfl, rfl⟩

theorem transmission_queued {s : SessionRuntime X} {now : Nat}
    (hqueued : (s.hasQueued && !s.protocol.hasPendingUpdate) = true) :
    Transmission s now (s.pollTransmission now).1 (s.pollTransmission now).2 := by
  have hcall : s.dueCall now = some (s.queuedCall now) := by
    rw [dueCall, if_pos hqueued]
  have hack : ∀ t, s.queuedCall now ≠ .buildAcknowledgement t := by
    intro t
    unfold queuedCall
    split
    · simp
    · split <;> simp
  unfold pollTransmission
  rw [if_pos (show ((!s.queuedInstructions.isEmpty || s.localShutdownUnsent) &&
    !s.protocol.hasPendingUpdate) = true from hqueued)]
  rcases s.buildQueuedUpdate_cases now with
    ⟨s', e, h, hreply, hprotocol, hlast, hshutdown, hpeer⟩ |
    ⟨s', packets, d, h, hreply, hprotocol, hlast, hshutdown, hpeer⟩ <;> rw [h]
  · exact .failed hcall hreply hprotocol hlast hshutdown hpeer
  · obtain ⟨hp, hl, hs, hd, hc⟩ := s'.recordShutdownTransmission.completePeerShutdownAfterAck_eq
    have hcompletion : s'.recordShutdownTransmission.completion = s.completion := by
      rw [completion, completion, recordShutdownTransmission_peer, hpeer]
    dsimp only
    rw [hc, hcompletion]
    refine .sent hcall hreply (by rw [hp, recordShutdownTransmission_protocol, hprotocol])
      (by rw [hl, recordShutdownTransmission_lastSend, hlast]) ?_ hd
    rw [hs, recordShutdownTransmission_peer, hpeer, shutdownAfterSend_of_ne s hack,
      recordShutdownTransmission_congr hshutdown]

/-- **How the transmission of a poll ends.** -/
theorem transmission (s : SessionRuntime X) (now : Nat) :
    Transmission s now (s.pollTransmission now).1 (s.pollTransmission now).2 := by
  by_cases hqueued : (s.hasQueued && !s.protocol.hasPendingUpdate) = true
  · exact transmission_queued hqueued
  · have hqueued' : ¬ ((!s.queuedInstructions.isEmpty || s.localShutdownUnsent) &&
        !s.protocol.hasPendingUpdate) = true := hqueued
    unfold pollTransmission
    rw [if_neg hqueued']
    by_cases hidle : (!s.acknowledgementDue && !s.heartbeatDue now) = true
    · have hcall : s.dueCall now = none := by rw [dueCall, if_neg hqueued, if_pos hidle]
      rw [if_pos hidle, if_pos hidle, ite_self]
      exact .idle hcall
    · rw [if_neg hidle, if_neg hidle]
      by_cases hpending : s.protocol.hasPendingUpdate
      · have hcall : s.dueCall now = some (.retransmitPending (timestamp now)) := by
          rw [dueCall, if_neg hqueued, if_neg hidle, if_pos hpending]
        rw [if_pos hpending]
        rcases hr : s.protocol.retransmitPending (timestamp now) with ⟨protocol, e | packets⟩
        · exact .failed hcall (by simp [ClientProtocol.call, hr])
            (by simp [ClientProtocol.call, hr]) rfl rfl rfl
        · obtain ⟨hp, hl, hs, hd, hc⟩ := ({ s with
            protocol
            lastSend := some now
            acknowledgementDue := false } :
              SessionRuntime X).recordShutdownTransmission.completePeerShutdownAfterAck_eq
          have hcompletion : ({ s with
              protocol
              lastSend := some now
              acknowledgementDue := false } :
                SessionRuntime X).recordShutdownTransmission.completion = s.completion := by
            rw [completion, completion, recordShutdownTransmission_peer]
          dsimp only
          rw [hc, hcompletion]
          refine .sent hcall (by simp [ClientProtocol.call, hr])
            (by rw [hp]; simp [ClientProtocol.call, hr]) (by rw [hl]; simp) ?_ hd
          rw [hs, recordShutdownTransmission_peer, shutdownAfterSend_of_ne s (by simp)]
          congr 1
          exact recordShutdownTransmission_congr rfl
      · have hcall : s.dueCall now = some (.buildAcknowledgement (timestamp now)) := by
          rw [dueCall, if_neg hqueued, if_neg hidle, if_neg hpending]
        rw [if_neg hpending]
        rcases hr : s.protocol.buildAcknowledgement (timestamp now) with ⟨protocol, e | packets⟩
        · exact .failed hcall (by simp [ClientProtocol.call, hr])
            (by simp [ClientProtocol.call, hr]) rfl rfl rfl
        · obtain ⟨hp, hl, hs, hd, hc⟩ := ({ s with
            protocol
            lastSend := some now
            acknowledgementDue := false } : SessionRuntime X).completePeerShutdownAfterAck_eq
          dsimp only
          rw [hc]
          exact .sent hcall (by simp [ClientProtocol.call, hr])
            (by rw [hp]; simp [ClientProtocol.call, hr]) hl hs hd

/-! ## How a poll ends -/

/-- A poll does something: the session runs and its shutdown is not complete. -/
def Active (s : SessionRuntime X) : Prop := s.lifecycle = .running ∧ s.shutdown.isComplete = false

/-- The actions of the association datagram. -/
def AssociationActions (s : SessionRuntime X) (now : Nat) (actions : List SessionAction) : Prop :=
  (s.association = .sent ∧ actions = []) ∨
  (s.association = .due ∧ ∃ packets diagnostic,
    (s.protocol.call (.buildAssociation (timestamp now))).2 = .datagrams (.ok packets) ∧
    actions = sendActions packets ++ [.diagnostic diagnostic])

/-- **The ways in which a poll ends.** -/
inductive Polled (s : SessionRuntime X) (now : Nat) :
    SessionRuntime X → Except RuntimeError (List SessionAction) → Prop where
  | inactive (h : ¬ s.Active) : Polled s now s (.ok [])
  | associationFailed {s' : SessionRuntime X} {e : SessionError} (h : s.Active)
      (hdue : s.association = .due)
      (hreply : (s.protocol.call (.buildAssociation (timestamp now))).2 = .datagrams (.error e))
      (hstate : s' = { s with
        protocol := (s.protocol.call (.buildAssociation (timestamp now))).1 }) :
      Polled s now s' (.error (.session e))
  | ended {s' : SessionRuntime X} {outcome : ShutdownOutcome} {dropped : List SessionAction}
      (h : s.Active) (hassociation : s.AssociationActions now dropped)
      (hends : (s.associated now).endsShutdown now = true) (houtcome : outcome ≠ .peerRequested)
      (hstate : s' = { s.associated now with shutdown := .complete outcome }) :
      Polled s now s'
        (.ok [.shutdownComplete outcome, .diagnostic (.shutdownComplete outcome)])
  | transmitted {a s' : SessionRuntime X} {connection associated : List SessionAction}
      {result : Except RuntimeError (List SessionAction)} (h : s.Active)
      (hassociation : s.AssociationActions now associated)
      (hends : (s.associated now).endsShutdown now = false)
      (hstate : ∃ state, a = { s.associated now with connectionState := state })
      (hconnection : ∀ action ∈ connection, ∃ state, action = .connectionStateChanged state ∨
        action = .diagnostic (.connectionStateChanged state))
      (htransmission : Transmission a now s' result) :
      Polled s now s' (result.map fun sent => associated ++ connection ++ sent)

theorem connectionStateActions_cases (s : SessionRuntime X) (now : Nat) :
    (∃ state, (s.connectionStateActions now).1 = { s with connectionState := state }) ∧
    ∀ action ∈ (s.connectionStateActions now).2, ∃ state,
      action = .connectionStateChanged state ∨
        action = .diagnostic (.connectionStateChanged state) := by
  unfold connectionStateActions
  split
  · refine ⟨⟨_, rfl⟩, ?_⟩
    intro action h
    simp only [List.mem_cons, List.not_mem_nil, or_false] at h
    rcases h with rfl | rfl
    · exact ⟨_, Or.inl rfl⟩
    · exact ⟨_, Or.inr rfl⟩
  · exact ⟨⟨s.connectionState, rfl⟩, by simp⟩

theorem polled (s : SessionRuntime X) (now : Nat) :
    Polled s now (s.poll now).1 (s.poll now).2 := by
  by_cases hactive : s.Active
  · obtain ⟨hrunning, hcomplete⟩ := hactive
    unfold poll
    rw [if_neg (by simp [hrunning]), if_neg (by simp [hcomplete])]
    have hassociation : (∃ e, s.association = .due ∧
          (s.protocol.call (.buildAssociation (timestamp now))).2 = .datagrams (.error e) ∧
          s.pollAssociation now = ({ s with
            protocol := (s.protocol.call (.buildAssociation (timestamp now))).1 },
            .error (.session e))) ∨
        (∃ actions, s.AssociationActions now actions ∧
          s.pollAssociation now = (s.associated now, .ok actions)) := by
      unfold pollAssociation associated
      cases hdue : s.association with
      | sent => exact Or.inr ⟨[], Or.inl ⟨hdue, rfl⟩, rfl⟩
      | due =>
        rcases hr : s.protocol.buildAssociation (timestamp now) with ⟨protocol, e | packets⟩
        · exact Or.inl ⟨e, rfl, by simp [ClientProtocol.call, hr],
            by simp [ClientProtocol.call, hr]⟩
        · exact Or.inr ⟨_, Or.inr ⟨hdue, packets, freshUpdateDiagnostic 0 packets 0 0,
            by simp [ClientProtocol.call, hr], rfl⟩, by simp [ClientProtocol.call, hr]⟩
    rcases hassociation with ⟨e, hdue, hreply, h⟩ | ⟨associated, hassociated, h⟩
    · rw [h]
      exact .associationFailed ⟨hrunning, hcomplete⟩ hdue hreply rfl
    · rw [h]
      dsimp only
      split
      · next hack =>
        rw [Bool.and_eq_true, Bool.not_eq_true'] at hack
        exact .ended ⟨hrunning, hcomplete⟩ hassociated (by simp [endsShutdown, hack.1, hack.2])
          (by simp) rfl
      · next hack =>
        split
        · next htimeout =>
          rw [Bool.and_eq_true, Bool.not_eq_true'] at htimeout
          exact .ended ⟨hrunning, hcomplete⟩ hassociated
            (by simp [endsShutdown, htimeout.1, htimeout.2]) (by simp) rfl
        · next htimeout =>
          have hends : (s.associated now).endsShutdown now = false := by
            unfold endsShutdown
            revert hack htimeout
            cases (s.associated now).peerShutdownAcknowledgementDue <;>
              cases (s.associated now).protocol.localShutdownAcknowledged <;>
              cases (s.associated now).shutdownTimedOut now <;> simp
          obtain ⟨hstate, hconnection⟩ := (s.associated now).connectionStateActions_cases now
          have ht := transmission ((s.associated now).connectionStateActions now).1 now
          have hpolled : Polled s now _ _ := .transmitted ⟨hrunning, hcomplete⟩ hassociated hends
            hstate hconnection ht
          revert hpolled
          rcases (((s.associated now).connectionStateActions now).1.pollTransmission now) with
            ⟨s', e | sent⟩
          · exact id
          · exact id
  · have hidle : s.poll now = (s, .ok []) := by
      unfold poll
      split
      · rfl
      · next hrunning =>
        rw [if_pos]
        by_contra hcomplete
        exact hactive ⟨not_not.mp hrunning, Bool.not_eq_true _ ▸ hcomplete⟩
    rw [hidle]
    exact .inactive hactive

end SessionRuntime

/-! ## Runs -/

/-- The runtime, driven by the calls of a host. -/
def runtimeMachine (X : Externals) (start : Nat) :
    Machine (SessionRuntime X) HostCall HostReply where
  init := .new start
  step := SessionRuntime.call

/-- The calls do not move the remote state back. -/
theorem ClientProtocol.latestRemoteState_ingestPacket {X : Externals} (p : ClientProtocol X)
    (packet : Bytes) : p.latestRemoteState ≤ (p.ingestPacket packet).1.latestRemoteState := by
  rcases p.ingestPacket_cases packet with ⟨w, t, as, h, -⟩ | ⟨w, t, as, c, header, compressed, _, h⟩
  · rw [h]
    exact UInt64.le_refl _
  · rw [h]
    show (p.rebook w t as).latestRemoteState ≤ _
    rcases (p.rebook w t as).ingestMessage_remote c header compressed with
      ⟨hsame, -⟩ | ⟨u, base, target, -, hsame, -⟩ | ⟨u, base, target, r, -, -, -, hcases⟩
    · exact UInt64.le_of_eq hsame.latestRemoteState.symm
    · exact UInt64.le_of_eq hsame.latestRemoteState.symm
    · rcases hcases with ⟨hsame, -⟩ | ⟨diff, hlt, -, hsame, -⟩
      · exact UInt64.le_of_eq hsame.latestRemoteState.symm
      · rw [hsame.latestRemoteState]
        exact UInt64.le_of_lt hlt

theorem ClientProtocol.latestRemoteState_setInitialRemoteViewport {X : Externals}
    (p : ClientProtocol X) (columns rows : UInt16) :
    (p.setInitialRemoteViewport columns rows).latestRemoteState = p.latestRemoteState := by
  unfold setInitialRemoteViewport
  split
  · rfl
  · split <;> rfl

namespace SessionRuntime

variable {X : Externals}

/-- What a call at some time may change of the timers and of the remote state. -/
structure Follows (s s' : SessionRuntime X) (time : Option Nat) : Prop where
  lastSend : ∀ t, s'.lastSend = some t → s.lastSend = some t ∨ time = some t
  startedAt : ∀ t n, s'.shutdown = .localRequested t n →
    (∃ m, s.shutdown = .localRequested t m) ∨ time = some t
  latestRemoteState : s.protocol.latestRemoteState ≤ s'.protocol.latestRemoteState

namespace Follows

/-- A change that leaves the timers alone. -/
theorem of_same {s s' : SessionRuntime X} {time : Option Nat} (hlast : s'.lastSend = s.lastSend)
    (hshutdown : s'.shutdown = s.shutdown)
    (hprotocol : s'.protocol.latestRemoteState = s.protocol.latestRemoteState) :
    Follows s s' time where
  lastSend _ h := Or.inl (hlast ▸ h)
  startedAt _ n h := Or.inl ⟨n, hshutdown ▸ h⟩
  latestRemoteState := UInt64.le_of_eq hprotocol.symm

theorem refl (s : SessionRuntime X) (time : Option Nat) : Follows s s time := of_same rfl rfl rfl

theorem trans {s s' s'' : SessionRuntime X} {time : Option Nat} (h : Follows s s' time)
    (h' : Follows s' s'' time) : Follows s s'' time where
  lastSend t ht := (h'.lastSend t ht).elim (h.lastSend t) Or.inr
  startedAt t n ht := by
    rcases h'.startedAt t n ht with ⟨m, hm⟩ | htime
    · exact h.startedAt t m hm
    · exact Or.inr htime
  latestRemoteState := UInt64.le_trans h.latestRemoteState h'.latestRemoteState

end Follows

/-! ### Host input -/

theorem follows_queueBounded (s : SessionRuntime X) (length : Nat) (instruction : Instruction)
    (time : Option Nat) : Follows s (s.queueBounded length instruction).1 time := by
  unfold queueBounded
  split
  · exact .refl s time
  · split
    · exact .refl s time
    · exact .of_same rfl rfl rfl

theorem follows_queueInput (s : SessionRuntime X) (bytes : Bytes) (time : Option Nat) :
    Follows s (s.queueInput bytes).1 time := by
  unfold queueInput
  split
  · exact .refl s time
  · exact s.follows_queueBounded _ _ time

theorem follows_queueResize (s : SessionRuntime X) (columns rows : UInt16) (time : Option Nat) :
    Follows s (s.queueResize columns rows) time := by
  unfold queueResize
  split
  · exact .refl s time
  · exact .of_same rfl rfl (s.protocol.latestRemoteState_setInitialRemoteViewport columns rows)

theorem follows_queueTerminalEvent (s : SessionRuntime X) (event : TerminalInputEvent)
    (time : Option Nat) : Follows s (s.queueTerminalEvent event).1 time := by
  unfold queueTerminalEvent
  split
  · exact .refl s time
  · split
    · exact s.follows_queueInput _ time
    · exact s.follows_queueResize _ _ time

theorem follows_queueSessionControl (s : SessionRuntime X) (kind : UInt32) (payload : Bytes)
    (time : Option Nat) : Follows s (s.queueSessionControl kind payload).1 time := by
  unfold queueSessionControl
  split
  · exact .refl s time
  · split
    · exact .refl s time
    · exact s.follows_queueBounded _ _ time

theorem follows_forceNextSend (s : SessionRuntime X) (time : Option Nat) :
    Follows s s.forceNextSend time := by
  unfold forceNextSend
  split
  · exact ⟨by simp, fun t n h => Or.inl ⟨n, h⟩, UInt64.le_refl _⟩
  · exact .refl s time

theorem follows_resume (s : SessionRuntime X) (now : Nat) (time : Option Nat) :
    Follows s (s.resume now) time := by
  unfold resume
  split
  · exact .refl s time
  · have hrunning : Follows s { s with lifecycle := .running, lastReceive := now } time :=
      .of_same rfl rfl rfl
    exact hrunning.trans (follows_forceNextSend _ time)

theorem follows_requestShutdown (s : SessionRuntime X) (now : Nat) :
    Follows s (s.requestShutdown now).1 (some now) := by
  unfold requestShutdown
  split
  · exact .refl s _
  · split
    · refine ⟨fun t h => Or.inl h, ?_, UInt64.le_refl _⟩
      intro t n h
      simp only [ShutdownState.localRequested.injEq] at h
      exact Or.inr (congrArg some h.1)
    · exact .refl s _

/-! ### Receiving -/

theorem follows_markConnected (s : SessionRuntime X) (time : Option Nat) :
    Follows s s.markConnected.1 time := by
  unfold markConnected
  split <;> exact .of_same rfl rfl rfl

theorem follows_sampleEcho (s : SessionRuntime X) (echo : UInt16) (now : Nat)
    (time : Option Nat) : Follows s (s.sampleEcho echo now).1 time := by
  unfold sampleEcho
  split
  · dsimp only
    split
    · unfold recordRoundTripSample updateRetransmitTimeout
      dsimp only
      split <;> exact .of_same rfl rfl rfl
    · exact .refl s time
  · exact .refl s time

theorem follows_noteReceivedState (s : SessionRuntime X) (state : ReceivedState)
    (time : Option Nat) : Follows s (s.noteReceivedState state) time := by
  unfold noteReceivedState
  dsimp only
  split
  · refine ⟨fun t h => Or.inl h, ?_, UInt64.le_refl _⟩
    intro t n h
    dsimp only at h
    split at h
    · simp at h
    · exact Or.inl ⟨n, h⟩
  · exact .of_same rfl rfl rfl

theorem applyReceivedState_fst (s : SessionRuntime X) (state : ReceivedState) :
    (s.applyReceivedState state).1 = s.noteReceivedState state := by
  unfold applyReceivedState
  dsimp only
  split
  · rfl
  · split <;> rfl

theorem follows_receiveDatagramInner (s : SessionRuntime X) (packet : Bytes) (now : Nat)
    (time : Option Nat) : Follows s (s.receiveDatagramInner packet now).1 time := by
  have hingest := s.protocol.latestRemoteState_ingestPacket packet
  unfold receiveDatagramInner
  split
  · exact .refl s time
  · dsimp only
    split
    · next protocol e hp =>
      rw [hp] at hingest
      exact ⟨fun t h => Or.inl h, fun t n h => Or.inl ⟨n, h⟩, hingest⟩
    · next protocol receipt hp =>
      rw [hp] at hingest
      have hstart : Follows s { s with protocol, lastReceive := now } time :=
        ⟨fun t h => Or.inl h, fun t n h => Or.inl ⟨n, h⟩, hingest⟩
      have hsampled := (hstart.trans (follows_markConnected _ time)).trans
        (follows_sampleEcho _ receipt.echoedTimestamp now time)
      split
      · exact hsampled
      · next state _ =>
        have happlied := follows_noteReceivedState (sampleEcho (markConnected
          { s with protocol, lastReceive := now }).1 receipt.echoedTimestamp now).1 state time
        rw [← applyReceivedState_fst] at happlied
        split
        · next hr =>
          rw [hr] at happlied
          exact hsampled.trans happlied
        · next hr =>
          rw [hr] at happlied
          exact hsampled.trans happlied

/-! ### Polling -/

/-- The calls of a poll build something. -/
theorem dueCall_builds {s : SessionRuntime X} {now : Nat} {call : ClientCall}
    (h : s.dueCall now = some call) : (∀ packet, call ≠ .ingestPacket packet) ∧
      ∀ columns rows, call ≠ .setInitialRemoteViewport columns rows := by
  unfold dueCall at h
  split at h
  · obtain rfl := Option.some.inj h
    unfold queuedCall
    split
    · simp
    · split <;> simp
  · split at h
    · simp at h
    · split at h <;> obtain rfl := Option.some.inj h <;> simp

theorem latestRemoteState_dueCall {s : SessionRuntime X} {now : Nat} {call : ClientCall}
    (h : s.dueCall now = some call) :
    (s.protocol.call call).1.latestRemoteState = s.protocol.latestRemoteState :=
  (s.protocol.sameRemote_call (dueCall_builds h).1 (dueCall_builds h).2).latestRemoteState

theorem latestRemoteState_associated (s : SessionRuntime X) (now : Nat) :
    (s.associated now).protocol.latestRemoteState = s.protocol.latestRemoteState := by
  unfold associated
  split
  · rfl
  · exact (s.protocol.sameRemote_call (by simp) (by simp)).latestRemoteState

theorem follows_associated (s : SessionRuntime X) (now : Nat) :
    Follows s (s.associated now) (some now) := by
  refine ⟨?_, ?_, UInt64.le_of_eq (s.latestRemoteState_associated now).symm⟩
  · intro t h
    unfold associated at h
    split at h
    · exact Or.inl h
    · exact Or.inr h
  · intro t n h
    unfold associated at h
    split at h <;> exact Or.inl ⟨n, h⟩

theorem startedAt_recordShutdownTransmission {s : SessionRuntime X} {t n : Nat}
    (h : s.recordShutdownTransmission.shutdown = .localRequested t n) :
    ∃ m, s.shutdown = .localRequested t m := by
  unfold recordShutdownTransmission at h
  split at h
  · next startedAt transmissions hs =>
    simp only [ShutdownState.localRequested.injEq] at h
    exact ⟨transmissions, by rw [hs, h.1]⟩
  · exact ⟨n, h⟩

theorem startedAt_shutdownAfterSend {s : SessionRuntime X} {call : ClientCall} {t n : Nat}
    (h : s.shutdownAfterSend call = .localRequested t n) :
    ∃ m, s.shutdown = .localRequested t m := by
  unfold shutdownAfterSend at h
  by_cases hpeer : s.peerShutdownAcknowledgementDue = true
  · rw [if_pos hpeer] at h
    simp at h
  · rw [if_neg hpeer] at h
    cases call with
    | buildAcknowledgement _ => exact ⟨n, h⟩
    | _ => exact startedAt_recordShutdownTransmission h

theorem Transmission.follows {s s' : SessionRuntime X} {now : Nat}
    {result : Except RuntimeError (List SessionAction)} (h : Transmission s now s' result) :
    Follows s s' (some now) := by
  cases h with
  | idle hcall => exact .refl s _
  | failed hcall hreply hprotocol hlast hshutdown hpeer =>
    refine .of_same hlast hshutdown ?_
    rw [hprotocol]
    exact latestRemoteState_dueCall hcall
  | @sent _ call packets diagnostic hcall hreply hprotocol hlast hshutdown hpeer =>
    refine ⟨fun t h => Or.inr (hlast ▸ h), ?_, ?_⟩
    · intro t n h
      rw [hshutdown] at h
      exact Or.inl (startedAt_shutdownAfterSend h)
    · rw [hprotocol]
      exact UInt64.le_of_eq (latestRemoteState_dueCall hcall).symm

theorem Polled.follows {s s' : SessionRuntime X} {now : Nat}
    {result : Except RuntimeError (List SessionAction)} (h : Polled s now s' result) :
    Follows s s' (some now) := by
  cases h with
  | inactive h => exact .refl s _
  | associationFailed h hdue hreply hstate =>
    rw [hstate]
    exact .of_same rfl rfl (s.protocol.sameRemote_call (by simp) (by simp)).latestRemoteState
  | ended h hassociation hends houtcome hstate =>
    rw [hstate]
    exact (s.follows_associated now).trans
      ⟨fun t h => Or.inl h, fun t n h => by simp at h, UInt64.le_refl _⟩
  | transmitted h hassociation hends hstate hconnection htransmission =>
    obtain ⟨state, rfl⟩ := hstate
    have hconnected : Follows (s.associated now)
        { s.associated now with connectionState := state } (some now) := .of_same rfl rfl rfl
    exact ((s.follows_associated now).trans hconnected).trans htransmission.follows

/-- **What a call changes of the timers and of the remote state.** -/
theorem follows_call (s : SessionRuntime X) (call : HostCall) :
    Follows s (s.call call).1 call.time? := by
  cases call with
  | queueTerminalEvent event => exact s.follows_queueTerminalEvent event none
  | queueInput bytes => exact s.follows_queueInput bytes none
  | queueResize columns rows => exact s.follows_queueResize columns rows none
  | setLocalCapabilities capabilities => exact .of_same rfl rfl rfl
  | queueSessionControl kind payload => exact s.follows_queueSessionControl kind payload none
  | pause =>
    simp only [call, Prod.map_fst, id_eq, pause]
    split <;> exact .of_same rfl rfl rfl
  | cancel =>
    simp only [call, Prod.map_fst, id_eq, cancel]
    split <;> exact .of_same rfl rfl rfl
  | requestShutdown now => exact s.follows_requestShutdown now
  | notifyUdpRebound =>
    simp only [call, Prod.map_fst, id_eq, notifyUdpRebound]
    split
    · exact .refl s _
    · have hrebound : Follows s
          { s with udpBindingGeneration := saturatingAdd s.udpBindingGeneration 1 } none :=
        .of_same rfl rfl rfl
      exact hrebound.trans (follows_forceNextSend _ _)
  | resume now => exact s.follows_resume now _
  | resumeWithActions now =>
    simp only [call, Prod.map_fst, id_eq, resumeWithActions]
    split
    · exact .refl s _
    · exact s.follows_resume now _
  | forceNextSend => exact s.follows_forceNextSend none
  | receiveDatagram packet now => exact s.follows_receiveDatagramInner packet now _
  | receiveDatagramRaw packet now => exact s.follows_receiveDatagramInner packet now _
  | poll now => exact (s.polled now).follows

end SessionRuntime

end OxideTerm.Fernomade
