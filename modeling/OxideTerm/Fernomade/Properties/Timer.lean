import Mathlib
import OxideTerm.Fernomade.Polling
import OxideTerm.Fernomade.Reference

/-!
# The timer and the poll

`millisecondsUntilNextPoll` promises that a poll at the end of the interval has something to do. It
counts down to the timeout of a local shutdown in every case. The poll, however, passes over that
timeout while the shutdown of the peer is still to be acknowledged; the timer is exact up to this.
-/

namespace OxideTerm.Fernomade

open OxideTerm.Lib

/-- The host has something to show for a poll: a datagram, or the end of the shutdown. -/
def SessionAction.isProgress : SessionAction → Bool
  | .sendDatagram _ => true
  | .shutdownComplete _ => true
  | _ => false

namespace SessionRuntime

variable {X : Externals}

/-- A poll succeeds and returns a datagram or the end of the shutdown. -/
def Progresses (s : SessionRuntime X) (now : Nat) : Prop :=
  ∃ actions, (s.poll now).2 = .ok actions ∧ ∃ action ∈ actions, action.isProgress = true

/-- A call of the protocol returns datagrams. -/
def Succeeds (p : ClientProtocol X) (call : ClientCall) : Prop :=
  ∃ packets, (p.call call).2 = .datagrams (.ok packets)

/-- The protocol can build what is due at this time: the association, and unless the shutdown ends
before it, the transmission. -/
structure SendsSucceed (s : SessionRuntime X) (now : Nat) : Prop where
  association : s.association = .due →
    Succeeds s.protocol (.buildAssociation (timestamp now))
  transmission : (s.associated now).endsShutdown now = false →
    ∀ call, (s.associated now).dueCall now = some call →
      Succeeds (s.associated now).protocol call

/-- Nothing but the time since the last datagram calls for a transmission. -/
structure Quiet (s : SessionRuntime X) : Prop where
  association : s.association = .sent
  acknowledgement : s.acknowledgementDue = false
  queue : s.hasQueued = true → s.protocol.hasPendingUpdate = true

/-- The shutdown of the peer waits to be acknowledged with the next datagram, and the timeout of the
local shutdown passes before one is due. -/
structure Stalled (s : SessionRuntime X) (now : Nat) : Prop where
  peer : s.peerShutdownAcknowledgementDue = true
  quiet : s.Quiet
  deadline : ∃ startedAt transmissions lastSend,
    s.shutdown = .localRequested startedAt transmissions ∧ s.lastSend = some lastSend ∧
    (if transmissions ≥ shutdownRetryLimit then now
      else max now (startedAt + shutdownTimeoutMilliseconds)) < lastSend + s.retransmitMilliseconds

/-! ## What a poll returns -/

theorem isProgress_sendActions {packets : List Bytes} (h : packets ≠ []) :
    ∃ action ∈ sendActions packets, action.isProgress = true := by
  cases packets with
  | nil => exact absurd rfl h
  | cons packet rest => exact ⟨.sendDatagram packet, List.mem_cons_self, rfl⟩

/-- The actions of the association are progress if there are any. -/
theorem AssociationActions.progress_iff {s : SessionRuntime X} {now : Nat}
    {actions : List SessionAction} (h : s.AssociationActions now actions) :
    (∃ action ∈ actions, action.isProgress = true) ↔ s.association = .due := by
  rcases h with ⟨hsent, rfl⟩ | ⟨hdue, packets, diagnostic, hreply, rfl⟩
  · simp [hsent]
  · obtain ⟨action, hmem, hprogress⟩ :=
      isProgress_sendActions (ClientProtocol.call_ne_nil hreply)
    exact ⟨fun _ => hdue, fun _ => ⟨action, List.mem_append_left _ hmem, hprogress⟩⟩

theorem AssociationActions.succeeds {s : SessionRuntime X} {now : Nat}
    {actions : List SessionAction} (h : s.AssociationActions now actions)
    (hdue : s.association = .due) : Succeeds s.protocol (.buildAssociation (timestamp now)) := by
  rcases h with ⟨hsent, -⟩ | ⟨-, packets, -, hreply, -⟩
  · rw [hsent] at hdue
    simp at hdue
  · exact ⟨packets, hreply⟩

theorem dueCall_connectionState (s : SessionRuntime X) (state : ConnectionState) (now : Nat) :
    ({ s with connectionState := state } : SessionRuntime X).dueCall now = s.dueCall now := rfl

/-- **What a poll of an active session needs to make progress.** -/
theorem progresses_iff {s : SessionRuntime X} {now : Nat} (hactive : s.Active) :
    s.Progresses now ↔ s.SendsSucceed now ∧ (s.association = .due ∨
      (s.associated now).endsShutdown now = true ∨ ((s.associated now).dueCall now).isSome) := by
  have hpolled := s.polled now
  unfold Progresses
  generalize (s.poll now).1 = s' at hpolled
  generalize (s.poll now).2 = result at hpolled
  cases hpolled with
  | inactive h => exact absurd hactive h
  | associationFailed h hdue hreply hstate =>
    constructor
    · rintro ⟨actions, hok, -⟩
      simp at hok
    · rintro ⟨⟨hassociation, -⟩, -⟩
      obtain ⟨packets, hok⟩ := hassociation hdue
      rw [hreply] at hok
      simp at hok
  | @ended _ outcome dropped h hassociation hends houtcome hstate =>
    constructor
    · intro _
      refine ⟨⟨hassociation.succeeds, ?_⟩, Or.inr (Or.inl hends)⟩
      intro hnot
      rw [hends] at hnot
      simp at hnot
    · intro _
      exact ⟨_, rfl, .shutdownComplete outcome, List.mem_cons_self, rfl⟩
  | @transmitted a _ connection associated result h hassociation hends hstate hconnection ht =>
    obtain ⟨state, rfl⟩ := hstate
    have hnone : ∀ action ∈ connection, action.isProgress = false := by
      intro action hmem
      obtain ⟨state, rfl | rfl⟩ := hconnection action hmem <;> rfl
    cases ht with
    | idle hcall =>
      rw [dueCall_connectionState] at hcall
      constructor
      · rintro ⟨actions, hok, action, hmem, hprogress⟩
        obtain rfl := Except.ok.inj hok
        simp only [List.append_nil, List.mem_append] at hmem
        rcases hmem with hmem | hmem
        · refine ⟨⟨hassociation.succeeds, fun _ call hdue => ?_⟩,
            Or.inl (hassociation.progress_iff.mp ⟨action, hmem, hprogress⟩)⟩
          rw [hcall] at hdue
          simp at hdue
        · rw [hnone action hmem] at hprogress
          simp at hprogress
      · rintro ⟨-, hdue | hended | hcalled⟩
        · obtain ⟨action, hmem, hprogress⟩ := hassociation.progress_iff.mpr hdue
          exact ⟨_, rfl, action, by simp [hmem], hprogress⟩
        · rw [hends] at hended
          simp at hended
        · rw [hcall] at hcalled
          simp at hcalled
    | @failed _ call e hcall hreply hprotocol hlast hshutdown hpeer =>
      rw [dueCall_connectionState] at hcall
      constructor
      · rintro ⟨actions, hok, -⟩
        simp [Except.map] at hok
      · rintro ⟨⟨-, htransmission⟩, -⟩
        obtain ⟨packets, hok⟩ := htransmission hends call hcall
        have hreply' : ((s.associated now).protocol.call call).2 = .datagrams (.error e) := hreply
        rw [hreply'] at hok
        simp at hok
    | @sent _ call packets diagnostic hcall hreply hprotocol hlast hshutdown hpeer =>
      rw [dueCall_connectionState] at hcall
      constructor
      · intro _
        refine ⟨⟨hassociation.succeeds, fun _ call' hdue => ?_⟩, Or.inr (Or.inr (by simp [hcall]))⟩
        rw [hcall] at hdue
        obtain rfl := Option.some.inj hdue
        exact ⟨packets, hreply⟩
      · intro _
        obtain ⟨action, hmem, hprogress⟩ :=
          isProgress_sendActions (ClientProtocol.call_ne_nil hreply)
        exact ⟨_, rfl, action, by simp [hmem], hprogress⟩

/-! ## What the timer counts down to -/

theorem protocolWait_eq (s : SessionRuntime X) (now : Nat) :
    s.protocolWait now =
      if s.association = .due ∨ s.acknowledgementDue = true ∨
          (s.hasQueued && !s.protocol.hasPendingUpdate) = true then 0
      else s.lastSend.elim 0 fun lastSend => s.retransmitMilliseconds - (now - lastSend) := by
  have hcondition : (s.association = .due || s.acknowledgementDue
      || (!s.protocol.hasPendingUpdate && !s.queuedInstructions.isEmpty)
      || (s.shutdown.isLocalRequested && !s.protocol.localShutdownSent &&
        !s.protocol.hasPendingUpdate)) = true ↔
      (s.association = .due ∨ s.acknowledgementDue = true ∨
        (s.hasQueued && !s.protocol.hasPendingUpdate) = true) := by
    unfold hasQueued localShutdownUnsent
    cases s.protocol.hasPendingUpdate <;> cases s.queuedInstructions.isEmpty <;> simp [or_assoc]
  unfold protocolWait
  dsimp only
  rw [if_congr hcondition rfl rfl]
  cases s.lastSend <;> rfl

/-- The times in a state are among those that have been supplied. -/
structure TimesUpTo (s : SessionRuntime X) (now : Nat) : Prop where
  lastSend : ∀ t, s.lastSend = some t → t ≤ now
  startedAt : ∀ t n, s.shutdown = .localRequested t n → t ≤ now

theorem TimesUpTo.call {s : SessionRuntime X} {now : Nat} (h : s.TimesUpTo now) {call : HostCall}
    (hcall : ∀ t, call.time? = some t → t ≤ now) : (s.call call).1.TimesUpTo now where
  lastSend t ht := ((s.follows_call call).lastSend t ht).elim (h.lastSend t) (hcall t)
  startedAt t n ht := by
    rcases (s.follows_call call).startedAt t n ht with ⟨m, hm⟩ | htime
    · exact h.startedAt t m hm
    · exact hcall t htime

theorem timesUpTo_final (X : Externals) (start now : Nat) {calls : List HostCall}
    (hcalls : ∀ call ∈ calls, ∀ t, call.time? = some t → t ≤ now) :
    ((runtimeMachine X start).final calls).TimesUpTo now := by
  have halong : (runtimeMachine X start).Along
      (fun _ call => ∀ t, call.time? = some t → t ≤ now) calls :=
    fun pre call post h => hcalls call (h ▸ by simp)
  exact (runtimeMachine X start).run_invariant_along (P := fun s _ => s.TimesUpTo now)
    ⟨by simp [runtimeMachine, new], by simp [runtimeMachine, new]⟩
    (fun s _ call hs hcall => hs.call hcall) halong

theorem active_of_wait {s : SessionRuntime X} {now : Nat}
    (h : s.millisecondsUntilNextPoll now < u64Max) : s.Active := by
  unfold millisecondsUntilNextPoll at h
  split at h
  · exact absurd h (Nat.lt_irrefl _)
  · next hactive =>
    simp only [ne_eq, decide_not, Bool.or_eq_true, Bool.not_eq_true', decide_eq_false_iff_not,
      not_or, not_not, Bool.not_eq_true] at hactive
    exact hactive

theorem Quiet.protocolWait {s : SessionRuntime X} (h : s.Quiet) {lastSend : Nat}
    (hlast : s.lastSend = some lastSend) (now : Nat) :
    s.protocolWait now = s.retransmitMilliseconds - (now - lastSend) := by
  have hqueue : ¬ (s.hasQueued && !s.protocol.hasPendingUpdate) = true := by
    rw [Bool.and_eq_true, Bool.not_eq_true']
    rintro ⟨hqueued, hpending⟩
    rw [h.queue hqueued] at hpending
    simp at hpending
  rw [protocolWait_eq, if_neg, hlast, Option.elim_some]
  rintro (hdue | hack | hqueued)
  · rw [h.association] at hdue
    simp at hdue
  · rw [h.acknowledgement] at hack
    simp at hack
  · exact hqueue hqueued

theorem Quiet.dueCall {s : SessionRuntime X} (h : s.Quiet) {lastSend : Nat}
    (hlast : s.lastSend = some lastSend) (now : Nat) :
    (s.dueCall now).isSome ↔ s.retransmitMilliseconds ≤ now - lastSend := by
  have hqueue : (s.hasQueued && !s.protocol.hasPendingUpdate) = false := by
    cases hqueued : s.hasQueued with
    | false => rfl
    | true => rw [h.queue hqueued]; rfl
  rw [dueCall_isSome, hqueue, h.acknowledgement, heartbeatDue, hlast]
  simp

/-- What is not quiet has something to send at any time. -/
theorem dueCall_of_not_quiet {s : SessionRuntime X} (hsent : s.association = .sent)
    (h : ¬ s.Quiet) (now : Nat) : (s.dueCall now).isSome := by
  rw [dueCall_isSome]
  by_contra hnone
  rw [Bool.not_eq_true, Bool.or_eq_false_iff, Bool.or_eq_false_iff] at hnone
  obtain ⟨⟨hqueue, hack⟩, -⟩ := hnone
  refine h ⟨hsent, hack, ?_⟩
  intro hqueued
  rw [hqueued, Bool.true_and, Bool.not_eq_false'] at hqueue
  exact hqueue

/-- **At the end of the interval something is due, unless the session has stalled.** -/
theorem due_iff_not_stalled {s : SessionRuntime X} {now w : Nat} (htimes : s.TimesUpTo now)
    (hactive : s.Active) (hw : s.millisecondsUntilNextPoll now = w)
    (hsent : s.association = .sent) :
    (s.endsShutdown (now + w) = true ∨ (s.dueCall (now + w)).isSome) ↔ ¬ s.Stalled now := by
  by_cases hquiet : s.Quiet
  case neg =>
    refine ⟨fun _ hstalled => hquiet hstalled.quiet, fun _ => ?_⟩
    exact Or.inr (dueCall_of_not_quiet hsent hquiet _)
  cases hlast : s.lastSend with
  | none =>
    refine ⟨fun _ hstalled => ?_, fun _ => Or.inr ?_⟩
    · obtain ⟨_, _, lastSend, -, hsome, -⟩ := hstalled.deadline
      rw [hlast] at hsome
      simp at hsome
    · rw [dueCall_isSome, heartbeatDue, hlast, Bool.or_true]
  | some lastSend =>
    have hle := htimes.lastSend lastSend hlast
    have hwait := hquiet.protocolWait hlast now
    have hdue := hquiet.dueCall hlast (now + w)
    have hinactive : ¬ (s.lifecycle ≠ .running || s.shutdown.isComplete) = true := by
      simp [hactive.1, hactive.2]
    unfold millisecondsUntilNextPoll at hw
    rw [if_neg hinactive, hwait] at hw
    cases hshutdown : s.shutdown with
    | localRequested startedAt transmissions =>
      have hstarted := htimes.startedAt startedAt transmissions hshutdown
      rw [hshutdown] at hw
      dsimp only at hw
      by_cases hdeadline : (if transmissions ≥ shutdownRetryLimit then now
          else max now (startedAt + shutdownTimeoutMilliseconds))
            < lastSend + s.retransmitMilliseconds
      · -- the timeout comes first, so only the end of the shutdown can be due
        have hnotDue : ¬ s.retransmitMilliseconds ≤ now + w - lastSend := by
          split at hdeadline <;> split at hw <;> omega
        have htimeout : s.shutdownTimedOut (now + w) = true := by
          rw [shutdownTimedOut, hshutdown]
          simp only [ge_iff_le, Bool.or_eq_true, decide_eq_true_eq]
          split at hdeadline
          · next hlimit => exact Or.inl hlimit
          · split at hw <;> omega
        rw [hdue, endsShutdown, htimeout, Bool.or_true, Bool.and_true]
        constructor
        · rintro (hpeer | hsend) hstalled
          · rw [hstalled.peer] at hpeer
            simp at hpeer
          · exact hnotDue hsend
        · intro hstalled
          by_contra hnone
          rw [not_or, Bool.not_eq_true', Bool.not_eq_false] at hnone
          exact hstalled ⟨hnone.1, hquiet, startedAt, transmissions, lastSend, hshutdown, hlast,
            hdeadline⟩
      · -- the next transmission comes first
        refine ⟨fun _ hstalled => ?_, fun _ => Or.inr (hdue.mpr ?_)⟩
        · obtain ⟨_, _, _, hs, hl, hlt⟩ := hstalled.deadline
          rw [hshutdown, ShutdownState.localRequested.injEq] at hs
          obtain ⟨rfl, rfl⟩ := hs
          rw [hlast] at hl
          obtain rfl := Option.some.inj hl
          exact hdeadline hlt
        · split at hdeadline <;> split at hw <;> omega
    | _ =>
      rw [hshutdown] at hw
      dsimp only at hw
      refine ⟨fun _ hstalled => ?_, fun _ => Or.inr (hdue.mpr (by omega))⟩
      obtain ⟨_, _, _, hs, -⟩ := hstalled.deadline
      rw [hshutdown] at hs
      simp at hs

/-- **The timer agrees with the poll, up to a stalled session and failures of the protocol.** -/
theorem timer_agrees_iff (X : Externals) (start now w : Nat) (calls : List HostCall)
    (hcalls : ∀ call ∈ calls, ∀ t, call.time? = some t → t ≤ now)
    (hw : ((runtimeMachine X start).final calls).millisecondsUntilNextPoll now = w)
    (hfinite : w < u64Max) :
    ((runtimeMachine X start).final calls).Progresses (now + w) ↔
      ((runtimeMachine X start).final calls).SendsSucceed (now + w) ∧
        ¬ ((runtimeMachine X start).final calls).Stalled now := by
  have htimes := timesUpTo_final X start now hcalls
  generalize (runtimeMachine X start).final calls = s at htimes hw ⊢
  have hactive : s.Active := active_of_wait (hw ▸ hfinite)
  rw [progresses_iff hactive]
  refine and_congr_right fun _ => ?_
  cases hassociation : s.association with
  | due =>
    refine ⟨fun _ hstalled => ?_, fun _ => Or.inl rfl⟩
    rw [hstalled.quiet.association] at hassociation
    simp at hassociation
  | sent =>
    rw [associated_of_sent hassociation]
    simpa using due_iff_not_stalled htimes hactive hw hassociation

/-- A new session: nothing has been sent, so the first poll is due at once. -/
theorem timer_agrees_iff_new :
    ((runtimeMachine (Reference.tableExternals []) 0).final []).Progresses (5 + 0) ↔
      ((runtimeMachine (Reference.tableExternals []) 0).final []).SendsSucceed (5 + 0) ∧
        ¬ ((runtimeMachine (Reference.tableExternals []) 0).final []).Stalled 5 :=
  timer_agrees_iff (Reference.tableExternals []) 0 5 0 [] (by simp) (by decide +kernel)
    (by decide)

/-- The client asks for a shutdown, and the server for one that is not accepted. -/
def stalledCalls : List HostCall :=
  [.requestShutdown 0, .poll 0, .poll 9500,
    .receiveDatagram (Reference.updatePacket 0 shutdownState Reference.unbasedShutdown) 9500]

/-- After these calls the timer says 100 milliseconds, and the poll after them returns nothing. -/
theorem timer_without_progress :
    ¬ ∀ (X : Externals) (start now w : Nat) (calls : List HostCall),
      (∀ call ∈ calls, ∀ t, call.time? = some t → t ≤ now) →
      ((runtimeMachine X start).final calls).millisecondsUntilNextPoll now = w → w < u64Max →
      ((runtimeMachine X start).final calls).Progresses (now + w) := by
  intro h
  have hcalls : ∀ call ∈ stalledCalls, ∀ t, call.time? = some t → t ≤ 9900 := by
    simp [stalledCalls, HostCall.time?]
  have hwait : ((runtimeMachine (Reference.tableExternals [Reference.unbasedShutdown]) 0).final
      stalledCalls).millisecondsUntilNextPoll 9900 = 100 := by decide +kernel
  have hpoll : (((runtimeMachine (Reference.tableExternals [Reference.unbasedShutdown]) 0).final
      stalledCalls).poll 10000).2 = .ok [] := by decide +kernel
  obtain ⟨actions, hok, action, hmem, -⟩ :=
    h (Reference.tableExternals [Reference.unbasedShutdown]) 0 9900 100 stalledCalls hcalls hwait (by decide)
  rw [hpoll] at hok
  obtain rfl := Except.ok.inj hok
  simp at hmem

end SessionRuntime

end OxideTerm.Fernomade
