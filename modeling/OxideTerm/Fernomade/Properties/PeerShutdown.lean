import Mathlib
import OxideTerm.Fernomade.Polling
import OxideTerm.Fernomade.Reference
import OxideTerm.Fernomade.Properties.FragmentIdentity

/-!
# The acknowledgement of a peer shutdown

The runtime takes any completed update to the reserved state for a request to shut down, and
completes the shutdown with the next datagram. That datagram acknowledges the newest state the
protocol has accepted. It acknowledges the shutdown exactly when the protocol has accepted it.
-/

namespace OxideTerm.Fernomade

open OxideTerm.Lib

/-- Every update acknowledges the newest accepted state. -/
theorem ClientProtocol.outgoing_acknowledgedState {X : Externals} {p : ClientProtocol X}
    {call : ClientCall} {u : StateUpdate} (h : p.outgoing call = some u) :
    u.acknowledgedState = p.latestRemoteState := by
  rw [ClientProtocol.outgoing_eq h]
  cases call <;> rfl

namespace SessionRuntime

variable {X : Externals}

/-! ## The datagrams of a poll -/

/-- A call that a poll makes, with the protocol it makes it on. -/
inductive PollCall (s : SessionRuntime X) (now : Nat) : ClientProtocol X → ClientCall → Prop where
  | association (h : s.association = .due) :
    PollCall s now s.protocol (.buildAssociation (timestamp now))
  | transmission {call : ClientCall} (h : (s.associated now).dueCall now = some call) :
    PollCall s now (s.associated now).protocol call

/-- A poll returns datagrams that carry an update. -/
def Emits (s : SessionRuntime X) (now : Nat) (u : StateUpdate) (packets : List Bytes) : Prop :=
  ∃ p call actions, PollCall s now p call ∧ p.outgoing call = some u ∧
    (p.call call).2 = .datagrams (.ok packets) ∧ (s.poll now).2 = .ok actions ∧
    ∀ packet ∈ packets, SessionAction.sendDatagram packet ∈ actions

theorem PollCall.latestRemoteState {s : SessionRuntime X} {now : Nat} {p : ClientProtocol X}
    {call : ClientCall} (h : PollCall s now p call) :
    p.latestRemoteState = s.protocol.latestRemoteState := by
  cases h with
  | association h => rfl
  | transmission h => exact s.latestRemoteState_associated now

/-- **The datagrams of a poll acknowledge the newest accepted state.** -/
theorem Emits.acknowledgedState {s : SessionRuntime X} {now : Nat} {u : StateUpdate}
    {packets : List Bytes} (h : s.Emits now u packets) :
    u.acknowledgedState = s.protocol.latestRemoteState := by
  obtain ⟨p, call, actions, hcall, hout, -⟩ := h
  rw [ClientProtocol.outgoing_acknowledgedState hout, hcall.latestRemoteState]

theorem mem_sendActions {packet : Bytes} {packets : List Bytes} :
    SessionAction.sendDatagram packet ∈ sendActions packets ↔ packet ∈ packets := by
  simp [sendActions]

/-- Datagrams of a call are sealed from the update of the call. -/
theorem emits_of_call {s : SessionRuntime X} {now : Nat} {p : ClientProtocol X}
    {call : ClientCall} {packets : List Bytes} {actions : List SessionAction}
    (hcall : PollCall s now p call) (hreply : (p.call call).2 = .datagrams (.ok packets))
    (hpoll : (s.poll now).2 = .ok actions)
    (hsent : ∀ action ∈ sendActions packets, action ∈ actions) :
    ∃ u, s.Emits now u packets := by
  obtain ⟨u, hout, -⟩ := p.call_sealed call hreply
  exact ⟨u, p, call, actions, hcall, hout, hreply, hpoll,
    fun packet hp => hsent _ (mem_sendActions.mpr hp)⟩

/-- What a poll returns: nothing, the end of the shutdown, or what its calls returned. -/
theorem poll_ok {s : SessionRuntime X} {now : Nat} {actions : List SessionAction}
    (hpoll : (s.poll now).2 = .ok actions) :
    actions = [] ∨
    (∃ outcome, outcome ≠ .peerRequested ∧
      actions = [.shutdownComplete outcome, .diagnostic (.shutdownComplete outcome)]) ∨
    (∃ associated connection sent, actions = associated ++ connection ++ sent ∧
      s.AssociationActions now associated ∧
      (∀ action ∈ connection, ∃ state, action = .connectionStateChanged state ∨
        action = .diagnostic (.connectionStateChanged state)) ∧
      (sent = [] ∨ ∃ call packets diagnostic completed,
        (s.associated now).dueCall now = some call ∧
        ((s.associated now).protocol.call call).2 = .datagrams (.ok packets) ∧
        sent = sendActions packets ++ [.diagnostic diagnostic] ++ completed ∧
        ∀ packet, SessionAction.sendDatagram packet ∉ completed)) := by
  have hpolled := s.polled now
  generalize (s.poll now).1 = s' at hpolled
  rw [hpoll] at hpolled
  generalize hresult : Except.ok actions = result at hpolled
  cases hpolled with
  | inactive h => exact Or.inl (Except.ok.inj hresult)
  | associationFailed h hdue hreply hstate => simp at hresult
  | @ended _ outcome dropped h hassociation hends houtcome hstate =>
    exact Or.inr (Or.inl ⟨outcome, houtcome, Except.ok.inj hresult⟩)
  | @transmitted a _ connection associated result h hassociation hends hstate hconnection ht =>
    obtain ⟨state, rfl⟩ := hstate
    cases ht with
    | idle hcall =>
      exact Or.inr (Or.inr ⟨associated, connection, [], Except.ok.inj hresult, hassociation,
        hconnection, Or.inl rfl⟩)
    | failed hcall hreply hprotocol hlast hshutdown hpeer => simp [Except.map] at hresult
    | @sent _ call packets diagnostic hcall hreply hprotocol hlast hshutdown hpeer =>
      refine Or.inr (Or.inr ⟨associated, connection, _, Except.ok.inj hresult, hassociation,
        hconnection, Or.inr ⟨call, packets, diagnostic, _, hcall, hreply, rfl, ?_⟩⟩)
      intro packet
      unfold completion
      split <;> simp

/-- **A poll that completes the shutdown of the peer sends a datagram.** -/
theorem emits_of_peerRequested {s : SessionRuntime X} {now : Nat} {actions : List SessionAction}
    (hpoll : (s.poll now).2 = .ok actions)
    (hmem : SessionAction.shutdownComplete .peerRequested ∈ actions) :
    ∃ u packets, s.Emits now u packets := by
  rcases poll_ok hpoll with
    rfl | ⟨outcome, hne, rfl⟩ | ⟨associated, connection, sent, rfl, hassociation, hconnection, hsent⟩
  · simp at hmem
  · simp only [List.mem_cons, SessionAction.shutdownComplete.injEq, reduceCtorEq,
      List.not_mem_nil, or_false] at hmem
    exact absurd hmem.symm hne
  · rcases hsent with rfl | ⟨call, packets, diagnostic, completed, hcall, hreply, rfl, -⟩
    · rw [List.append_nil, List.mem_append] at hmem
      rcases hmem with hmem | hmem
      · rcases hassociation with ⟨-, rfl⟩ | ⟨-, packets, diagnostic, -, rfl⟩
        · simp at hmem
        · simp [sendActions] at hmem
      · obtain ⟨state, h | h⟩ := hconnection _ hmem <;> simp at h
    · obtain ⟨u, hu⟩ := emits_of_call (.transmission hcall) hreply hpoll (by
        intro action ha
        simp [ha])
      exact ⟨u, packets, hu⟩

/-! ## Runs -/

/-- **The accepted state never goes back in a run.** -/
theorem latestRemoteState_mono (X : Externals) (start : Nat) (calls more : List HostCall) :
    ((runtimeMachine X start).final calls).protocol.latestRemoteState ≤
      ((runtimeMachine X start).final (calls ++ more)).protocol.latestRemoteState := by
  induction more using List.reverseRecOn with
  | nil =>
    rw [List.append_nil]
    exact UInt64.le_refl _
  | append_singleton more call ih =>
    rw [← List.append_assoc, Machine.final_snoc]
    exact UInt64.le_trans ih (follows_call _ call).latestRemoteState

/-- An update that acknowledges the shutdown was sent in the run. -/
def ShutdownAcknowledged (X : Externals) (start : Nat) (calls : List HostCall) : Prop :=
  ∃ pre now post u packets, calls = pre ++ .poll now :: post ∧
    ((runtimeMachine X start).final pre).Emits now u packets ∧ u.acknowledgedState = shutdownState

/-- What has been acknowledged had been accepted before the last call. -/
theorem accepted_of_shutdownAcknowledged {start now : Nat} {calls : List HostCall}
    (h : ShutdownAcknowledged X start (calls ++ [.poll now])) :
    ((runtimeMachine X start).final calls).protocol.latestRemoteState = shutdownState := by
  obtain ⟨pre, t, post, u, packets, hsplit, hemits, hack⟩ := h
  -- the protocol had accepted the shutdown when that datagram was built
  have hpre : ((runtimeMachine X start).final pre).protocol.latestRemoteState = shutdownState := by
    rw [← hemits.acknowledgedState, hack]
  have hmore : ∃ more, calls = pre ++ more := by
    rcases List.eq_nil_or_concat post with rfl | ⟨rest, last, rfl⟩
    · exact ⟨[], by rw [(List.append_inj' hsplit rfl).1, List.append_nil]⟩
    · have h : calls ++ [.poll now] = (pre ++ .poll t :: rest) ++ [last] := by simpa using hsplit
      exact ⟨_, (List.append_inj' h rfl).1⟩
  obtain ⟨more, rfl⟩ := hmore
  have hmono := latestRemoteState_mono X start pre more
  rw [hpre] at hmono
  have hmax : ((runtimeMachine X start).final (pre ++ more)).protocol.latestRemoteState ≤
      shutdownState := by
    rw [UInt64.le_iff_toNat_le]
    exact Nat.le_of_lt_succ (UInt64.toNat_lt _)
  exact UInt64.le_antisymm hmax hmono

/-- **A completed peer shutdown has been acknowledged exactly when the protocol had accepted it.** -/
theorem peer_shutdown_acknowledged_iff (X : Externals) (start now : Nat) (calls : List HostCall)
    (actions : List SessionAction)
    (hpoll : (((runtimeMachine X start).final calls).poll now).2 = .ok actions)
    (hcomplete : SessionAction.shutdownComplete .peerRequested ∈ actions) :
    ShutdownAcknowledged X start (calls ++ [.poll now]) ↔
      ((runtimeMachine X start).final calls).protocol.remoteShutdownReceived = true := by
  unfold ClientProtocol.remoteShutdownReceived
  rw [decide_eq_true_eq]
  constructor
  · exact accepted_of_shutdownAcknowledged
  · intro haccepted
    obtain ⟨u, packets, hemits⟩ := emits_of_peerRequested hpoll hcomplete
    exact ⟨calls, now, [], u, packets, rfl, hemits, by rw [hemits.acknowledgedState, haccepted]⟩

/-- The actions of a poll that succeeds. -/
def pollActions (s : SessionRuntime X) (now : Nat) : List SessionAction :=
  match (s.poll now).2 with
  | .ok actions => actions
  | .error _ => []

/-- The server shuts down from the blank state. -/
def blankShutdownCalls : List HostCall :=
  [.receiveDatagram (Reference.updatePacket 0 shutdownState Reference.blankShutdown) 1]

theorem peer_shutdown_acknowledged_iff_blank :
    ShutdownAcknowledged (Reference.tableExternals [Reference.blankShutdown]) 0
        (blankShutdownCalls ++ [.poll 1]) ↔
      ((runtimeMachine (Reference.tableExternals [Reference.blankShutdown]) 0).final
        blankShutdownCalls).protocol.remoteShutdownReceived = true :=
  peer_shutdown_acknowledged_iff (Reference.tableExternals [Reference.blankShutdown]) 0 1
    blankShutdownCalls
    (pollActions ((runtimeMachine (Reference.tableExternals [Reference.blankShutdown]) 0).final
      blankShutdownCalls) 1)
    (by decide +kernel) (by decide +kernel)

/-- The server shuts down from a state the client does not hold. -/
def unbasedShutdownCalls : List HostCall :=
  [.poll 0, .receiveDatagram
    (Reference.updatePacket 0 shutdownState Reference.unbasedShutdown) 1]

/-- The heartbeat after it acknowledges the blank state and completes the shutdown. -/
theorem peer_shutdown_completed_unacknowledged :
    ¬ ∀ (X : Externals) (start now : Nat) (calls : List HostCall) (actions : List SessionAction),
      (((runtimeMachine X start).final calls).poll now).2 = .ok actions →
      SessionAction.shutdownComplete .peerRequested ∈ actions →
      ShutdownAcknowledged X start (calls ++ [.poll now]) := by
  intro h
  have hack := h (Reference.tableExternals [Reference.unbasedShutdown]) 0 1000 unbasedShutdownCalls
    (pollActions ((runtimeMachine (Reference.tableExternals [Reference.unbasedShutdown]) 0).final
      unbasedShutdownCalls) 1000) (by decide +kernel) (by decide +kernel)
  have hlatest : ((runtimeMachine (Reference.tableExternals [Reference.unbasedShutdown]) 0).final
      unbasedShutdownCalls).protocol.latestRemoteState = 0 := by decide +kernel
  have haccepted := accepted_of_shutdownAcknowledged hack
  rw [hlatest] at haccepted
  exact absurd haccepted (by decide)

end SessionRuntime

end OxideTerm.Fernomade
