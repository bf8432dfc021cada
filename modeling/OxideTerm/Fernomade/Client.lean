import OxideTerm.Lib.Machine
import OxideTerm.Fernomade.Session

/-!
# Runs of the client protocol

The calls a host can make, as the labels of a machine. The bytes of a received packet are in
the label, so a run may ingest whatever a network delivers.
-/

namespace OxideTerm.Fernomade

open OxideTerm.Lib

inductive ClientCall where
  | buildUpdate (sentTimestamp : UInt16) (instructions : InstructionBatch)
  | buildShutdown (sentTimestamp : UInt16) (instructions : InstructionBatch)
  | retransmitPending (sentTimestamp : UInt16)
  | buildAcknowledgement (sentTimestamp : UInt16)
  | buildAssociation (sentTimestamp : UInt16)
  | buildShutdownAck (sentTimestamp : UInt16)
  | ingestPacket (packet : Bytes)
  | setLocalCapabilities (capabilities : Bytes)
  | setInitialRemoteViewport (columns rows : UInt16)

/-- The send time a builder is called with. -/
def ClientCall.sentTimestamp : ClientCall → UInt16
  | .buildUpdate t _ => t
  | .buildShutdown t _ => t
  | .retransmitPending t => t
  | .buildAcknowledgement t => t
  | .buildAssociation t => t
  | .buildShutdownAck t => t
  | _ => 0

inductive ClientReply where
  | datagrams (result : Except SessionError (List Bytes))
  | receipt (result : Except SessionError PacketReceipt)
  | done

namespace ClientProtocol

variable {X : Externals}

def call (p : ClientProtocol X) : ClientCall → ClientProtocol X × ClientReply
  | .buildUpdate t is => (p.buildUpdate t is).map id .datagrams
  | .buildShutdown t is => (p.buildShutdown t is).map id .datagrams
  | .retransmitPending t => (p.retransmitPending t).map id .datagrams
  | .buildAcknowledgement t => (p.buildAcknowledgement t).map id .datagrams
  | .buildAssociation t => (p.buildAssociation t).map id .datagrams
  | .buildShutdownAck t => (p.buildShutdownAck t).map id .datagrams
  | .ingestPacket packet => (p.ingestPacket packet).map id .receipt
  | .setLocalCapabilities capabilities => (p.setLocalCapabilities capabilities, .done)
  | .setInitialRemoteViewport columns rows => (p.setInitialRemoteViewport columns rows, .done)

/-- The update a call seals. -/
def outgoing (p : ClientProtocol X) : ClientCall → Option StateUpdate
  | .buildUpdate _ is =>
    if p.nextLocalState = shutdownState then none
    else (p.stateUpdate is p.nextLocalState).toOption.map Prod.fst
  | .buildShutdown _ is =>
    if p.localShutdownSent then none else (p.stateUpdate is shutdownState).toOption.map Prod.fst
  | .retransmitPending _ => p.pendingUpdate.toOption
  | .buildAcknowledgement _ => p.acknowledgementUpdate.toOption
  | .buildAssociation _ => p.acknowledgementUpdate.toOption
  | .buildShutdownAck _ => p.shutdownAckUpdate.toOption
  | _ => none

end ClientProtocol

/-- The client protocol, driven by calls. -/
def clientMachine (X : Externals) : Machine (ClientProtocol X) ClientCall ClientReply where
  init := ClientProtocol.new
  step := ClientProtocol.call

theorem final_ingestPacket (X : Externals) (calls : List ClientCall) (packet : Bytes) :
    (clientMachine X).final (calls ++ [.ingestPacket packet]) =
      (((clientMachine X).final calls).ingestPacket packet).1 :=
  (clientMachine X).final_snoc calls _

/-- The datagrams a call returned. -/
def ClientReply.sent : ClientReply → Option (List Bytes)
  | .datagrams (.ok packets) => some packets
  | _ => none

/-- The update behind the datagrams a call returned. -/
def emitted {X : Externals} (e : Event (ClientProtocol X) ClientCall ClientReply) :
    Option StateUpdate :=
  if e.output.sent.isSome then e.pre.outgoing e.label else none

/-! ## What sealing leaves alone -/

namespace ClientProtocol

variable {X : Externals}

/-- Sealing changes nothing but the secure channel. -/
theorem sealUpdate_fst (p : ClientProtocol X) (sentTimestamp : UInt16) (update : StateUpdate) :
    ∃ channel, (p.sealUpdate sentTimestamp update).1 = { p with secureChannel := channel } := by
  unfold sealUpdate
  split
  · exact ⟨p.secureChannel, rfl⟩
  · exact ⟨_, rfl⟩

/-- What was sealed: the fragments of the compressed update. -/
theorem sealUpdate_ok {p : ClientProtocol X} {t : UInt16} {u : StateUpdate} {packets : List Bytes}
    (h : (p.sealUpdate t u).2 = .ok packets) :
    ∃ compressed fs, encodeCompressedUpdate X.zlib u = .ok compressed ∧
      Fragment.split compressed t (p.latestPeerTimestamp.getD noEchoTimestamp) u.targetState
        = .ok fs ∧
      (sealEach X.aead p.secureChannel fs).2 = .ok packets := by
  unfold sealUpdate at h
  split at h
  · simp at h
  · next compressed hcompressed =>
    simp only [sealFragments] at h
    split at h
    · simp at h
    · next fs hfs => exact ⟨compressed, fs, hcompressed, hfs, h⟩

/-- **The ways in which a state update ends:** nothing is recorded, or the new state is. -/
theorem buildStateUpdate_cases (p : ClientProtocol X) (t : UInt16) (is : InstructionBatch)
    (target : UInt64) :
    (∃ channel e, p.buildStateUpdate t is target
      = ({ p with secureChannel := channel }, .error e)) ∨
    (∃ channel packets update instructionEnd,
      p.stateUpdate is target = .ok (update, instructionEnd) ∧
      p.sealUpdate t update = ({ p with secureChannel := channel }, .ok packets) ∧
      p.buildStateUpdate t is target = ({ p with
        secureChannel := channel
        localInstructions := p.localInstructions ++ is.instructions
        sentStates := limitSentStates
          (p.sentStates ++ [{ stateId := target, instructionEnd }]) }, .ok packets)) := by
  unfold buildStateUpdate
  cases hu : p.stateUpdate is target with
  | error e => exact Or.inl ⟨p.secureChannel, e, rfl⟩
  | ok r =>
    obtain ⟨update, instructionEnd⟩ := r
    obtain ⟨channel, hfst⟩ := p.sealUpdate_fst t update
    cases hs : p.sealUpdate t update with
    | mk q result =>
      rw [hs] at hfst
      simp only at hfst
      subst hfst
      cases result with
      | error e => exact Or.inl ⟨channel, e, by simp [hs]⟩
      | ok packets => exact Or.inr ⟨channel, packets, update, instructionEnd, rfl, hs, by simp [hs]⟩

/-- The parts of a state update that the base, the target and the queue decide. -/
theorem stateUpdate_ok {p : ClientProtocol X} {is : InstructionBatch} {target : UInt64}
    {update : StateUpdate} {instructionEnd : Nat}
    (h : p.stateUpdate is target = .ok (update, instructionEnd)) :
    ∃ front back, p.sentStates.head? = some front ∧ p.sentStates.getLast? = some back ∧
      update = { StateUpdate.new back.stateId target p.latestRemoteState with
        discardBefore := front.stateId
        delta := is.encodeBytes
        capabilities := p.localCapabilities } ∧
      instructionEnd = p.localInstructions.length + is.instructions.length := by
  unfold stateUpdate at h
  split at h
  · next front back hf hb =>
    split at h
    · simp at h
    · next e he =>
      simp only [Except.ok.injEq, Prod.mk.injEq] at h
      obtain ⟨rfl, rfl⟩ := h
      unfold checkedAdd at he
      split at he
      · simp only [Option.some.injEq] at he
        exact ⟨front, back, hf, hb, rfl, he.symm⟩
      · simp at he
  · simp at h

/-- **Datagrams that a call returns are a sealed update.** -/
theorem call_sealed (p : ClientProtocol X) (i : ClientCall) {packets : List Bytes}
    (h : (p.call i).2 = .datagrams (.ok packets)) :
    ∃ u, p.outgoing i = some u ∧ (p.sealUpdate i.sentTimestamp u).2 = .ok packets := by
  have hbuild : ∀ t is target, (p.buildStateUpdate t is target).2 = .ok packets →
      ∃ u n, p.stateUpdate is target = .ok (u, n) ∧ (p.sealUpdate t u).2 = .ok packets := by
    intro t is target hok
    rcases p.buildStateUpdate_cases t is target with
      ⟨channel, e, hres⟩ | ⟨channel, packets', u, n, hu, hseal, hres⟩
    · rw [hres] at hok; simp at hok
    · rw [hres] at hok
      simp only [Except.ok.injEq] at hok
      subst hok
      exact ⟨u, n, hu, by rw [hseal]⟩
  have hsealed : ∀ t update, (p.sealBuilt t update).2 = .ok packets →
      ∃ u, update.toOption = some u ∧ (p.sealUpdate t u).2 = .ok packets := by
    intro t update hok
    cases update with
    | error e => simp [sealBuilt] at hok
    | ok u => exact ⟨u, rfl, hok⟩
  cases i with
  | buildUpdate t is =>
    simp only [call, buildUpdate, Prod.map_snd, ClientReply.datagrams.injEq] at h
    split at h
    · simp at h
    · next hmax =>
      have hok : (p.buildStateUpdate t is p.nextLocalState).2 = .ok packets := by
        generalize p.buildStateUpdate t is p.nextLocalState = r at h ⊢
        obtain ⟨q, result⟩ := r
        cases result with
        | error e => simp at h
        | ok ps => simpa using h
      obtain ⟨u, n, hu, hseal⟩ := hbuild t is _ hok
      exact ⟨u, by simp [outgoing, hmax, hu, Except.toOption], hseal⟩
  | buildShutdown t is =>
    simp only [call, buildShutdown, Prod.map_snd, ClientReply.datagrams.injEq] at h
    split at h
    · simp at h
    · next hsent =>
      obtain ⟨u, n, hu, hseal⟩ := hbuild t is _ h
      exact ⟨u, by simp [outgoing, hsent, hu, Except.toOption], hseal⟩
  | retransmitPending t =>
    simp only [call, Prod.map_snd, ClientReply.datagrams.injEq] at h
    exact hsealed t _ h
  | buildAcknowledgement t =>
    simp only [call, Prod.map_snd, ClientReply.datagrams.injEq] at h
    exact hsealed t _ h
  | buildAssociation t =>
    simp only [call, Prod.map_snd, ClientReply.datagrams.injEq] at h
    exact hsealed t _ h
  | buildShutdownAck t =>
    simp only [call, Prod.map_snd, ClientReply.datagrams.injEq] at h
    exact hsealed t _ h
  | ingestPacket packet => simp [call] at h
  | setLocalCapabilities capabilities => simp [call] at h
  | setInitialRemoteViewport columns rows => simp [call] at h

/-! ## What receiving does -/

/-- **The ways in which `deliver` ends.** -/
theorem deliver_cases (p : ClientProtocol X) (u : StateUpdate)
    (target : RemoteTerminalState X.vt100) :
    (p.deliver u target = (p, false, u) ∧
      (u.targetState ≤ p.latestRemoteState ∨
        ∃ e, target.diffFrom X.vte p.deliveredRemoteState = .error e)) ∨
    (∃ diff, p.latestRemoteState < u.targetState ∧
      target.diffFrom X.vte p.deliveredRemoteState = .ok diff ∧
      p.deliver u target =
        ({ p with latestRemoteState := u.targetState, deliveredRemoteState := target }, true,
          { u with delta := diff.encodeBytes })) := by
  unfold deliver
  split
  · next h => exact Or.inl ⟨rfl, Or.inl h⟩
  · next h =>
    split
    · next e he => exact Or.inl ⟨rfl, Or.inr ⟨e, he⟩⟩
    · next diff hd => exact Or.inr ⟨diff, UInt64.not_le.mp h, hd, rfl⟩

/-- What holds when an update leads to a state that can be kept. -/
structure Applies (p : ClientProtocol X) (u : StateUpdate) (base target : RemoteTerminalState X.vt100) :
    Prop where
  fresh : p.receivedStates[u.targetState]? = none
  discardBefore_le : u.discardBefore ≤ u.baseState
  base_lt : u.baseState < u.targetState
  retained : p.receivedStates[u.baseState]? = some base
  applied : targetStateOf base u = .ok target

/-- The state from which an applied update is delivered. -/
def stored (p : ClientProtocol X) (u : StateUpdate) (target : RemoteTerminalState X.vt100) :
    ClientProtocol X :=
  (p.discardBelow (max p.remoteThrowawayFloor u.discardBefore)).insertReceived u target

/-- **The ways in which an update is accepted:** ignored, rejected, without room, or stored. -/
theorem acceptRemoteUpdate_cases (p : ClientProtocol X) (u : StateUpdate) :
    (p.acceptRemoteUpdate u = (p, .ok (false, u, u.delta)) ∧
      (p.receivedStates[u.targetState]?.isSome ∨ p.receivedStates[u.baseState]? = none)) ∨
    (∃ e, p.acceptRemoteUpdate u = (p, .error e)) ∨
    (∃ base target, p.Applies u base target ∧
      p.acceptRemoteUpdate u =
        (p.discardBelow (max p.remoteThrowawayFloor u.discardBefore),
          .error .tooManyRemoteStates)) ∨
    (∃ base target, p.Applies u base target ∧
      (p.discardBelow (max p.remoteThrowawayFloor u.discardBefore)).receivedStates.size
        < maximumReceivedStates ∧
      p.acceptRemoteUpdate u =
        (((p.stored u target).deliver u target).1,
          .ok (((p.stored u target).deliver u target).2.1,
            ((p.stored u target).deliver u target).2.2, u.delta))) := by
  unfold acceptRemoteUpdate
  dsimp only
  split
  · next h =>
    refine Or.inl ⟨rfl, Or.inl ?_⟩
    rwa [Std.ExtTreeMap.contains_eq_isSome_getElem?] at h
  · next hfresh =>
    have hfresh' : p.receivedStates[u.targetState]? = none := by
      rwa [Std.ExtTreeMap.contains_eq_isSome_getElem?, Bool.not_eq_true,
        Option.isSome_eq_false_iff, Option.isNone_iff_eq_none] at hfresh
    split
    · exact Or.inr (Or.inl ⟨_, rfl⟩)
    · next hrange =>
      rw [not_or, gt_iff_lt, UInt64.not_lt, UInt64.not_le] at hrange
      split
      · next hnone => exact Or.inl ⟨rfl, Or.inr hnone⟩
      · next base hbase =>
        split
        · exact Or.inr (Or.inl ⟨_, rfl⟩)
        · next target htarget =>
          have happ : p.Applies u base target := ⟨hfresh', hrange.1, hrange.2, hbase, htarget⟩
          split
          · exact Or.inr (Or.inr (Or.inl ⟨base, target, happ, rfl⟩))
          · next hsize =>
            exact Or.inr (Or.inr (Or.inr ⟨base, target, happ, Nat.not_le.mp hsize, rfl⟩))

/-- There is room for one more state once those below the floor are forgotten. -/
def HasRoom (p : ClientProtocol X) (u : StateUpdate) : Prop :=
  (p.discardBelow (max p.remoteThrowawayFloor u.discardBefore)).receivedStates.size
    < maximumReceivedStates

theorem Applies.acceptRemoteUpdate {p : ClientProtocol X} {u : StateUpdate}
    {base target : RemoteTerminalState X.vt100} (h : p.Applies u base target) :
    (¬ p.HasRoom u ∧ p.acceptRemoteUpdate u =
      (p.discardBelow (max p.remoteThrowawayFloor u.discardBefore), .error .tooManyRemoteStates)) ∨
    (p.HasRoom u ∧ p.acceptRemoteUpdate u =
      (((p.stored u target).deliver u target).1,
        .ok (((p.stored u target).deliver u target).2.1,
          ((p.stored u target).deliver u target).2.2, u.delta))) := by
  have hfresh : p.receivedStates.contains u.targetState = false := by
    rw [Std.ExtTreeMap.contains_eq_isSome_getElem?, h.fresh]
    rfl
  have hrange : ¬ (u.discardBefore > u.baseState ∨ u.targetState ≤ u.baseState) := by
    rw [not_or, gt_iff_lt, UInt64.not_lt, UInt64.not_le]
    exact ⟨h.discardBefore_le, h.base_lt⟩
  unfold ClientProtocol.acceptRemoteUpdate HasRoom
  simp only [hfresh, Bool.false_eq_true, if_false, hrange, h.retained, h.applied]
  split
  · next hsize => exact Or.inl ⟨Nat.not_lt.mpr hsize, rfl⟩
  · next hsize => exact Or.inr ⟨Nat.not_le.mp hsize, rfl⟩

/-- **An update that applies advances the host when there is room and a diff.** -/
theorem Applies.advances_iff {p : ClientProtocol X} {u : StateUpdate}
    {base target : RemoteTerminalState X.vt100} (h : p.Applies u base target)
    (hlt : p.latestRemoteState < u.targetState) :
    (p.acceptRemoteUpdate u).1.latestRemoteState = u.targetState ↔
      p.HasRoom u ∧ ∃ diff, target.diffFrom X.vte p.deliveredRemoteState = .ok diff := by
  have hne : p.latestRemoteState ≠ u.targetState := UInt64.ne_of_lt hlt
  rcases h.acceptRemoteUpdate with ⟨hroom, heq⟩ | ⟨hroom, heq⟩ <;> rw [heq]
  · exact ⟨fun h => absurd h hne, fun h => absurd h.1 hroom⟩
  · rcases (p.stored u target).deliver_cases u target with ⟨hd, hwhy⟩ | ⟨diff, -, hdiff, hd⟩ <;> rw [hd]
    · refine ⟨fun h => absurd h hne, fun ⟨_, diff, hdiff⟩ => ?_⟩
      rcases hwhy with hle | ⟨e, he⟩
      · exact absurd hlt (UInt64.not_lt.mpr hle)
      · have he' : target.diffFrom X.vte p.deliveredRemoteState = .error e := he
        rw [hdiff] at he'
        simp at he'
    · exact ⟨fun _ => ⟨hroom, diff, hdiff⟩, fun _ => rfl⟩

/-- Two states that agree about packets: the channel, the replay window, the assemblies. -/
structure SamePackets (p q : ClientProtocol X) : Prop where
  secureChannel : q.secureChannel = p.secureChannel
  latestPeerTimestamp : q.latestPeerTimestamp = p.latestPeerTimestamp
  assemblies : q.assemblies = p.assemblies
  replayWindow : q.replayWindow = p.replayWindow

theorem SamePackets.refl (p : ClientProtocol X) : SamePackets p p := ⟨rfl, rfl, rfl, rfl⟩

theorem SamePackets.trans {p q r : ClientProtocol X} (h₁ : SamePackets p q)
    (h₂ : SamePackets q r) : SamePackets p r :=
  ⟨h₂.secureChannel.trans h₁.secureChannel,
    h₂.latestPeerTimestamp.trans h₁.latestPeerTimestamp, h₂.assemblies.trans h₁.assemblies,
    h₂.replayWindow.trans h₁.replayWindow⟩

theorem samePackets_processAcknowledgement (p : ClientProtocol X) (a : UInt64) :
    SamePackets p (p.processAcknowledgement a) := by
  unfold processAcknowledgement
  split
  · exact SamePackets.refl p
  · dsimp only
    split <;> exact ⟨rfl, rfl, rfl, rfl⟩

theorem samePackets_acceptRemoteUpdate (p : ClientProtocol X) (u : StateUpdate) :
    SamePackets p (p.acceptRemoteUpdate u).1 := by
  rcases p.acceptRemoteUpdate_cases u with
    ⟨h, -⟩ | ⟨e, h⟩ | ⟨base, target, -, h⟩ | ⟨base, target, -, -, h⟩ <;> rw [h]
  · exact SamePackets.refl p
  · exact SamePackets.refl p
  · exact ⟨rfl, rfl, rfl, rfl⟩
  · rcases (p.stored u target).deliver_cases u target with ⟨h, -⟩ | ⟨diff, -, -, h⟩ <;> rw [h] <;>
      exact ⟨rfl, rfl, rfl, rfl⟩

/-- **A message changes nothing about packets.** -/
theorem samePackets_ingestMessage (p : ClientProtocol X) (c : UInt64) (header : FragmentHeader)
    (compressed : Bytes) : SamePackets p (p.ingestMessage c header compressed).1 := by
  unfold ingestMessage
  split
  · exact SamePackets.refl p
  · next u _ =>
    have h := (p.samePackets_processAcknowledgement u.acknowledgedState).trans
      (samePackets_acceptRemoteUpdate _ u)
    dsimp only
    split
    · next hr => rwa [hr] at h
    · next hr =>
      rw [hr] at h
      split <;> exact ⟨h.secureChannel, h.latestPeerTimestamp, h.assemblies, h.replayWindow⟩

/-- A message fails for reasons of its own, never for those of the packet it came in. -/
theorem ingestMessage_error {p : ClientProtocol X} {c : UInt64} {header : FragmentHeader}
    {compressed : Bytes} {e : SessionError}
    (h : (p.ingestMessage c header compressed).2 = .error e) :
    e ≠ .tooManyActiveAssemblies ∧ e ≠ .replayDetected := by
  unfold ingestMessage at h
  split at h
  · simp only [Except.error.injEq] at h
    simp [← h]
  · next u _ =>
    dsimp only at h
    split at h
    · next q err hr =>
      simp only [Except.error.injEq] at h
      subst h
      unfold acceptRemoteUpdate at hr
      dsimp only at hr
      split at hr
      · simp at hr
      · split at hr
        · simp only [Prod.mk.injEq, Except.error.injEq] at hr
          simp [← hr.2]
        · split at hr
          · simp at hr
          · split at hr
            · next err' htarget =>
              simp only [Prod.mk.injEq, Except.error.injEq] at hr
              rw [← hr.2]
              unfold targetStateOf at htarget
              split at htarget
              · simp only [Except.error.injEq] at htarget
                simp [← htarget]
              · split at htarget <;> simp only [Except.error.injEq, reduceCtorEq] at htarget
                simp [← htarget]
            · split at hr <;> simp only [Prod.mk.injEq, Except.error.injEq, reduceCtorEq,
                and_false] at hr
              simp [← hr.2]
    · simp at h

/-- A call that builds or sets something leaves what concerns received packets alone. -/
theorem call_samePackets (p : ClientProtocol X) {i : ClientCall}
    (h : ∀ packet, i ≠ .ingestPacket packet) :
    (p.call i).1.assemblies = p.assemblies ∧ (p.call i).1.replayWindow = p.replayWindow ∧
      (p.call i).1.latestPeerTimestamp = p.latestPeerTimestamp := by
  have hsealed : ∀ t update, (p.sealBuilt t update).1.assemblies = p.assemblies ∧
      (p.sealBuilt t update).1.replayWindow = p.replayWindow ∧
      (p.sealBuilt t update).1.latestPeerTimestamp = p.latestPeerTimestamp := by
    intro t update
    cases update with
    | error e => exact ⟨rfl, rfl, rfl⟩
    | ok u =>
      obtain ⟨channel, heq⟩ := p.sealUpdate_fst t u
      rw [sealBuilt, heq]
      exact ⟨rfl, rfl, rfl⟩
  have hbuild : ∀ t is target, (p.buildStateUpdate t is target).1.assemblies = p.assemblies ∧
      (p.buildStateUpdate t is target).1.replayWindow = p.replayWindow ∧
      (p.buildStateUpdate t is target).1.latestPeerTimestamp = p.latestPeerTimestamp := by
    intro t is target
    rcases p.buildStateUpdate_cases t is target with
      ⟨channel, e, heq⟩ | ⟨channel, packets, u, n, -, -, heq⟩ <;> rw [heq] <;>
      exact ⟨rfl, rfl, rfl⟩
  cases i with
  | buildUpdate t is =>
    simp only [call, Prod.map_fst, id_eq, buildUpdate]
    split
    · exact ⟨rfl, rfl, rfl⟩
    · have := hbuild t is p.nextLocalState
      generalize p.buildStateUpdate t is p.nextLocalState = r at this ⊢
      obtain ⟨q, result⟩ := r
      cases result <;> exact this
  | buildShutdown t is =>
    simp only [call, Prod.map_fst, id_eq, buildShutdown]
    split
    · exact ⟨rfl, rfl, rfl⟩
    · exact hbuild t is _
  | retransmitPending t => exact hsealed t _
  | buildAcknowledgement t => exact hsealed t _
  | buildAssociation t => exact hsealed t _
  | buildShutdownAck t => exact hsealed t _
  | ingestPacket packet => exact absurd rfl (h packet)
  | setLocalCapabilities capabilities => exact ⟨rfl, rfl, rfl⟩
  | setInitialRemoteViewport columns rows =>
    simp only [call, setInitialRemoteViewport]
    split
    · exact ⟨rfl, rfl, rfl⟩
    · split <;> exact ⟨rfl, rfl, rfl⟩

/-- The ways in which a fragment is taken in: refused, held back, or completing a message. -/
theorem ingestFragment_cases (p : ClientProtocol X) (c : UInt64) (f : Fragment) :
    (p.assemblies[f.header.stateId]? = none ∧ maximumActiveAssemblies ≤ p.assemblies.size ∧
      p.ingestFragment c f = (p, .error .tooManyActiveAssemblies)) ∨
    (∃ assemblies result, p.ingestFragment c f = ({ p with assemblies }, result) ∧
      (∀ state, result = .ok state → state = none) ∧ result ≠ .error .replayDetected) ∨
    (∃ assemblies compressed, p.ingestFragment c f =
      ((({ p with assemblies } : ClientProtocol X).ingestMessage c f.header compressed).1,
        (({ p with assemblies } : ClientProtocol X).ingestMessage c f.header compressed).2.map some))
    := by
  unfold ingestFragment
  dsimp only
  split
  · next h =>
    simp only [Std.ExtTreeMap.contains_eq_isSome_getElem?, Bool.and_eq_true, Bool.not_eq_true',
      Option.isSome_eq_false_iff, Option.isNone_iff_eq_none, decide_eq_true_eq] at h
    exact Or.inl ⟨h.1, h.2, rfl⟩
  · split
    · exact Or.inr (Or.inl ⟨_, _, rfl, by simp, by simp⟩)
    · exact Or.inr (Or.inl ⟨_, _, rfl, by simp, by simp⟩)
    · next compressed _ =>
      refine Or.inr (Or.inr ⟨p.assemblies.erase f.header.stateId, compressed, ?_⟩)
      split
      · next h => rw [h]; rfl
      · next h => rw [h]; rfl

/-- The protocol state with new packet bookkeeping, which is all a packet changes by itself. -/
def rebook (p : ClientProtocol X) (replayWindow : ReplayWindow) (timestamp : Option UInt16)
    (assemblies : Std.ExtTreeMap UInt64 FragmentAccumulator) : ClientProtocol X :=
  { p with replayWindow, latestPeerTimestamp := timestamp, assemblies }

/-- **What ingesting a packet comes to:** bookkeeping only, or bookkeeping and a message. -/
theorem ingestPacket_cases (p : ClientProtocol X) (packet : Bytes) :
    (∃ w t as, (p.ingestPacket packet).1 = p.rebook w t as ∧
      ∀ receipt, (p.ingestPacket packet).2 = .ok receipt → receipt.state = none) ∨
    (∃ w t as c header compressed, ∃ receipt : PacketReceipt, p.ingestPacket packet =
      (((p.rebook w t as).ingestMessage c header compressed).1,
        ((p.rebook w t as).ingestMessage c header compressed).2.map
          fun state => { receipt with state := some state })) := by
  unfold ingestPacket
  split
  · exact Or.inl ⟨_, _, _, rfl, by simp⟩
  · next authenticated _ =>
    split
    · next w _ => exact Or.inl ⟨w, p.latestPeerTimestamp, p.assemblies, rfl, by simp⟩
    · next w _ =>
      unfold ingestPlaintext
      dsimp only
      split
      · exact Or.inl ⟨w, p.latestPeerTimestamp, p.assemblies, rfl, by simp⟩
      · generalize some (u16FromBeBytes (authenticated.plaintext.take 2)) = t
        split
        · exact Or.inl ⟨w, t, p.assemblies, rfl, by rintro r hr; cases hr; rfl⟩
        · split
          · exact Or.inl ⟨w, t, p.assemblies, rfl, by simp⟩
          · next fragment _ =>
            rcases ingestFragment_cases (p.rebook w t p.assemblies) authenticated.counter fragment
              with ⟨-, -, h⟩ | ⟨as, result, h, hnone, -⟩ | ⟨as, compressed, h⟩
            · simp only [rebook] at h
              rw [h]
              exact Or.inl ⟨w, t, p.assemblies, rfl, by simp⟩
            · simp only [rebook] at h
              rw [h]
              refine Or.inl ⟨w, t, as, ?_⟩
              cases result with
              | error e => exact ⟨rfl, by simp⟩
              | ok state =>
                obtain rfl := hnone state rfl
                exact ⟨rfl, by rintro r hr; cases hr; rfl⟩
            · simp only [rebook] at h
              rw [h]
              refine Or.inr ⟨w, t, as, authenticated.counter, fragment.header, compressed,
                { packetCounter := authenticated.counter
                  sentTimestamp := u16FromBeBytes (authenticated.plaintext.take 2)
                  echoedTimestamp := u16FromBeBytes ((authenticated.plaintext.drop 2).take 2)
                  state := none }, ?_⟩
              unfold rebook
              generalize ingestMessage _ _ _ compressed = r
              obtain ⟨q, result⟩ := r
              cases result <;> rfl

/-- What follows the replay check neither moves the window nor reports a replay. -/
theorem ingestPlaintext_replay (p : ClientProtocol X) (authenticated : AuthenticatedPacket) :
    (p.ingestPlaintext authenticated).1.replayWindow = p.replayWindow ∧
      (p.ingestPlaintext authenticated).2 ≠ .error .replayDetected := by
  unfold ingestPlaintext
  dsimp only
  split
  · exact ⟨rfl, by simp⟩
  · split
    · exact ⟨rfl, by simp⟩
    · split
      · exact ⟨rfl, by simp⟩
      · next f _ =>
        generalize some (u16FromBeBytes (authenticated.plaintext.take 2)) = t
        generalize hq : ({ p with latestPeerTimestamp := t } : ClientProtocol X) = q
        have hwindow : q.replayWindow = p.replayWindow := by rw [← hq]
        have hfragment : (q.ingestFragment authenticated.counter f).1.replayWindow = q.replayWindow ∧
            (q.ingestFragment authenticated.counter f).2 ≠ .error .replayDetected := by
          rcases q.ingestFragment_cases authenticated.counter f with
            ⟨-, -, h⟩ | ⟨as, result, h, -, hne⟩ | ⟨as, compressed, h⟩ <;> rw [h]
          · exact ⟨rfl, by simp⟩
          · exact ⟨rfl, hne⟩
          · refine ⟨(samePackets_ingestMessage ({ q with assemblies := as } : ClientProtocol X) _ _
              _).replayWindow, fun hreplay => ?_⟩
            cases hr : (({ q with assemblies := as } : ClientProtocol X).ingestMessage
                authenticated.counter f.header compressed).2 with
            | error e =>
              simp only [hr, Except.map, Except.error.injEq] at hreplay
              exact (ingestMessage_error hr).2 hreplay
            | ok state => simp [hr, Except.map] at hreplay
        rw [hwindow] at hfragment
        generalize q.ingestFragment authenticated.counter f = r at hfragment
        obtain ⟨q', result⟩ := r
        cases result with
        | error e => exact ⟨hfragment.1, fun h => hfragment.2 (by simpa using h)⟩
        | ok state => exact ⟨hfragment.1, by simp⟩

/-- **The replay check of a packet is the replay window.** -/
theorem ingestPacket_replay {p : ClientProtocol X} {packet : Bytes}
    {authenticated : AuthenticatedPacket}
    (h : p.secureChannel.open X.aead packet = .ok authenticated) :
    (p.ingestPacket packet).1.replayWindow = (p.replayWindow.accept authenticated.counter).1 ∧
      ((p.ingestPacket packet).2 = .error .replayDetected ↔
        (p.replayWindow.accept authenticated.counter).2 = false) := by
  unfold ingestPacket
  simp only [h]
  cases haccept : p.replayWindow.accept authenticated.counter with
  | mk window fresh =>
    cases fresh with
    | false => exact ⟨rfl, by simp⟩
    | true =>
      obtain ⟨hwindow, hne⟩ := ({ p with replayWindow := window } :
        ClientProtocol X).ingestPlaintext_replay authenticated
      exact ⟨hwindow, by simpa using hne⟩

end ClientProtocol

/-! ## Single fragments -/

theorem Fragment.length_of_parse {plaintext : Bytes} {f : Fragment}
    (h : Fragment.parse plaintext = .ok f) : minimumFragmentPlaintextBytes ≤ plaintext.length ∧
      f.body.length ≤ maxReceivedFragmentBodyBytes := by
  unfold Fragment.parse at h
  split at h
  · simp at h
  · next hlen =>
    dsimp only at h
    split at h
    · simp at h
    · next hbody =>
      simp only [Except.ok.injEq] at h
      subst h
      exact ⟨Nat.not_lt.mp hlen, Nat.not_lt.mp hbody⟩

/-- A first fragment that is also the last one completes its message. -/
theorem FragmentAccumulator.push_single {f : Fragment} (hindex : f.header.index = 0)
    (hfinal : f.header.isFinal = true) (hbody : f.body.length ≤ maxReceivedFragmentBodyBytes) :
    ((FragmentAccumulator.new f.header.stateId maximumReassembledBytes).push f).2 =
      .ok (some f.body) := by
  have hadd : checkedAdd 0 f.body.length = some f.body.length := by
    rw [maxReceivedFragmentBodyBytes] at hbody
    rw [checkedAdd, Nat.zero_add, if_pos (by omega)]
  have hfits : ¬ f.body.length > maximumReassembledBytes := by
    rw [maxReceivedFragmentBodyBytes] at hbody
    rw [maximumReassembledBytes]
    omega
  unfold push
  simp [new, hindex, hfinal, store, hadd, hfits, tryComplete, Std.ExtTreeMap.size_insert]

namespace ClientProtocol

variable {X : Externals}

/-- A fresh authentic packet with a fragment is the fragment, with new bookkeeping. -/
theorem ingestPacket_fragment {p : ClientProtocol X} {packet : Bytes}
    {authenticated : AuthenticatedPacket} {window : ReplayWindow} {f : Fragment}
    (hopen : p.secureChannel.open X.aead packet = .ok authenticated)
    (hfresh : p.replayWindow.accept authenticated.counter = (window, true))
    (hparse : Fragment.parse authenticated.plaintext = .ok f) :
    ∃ timestamp, ∃ receipt : PacketReceipt, p.ingestPacket packet =
      (((p.rebook window timestamp p.assemblies).ingestFragment authenticated.counter f).1,
        ((p.rebook window timestamp p.assemblies).ingestFragment authenticated.counter f).2.map
          fun state => { receipt with state }) := by
  have hlen := (Fragment.length_of_parse hparse).1
  refine ⟨some (u16FromBeBytes (authenticated.plaintext.take 2)),
    { packetCounter := authenticated.counter
      sentTimestamp := u16FromBeBytes (authenticated.plaintext.take 2)
      echoedTimestamp := u16FromBeBytes ((authenticated.plaintext.drop 2).take 2)
      state := none }, ?_⟩
  simp only [ingestPacket, hopen, hfresh, ingestPlaintext, hparse]
  rw [minimumFragmentPlaintextBytes] at hlen
  rw [if_neg (by rw [timestampHeaderBytes]; omega),
    if_neg (by rw [minimumFragmentPlaintextBytes]; omega)]
  unfold rebook
  generalize ingestFragment _ authenticated.counter f = r
  obtain ⟨q, result⟩ := r
  cases result <;> rfl

/-- **A fragment that is a whole message is refused at the bound, and handled below it.** -/
theorem ingestFragment_single {p : ClientProtocol X} {c : UInt64} {f : Fragment}
    (hindex : f.header.index = 0) (hfinal : f.header.isFinal = true)
    (hbody : f.body.length ≤ maxReceivedFragmentBodyBytes)
    (hnew : p.assemblies[f.header.stateId]? = none) :
    p.ingestFragment c f =
      if maximumActiveAssemblies ≤ p.assemblies.size then (p, .error .tooManyActiveAssemblies)
      else ((p.ingestMessage c f.header f.body).1,
        (p.ingestMessage c f.header f.body).2.map some) := by
  have hcontains : p.assemblies.contains f.header.stateId = false := by
    rw [Std.ExtTreeMap.contains_eq_isSome_getElem?, hnew]
    rfl
  have herase : p.assemblies.erase f.header.stateId = p.assemblies := by
    refine Std.ExtTreeMap.ext_getElem? fun k => ?_
    rw [Std.ExtTreeMap.getElem?_erase]
    split
    · next heq =>
      obtain rfl : f.header.stateId = k := Std.LawfulEqCmp.eq_of_compare heq
      rw [hnew]
    · rfl
  unfold ingestFragment
  dsimp only
  rw [hcontains, hnew, Option.getD_none]
  by_cases hfull : maximumActiveAssemblies ≤ p.assemblies.size
  · simp [hfull]
  · have hpush := FragmentAccumulator.push_single hindex hfinal hbody
    generalize (FragmentAccumulator.new f.header.stateId maximumReassembledBytes).push f = r at hpush ⊢
    obtain ⟨assembly, result⟩ := r
    simp only at hpush
    subst hpush
    simp only [ge_iff_le, hfull, decide_false, Bool.and_false, Bool.false_eq_true, if_false, herase]
    generalize ingestMessage _ c f.header f.body = r
    obtain ⟨q, result⟩ := r
    cases result <;> rfl

end ClientProtocol

/-! ## Datagrams that were returned -/

/-- The update behind datagrams that were returned. -/
theorem emitted_of_sent {X : Externals} {e : Event (ClientProtocol X) ClientCall ClientReply}
    {calls : List ClientCall} (he : e ∈ (clientMachine X).trace calls) {packets : List Bytes}
    (h : e.output.sent = some packets) :
    ∃ u, emitted e = some u ∧ (e.pre.sealUpdate e.label.sentTimestamp u).2 = .ok packets := by
  obtain ⟨pre, i, post, -, rfl⟩ := (clientMachine X).mem_trace he
  have hreply : (((clientMachine X).final pre).call i).2 = .datagrams (.ok packets) := by
    simp only [Machine.event_output, clientMachine] at h ⊢
    generalize (ClientProtocol.call _ i).2 = reply at h ⊢
    unfold ClientReply.sent at h
    split at h <;> simp_all
  obtain ⟨u, hout, hseal⟩ := ClientProtocol.call_sealed _ i hreply
  refine ⟨u, ?_, hseal⟩
  rw [emitted, h]
  exact hout

end OxideTerm.Fernomade
