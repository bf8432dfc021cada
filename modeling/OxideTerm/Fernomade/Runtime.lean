import OxideTerm.Fernomade.Session

/-!
# Session runtime

`SessionRuntime` drives the client protocol for a host, without a socket or a clock of its own.
The host supplies the time with its calls, `poll` sends what is due, and
`millisecondsUntilNextPoll` tells the host how long it may sleep.

Times and durations are `u64` milliseconds in the source and natural numbers here. A difference
that saturates at zero is the difference of natural numbers; where a sum or a product saturates at
`u64::MAX`, it is bounded by `u64Max`.
-/

namespace OxideTerm.Fernomade

open OxideTerm.Lib

/-- `u64::MAX`, as a number. -/
def u64Max : Nat := 2 ^ 64 - 1

def saturatingAdd (a b : Nat) : Nat := min (a + b) u64Max
def saturatingMul (a b : Nat) : Nat := min (a * b) u64Max

def initialRetransmitMilliseconds : Nat := 1000
def minimumRetransmitMilliseconds : Nat := 250
def maximumRetransmitMilliseconds : Nat := 10000
def serverUnresponsiveMilliseconds : Nat := 30000
def maximumQueuedInputBytes : Nat := 1024 * 1024
def shutdownRetryLimit : Nat := 16
def shutdownTimeoutMilliseconds : Nat := 10000
def moshGoNoEchoTimestamp : UInt16 := 0
def standardMoshNoEchoTimestamp : UInt16 := 0xffff

/-- Describes why the bounded SSP shutdown handshake ended. -/
inductive ShutdownOutcome where
  | acknowledged
  | peerRequested
  | timedOut
deriving DecidableEq

/-- Describes whether an embedding host is actively driving the session. -/
inductive SessionLifecycle where
  | running
  | paused
  | cancelled
deriving DecidableEq

/-- Describes whether an authenticated server session has made recent progress. -/
inductive ConnectionState where
  | connecting
  | connected
  | interrupted
deriving DecidableEq

/-- A terminal input event supplied by an embedding host without using stdio. -/
inductive TerminalInputEvent where
  | bytes (bytes : Bytes)
  | resize (columns rows : UInt16)
deriving DecidableEq

/-- Content-free protocol metadata suitable for host-controlled diagnostics. -/
inductive DiagnosticEvent where
  | connectionStateChanged (state : ConnectionState)
  | freshUpdatePrepared (stateId : UInt64)
      (datagramCount datagramBytes instructionCount inputBytes : Nat)
  | retransmissionPrepared (stateId : UInt64)
      (datagramCount datagramBytes retransmitDelayMilliseconds : Nat)
  | inboundUpdateAccepted (packetCounter baseState targetState acknowledgedState
      discardBefore : UInt64) (deltaBytes : Nat) (advancesRemoteState : Bool)
  | roundTripUpdated (milliseconds : UInt16)
  | sessionLifecycleChanged (state : SessionLifecycle)
  | udpBindingChanged (generation : Nat)
  | shutdownStarted
  | shutdownComplete (outcome : ShutdownOutcome)
deriving DecidableEq

/-- An effect the host must apply in order. -/
inductive SessionAction where
  | sendDatagram (packet : Bytes)
  | writeTerminal (bytes : Bytes)
  | resizeTerminal (columns rows : UInt16)
  | acknowledgePrediction (value : UInt64)
  | remoteStateAdvanced (state : UInt64)
  | connectionStateChanged (state : ConnectionState)
  | roundTripEstimate (milliseconds : UInt16)
  | capabilitiesChanged (capabilities : Bytes)
  | remoteSessionControl (kind : UInt32) (payload : Bytes)
  | sessionLifecycleChanged (state : SessionLifecycle)
  | shutdownComplete (outcome : ShutdownOutcome)
  | udpBindingChanged (generation : Nat)
  | diagnostic (event : DiagnosticEvent)
deriving DecidableEq

/-- A raw SSP update for hosts that own terminal-state reconstruction. -/
structure RawRemoteUpdate where
  oldNum : UInt64
  newNum : UInt64
  ackNum : UInt64
  throwawayNum : UInt64
  diff : Bytes
deriving DecidableEq

inductive RuntimeError where
  | inputQueueFull
  | capabilityNotNegotiated
  | sessionPaused
  | sessionCancelled
  | shutdownInProgress
  | session (error : SessionError)
  | message (error : MessageError)
deriving DecidableEq

inductive ShutdownState where
  | open
  | localRequested (startedAt transmissions : Nat)
  | peerRequested
  | complete (outcome : ShutdownOutcome)
deriving DecidableEq

namespace ShutdownState

def isLocalRequested : ShutdownState → Bool
  | .localRequested _ _ => true
  | _ => false

def isComplete : ShutdownState → Bool
  | .complete _ => true
  | _ => false

end ShutdownState

inductive AssociationState where
  | due
  | sent
deriving DecidableEq

/-- Owns synchronization, timers, and bounded local input pending transport. -/
structure SessionRuntime (X : Externals) where
  protocol : ClientProtocol X
  queuedInstructions : List Instruction
  queuedInputBytes : Nat
  lastSend : Option Nat
  lastReceive : Nat
  retransmitMilliseconds : Nat
  smoothedRoundTripMilliseconds : Option Nat
  roundTripVariationMilliseconds : Nat
  association : AssociationState
  acknowledgementDue : Bool
  receivedServerState : Bool
  roundTripMilliseconds : Option UInt16
  connectionState : ConnectionState
  lifecycle : SessionLifecycle
  udpBindingGeneration : Nat
  shutdown : ShutdownState
  peerShutdownAcknowledgementDue : Bool

/-! ## Actions and diagnostics -/

/-- The low 16 bits of a time. -/
def timestamp (now : Nat) : UInt16 := UInt16.ofNat now

def lifecycleActions (state : SessionLifecycle) : List SessionAction :=
  [.sessionLifecycleChanged state, .diagnostic (.sessionLifecycleChanged state)]

def totalPacketBytes (packets : List Bytes) : Nat :=
  packets.foldl (fun total packet => saturatingAdd total packet.length) 0

def freshUpdateDiagnostic (stateId : UInt64) (packets : List Bytes)
    (instructionCount inputBytes : Nat) : DiagnosticEvent :=
  .freshUpdatePrepared stateId packets.length (totalPacketBytes packets) instructionCount inputBytes

def retransmissionDiagnostic (stateId : UInt64) (packets : List Bytes)
    (retransmitDelayMilliseconds : Nat) : DiagnosticEvent :=
  .retransmissionPrepared stateId packets.length (totalPacketBytes packets)
    retransmitDelayMilliseconds

/-- Neither a missing peer timestamp nor the all-ones sentinel is a sample. -/
def isRoundTripSample (echoedTimestamp : UInt16) : Bool :=
  echoedTimestamp ≠ moshGoNoEchoTimestamp && echoedTimestamp ≠ standardMoshNoEchoTimestamp

def sendActions (packets : List Bytes) : List SessionAction := packets.map .sendDatagram

/-- What an instruction from the server has the host do. -/
def instructionActions (instruction : Instruction) : List SessionAction :=
  (match instruction.bytes with
    | some bytes => [.writeTerminal bytes.value]
    | none => []) ++
  (match instruction.viewport with
    | some viewport =>
      match u16TryFrom viewport.columns, u16TryFrom viewport.rows with
      | some columns, some rows => [.resizeTerminal columns rows]
      | _, _ => []
    | none => []) ++
  (match instruction.marker with
    | some marker => [.acknowledgePrediction marker.value]
    | none => []) ++
  (match instruction.sessionControl with
    | some control => [.remoteSessionControl control.kind control.payload]
    | none => [])

namespace SessionRuntime

variable {X : Externals}

def new (now : Nat) : SessionRuntime X where
  protocol := .new
  queuedInstructions := []
  queuedInputBytes := 0
  lastSend := none
  lastReceive := now
  retransmitMilliseconds := initialRetransmitMilliseconds
  smoothedRoundTripMilliseconds := none
  roundTripVariationMilliseconds := 0
  association := .due
  acknowledgementDue := false
  receivedServerState := false
  roundTripMilliseconds := none
  connectionState := .connecting
  lifecycle := .running
  udpBindingGeneration := 0
  shutdown := .open
  peerShutdownAcknowledgementDue := false

/-! ## Host input -/

def ensureRunning (s : SessionRuntime X) : Except RuntimeError Unit :=
  match s.lifecycle with
  | .running => .ok ()
  | .paused => .error .sessionPaused
  | .cancelled => .error .sessionCancelled

def ensureAcceptingInput (s : SessionRuntime X) : Except RuntimeError Unit :=
  match s.ensureRunning with
  | .error e => .error e
  | .ok () => if s.shutdown ≠ .open then .error .shutdownInProgress else .ok ()

/-- Queues an instruction whose input counts against the memory bound. -/
def queueBounded (s : SessionRuntime X) (length : Nat) (instruction : Instruction) :
    SessionRuntime X × Except RuntimeError Unit :=
  match checkedAdd s.queuedInputBytes length with
  | none => (s, .error .inputQueueFull)
  | some newSize =>
    if newSize > maximumQueuedInputBytes then (s, .error .inputQueueFull)
    else
      ({ s with
         queuedInputBytes := newSize
         queuedInstructions := s.queuedInstructions ++ [instruction] }, .ok ())

/-- Queues terminal input under a fixed memory bound. -/
def queueInput (s : SessionRuntime X) (bytes : Bytes) :
    SessionRuntime X × Except RuntimeError Unit :=
  match s.ensureAcceptingInput with
  | .error e => (s, .error e)
  | .ok () =>
    s.queueBounded bytes.length
      { bytes := some ⟨bytes⟩, viewport := none, marker := none, sessionControl := none }

def queueResize (s : SessionRuntime X) (columns rows : UInt16) : SessionRuntime X :=
  if s.lifecycle ≠ .running ∨ s.shutdown ≠ .open then s
  else
    { s with
      protocol := s.protocol.setInitialRemoteViewport columns rows
      queuedInstructions := s.queuedInstructions ++
        [{ bytes := none
           viewport := some { columns := columns.toUInt64, rows := rows.toUInt64 }
           marker := none
           sessionControl := none }] }

/-- Queues a host-provided terminal event without reading process stdio. -/
def queueTerminalEvent (s : SessionRuntime X) (event : TerminalInputEvent) :
    SessionRuntime X × Except RuntimeError Unit :=
  match s.ensureAcceptingInput with
  | .error e => (s, .error e)
  | .ok () =>
    match event with
    | .bytes bytes => s.queueInput bytes
    | .resize columns rows => (s.queueResize columns rows, .ok ())

/-- Sets capability bytes advertised on subsequent protocol updates. -/
def setLocalCapabilities (s : SessionRuntime X) (capabilities : Bytes) : SessionRuntime X :=
  { s with protocol := s.protocol.setLocalCapabilities capabilities }

/-- Queues a mosh-go session-control extension after capability negotiation. -/
def queueSessionControl (s : SessionRuntime X) (kind : UInt32) (payload : Bytes) :
    SessionRuntime X × Except RuntimeError Unit :=
  match s.ensureAcceptingInput with
  | .error e => (s, .error e)
  | .ok () =>
    if !s.protocol.hasNegotiatedCapability sessionControlCapability then
      (s, .error .capabilityNotNegotiated)
    else
      s.queueBounded payload.length
        { bytes := none, viewport := none, marker := none
          sessionControl := some { kind, payload } }

/-! ## Lifecycle -/

/-- Makes the next `poll` send immediately without changing SSP state. -/
def forceNextSend (s : SessionRuntime X) : SessionRuntime X :=
  if s.lifecycle = .running && !s.shutdown.isComplete then { s with lastSend := none } else s

/-- Pauses timers and rejects new host input until `resume` is called. -/
def pause (s : SessionRuntime X) : SessionRuntime X × List SessionAction :=
  if s.lifecycle ≠ .running then (s, [])
  else ({ s with lifecycle := .paused }, lifecycleActions .paused)

/-- Cancels further protocol work and clears queued, unsent host input. -/
def cancel (s : SessionRuntime X) : SessionRuntime X × List SessionAction :=
  if s.lifecycle = .cancelled then (s, [])
  else
    ({ s with lifecycle := .cancelled, queuedInstructions := [], queuedInputBytes := 0 },
      lifecycleActions .cancelled)

/-- Starts the bounded SSP clean-shutdown handshake. -/
def requestShutdown (s : SessionRuntime X) (now : Nat) :
    SessionRuntime X × Except RuntimeError (List SessionAction) :=
  match s.ensureRunning with
  | .error e => (s, .error e)
  | .ok () =>
    if s.shutdown = .open then
      ({ s with shutdown := .localRequested now 0 }, .ok [.diagnostic .shutdownStarted])
    else (s, .ok [])

/-- Reports a host-managed local UDP rebind without changing the trusted peer. -/
def notifyUdpRebound (s : SessionRuntime X) : SessionRuntime X × List SessionAction :=
  if s.lifecycle = .cancelled then (s, [])
  else
    let generation := saturatingAdd s.udpBindingGeneration 1
    (({ s with udpBindingGeneration := generation } : SessionRuntime X).forceNextSend,
      [.udpBindingChanged generation, .diagnostic (.udpBindingChanged generation)])

/-- Re-arms liveness after the host reports an interval without network progress. -/
def resume (s : SessionRuntime X) (now : Nat) : SessionRuntime X :=
  if s.lifecycle = .cancelled then s
  else ({ s with lifecycle := .running, lastReceive := now } : SessionRuntime X).forceNextSend

/-- Resumes a paused session and returns the structured lifecycle event. -/
def resumeWithActions (s : SessionRuntime X) (now : Nat) :
    SessionRuntime X × List SessionAction :=
  if s.lifecycle = .cancelled then (s, [])
  else (s.resume now, if s.lifecycle = .paused then lifecycleActions .running else [])

/-! ## Receiving -/

def updateRetransmitTimeout (s : SessionRuntime X) (sampleMilliseconds : Nat) :
    SessionRuntime X :=
  let (smoothed, variation) :=
    match s.smoothedRoundTripMilliseconds with
    | some smoothed =>
      let difference := (smoothed - sampleMilliseconds) + (sampleMilliseconds - smoothed)
      (saturatingAdd (saturatingMul smoothed 7) sampleMilliseconds / 8,
        saturatingAdd (saturatingMul s.roundTripVariationMilliseconds 3) difference / 4)
    | none => (sampleMilliseconds, sampleMilliseconds / 2)
  { s with
    smoothedRoundTripMilliseconds := some smoothed
    roundTripVariationMilliseconds := variation
    retransmitMilliseconds :=
      max minimumRetransmitMilliseconds
        (min maximumRetransmitMilliseconds (saturatingAdd smoothed (saturatingMul variation 4))) }

def recordRoundTripSample (s : SessionRuntime X) (milliseconds : UInt16) :
    SessionRuntime X × List SessionAction :=
  let s := s.updateRetransmitTimeout milliseconds.toNat
  if s.roundTripMilliseconds = some milliseconds then (s, [])
  else
    ({ s with roundTripMilliseconds := some milliseconds },
      [.roundTripEstimate milliseconds, .diagnostic (.roundTripUpdated milliseconds)])

/-- Takes the echo of a packet as a round trip sample, unless it is none or far too old. -/
def sampleEcho (s : SessionRuntime X) (echoedTimestamp : UInt16) (now : Nat) :
    SessionRuntime X × List SessionAction :=
  if isRoundTripSample echoedTimestamp then
    let elapsed := timestamp now - echoedTimestamp
    if elapsed ≤ 30000 then s.recordRoundTripSample elapsed else (s, [])
  else (s, [])

/-- An authentic packet shows that the server is there. -/
def markConnected (s : SessionRuntime X) : SessionRuntime X × List SessionAction :=
  if s.connectionState ≠ .connected then
    ({ s with connectionState := .connected },
      [.connectionStateChanged .connected, .diagnostic (.connectionStateChanged .connected)])
  else (s, [])

/-- What a completed update changes in the runtime. -/
def noteReceivedState (s : SessionRuntime X) (state : ReceivedState) : SessionRuntime X :=
  let s := { s with
    acknowledgementDue := s.acknowledgementDue || state.advancesRemoteState
    receivedServerState := true }
  if state.update.targetState = shutdownState then
    { s with
      peerShutdownAcknowledgementDue := true
      shutdown := if s.shutdown = .open then .peerRequested else s.shutdown }
  else s

def applyReceivedState (s : SessionRuntime X) (state : ReceivedState) :
    SessionRuntime X × Except RuntimeError (List SessionAction × Option RawRemoteUpdate) :=
  let s := s.noteReceivedState state
  let update := state.update
  let accepted : SessionAction := .diagnostic (.inboundUpdateAccepted state.packetCounter
    update.baseState update.targetState update.acknowledgedState update.discardBefore
    update.delta.length state.advancesRemoteState)
  let rawUpdate : Option RawRemoteUpdate :=
    if state.advancesRemoteState && !state.rawDelta.isEmpty then
      some { oldNum := update.baseState
             newNum := update.targetState
             ackNum := update.acknowledgedState
             throwawayNum := update.discardBefore
             diff := state.rawDelta }
    else none
  if !state.advancesRemoteState then (s, .ok ([accepted], rawUpdate))
  else
    match update.decodeInstructions X.prost with
    | .error e => (s, .error (.message e))
    | .ok instructions =>
      (s, .ok (accepted :: .remoteStateAdvanced update.targetState ::
        instructions.instructions.flatMap instructionActions, rawUpdate))

def receiveDatagramInner (s : SessionRuntime X) (packet : Bytes) (now : Nat) :
    SessionRuntime X × Except RuntimeError (List SessionAction × Option RawRemoteUpdate) :=
  match s.ensureRunning with
  | .error e => (s, .error e)
  | .ok () =>
    let previousCapabilities := s.protocol.remoteCapabilities
    match s.protocol.ingestPacket packet with
    | (protocol, .error e) => ({ s with protocol }, .error (.session e))
    | (protocol, .ok receipt) =>
      let capabilities : List SessionAction :=
        if protocol.remoteCapabilities ≠ previousCapabilities then
          [.capabilitiesChanged protocol.remoteCapabilities]
        else []
      let (s, connection) := ({ s with protocol, lastReceive := now } : SessionRuntime X).markConnected
      let (s, roundTrip) := s.sampleEcho receipt.echoedTimestamp now
      match receipt.state with
      | none => (s, .ok (capabilities ++ connection ++ roundTrip, none))
      | some state =>
        match s.applyReceivedState state with
        | (s, .error e) => (s, .error e)
        | (s, .ok (actions, rawUpdate)) =>
          (s, .ok (capabilities ++ connection ++ roundTrip ++ actions, rawUpdate))

/-- Accepts an authenticated server datagram and returns terminal effects. -/
def receiveDatagram (s : SessionRuntime X) (packet : Bytes) (now : Nat) :
    SessionRuntime X × Except RuntimeError (List SessionAction) :=
  let (s, result) := s.receiveDatagramInner packet now
  (s, result.map Prod.fst)

/-- Accepts a datagram and returns its raw SSP diff without terminal actions. -/
def receiveDatagramRaw (s : SessionRuntime X) (packet : Bytes) (now : Nat) :
    SessionRuntime X × Except RuntimeError (Option RawRemoteUpdate) :=
  let (s, result) := s.receiveDatagramInner packet now
  (s, result.map Prod.snd)

/-! ## Polling -/

def isServerResponsive (s : SessionRuntime X) (now : Nat) : Bool :=
  now - s.lastReceive < serverUnresponsiveMilliseconds

def connectionStateActions (s : SessionRuntime X) (now : Nat) :
    SessionRuntime X × List SessionAction :=
  if s.connectionState = .connected && !s.isServerResponsive now then
    ({ s with connectionState := .interrupted },
      [.connectionStateChanged .interrupted, .diagnostic (.connectionStateChanged .interrupted)])
  else (s, [])

def shutdownTimedOut (s : SessionRuntime X) (now : Nat) : Bool :=
  match s.shutdown with
  | .localRequested startedAt transmissions =>
    transmissions ≥ shutdownRetryLimit || now - startedAt ≥ shutdownTimeoutMilliseconds
  | _ => false

/-- The transmission count is a byte and saturates. -/
def recordShutdownTransmission (s : SessionRuntime X) : SessionRuntime X :=
  match s.shutdown with
  | .localRequested startedAt transmissions =>
    { s with shutdown := .localRequested startedAt (min (transmissions + 1) 255) }
  | _ => s

def completeShutdown (s : SessionRuntime X) (outcome : ShutdownOutcome) :
    SessionRuntime X × List SessionAction :=
  ({ s with shutdown := .complete outcome },
    [.shutdownComplete outcome, .diagnostic (.shutdownComplete outcome)])

def completePeerShutdownAfterAck (s : SessionRuntime X) : SessionRuntime X × List SessionAction :=
  if s.peerShutdownAcknowledgementDue then
    ({ s with peerShutdownAcknowledgementDue := false } : SessionRuntime X).completeShutdown
      .peerRequested
  else (s, [])

/-- The local shutdown has been requested but not been put into a state yet. -/
def localShutdownUnsent (s : SessionRuntime X) : Bool :=
  s.shutdown.isLocalRequested && !s.protocol.localShutdownSent

/-- The peer's shutdown is to be acknowledged after the local one was. -/
def shutdownAckDue (s : SessionRuntime X) : Bool :=
  s.peerShutdownAcknowledgementDue && s.protocol.localShutdownAcknowledged

/-- Nothing has been sent for as long as the retransmission delay. -/
def heartbeatDue (s : SessionRuntime X) (now : Nat) : Bool :=
  match s.lastSend with
  | none => true
  | some lastSend => now - lastSend ≥ s.retransmitMilliseconds

/-- Sends the association datagram if it is due. -/
def pollAssociation (s : SessionRuntime X) (now : Nat) :
    SessionRuntime X × Except RuntimeError (List SessionAction) :=
  match s.association with
  | .sent => (s, .ok [])
  | .due =>
    match s.protocol.buildAssociation (timestamp now) with
    | (protocol, .error e) => ({ s with protocol }, .error (.session e))
    | (protocol, .ok packets) =>
      ({ s with protocol, association := .sent, lastSend := some now },
        .ok (sendActions packets ++ [.diagnostic (freshUpdateDiagnostic 0 packets 0 0)]))

def buildQueuedUpdate (s : SessionRuntime X) (now : Nat) :
    SessionRuntime X × Except RuntimeError (List Bytes × DiagnosticEvent) :=
  let stateId :=
    if s.localShutdownUnsent || s.shutdownAckDue then shutdownState else s.protocol.nextLocalState
  let inputBytes := s.queuedInputBytes
  let instructions : InstructionBatch := { instructions := s.queuedInstructions }
  let built :=
    if s.shutdownAckDue then s.protocol.buildShutdownAck (timestamp now)
    else if s.localShutdownUnsent then s.protocol.buildShutdown (timestamp now) instructions
    else s.protocol.buildUpdate (timestamp now) instructions
  -- the queue is drained also when the update cannot be built
  let s := { s with queuedInstructions := [], queuedInputBytes := 0, acknowledgementDue := false }
  match built with
  | (protocol, .error e) => ({ s with protocol }, .error (.session e))
  | (protocol, .ok packets) =>
    ({ s with protocol, lastSend := some now }, .ok (packets,
      freshUpdateDiagnostic stateId packets instructions.instructions.length inputBytes))

/-- The part of `poll` that sends an update, a retransmission or an acknowledgement. -/
def pollTransmission (s : SessionRuntime X) (now : Nat) :
    SessionRuntime X × Except RuntimeError (List SessionAction) :=
  if (!s.queuedInstructions.isEmpty || s.localShutdownUnsent) && !s.protocol.hasPendingUpdate then
    match s.buildQueuedUpdate now with
    | (s, .error e) => (s, .error e)
    | (s, .ok (packets, diagnostic)) =>
      let (s, completed) := s.recordShutdownTransmission.completePeerShutdownAfterAck
      (s, .ok (sendActions packets ++ [.diagnostic diagnostic] ++ completed))
  else if s.protocol.hasPendingUpdate then
    if !s.acknowledgementDue && !s.heartbeatDue now then (s, .ok [])
    else
      match s.protocol.retransmitPending (timestamp now) with
      | (protocol, .error e) => ({ s with protocol }, .error (.session e))
      | (protocol, .ok packets) =>
        let diagnostic := retransmissionDiagnostic protocol.latestLocalState packets
          s.retransmitMilliseconds
        let (s, completed) := ({ s with
          protocol
          lastSend := some now
          acknowledgementDue := false } :
            SessionRuntime X).recordShutdownTransmission.completePeerShutdownAfterAck
        (s, .ok (sendActions packets ++ [.diagnostic diagnostic] ++ completed))
  else if !s.acknowledgementDue && !s.heartbeatDue now then (s, .ok [])
  else
    match s.protocol.buildAcknowledgement (timestamp now) with
    | (protocol, .error e) => ({ s with protocol }, .error (.session e))
    | (protocol, .ok packets) =>
      let diagnostic := freshUpdateDiagnostic protocol.latestLocalState packets 0 0
      let (s, completed) := ({ s with
        protocol
        lastSend := some now
        acknowledgementDue := false } : SessionRuntime X).completePeerShutdownAfterAck
      (s, .ok (sendActions packets ++ [.diagnostic diagnostic] ++ completed))

/-- Advances timers and returns datagrams that should be sent now. -/
def poll (s : SessionRuntime X) (now : Nat) :
    SessionRuntime X × Except RuntimeError (List SessionAction) :=
  if s.lifecycle ≠ .running then (s, .ok [])
  else if s.shutdown.isComplete then (s, .ok [])
  else
    match s.pollAssociation now with
    | (s, .error e) => (s, .error e)
    | (s, .ok associated) =>
      if s.protocol.localShutdownAcknowledged && !s.peerShutdownAcknowledgementDue then
        -- an early return, which leaves the actions so far behind
        let (s, actions) := s.completeShutdown .acknowledged
        (s, .ok actions)
      else if !s.peerShutdownAcknowledgementDue && s.shutdownTimedOut now then
        let (s, actions) := s.completeShutdown .timedOut
        (s, .ok actions)
      else
        let (s, connection) := s.connectionStateActions now
        match s.pollTransmission now with
        | (s, .error e) => (s, .error e)
        | (s, .ok sent) => (s, .ok (associated ++ connection ++ sent))

/-- How long until the protocol has something to send. -/
def protocolWait (s : SessionRuntime X) (now : Nat) : Nat :=
  let canSendQueued := !s.protocol.hasPendingUpdate
  if s.association = .due || s.acknowledgementDue
      || (canSendQueued && !s.queuedInstructions.isEmpty)
      || (s.shutdown.isLocalRequested && !s.protocol.localShutdownSent && canSendQueued) then 0
  else
    -- the same with and without a pending update
    match s.lastSend with
    | none => 0
    | some lastSend => s.retransmitMilliseconds - (now - lastSend)

def millisecondsUntilNextPoll (s : SessionRuntime X) (now : Nat) : Nat :=
  if s.lifecycle ≠ .running || s.shutdown.isComplete then u64Max
  else
    match s.shutdown with
    | .localRequested startedAt transmissions =>
      let timeoutWait :=
        if transmissions ≥ shutdownRetryLimit then 0
        else shutdownTimeoutMilliseconds - (now - startedAt)
      min (s.protocolWait now) timeoutWait
    | _ => s.protocolWait now

end SessionRuntime

/-! ## Runs -/

/-- The calls of a host that change the runtime. -/
inductive HostCall where
  | queueTerminalEvent (event : TerminalInputEvent)
  | queueInput (bytes : Bytes)
  | queueResize (columns rows : UInt16)
  | setLocalCapabilities (capabilities : Bytes)
  | queueSessionControl (kind : UInt32) (payload : Bytes)
  | pause
  | cancel
  | requestShutdown (now : Nat)
  | notifyUdpRebound
  | resume (now : Nat)
  | resumeWithActions (now : Nat)
  | forceNextSend
  | receiveDatagram (packet : Bytes) (now : Nat)
  | receiveDatagramRaw (packet : Bytes) (now : Nat)
  | poll (now : Nat)

/-- The time a call supplies. -/
def HostCall.time? : HostCall → Option Nat
  | .requestShutdown now => some now
  | .resume now => some now
  | .resumeWithActions now => some now
  | .receiveDatagram _ now => some now
  | .receiveDatagramRaw _ now => some now
  | .poll now => some now
  | _ => none

inductive HostReply where
  | done (result : Except RuntimeError Unit)
  | actions (result : Except RuntimeError (List SessionAction))
  | raw (result : Except RuntimeError (Option RawRemoteUpdate))

def SessionRuntime.call {X : Externals} (s : SessionRuntime X) :
    HostCall → SessionRuntime X × HostReply
  | .queueTerminalEvent event => (s.queueTerminalEvent event).map id .done
  | .queueInput bytes => (s.queueInput bytes).map id .done
  | .queueResize columns rows => (s.queueResize columns rows, .done (.ok ()))
  | .setLocalCapabilities capabilities => (s.setLocalCapabilities capabilities, .done (.ok ()))
  | .queueSessionControl kind payload => (s.queueSessionControl kind payload).map id .done
  | .pause => s.pause.map id (.actions ∘ .ok)
  | .cancel => s.cancel.map id (.actions ∘ .ok)
  | .requestShutdown now => (s.requestShutdown now).map id .actions
  | .notifyUdpRebound => s.notifyUdpRebound.map id (.actions ∘ .ok)
  | .resume now => (s.resume now, .done (.ok ()))
  | .resumeWithActions now => (s.resumeWithActions now).map id (.actions ∘ .ok)
  | .forceNextSend => (s.forceNextSend, .done (.ok ()))
  | .receiveDatagram packet now => (s.receiveDatagram packet now).map id .actions
  | .receiveDatagramRaw packet now => (s.receiveDatagramRaw packet now).map id .raw
  | .poll now => (s.poll now).map id .actions

end OxideTerm.Fernomade
