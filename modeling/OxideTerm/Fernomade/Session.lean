import Mathlib
import OxideTerm.Fernomade.Crypto
import OxideTerm.Fernomade.Fragment
import OxideTerm.Fernomade.State

/-!
# Client-side protocol state

`ClientProtocol` produces authenticated client updates and accepts authenticated server
states. Locally it keeps the states it has sent and not yet seen acknowledged
(`sentStates`), each with its position in the queue of unacknowledged instructions. From the
peer it keeps the states that updates may be based on (`receivedStates`) and the one that the
host was last shown (`deliveredRemoteState`).

An operation that changes the protocol returns the new state next to its result, also when
it fails: what was changed before the error stays changed.
-/

namespace OxideTerm.Fernomade

open OxideTerm.Lib

/-- Everything the protocol uses from outside the repository. -/
structure Externals where
  aead : Aead
  zlib : Zlib
  prost : Prost
  vt100 : Vt100
  vte : Vte

def noEchoTimestamp : UInt16 := 0xffff
def maximumReassembledBytes : Nat := 16 * 1024 * 1024
def maximumActiveAssemblies : Nat := 64
def maximumSentStates : Nat := 32
def maximumReceivedStates : Nat := 1024
def replayWindowBits : UInt64 := 128
def defaultRemoteColumns : UInt16 := 80
def defaultRemoteRows : UInt16 := 24
def timestampHeaderBytes : Nat := 4
def minimumFragmentPlaintextBytes : Nat := 14

/-- `u64::MAX`, the state number that is reserved for shutdown. -/
def shutdownState : UInt64 := 0xffffffffffffffff

inductive SessionError where
  | stateExhausted
  | shutdownAlreadySent
  | shutdownNotAcknowledged
  | stateHistoryUnavailable
  | noPendingUpdate
  | replayDetected
  | tooManyActiveAssemblies
  | tooManyRemoteStates
  | invalidStateTransition
  | state (error : StateError)
  | sealing (error : SealError)
  | opening (error : OpenError)
  | fragment (error : FragmentError)
  | message (error : MessageError)
deriving DecidableEq

/-! ## Replay window -/

structure ReplayWindow where
  highest : Option UInt64
  seen : BitVec 128
deriving DecidableEq

namespace ReplayWindow

def default : ReplayWindow := { highest := none, seen := 0 }

def accept (window : ReplayWindow) (counter : UInt64) : ReplayWindow × Bool :=
  match window.highest with
  | none => ({ highest := some counter, seen := 1 }, true)
  | some highest =>
    if counter > highest then
      let advance := counter - highest
      let seen := if advance ≥ replayWindowBits then 1 else (window.seen <<< advance.toNat) ||| 1
      ({ highest := some counter, seen }, true)
    else
      let age := highest - counter
      if age ≥ replayWindowBits then (window, false)
      else
        let bit := (1 : BitVec 128) <<< age.toNat
        if window.seen &&& bit ≠ 0 then (window, false)
        else ({ window with seen := window.seen ||| bit }, true)

end ReplayWindow

/-! ## Sealing -/

/-- Seals fragments one by one up to the first failure. -/
def sealEach (A : Aead) (channel : SecureChannel) :
    List Fragment → SecureChannel × Except SessionError (List Bytes)
  | [] => (channel, .ok [])
  | fragment :: rest =>
    match channel.sealNext A fragment.encode with
    | (channel, .error e) => (channel, .error (.sealing e))
    | (channel, .ok packet) =>
      match sealEach A channel rest with
      | (channel, .error e) => (channel, .error e)
      | (channel, .ok packets) => (channel, .ok (packet :: packets))

def sealFragments (A : Aead) (channel : SecureChannel) (compressed : Bytes)
    (sentTimestamp : UInt16) (latestPeerTimestamp : Option UInt16) (stateId : UInt64) :
    SecureChannel × Except SessionError (List Bytes) :=
  match Fragment.split compressed sentTimestamp (latestPeerTimestamp.getD noEchoTimestamp)
      stateId with
  | .error e => (channel, .error (.fragment e))
  | .ok fragments => sealEach A channel fragments

/-! ## Protocol state -/

/-- A sent state, and where the instructions up to it end in the local queue. -/
structure SentState where
  stateId : UInt64
  instructionEnd : Nat
deriving DecidableEq

structure ReceivedState where
  packetCounter : UInt64
  sentTimestamp : UInt16
  echoedTimestamp : UInt16
  advancesRemoteState : Bool
  /-- Original encoded instruction bytes from the accepted peer update. -/
  rawDelta : Bytes
  update : StateUpdate
deriving DecidableEq

/-- Metadata observed from every authenticated server packet. -/
structure PacketReceipt where
  packetCounter : UInt64
  sentTimestamp : UInt16
  echoedTimestamp : UInt16
  state : Option ReceivedState
deriving DecidableEq

structure ClientProtocol (X : Externals) where
  secureChannel : SecureChannel
  nextLocalState : UInt64
  latestRemoteState : UInt64
  lastRemoteBaseState : UInt64
  lastRemoteTargetState : UInt64
  latestPeerTimestamp : Option UInt16
  assemblies : Std.ExtTreeMap UInt64 FragmentAccumulator
  localInstructions : List Instruction
  sentStates : List SentState
  receivedStates : Std.ExtTreeMap UInt64 (RemoteTerminalState X.vt100)
  deliveredRemoteState : RemoteTerminalState X.vt100
  remoteThrowawayFloor : UInt64
  localCapabilities : Bytes
  remoteCapabilities : Bytes
  replayWindow : ReplayWindow

/-- Drops states from the middle until the bound is met again. -/
def limitSentStates (sentStates : List SentState) : List SentState :=
  if sentStates.length > maximumSentStates then
    -- the confirmed front and the newest states stay
    limitSentStates (sentStates.eraseIdx (sentStates.length - 16))
  else sentStates
termination_by sentStates.length
decreasing_by
  rename_i h
  rw [maximumSentStates] at h
  rw [List.length_eraseIdx_of_lt (by omega)]
  omega

namespace ClientProtocol

variable {X : Externals}

/-- The blank state both peers start from. -/
def initialRemoteState : RemoteTerminalState X.vt100 :=
  .create defaultRemoteColumns defaultRemoteRows

def new : ClientProtocol X where
  secureChannel := .new .client
  nextLocalState := 1
  latestRemoteState := 0
  lastRemoteBaseState := 0
  lastRemoteTargetState := 0
  latestPeerTimestamp := none
  assemblies := ∅
  localInstructions := []
  sentStates := [{ stateId := 0, instructionEnd := 0 }]
  receivedStates := (∅ : Std.ExtTreeMap UInt64 _).insert 0 initialRemoteState.clone
  deliveredRemoteState := initialRemoteState
  remoteThrowawayFloor := 0
  localCapabilities := []
  remoteCapabilities := []
  replayWindow := .default

/-! ### Reading -/

/-- Reports whether both peers advertise the requested first-byte capability bit. -/
def hasNegotiatedCapability (p : ClientProtocol X) (capability : UInt8) : Bool :=
  match p.localCapabilities.head?, p.remoteCapabilities.head? with
  | some loc, some remote => loc &&& remote &&& capability ≠ 0
  | _, _ => false

def latestLocalState (p : ClientProtocol X) : UInt64 :=
  (p.sentStates.getLast?.map SentState.stateId).getD 0

def hasPendingUpdate (p : ClientProtocol X) : Bool := p.sentStates.length > 1

def localShutdownSent (p : ClientProtocol X) : Bool :=
  p.sentStates.getLast?.any fun state => state.stateId = shutdownState

def localShutdownAcknowledged (p : ClientProtocol X) : Bool :=
  p.sentStates.head?.any fun state => state.stateId = shutdownState

def remoteShutdownReceived (p : ClientProtocol X) : Bool := p.latestRemoteState = shutdownState

/-! ### Building updates

Each builder puts an update together from the state and then has it sealed; `…Update` is the
update, and the datagrams go out under its target as the fragment identifier.
-/

/-- Encodes an update and seals its fragments under the next counters. -/
def sealUpdate (p : ClientProtocol X) (sentTimestamp : UInt16) (update : StateUpdate) :
    ClientProtocol X × Except SessionError (List Bytes) :=
  match encodeCompressedUpdate X.zlib update with
  | .error e => (p, .error (.message e))
  | .ok compressed =>
    let (channel, packets) := sealFragments X.aead p.secureChannel compressed sentTimestamp
      p.latestPeerTimestamp update.targetState
    ({ p with secureChannel := channel }, packets)

/-- Seals an update, unless it could not be built. -/
def sealBuilt (p : ClientProtocol X) (sentTimestamp : UInt16) :
    Except SessionError StateUpdate → ClientProtocol X × Except SessionError (List Bytes)
  | .error e => (p, .error e)
  | .ok update => p.sealUpdate sentTimestamp update

def acknowledgementUpdate (p : ClientProtocol X) : Except SessionError StateUpdate :=
  match p.sentStates.head?, p.sentStates.getLast? with
  | some front, some back =>
    .ok { StateUpdate.new back.stateId back.stateId p.latestRemoteState with
          discardBefore := front.stateId
          capabilities := p.localCapabilities }
  | _, _ => .error .stateHistoryUnavailable

/-- Builds an empty acknowledgement or heartbeat without advancing local SSP state. -/
def buildAcknowledgement (p : ClientProtocol X) (sentTimestamp : UInt16) :
    ClientProtocol X × Except SessionError (List Bytes) :=
  p.sealBuilt sentTimestamp p.acknowledgementUpdate

/-- Builds the initial empty state-zero datagram used to associate a client endpoint. -/
def buildAssociation (p : ClientProtocol X) (sentTimestamp : UInt16) :
    ClientProtocol X × Except SessionError (List Bytes) := p.buildAcknowledgement sentTimestamp

def setLocalCapabilities (p : ClientProtocol X) (capabilities : Bytes) : ClientProtocol X :=
  { p with localCapabilities := capabilities }

/-- The update to a fresh state, and where its instructions end in the local queue. -/
def stateUpdate (p : ClientProtocol X) (instructions : InstructionBatch) (targetState : UInt64) :
    Except SessionError (StateUpdate × Nat) :=
  match p.sentStates.head?, p.sentStates.getLast? with
  | some front, some back =>
    match checkedAdd p.localInstructions.length instructions.instructions.length with
    | none => .error .stateExhausted
    | some instructionEnd =>
      .ok ({ StateUpdate.new back.stateId targetState p.latestRemoteState with
             discardBefore := front.stateId
             delta := instructions.encodeBytes
             capabilities := p.localCapabilities }, instructionEnd)
  | _, _ => .error .stateHistoryUnavailable

def buildStateUpdate (p : ClientProtocol X) (sentTimestamp : UInt16)
    (instructions : InstructionBatch) (targetState : UInt64) :
    ClientProtocol X × Except SessionError (List Bytes) :=
  match p.stateUpdate instructions targetState with
  | .error e => (p, .error e)
  | .ok (update, instructionEnd) =>
    match p.sealUpdate sentTimestamp update with
    | (p, .error e) => (p, .error e)
    | (p, .ok packets) =>
      ({ p with
         localInstructions := p.localInstructions ++ instructions.instructions
         sentStates := limitSentStates
           (p.sentStates ++ [{ stateId := targetState, instructionEnd }]) }, .ok packets)

/-- Encodes one client state update and returns one or more UDP payloads. -/
def buildUpdate (p : ClientProtocol X) (sentTimestamp : UInt16)
    (instructions : InstructionBatch) : ClientProtocol X × Except SessionError (List Bytes) :=
  let targetState := p.nextLocalState
  if targetState = shutdownState then (p, .error .stateExhausted)
  else
    match p.buildStateUpdate sentTimestamp instructions targetState with
    | (p, .error e) => (p, .error e)
    | (p, .ok packets) => ({ p with nextLocalState := targetState + 1 }, .ok packets)

/-- Encodes the reserved SSP shutdown state with any final queued input. -/
def buildShutdown (p : ClientProtocol X) (sentTimestamp : UInt16)
    (instructions : InstructionBatch) : ClientProtocol X × Except SessionError (List Bytes) :=
  if p.localShutdownSent then (p, .error .shutdownAlreadySent)
  else p.buildStateUpdate sentTimestamp instructions shutdownState

def shutdownAckUpdate (p : ClientProtocol X) : Except SessionError StateUpdate :=
  if !p.localShutdownAcknowledged then .error .shutdownNotAcknowledged
  else
    .ok { StateUpdate.new shutdownState shutdownState p.latestRemoteState with
          discardBefore := shutdownState
          capabilities := p.localCapabilities
          delta := InstructionBatch.encodeBytes { instructions := [] } }

/-- Re-sends the reserved local shutdown state to acknowledge a peer shutdown request. -/
def buildShutdownAck (p : ClientProtocol X) (sentTimestamp : UInt16) :
    ClientProtocol X × Except SessionError (List Bytes) :=
  p.sealBuilt sentTimestamp p.shutdownAckUpdate

/-- All unacknowledged input, based on the confirmed state. -/
def pendingUpdate (p : ClientProtocol X) : Except SessionError StateUpdate :=
  if !p.hasPendingUpdate then .error .noPendingUpdate
  else
    match p.sentStates.head?, p.sentStates.getLast? with
    | some confirmed, some latest =>
      let instructions : InstructionBatch :=
        { instructions := (p.localInstructions.drop confirmed.instructionEnd).take
            (latest.instructionEnd - confirmed.instructionEnd) }
      .ok { StateUpdate.new confirmed.stateId latest.stateId p.latestRemoteState with
            discardBefore := confirmed.stateId
            delta := instructions.encodeBytes
            capabilities := p.localCapabilities }
    | _, _ => .error .stateHistoryUnavailable

/-- Rebuilds all unacknowledged input from the confirmed state and seals it with fresh packet
counters after a timeout. -/
def retransmitPending (p : ClientProtocol X) (sentTimestamp : UInt16) :
    ClientProtocol X × Except SessionError (List Bytes) :=
  p.sealBuilt sentTimestamp p.pendingUpdate

/-! ### Receiving -/

/-- An exact acknowledgement makes its state the confirmed one. -/
def processAcknowledgement (p : ClientProtocol X) (acknowledgedState : UInt64) :
    ClientProtocol X :=
  match p.sentStates.findIdx? (fun state => state.stateId = acknowledgedState) with
  | none => p
  | some acknowledgedIndex =>
    let p := { p with sentStates := p.sentStates.drop acknowledgedIndex }
    let confirmedInstructionEnd := (p.sentStates.head?.map SentState.instructionEnd).getD 0
    if confirmedInstructionEnd = 0 then p
    else
      { p with
        localInstructions := p.localInstructions.drop confirmedInstructionEnd
        sentStates := p.sentStates.map fun state =>
          { state with instructionEnd := state.instructionEnd - confirmedInstructionEnd } }

/-- The state an update makes of its base. -/
def targetStateOf (base : RemoteTerminalState X.vt100) (update : StateUpdate) :
    Except SessionError (RemoteTerminalState X.vt100) :=
  match update.decodeInstructions X.prost with
  | .error e => .error (.message e)
  | .ok instructions =>
    match base.clone.apply X.vte instructions with
    | (_, .error e) => .error (.state e)
    | (target, .ok ()) => .ok target

/-- Shows the host what `targetState` has over the delivered state, if that can be shown. -/
def deliver (p : ClientProtocol X) (update : StateUpdate)
    (targetState : RemoteTerminalState X.vt100) : ClientProtocol X × Bool × StateUpdate :=
  if update.targetState ≤ p.latestRemoteState then (p, false, update)
  else
    match targetState.diffFrom X.vte p.deliveredRemoteState with
    | .error _ => (p, false, update)
    | .ok diff =>
      ({ p with latestRemoteState := update.targetState, deliveredRemoteState := targetState },
        true, { update with delta := diff.encodeBytes })

/-- Forgets received states below the floor. -/
def discardBelow (p : ClientProtocol X) (throwawayFloor : UInt64) : ClientProtocol X :=
  { p with
    receivedStates := p.receivedStates.filter fun stateId _ => stateId ≥ throwawayFloor
    remoteThrowawayFloor := throwawayFloor }

/-- Keeps a clone of a state as a base for later updates. -/
def insertReceived (p : ClientProtocol X) (update : StateUpdate)
    (targetState : RemoteTerminalState X.vt100) : ClientProtocol X :=
  { p with
    receivedStates := p.receivedStates.insert update.targetState targetState.clone
    lastRemoteBaseState := update.baseState
    lastRemoteTargetState := update.targetState }

/-- Whether the host is shown something, the update it is shown, and the delta as received. -/
def acceptRemoteUpdate (p : ClientProtocol X) (update : StateUpdate) :
    ClientProtocol X × Except SessionError (Bool × StateUpdate × Bytes) :=
  let rawDelta := update.delta
  if p.receivedStates.contains update.targetState then (p, .ok (false, update, rawDelta))
  else if update.discardBefore > update.baseState ∨ update.targetState ≤ update.baseState then
    (p, .error .invalidStateTransition)
  else
    match p.receivedStates[update.baseState]? with
    | none => (p, .ok (false, update, rawDelta))
    | some base =>
      match targetStateOf base update with
      | .error e => (p, .error e)
      | .ok targetState =>
        let p := p.discardBelow (max p.remoteThrowawayFloor update.discardBefore)
        if p.receivedStates.size ≥ maximumReceivedStates then (p, .error .tooManyRemoteStates)
        else
          let (p, advances, delivered) := (p.insertReceived update targetState).deliver update
            targetState
          (p, .ok (advances, delivered, rawDelta))

/-- The part of `ingest_packet` that runs once a message is complete. -/
def ingestMessage (p : ClientProtocol X) (packetCounter : UInt64) (header : FragmentHeader)
    (compressed : Bytes) : ClientProtocol X × Except SessionError ReceivedState :=
  match decodeCompressedUpdate X.prost X.zlib compressed with
  | .error e => (p, .error (.message e))
  | .ok update =>
    let remoteCapabilities := update.capabilities
    match (p.processAcknowledgement update.acknowledgedState).acceptRemoteUpdate update with
    | (p, .error e) => (p, .error e)
    | (p, .ok (advancesRemoteState, deliveredUpdate, rawDelta)) =>
      let p := if remoteCapabilities ≠ [] then { p with remoteCapabilities } else p
      (p, .ok { packetCounter
                sentTimestamp := header.sentTimestamp
                echoedTimestamp := header.echoedTimestamp
                advancesRemoteState
                rawDelta
                update := deliveredUpdate })

/-- The part of `ingest_packet` that runs on a parsed fragment. -/
def ingestFragment (p : ClientProtocol X) (packetCounter : UInt64) (fragment : Fragment) :
    ClientProtocol X × Except SessionError (Option ReceivedState) :=
  let header := fragment.header
  if !p.assemblies.contains header.stateId && p.assemblies.size ≥ maximumActiveAssemblies then
    (p, .error .tooManyActiveAssemblies)
  else
    let assembly := (p.assemblies[header.stateId]?).getD
      (.new header.stateId maximumReassembledBytes)
    match assembly.push fragment with
    | (assembly, .error e) =>
      ({ p with assemblies := p.assemblies.insert header.stateId assembly }, .error (.fragment e))
    | (assembly, .ok none) =>
      ({ p with assemblies := p.assemblies.insert header.stateId assembly }, .ok none)
    | (_, .ok (some compressed)) =>
      let p := { p with assemblies := p.assemblies.erase header.stateId }
      match p.ingestMessage packetCounter header compressed with
      | (p, .error e) => (p, .error e)
      | (p, .ok state) => (p, .ok (some state))

/-- The part of `ingest_packet` after the replay check. -/
def ingestPlaintext (p : ClientProtocol X) (authenticated : AuthenticatedPacket) :
    ClientProtocol X × Except SessionError PacketReceipt :=
  if authenticated.plaintext.length < timestampHeaderBytes then
    (p, .error (.fragment .headerTooShort))
  else
    let sentTimestamp := u16FromBeBytes (authenticated.plaintext.take 2)
    let echoedTimestamp := u16FromBeBytes ((authenticated.plaintext.drop 2).take 2)
    let p := { p with latestPeerTimestamp := some sentTimestamp }
    let receipt : PacketReceipt :=
      { packetCounter := authenticated.counter, sentTimestamp, echoedTimestamp, state := none }
    if authenticated.plaintext.length < minimumFragmentPlaintextBytes then (p, .ok receipt)
    else
      match Fragment.parse authenticated.plaintext with
      | .error e => (p, .error (.fragment e))
      | .ok fragment =>
        match p.ingestFragment authenticated.counter fragment with
        | (p, .error e) => (p, .error e)
        | (p, .ok state) => (p, .ok { receipt with state })

/-- Accepts one UDP payload and reports every authenticated packet, including timestamp-only
heartbeats and incomplete fragmented messages. -/
def ingestPacket (p : ClientProtocol X) (packet : Bytes) :
    ClientProtocol X × Except SessionError PacketReceipt :=
  match p.secureChannel.open X.aead packet with
  | .error e => (p, .error (.opening e))
  | .ok authenticated =>
    match p.replayWindow.accept authenticated.counter with
    | (window, false) => ({ p with replayWindow := window }, .error .replayDetected)
    | (window, true) => { p with replayWindow := window }.ingestPlaintext authenticated

/-- Updates the blank remote baseline before the first server state arrives. -/
def setInitialRemoteViewport (p : ClientProtocol X) (columns rows : UInt16) :
    ClientProtocol X :=
  if p.latestRemoteState ≠ 0 ∨ p.receivedStates.size ≠ 1 then p
  else
    match RemoteTerminalState.new (T := X.vt100) (max columns 1) (max rows 1) with
    | .error _ => p
    | .ok initialState =>
      { p with
        receivedStates := p.receivedStates.insert 0 initialState.clone
        deliveredRemoteState := initialState }

end ClientProtocol

end OxideTerm.Fernomade
