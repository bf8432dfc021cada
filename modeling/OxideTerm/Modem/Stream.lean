import OxideTerm.Lib.Machine
import OxideTerm.Modem.Io

/-!
# The queue between a transfer and its transport

The worker of a transfer reads what the host pushes and writes to a bounded queue. The host takes
one write after the other to the transport, and completes it there or puts it back. Every operation
holds the lock of the state, so that each is one step. Stopping replaces what is queued by the bytes
that cancel the transfer.
-/

namespace OxideTerm.Modem

open OxideTerm.Lib

def usizeMax : Nat := 2 ^ 64 - 1

/-- `usize::saturating_add`. -/
def saturatingAdd (a b : Nat) : Nat := min (a + b) usizeMax

theorem saturatingAdd_eq {a b : Nat} (h : a + b ≤ usizeMax) : saturatingAdd a b = a + b :=
  Nat.min_eq_left h

/-- No vector of bytes is longer. -/
def isizeMax : Nat := 2 ^ 63 - 1

/-- `Vec<u8>`. -/
structure ByteVec where
  bytes : Bytes
  length_le : bytes.length ≤ isizeMax
deriving DecidableEq

def ByteVec.len (v : ByteVec) : Nat := v.bytes.length

def modemRemoteOutputBufferBytes : Nat := 4 * 1024 * 1024
def modemServerWriteBufferBytes : Nat := 1024 * 1024

/-! ## The state -/

structure ModemTransferState where
  remoteOutput : Bytes
  serverWrites : List ByteVec
  serverWriteBytes : Nat
  serverWriteInFlightBytes : Nat
  cancellationBytes : ByteVec
  inputOverflow : Bool
  stopped : Bool

namespace ModemTransferState

def new (initialRemoteOutput : Bytes) (cancellationBytes : ByteVec) : ModemTransferState where
  remoteOutput := initialRemoteOutput
  serverWrites := []
  serverWriteBytes := 0
  serverWriteInFlightBytes := 0
  cancellationBytes
  inputOverflow := false
  stopped := false

/-- The length of all writes that are queued. -/
def queuedBytes (writes : List ByteVec) : Nat := (writes.map ByteVec.len).sum

/-- Only the first call does anything. -/
def cancelLocked (s : ModemTransferState) : ModemTransferState :=
  if s.stopped then s
  else
    let remaining := s.serverWriteBytes - queuedBytes s.serverWrites
    if s.cancellationBytes.bytes = [] then
      { s with stopped := true, remoteOutput := [], serverWrites := [], serverWriteBytes := remaining }
    else
      { s with
        stopped := true
        remoteOutput := []
        serverWrites := [s.cancellationBytes]
        serverWriteBytes := saturatingAdd remaining s.cancellationBytes.len }

def pushRemoteOutput (s : ModemTransferState) (bytes : ByteVec) : ModemTransferState :=
  if bytes.bytes = [] then s
  else if s.stopped then s
  else if modemRemoteOutputBufferBytes < saturatingAdd s.remoteOutput.length bytes.len then
    { s with remoteOutput := [], inputOverflow := true }.cancelLocked
  else { s with remoteOutput := s.remoteOutput ++ bytes.bytes }

def takeServerWrite (s : ModemTransferState) : Option ByteVec × ModemTransferState :=
  match s.serverWrites with
  | [] => (none, s)
  | bytes :: rest =>
    (some bytes, { s with
      serverWrites := rest
      serverWriteInFlightBytes := saturatingAdd s.serverWriteInFlightBytes bytes.len })

def completeServerWrite (s : ModemTransferState) (byteLen : Nat) : ModemTransferState :=
  { s with
    serverWriteInFlightBytes := s.serverWriteInFlightBytes - byteLen
    serverWriteBytes := s.serverWriteBytes - byteLen }

def restoreServerWrite (s : ModemTransferState) (bytes : ByteVec) : ModemTransferState :=
  { s with
    serverWriteInFlightBytes := s.serverWriteInFlightBytes - bytes.len
    serverWrites := bytes :: s.serverWrites }

def serverWritesDrained (s : ModemTransferState) : Bool :=
  s.serverWriteBytes = 0 && s.serverWriteInFlightBytes = 0

def drainRemoteOutput (s : ModemTransferState) : Bytes × ModemTransferState :=
  (s.remoteOutput, { s with remoteOutput := [] })

def stop (s : ModemTransferState) : ModemTransferState := s.cancelLocked

/-- What a reader finds under the lock: an error, a byte, or that it has to wait. -/
def readByte (s : ModemTransferState) :
    Option (Except ModemTransferError UInt8) × ModemTransferState :=
  if s.inputOverflow then
    (some (.error (.inputBufferOverflow modemRemoteOutputBufferBytes)), s)
  else if s.stopped then (some (.error .cancelled), s)
  else
    match s.remoteOutput with
    | [] => (none, s)
    | byte :: rest => (some (.ok byte), { s with remoteOutput := rest })

/-- What a writer finds under the lock: an error, room for its bytes, or that it has to wait. -/
def writeAll (s : ModemTransferState) (bytes : ByteVec) :
    Option (Except ModemTransferError Unit) × ModemTransferState :=
  if bytes.bytes = [] then (some (.ok ()), s)
  else if s.stopped then (some (.error .cancelled), s)
  else
    let bufferedAfterWrite := saturatingAdd s.serverWriteBytes bytes.len
    if bufferedAfterWrite ≤ modemServerWriteBufferBytes ∨
        s.serverWriteBytes = 0 ∧ s.serverWriteInFlightBytes = 0 then
      (some (.ok ()), { s with
        serverWriteBytes := bufferedAfterWrite
        serverWrites := s.serverWrites ++ [bytes] })
    else (none, s)

end ModemTransferState

/-! ## The worker and the host -/

/-- A write that the host has taken. -/
structure TakenWrite where
  bytes : ByteVec
  /-- Whether the transfer had been stopped when the write was taken. -/
  late : Bool
deriving DecidableEq

/-- A transfer, with the write that is in flight. -/
structure ModemHost where
  transfer : ModemTransferState
  inFlight : Option TakenWrite

inductive ModemCall where
  | writeAll (bytes : ByteVec)
  | takeServerWrite
  | completeServerWrite
  | restoreServerWrite
  | pushRemoteOutput (bytes : ByteVec)
  | readByte
  | drainRemoteOutput
  | stop
deriving DecidableEq

/-- What became of a call, as far as writes are concerned. An empty write is never queued. -/
inductive ModemOutcome where
  | accepted (bytes : ByteVec)
  | handedOut (write : TakenWrite)
  | completed (write : TakenWrite)
  | restored (write : TakenWrite)
  | other
deriving DecidableEq

namespace ModemHost

/-- A call. The host has one write in flight at most, and completes or restores only that one. -/
def step (s : ModemHost) : ModemCall → ModemHost × ModemOutcome
  | .writeAll bytes =>
    let (answer, transfer) := s.transfer.writeAll bytes
    ({ s with transfer },
      if answer = some (.ok ()) ∧ bytes.bytes ≠ [] then .accepted bytes else .other)
  | .takeServerWrite =>
    match s.inFlight with
    | some _ => (s, .other)
    | none =>
      match s.transfer.takeServerWrite with
      | (none, transfer) => ({ s with transfer }, .other)
      | (some bytes, transfer) =>
        let write := { bytes, late := s.transfer.stopped }
        ({ transfer, inFlight := some write }, .handedOut write)
  | .completeServerWrite =>
    match s.inFlight with
    | none => (s, .other)
    | some write =>
      ({ transfer := s.transfer.completeServerWrite write.bytes.len, inFlight := none },
        .completed write)
  | .restoreServerWrite =>
    match s.inFlight with
    | none => (s, .other)
    | some write =>
      ({ transfer := s.transfer.restoreServerWrite write.bytes, inFlight := none }, .restored write)
  | .pushRemoteOutput bytes =>
    ({ s with transfer := s.transfer.pushRemoteOutput bytes }, .other)
  | .readByte => ({ s with transfer := s.transfer.readByte.2 }, .other)
  | .drainRemoteOutput => ({ s with transfer := s.transfer.drainRemoteOutput.2 }, .other)
  | .stop => ({ s with transfer := s.transfer.stop }, .other)

/-- A transfer that starts with some remote output. -/
def machine (initialRemoteOutput : Bytes) (cancellationBytes : ByteVec) :
    Machine ModemHost ModemCall ModemOutcome where
  init := { transfer := .new initialRemoteOutput cancellationBytes, inFlight := none }
  step := step

end ModemHost

end OxideTerm.Modem
