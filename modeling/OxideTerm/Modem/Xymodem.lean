import OxideTerm.Modem.Io
import OxideTerm.Modem.Crc

/-!
# XMODEM and YMODEM transfers

A file is sent in numbered blocks with a check value each, and the receiver acknowledges each block
or asks for it again. The end of the file is a byte of its own.
-/

namespace OxideTerm.Modem

open OxideTerm.Lib

/-! ## Blocks -/

def soh : UInt8 := 0x01
def stx : UInt8 := 0x02
def eot : UInt8 := 0x04
def ack : UInt8 := 0x06
def nak : UInt8 := 0x15
def can : UInt8 := 0x18
def wantCrc : UInt8 := 0x43
def cpmeof : UInt8 := 0x1a

inductive XyBlockSize where
  | bytes128
  | bytes1024
deriving DecidableEq, Repr

namespace XyBlockSize

def len : XyBlockSize → Nat
  | bytes128 => 128
  | bytes1024 => 1024

def marker : XyBlockSize → UInt8
  | bytes128 => soh
  | bytes1024 => stx

def fromMarker (marker : UInt8) : Option XyBlockSize :=
  if marker = soh then some bytes128
  else if marker = stx then some bytes1024
  else none

@[simp] theorem fromMarker_marker (size : XyBlockSize) : fromMarker size.marker = some size := by
  cases size <;> rfl

theorem len_pos (size : XyBlockSize) : 0 < size.len := by
  cases size <;> decide

end XyBlockSize

/-- A block, whose payload has the size that its marker says. -/
structure XyBlock where
  number : UInt8
  size : XyBlockSize
  payload : Bytes
  length_payload : payload.length = size.len

namespace XyBlock

/-- A payload, filled up to the size of a block. -/
def padded (size : XyBlockSize) (payload : Bytes) : Bytes :=
  payload ++ List.replicate (size.len - payload.length) cpmeof

theorem length_padded {size : XyBlockSize} {payload : Bytes} (h : payload.length ≤ size.len) :
    (padded size payload).length = size.len := by
  rw [padded, List.length_append, List.length_replicate]
  omega

theorem padded_of_length {size : XyBlockSize} {payload : Bytes} (h : payload.length = size.len) :
    padded size payload = payload := by
  rw [padded, h, Nat.sub_self, List.replicate_zero, List.append_nil]

def new (number : UInt8) (size : XyBlockSize) (payload : Bytes) : Except ModemError XyBlock :=
  if h : payload.length ≤ size.len then
    .ok { number, size, payload := padded size payload, length_payload := length_padded h }
  else .error .invalidLength

/-- The sum of the bytes. -/
def checksum (payload : Bytes) : UInt8 := payload.foldl (fun sum byte => sum + byte) 0

/-- The check value of a payload: two bytes, or one. -/
def check (useCrc : Bool) (payload : Bytes) : Bytes :=
  if useCrc then u16ToBeBytes (crc16Xmodem payload) else [checksum payload]

/-- What a block starts with. -/
def head (block : XyBlock) : Bytes := [block.size.marker, block.number, ~~~ block.number]

def encodeCrc (block : XyBlock) : Bytes :=
  block.head ++ block.payload ++ check true block.payload

def encodeChecksum (block : XyBlock) : Bytes :=
  block.head ++ block.payload ++ check false block.payload

def encode (block : XyBlock) (useCrc : Bool) : Bytes :=
  if useCrc then block.encodeCrc else block.encodeChecksum

theorem length_take_of_eq {size : XyBlockSize} {rest : Bytes} {n : Nat}
    (h : rest.length = size.len + n) : (rest.take size.len).length = size.len := by
  rw [List.length_take]
  omega

/-- Both parsers, which differ in the length and the kind of the check value. -/
def parse (useCrc : Bool) (bytes : Bytes) : Except ModemError XyBlock :=
  match bytes with
  | marker :: number :: complement :: rest =>
    match XyBlockSize.fromMarker marker with
    | none => .error .invalidMarker
    | some size =>
      let checkLen := if useCrc then 2 else 1
      if rest.length < size.len + checkLen then .error .incomplete
      else if h : rest.length ≠ size.len + checkLen then .error .invalidLength
      else if number + complement ≠ 0xff then .error .invalidBlockNumber
      else
        let payload := rest.take size.len
        if check useCrc payload ≠ rest.drop size.len then
          .error (if useCrc then .invalidCrc else .invalidChecksum)
        else .ok { number, size, payload, length_payload := length_take_of_eq (not_not.mp h) }
  | _ => .error .incomplete

def parseCrc (bytes : Bytes) : Except ModemError XyBlock := parse true bytes

def parseChecksum (bytes : Bytes) : Except ModemError XyBlock := parse false bytes

theorem length_check (useCrc : Bool) (payload : Bytes) :
    (check useCrc payload).length = if useCrc then 2 else 1 := by
  cases useCrc
  · rfl
  · exact length_u16ToBeBytes _

theorem encode_eq (block : XyBlock) (useCrc : Bool) :
    block.encode useCrc = block.head ++ block.payload ++ check useCrc block.payload := by
  cases useCrc <;> rfl

theorem number_add_not (number : UInt8) : number + ~~~ number = 0xff := by
  rw [← UInt8.toBitVec_inj, UInt8.toBitVec_add, UInt8.toBitVec_not]
  exact BitVec.add_not_self _

/-- **Reading back a block.** -/
theorem parse_encode (block : XyBlock) (useCrc : Bool) :
    parse useCrc (block.encode useCrc) = .ok block := by
  obtain ⟨number, size, payload, hpayload⟩ := block
  have hlength : (payload ++ check useCrc payload).length =
      size.len + (if useCrc then 2 else 1) := by
    rw [List.length_append, hpayload, length_check]
  rw [encode_eq]
  simp only [head, List.cons_append, List.nil_append, parse, XyBlockSize.fromMarker_marker]
  rw [if_neg (by omega), dif_neg (by omega), if_neg (by rw [number_add_not]; decide)]
  have htake : (payload ++ check useCrc payload).take size.len = payload := by
    rw [← hpayload, List.take_left]
  have hdrop : (payload ++ check useCrc payload).drop size.len = check useCrc payload := by
    rw [← hpayload, List.drop_left]
  simp only [htake, hdrop, ne_eq, not_true_eq_false, if_false]

end XyBlock

/-! ## Sending -/

section

variable {L : Type} {B : L → Type}

def xymodemRetries : Nat := 10

/-- The reply to what was sent, which may ask for it again. -/
def awaitAck (again : List UInt8) (retry : ModemProgram L B Unit) : ModemProgram L B Unit := do
  let reply ← readByte
  if reply = ack then return ()
  else if reply ∈ again then retry
  else if reply = can then do
    let second ← readByte
    if second = can then Program.fail .cancelled else retry
  else Program.fail (.unexpectedByte reply)

/-- The rounds in which something is sent until it is acknowledged. -/
def sendRounds (bytes : Bytes) (again : List UInt8) : Nat → ModemProgram L B Unit
  | 0 => Program.fail .timeout
  | rounds + 1 => do
    writeAll bytes
    awaitAck again (sendRounds bytes again rounds)

def sendXymodemBlock (number : UInt8) (size : XyBlockSize) (payload : Bytes) (useCrc : Bool) :
    ModemProgram L B Unit :=
  match XyBlock.new number size payload with
  | .error error => Program.fail (.protocol error)
  | .ok block => sendRounds (block.encode useCrc) [nak, wantCrc] xymodemRetries

def finishXymodemSend : ModemProgram L B Unit := sendRounds [eot] [nak] xymodemRetries

/-- The rounds in which the peer says how it wants the blocks checked. -/
def startRounds : Nat → ModemProgram L B Bool
  | 0 => Program.fail .timeout
  | rounds + 1 => do
    let byte ← readByte
    if byte = wantCrc then return true
    else if byte = nak then return false
    else if byte = can then do
      let second ← readByte
      if second = can then Program.fail .cancelled else startRounds rounds
    else startRounds rounds

def waitForXymodemStart : ModemProgram L B Bool := startRounds xymodemRetries

/-- How far a file is sent. -/
structure SendState (R : Type) where
  number : UInt8
  total : Nat
  reader : R

variable {R : Type} [Read R]

/-- One block of a file, or its end. -/
def sendRound (size : XyBlockSize) (useCrc : Bool) (s : SendState R) :
    ModemProgram L B (SendState R ⊕ Nat) :=
  match readPadded s.reader size.len with
  | .error error => Program.fail error
  | .ok (bytes, reader) =>
    if bytes = [] then return .inr s.total
    else do
      sendXymodemBlock s.number size (XyBlock.padded size bytes) useCrc
      return .inl { number := s.number + 1, total := s.total + bytes.length, reader }

def sendXymodemBlocks (fuel : Nat) (reader : R) (size : XyBlockSize) (useCrc : Bool) :
    ModemProgram L B Nat :=
  Program.loop (sendRound size useCrc) fuel { number := 1, total := 0, reader }

def sendXmodem (fuel : Nat) (reader : R) (size : XyBlockSize) : ModemProgram L B Nat := do
  let useCrc ← waitForXymodemStart
  let bytesSent ← sendXymodemBlocks fuel reader size useCrc
  finishXymodemSend
  return bytesSent

end

/-! ## Receiving -/

/-- What a receiver does with the file. -/
inductive WriterCall where
  | writeAll (bytes : Bytes)
  | flush

/-- No writer action returns a value. -/
abbrev WriterCall.Answer (_ : WriterCall) : Type := Unit

inductive XymodemPacket where
  | block (block : XyBlock)
  | endOfTransmission

section

variable {L : Type} {B : L → Type}

def readXymodemPacket (useCrc : Bool) : ModemProgram L B XymodemPacket := do
  let marker ← readByte
  if marker = eot then return .endOfTransmission
  else if marker = can then do
    let second ← readByte
    if second = can then Program.fail .cancelled else Program.fail (.unexpectedByte can)
  else
    match XyBlockSize.fromMarker marker with
    | none => Program.fail (.unexpectedByte marker)
    | some size => do
      let rest ← readBytes (2 + size.len + if useCrc then 2 else 1)
      match XyBlock.parse useCrc (marker :: rest) with
      | .error error => Program.fail (.protocol error)
      | .ok block => return .block block

def expectByteOrCancel (expected : UInt8) : ModemProgram L B Unit := do
  let byte ← readByte
  if byte = expected then return ()
  else if byte = can then do
    let second ← readByte
    if second = can then Program.fail .cancelled else Program.fail (.unexpectedByte can)
  else Program.fail (.unexpectedByte byte)

end

/-- How far a file is received. -/
structure ReceiveState where
  expected : UInt8
  total : Nat
  retries : Nat

/-- How much of a payload belongs to the file. -/
def writeLen (expectedSize : Option Nat) (total : Nat) (payload : Bytes) : Nat :=
  match expectedSize with
  | none => payload.length
  | some size => min (size - total) payload.length

/-- One packet. -/
def receiveRound (useCrc : Bool) (expectedSize : Option Nat) (useYmodemEotHandshake : Bool)
    (s : ReceiveState) : ModemProgram WriterCall WriterCall.Answer (ReceiveState ⊕ Nat) := do
  match ← (readXymodemPacket useCrc).attempt with
  | .ok .endOfTransmission =>
    if useYmodemEotHandshake then do
      -- YMODEM confirms the end of a file in two rounds, XMODEM in one.
      writeAll [nak]
      expectByteOrCancel eot
      onHost .flush
      writeAll [ack]
      return .inr s.total
    else do
      onHost .flush
      writeAll [ack]
      return .inr s.total
  | .ok (.block block) =>
    if block.number = s.expected then
      let length := writeLen expectedSize s.total block.payload
      if 0 < length then do
        onHost (.writeAll (block.payload.take length))
        writeAll [ack]
        return .inl { expected := s.expected + 1, total := s.total + length, retries := 0 }
      else do
        writeAll [ack]
        return .inl { expected := s.expected + 1, total := s.total, retries := 0 }
    else if block.number ≠ s.expected - 1 then do
      writeAll [nak]
      return .inl { s with retries := 0 }
    else do
      -- The acknowledgement of the last block was lost, so it came again.
      writeAll [ack]
      return .inl { s with retries := 0 }
  | .error error =>
    if error = .cancelled then Program.fail .cancelled
    else if s.retries < xymodemRetries then do
      writeAll [nak]
      if error = .unexpectedByte eot then Program.fail error
      else return .inl { s with retries := s.retries + 1 }
    else Program.fail error

def receiveXymodemBlocks (fuel : Nat) (useCrc : Bool) (expectedSize : Option Nat)
    (useYmodemEotHandshake : Bool) : ModemProgram WriterCall WriterCall.Answer Nat :=
  Program.loop (receiveRound useCrc expectedSize useYmodemEotHandshake) fuel
    { expected := 1, total := 0, retries := 0 }

def receiveXmodem (fuel : Nat) (useCrc : Bool) : ModemProgram WriterCall WriterCall.Answer Nat := do
  writeAll [if useCrc then wantCrc else nak]
  receiveXymodemBlocks fuel useCrc none false

end OxideTerm.Modem
