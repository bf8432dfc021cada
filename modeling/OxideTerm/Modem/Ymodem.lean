import OxideTerm.Lib.Utf8
import OxideTerm.Modem.Xymodem

/-!
# YMODEM batches

A batch is a list of files. Each starts with a block of number zero that carries the name and the
size, goes on like an XMODEM file, and ends in two rounds. A block zero without a name ends the
batch.
-/

namespace OxideTerm.Modem

open OxideTerm.Lib

/-! ## Headers -/

/-- The name and the size, a `u64`, of a file. -/
structure YmodemFileHeader where
  fileName : List Char
  fileSize : Option UInt64
deriving DecidableEq

/-- `Path::is_absolute`, on Unix. -/
def pathIsAbsolute (path : List Char) : Bool := path.head? = some '/'

/-- `Path::file_name`, on Unix: the last component, if it is a normal one. -/
def pathFileName (path : List Char) : Option (List Char) :=
  match ((Text.split '/' path).filter fun part => part ≠ [] ∧ part ≠ ['.']).getLast? with
  | none => none
  | some part => if part = ['.', '.'] then none else some part

def validateYmodemFileName (fileName : List Char) : Except ModemError Unit :=
  let isPlainName := pathFileName fileName = some fileName
  if fileName = [] ∨ fileName = ['.'] ∨ fileName = ['.', '.'] ∨
      ('/' ∈ fileName ∨ '\\' ∈ fileName) ∨ pathIsAbsolute fileName ∨ ¬ isPlainName then
    .error .invalidFileName
  else .ok ()

namespace YmodemFileHeader

def new (fileName : List Char) (fileSize : Option UInt64) : Except ModemError YmodemFileHeader :=
  match validateYmodemFileName fileName with
  | .error error => .error error
  | .ok () => .ok { fileName, fileSize }

/-- The payload has room for 128 bytes, and what is left of it is zero. -/
def encodeBlock0Payload (header : YmodemFileHeader) : Except ModemError Bytes :=
  let nameBytes := Text.utf8Bytes header.fileName
  let room := XyBlockSize.bytes128.len
  if nameBytes = [] ∨ nameBytes.length ≥ room then .error .invalidFileName
  else
    match header.fileSize with
    | none => .ok (nameBytes ++ List.replicate (room - nameBytes.length) 0)
    | some fileSize =>
      let sizeText := Text.utf8Bytes (toString fileSize.toNat).toList
      let sizeEnd := nameBytes.length + 1 + sizeText.length
      if sizeEnd ≥ room then .error .invalidLength
      else .ok (nameBytes ++ [0] ++ sizeText ++ List.replicate (room - sizeEnd) 0)

/-- The size, if there is one behind the name. -/
def parseFileSize (metadata : Bytes) : Except ModemError (Option UInt64) :=
  let sizeText := metadata.takeWhile fun byte => byte ≠ 0x20 ∧ byte ≠ 0
  if sizeText = [] then .ok none
  else
    match Text.parseU64 (Text.fromUtf8Lossy sizeText) with
    | none => .error .invalidLength
    | some size => .ok (some (UInt64.ofNat size))

def parseBlock0Payload (payload : Bytes) : Except ModemError (Option YmodemFileHeader) :=
  let name := payload.takeWhile (· ≠ 0)
  if name.length = payload.length then .error .invalidLength
  else if name = [] then .ok none
  else
    let fileName := Text.fromUtf8Lossy name
    match validateYmodemFileName fileName with
    | .error error => .error error
    | .ok () =>
      match parseFileSize (payload.drop (name.length + 1)) with
      | .error error => .error error
      | .ok fileSize => .ok (some { fileName, fileSize })

end YmodemFileHeader

/-- A step that may fail with an error of the protocol. -/
def protocolStep {A : Type} {B : A → Type} {α : Type} (result : Except ModemError α) :
    Program A B ModemTransferError α :=
  Program.done (result.mapError .protocol)

@[simp] theorem protocolStep_ok {A : Type} {B : A → Type} {α : Type} (a : α) :
    (protocolStep (.ok a) : Program A B ModemTransferError α) = .done (.ok a) := rfl

/-! ## Sending -/

/-- `Read::take`: a reader that ends after so many bytes. -/
structure Take (R : Type) where
  reader : R
  limit : Nat

instance instReadTake {R : Type} [Read R] : Read (Take R) where
  read taken room :=
    if taken.limit = 0 then .ok ([], taken)
    else
      match Read.read taken.reader (min room taken.limit) with
      | .error error => .error error
      | .ok (bytes, reader) => .ok (bytes, { reader, limit := taken.limit - bytes.length })
  length_le := by
    intro taken taken' room bytes h
    split at h
    · obtain ⟨rfl, -⟩ := Prod.mk.inj (Except.ok.inj h)
      exact Nat.zero_le _
    · split at h
      · simp at h
      · next hread =>
        obtain ⟨rfl, -⟩ := Prod.mk.inj (Except.ok.inj h)
        exact Nat.le_trans (Read.length_le hread) (Nat.min_le_left _ _)

theorem Take.read_of_ne_zero {R : Type} [Read R] {reader reader' : R} {limit room : Nat}
    {bytes : Bytes} (hlimit : limit ≠ 0)
    (hread : Read.read reader (min room limit) = .ok (bytes, reader')) :
    Read.read ({ reader, limit } : Take R) room =
      .ok (bytes, { reader := reader', limit := limit - bytes.length }) := by
  simp only [Read.read]
  rw [if_neg hlimit, hread]

structure YmodemSendStreamEntry (R : Type) where
  fileName : List Char
  fileSize : UInt64
  reader : R

section

variable {L : Type} {B : L → Type} {R : Type} [Read R]

/-- The loop over the entries, and what follows it. The sum of the sizes is a natural number. -/
def sendYmodemEntries (fuel : Nat) :
    List (YmodemSendStreamEntry R) → Nat → ModemProgram L B Nat
  | [], total => do
    let _ ← waitForXymodemStart
    sendXymodemBlock 0 .bytes128 (List.replicate 128 0) true
    return total
  | entry :: entries, total => do
    let _ ← waitForXymodemStart
    let header ← protocolStep (YmodemFileHeader.new entry.fileName (some entry.fileSize))
    let payload ← protocolStep header.encodeBlock0Payload
    sendXymodemBlock 0 .bytes128 payload true
    expectByteOrCancel wantCrc
    -- Bytes past the declared size are not sent if the file grows during the transfer.
    let limitedReader : Take R := { reader := entry.reader, limit := entry.fileSize.toNat }
    let entryBytes ← sendXymodemBlocks fuel limitedReader .bytes1024 true
    if entryBytes ≠ entry.fileSize.toNat then Program.fail .unexpectedFrame
    else do
      finishXymodemSend
      sendYmodemEntries fuel entries (total + entryBytes)

def sendYmodemStream (fuel : Nat) (entries : List (YmodemSendStreamEntry R)) :
    ModemProgram L B Nat := sendYmodemEntries fuel entries 0

end

/-! ## Receiving -/

/-- What a receiver does with its files: the writer is the one that was opened last. -/
inductive YmodemCall where
  | openWriter (header : YmodemFileHeader)
  | writer (call : WriterCall)

/-- No action returns a value. -/
abbrev YmodemCall.Answer (_ : YmodemCall) : Type := Unit

def readXymodemBlock {L : Type} {B : L → Type} (useCrc : Bool) : ModemProgram L B XyBlock := do
  let marker ← readByte
  match XyBlockSize.fromMarker marker with
  | none => Program.fail (.unexpectedByte marker)
  | some size => do
    let rest ← readBytes (2 + size.len + if useCrc then 2 else 1)
    protocolStep (XyBlock.parse useCrc (marker :: rest))

/-- One file, from its block zero to its end. -/
def receiveYmodemFile (fuel : Nat) (header : YmodemFileHeader) :
    ModemProgram YmodemCall YmodemCall.Answer Unit := do
  writeAll [wantCrc]
  onHost (.openWriter header)
  let bytes ← (receiveXymodemBlocks fuel true (header.fileSize.map UInt64.toNat) true).interpret
    (Port.rename YmodemCall.writer)
  if header.fileSize.any fun size => bytes < size.toNat then Program.fail .unexpectedFrame
  else return ()

/-- What follows a header: a file, or the end of the batch. -/
def takeHeaderBlock (fuel : Nat) (received : List YmodemFileHeader) (headerBlock : XyBlock) :
    ModemProgram YmodemCall YmodemCall.Answer
      (List YmodemFileHeader ⊕ List YmodemFileHeader) :=
  if headerBlock.number ≠ 0 then do
    writeAll [nak]
    return .inl received
  else do
    writeAll [ack]
    match ← protocolStep (YmodemFileHeader.parseBlock0Payload headerBlock.payload) with
    | none => return .inr received
    | some header => do
      receiveYmodemFile fuel header
      return .inl (received ++ [header])

def receiveYmodemRound (fuel : Nat) (received : List YmodemFileHeader) :
    ModemProgram YmodemCall YmodemCall.Answer
      (List YmodemFileHeader ⊕ List YmodemFileHeader) := do
  writeAll [wantCrc]
  let headerBlock ← readXymodemBlock true
  takeHeaderBlock fuel received headerBlock

def receiveYmodem (fuel : Nat) :
    ModemProgram YmodemCall YmodemCall.Answer (List YmodemFileHeader) :=
  Program.loop (receiveYmodemRound fuel) fuel []

end OxideTerm.Modem
