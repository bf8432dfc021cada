import OxideTerm.Lib.Utf8
import OxideTerm.Modem.Zmodem

/-!
# ZMODEM transfers

The sender and the receiver are programs in terms of frames: they read and write headers and
subpackets. How frames are read from and written to the line, byte by byte, is a program of its own
for each of these actions.
-/

namespace OxideTerm.Modem

open OxideTerm.Lib

def zmodemMaxChunk : Nat := 8192
def zmodemMaxPosition : Nat := 0xffffffff
def zmodemCanFullDuplex : UInt8 := 0x01
def zmodemCanOverlappedIo : UInt8 := 0x02
def zmodemCanCrc32 : UInt8 := 0x20
def zmodemEscapeControl : UInt8 := 0x40
def zmodemBinaryFileConversion : UInt8 := 0x01
def zmodemFileClobber : UInt8 := 4
def zmodemAttentionMaxBytes : Nat := 32

def zfileBinaryFlags : ZPosition := { b0 := 0, b1 := 0, b2 := 0, b3 := zmodemBinaryFileConversion }

def zrinitFlags : ZPosition where
  b0 := UInt8.ofNat zmodemMaxChunk
  b1 := UInt8.ofNat (zmodemMaxChunk / 256)
  b2 := 0
  b3 := zmodemCanFullDuplex ||| zmodemCanOverlappedIo ||| zmodemCanCrc32 ||| zmodemEscapeControl

structure ZmodemPeerCapabilities where
  chunkSize : Nat
  useCrc32 : Bool
  escapeControl : Bool
deriving DecidableEq

structure ZmodemFileHeader where
  fileName : List Char
  fileSize : Option Nat
  overwrite : Bool
deriving DecidableEq

structure ZDataFrame where
  payload : Bytes
  frameEnd : ZDataEnd
deriving DecidableEq

/-- What a receiver does with files. -/
inductive FileCall where
  | openWriter (header : ZmodemFileHeader)
  | writeAll (bytes : Bytes)
  | flush

/-- No action on a file returns a value. -/
abbrev FileCall.Answer (_ : FileCall) : Type := Unit

/-- A program with a line and files. -/
abbrev ZmodemIo (α : Type) := ModemProgram FileCall FileCall.Answer α

/-! ## Frames on the line -/

section

variable (fuel : Nat)

/-- Flow control bytes, which are no data. -/
def isFlowControl (byte : UInt8) : Bool := byte ∈ [xon, 0x13, 0x91, 0x93]

/-- So many times the escape byte, which cancels the transfer. -/
def expectCancel : Nat → ZmodemIo UInt8
  | 0 => Program.fail .cancelled
  | n + 1 => do
    let byte ← readByte
    if byte ≠ zdle then Program.fail (.protocol .invalidEscape) else expectCancel n

def decodeZescapedFollowup (escaped : UInt8) : ZmodemIo UInt8 :=
  if escaped = zrub0 then pure 0x7f
  else if escaped = zrub1 then pure 0xff
  else if escaped &&& 0x60 = 0x40 then pure (escaped ^^^ 0x40)
  else if escaped = zdle then expectCancel 3
  else Program.fail (.protocol .invalidEscape)

def readZescapedRound (_ : Unit) : ZmodemIo (Unit ⊕ UInt8) := do
  let byte ← readByte
  if isFlowControl byte then return .inl ()
  else if byte = zdle then do
    let escaped ← readByte
    let decoded ← decodeZescapedFollowup escaped
    return .inr decoded
  else return .inr byte

def readZescapedByte : ZmodemIo UInt8 := Program.loop readZescapedRound fuel ()

def readZescapedBytes : Nat → ZmodemIo Bytes
  | 0 => pure []
  | n + 1 => do
    let byte ← readZescapedByte fuel
    let bytes ← readZescapedBytes n
    return byte :: bytes

def hexValue (byte : UInt8) : Option UInt8 :=
  if 0x30 ≤ byte ∧ byte ≤ 0x39 then some (byte - 0x30)
  else if 0x61 ≤ byte ∧ byte ≤ 0x66 then some (byte - 0x61 + 10)
  else if 0x41 ≤ byte ∧ byte ≤ 0x46 then some (byte - 0x41 + 10)
  else none

def readHexNibble : ZmodemIo UInt8 := do
  let byte ← readByte
  match hexValue byte with
  | some value => return value
  | none => Program.fail (.unexpectedByte byte)

def readHexBytes : Nat → ZmodemIo Bytes
  | 0 => pure []
  | n + 1 => do
    let high ← readHexNibble
    let low ← readHexNibble
    let bytes ← readHexBytes n
    return ((high <<< 4) ||| low) :: bytes

def consumeHexHeaderLineEnd : ZmodemIo Unit := do
  let carriageReturn ← readByte
  if carriageReturn ≠ 0x0d then Program.fail (.unexpectedByte carriageReturn)
  else do
    let lineFeed ← readByte
    if lineFeed &&& 0x7f ≠ 0x0a then Program.fail (.unexpectedByte lineFeed) else return ()

/-- The header that decoded bytes stand for. -/
def decodedHeader (decoded : Bytes) (encoding : ZHeaderEncoding) : ZmodemIo ZHeader :=
  match ZFrameType.fromByte (decoded.getD 0 0) with
  | none => Program.fail (.protocol .invalidFrameType)
  | some frameType =>
    let position : ZPosition := { b0 := decoded.getD 1 0, b1 := decoded.getD 2 0,
                                  b2 := decoded.getD 3 0, b3 := decoded.getD 4 0 }
    pure { frameType, position, encoding }

def readHexZheader : ZmodemIo ZHeader := do
  let decoded ← readHexBytes 7
  if crc16Xmodem (decoded.take 5) ≠ u16FromBeBytes (decoded.drop 5) then
    Program.fail (.protocol .invalidCrc)
  else do
    consumeHexHeaderLineEnd
    decodedHeader decoded .hex

def readBinaryZheader (encoding : ZHeaderEncoding) : ZmodemIo ZHeader := do
  let decoded ← readZescapedBytes fuel (5 + if encoding = .bin32 then 4 else 2)
  match encoding with
  | .bin16 =>
    if (decoded.take 7).foldl crc16XmodemUpdate 0 ≠ 0 then Program.fail (.protocol .invalidCrc)
    else decodedHeader decoded encoding
  | .bin32 =>
    if crc32Ieee (decoded.take 5) ≠ u32FromLeBytes (decoded.drop 5) then
      Program.fail (.protocol .invalidCrc)
    else decodedHeader decoded encoding
  | .hex => Program.fail .unexpectedFrame

/-- A header in the encoding that its third or fourth byte says. -/
def readZheaderAs (encoding : UInt8) : ZmodemIo (Unit ⊕ ZHeader) :=
  if encoding = zhex then do
    let header ← readHexZheader
    return .inr header
  else if encoding = zbin then do
    let header ← readBinaryZheader fuel .bin16
    return .inr header
  else if encoding = zbin32 then do
    let header ← readBinaryZheader fuel .bin32
    return .inr header
  else Program.fail (.unexpectedByte encoding)

/-- What does not start a header is passed over. -/
def readZmodemHeaderRound (_ : Unit) : ZmodemIo (Unit ⊕ ZHeader) := do
  let first ← readByte
  if first ≠ zpad then return .inl ()
  else do
    let next ← readByte
    if next = zpad then do
      let third ← readByte
      if third ≠ zdle then return .inl ()
      else do
        let encoding ← readByte
        readZheaderAs fuel encoding
    else if next = zdle then do
      let encoding ← readByte
      readZheaderAs fuel encoding
    else return .inl ()

def readZmodemHeader : ZmodemIo ZHeader := Program.loop (readZmodemHeaderRound fuel) fuel ()

def readZmodemPayloadRound (maxPayload : Nat) (payload : Bytes) :
    ZmodemIo (Bytes ⊕ Bytes × ZDataEnd) := do
  let byte ← readByte
  if isFlowControl byte then return .inl payload
  else if byte ≠ zdle then
    if maxPayload ≤ payload.length then Program.fail (.protocol .invalidLength)
    else return .inl (payload ++ [byte])
  else do
    let escaped ← readByte
    match ZDataEnd.fromMarker escaped with
    | some frameEnd => return .inr (payload, frameEnd)
    | none =>
      if maxPayload ≤ payload.length then Program.fail (.protocol .invalidLength)
      else do
        let decoded ← decodeZescapedFollowup escaped
        return .inl (payload ++ [decoded])

/-- Whether these check bytes belong to a payload and its end. -/
def checksOut (useCrc32 : Bool) (payload : Bytes) (frameEnd : ZDataEnd) (check : Bytes) : Bool :=
  if useCrc32 then crc32Ieee (payload ++ [frameEnd.marker]) == u32FromLeBytes check
  else (payload ++ [frameEnd.marker] ++ check).foldl crc16XmodemUpdate 0 == 0

def readZmodemData (useCrc32 : Bool) (maxPayload : Nat) : ZmodemIo ZDataFrame := do
  let (payload, frameEnd) ← Program.loop (readZmodemPayloadRound maxPayload) fuel []
  let check ← readZescapedBytes fuel (if useCrc32 then 4 else 2)
  if checksOut useCrc32 payload frameEnd check then return { payload, frameEnd }
  else Program.fail (.protocol .invalidCrc)

end

def writeZheader (frameType : ZFrameType) (position : ZPosition) : ZmodemIo Unit :=
  writeAll (encodeHexHeader frameType position (frameType ∉ [.zFin, .zAck]))

/-- A binary header on the line. -/
def zbinaryHeader (frameType : ZFrameType) (position : ZPosition) (useCrc32 escapeControl : Bool) :
    Bytes :=
  if useCrc32 then encodeBin32Header frameType position escapeControl
  else encodeBin16Header frameType position escapeControl

def writeZbinaryHeader (frameType : ZFrameType) (position : ZPosition)
    (useCrc32 escapeControl : Bool) : ZmodemIo Unit :=
  writeAll (zbinaryHeader frameType position useCrc32 escapeControl)

/-- A subpacket on the line. -/
def encodeZdata (payload : Bytes) (frameEnd : ZDataEnd) (useCrc32 escapeControl : Bool) : Bytes :=
  let checked := payload ++ [frameEnd.marker]
  let check := if useCrc32 then u32ToLeBytes (crc32Ieee checked)
    else u16ToBeBytes (crc16Xmodem checked)
  zdleEscapedAll payload escapeControl ++ [zdle, frameEnd.marker] ++
    zdleEscapedAll check escapeControl ++ if frameEnd = .endWithAck then [xon] else []

def writeZdata (payload : Bytes) (frameEnd : ZDataEnd) (useCrc32 escapeControl : Bool) :
    ZmodemIo Unit :=
  writeAll (encodeZdata payload frameEnd useCrc32 escapeControl)

/-! ## Actions of a transfer -/

/-- What a transfer does with its peer and with files. -/
inductive ZCall where
  | readHeader
  | readData (useCrc32 : Bool) (maxPayload : Nat)
  | readByte
  | writeHeader (frameType : ZFrameType) (position : ZPosition)
  | writeBinaryHeader (frameType : ZFrameType) (position : ZPosition)
      (useCrc32 escapeControl : Bool)
  | writeData (payload : Bytes) (frameEnd : ZDataEnd) (useCrc32 escapeControl : Bool)
  | writeAll (bytes : Bytes)
  | file (call : FileCall)

/-- What an action returns. -/
abbrev ZCall.Answer : ZCall → Type
  | .readHeader => ZHeader
  | .readData _ _ => ZDataFrame
  | .readByte => UInt8
  | .writeHeader _ _ => Unit
  | .writeBinaryHeader _ _ _ _ => Unit
  | .writeData _ _ _ _ => Unit
  | .writeAll _ => Unit
  | .file call => call.Answer

/-- How an action is carried out, byte by byte. -/
def onLine (fuel : Nat) : (call : ZCall) → ZmodemIo call.Answer
  | .readHeader => readZmodemHeader fuel
  | .readData useCrc32 maxPayload => readZmodemData fuel useCrc32 maxPayload
  | .readByte => readByte
  | .writeHeader frameType position => writeZheader frameType position
  | .writeBinaryHeader frameType position useCrc32 escapeControl =>
    writeZbinaryHeader frameType position useCrc32 escapeControl
  | .writeData payload frameEnd useCrc32 escapeControl =>
    writeZdata payload frameEnd useCrc32 escapeControl
  | .writeAll bytes => writeAll bytes
  | .file call => onHost call

/-- A program in terms of frames. -/
abbrev Zmodem (α : Type) := Program ZCall ZCall.Answer ModemTransferError α

def readHeader : Zmodem ZHeader := Program.call (B := ZCall.Answer) ZCall.readHeader

def readData (useCrc32 : Bool) (maxPayload : Nat) : Zmodem ZDataFrame :=
  Program.call (B := ZCall.Answer) (ZCall.readData useCrc32 maxPayload)

def writeHeader (frameType : ZFrameType) (position : ZPosition) : Zmodem Unit :=
  Program.call (B := ZCall.Answer) (ZCall.writeHeader frameType position)

def onFile (call : FileCall) : Zmodem Unit := Program.call (B := ZCall.Answer) (ZCall.file call)

/-! ## What both sides share -/

def validateZmodemFileSize (fileSize : Nat) : Except ModemTransferError Unit :=
  if zmodemMaxPosition < fileSize then .error (.unsupportedFileSize fileSize) else .ok ()

def positionHeaderChecked (position : Nat) : Except ModemTransferError ZPosition :=
  if zmodemMaxPosition < position then .error (.unsupportedFileSize position)
  else .ok (positionHeader position)

/-- A header with a position that must fit. -/
def writePosition (frameType : ZFrameType) (position : Nat) : Zmodem Unit := do
  let position ← Program.done (positionHeaderChecked position)
  writeHeader frameType position

def parseZfileHeader (bytes : Bytes) (management : UInt8) :
    Except ModemTransferError (Option ZmodemFileHeader) :=
  let name := bytes.takeWhile (· ≠ 0)
  if name.length = bytes.length then .error (.protocol .invalidLength)
  else if name = [] then .ok none
  else
    let fileName := Text.fromUtf8Lossy name
    if '/' ∈ fileName ∨ '\\' ∈ fileName ∨ fileName = ['.'] ∨ fileName = ['.', '.'] then
      .error (.protocol .invalidFileName)
    else
      let metadata := Text.fromUtf8Lossy (bytes.drop (name.length + 1))
      let overwrite : Bool := management = zmodemFileClobber
      match Text.firstWord metadata with
      | none => .ok (some { fileName, fileSize := none, overwrite })
      | some word =>
        match Text.parseU64 word with
        | none => .error (.protocol .invalidLength)
        | some size => .ok (some { fileName, fileSize := some size, overwrite })

def buildZfileHeader (fileName : List Char) (fileSize : Nat) : Bytes :=
  Text.utf8Bytes fileName ++ [0] ++ Text.utf8Bytes (toString fileSize).toList

/-! ## Receiving -/

def sendZrinit : Zmodem Unit := writeHeader .zrInit zrinitFlags

/-- How many of the last bytes end the session, and how many cancel it. -/
def finishReceiveRound (counts : Nat × Nat) : Zmodem (Nat × Nat ⊕ Unit) := do
  let byte ← Program.call (B := ZCall.Answer) ZCall.readByte
  let consecutiveO := if byte = 0x4f then counts.1 + 1 else 0
  if consecutiveO = 2 then return .inr ()
  else
    let consecutiveCancel := if byte = zdle then counts.2 + 1 else 0
    if consecutiveCancel = 5 then Program.fail .cancelled
    else return .inl (consecutiveO, consecutiveCancel)

section

variable (fuel : Nat)

def finishZmodemReceive : Zmodem Unit := do
  writeHeader .zFin (positionHeader 0)
  Program.loop finishReceiveRound fuel (0, 0)

/-- What is done with a subpacket that checks out. -/
def acceptFrame (fileHeader : ZmodemFileHeader) (receivedOffset : Nat) (frame : ZDataFrame) :
    Zmodem (Nat ⊕ Nat) :=
  match checkedAdd receivedOffset frame.payload.length with
  | none => Program.fail .unexpectedFrame
  | some nextOffset =>
    if fileHeader.fileSize.any (· < nextOffset) then Program.fail .unexpectedFrame
    else do
      onFile (.writeAll frame.payload)
      match frame.frameEnd with
      | .continueFrame => return .inl nextOffset
      | .continueWithAck => do
        writePosition .zAck nextOffset
        return .inl nextOffset
      | .endFrame => return .inr nextOffset
      | .endWithAck => do
        writePosition .zAck nextOffset
        return .inr nextOffset

/-- One subpacket of a file, of which so much has been received. -/
def dataRound (fileHeader : ZmodemFileHeader) (useCrc32 : Bool) (receivedOffset : Nat) :
    Zmodem (Nat ⊕ Nat) := do
  match ← (readData useCrc32 zmodemMaxChunk).attempt with
  | .ok frame => acceptFrame fileHeader receivedOffset frame
  | .error error =>
    if error = .protocol .invalidCrc then do
      writePosition .zRpos receivedOffset
      return .inr receivedOffset
    else Program.fail error

/-- What is done with a header within a file, of which so much has been received. -/
def fileFrame (fileHeader : ZmodemFileHeader) (receivedOffset : Nat) (dataHeader : ZHeader) :
    Zmodem (Nat ⊕ Unit) :=
  match dataHeader.frameType with
  | .zData =>
    if dataHeader.positionU32 ≠ receivedOffset then do
      writePosition .zRpos receivedOffset
      return .inl receivedOffset
    else do
      let nextOffset ← Program.loop (dataRound fileHeader (dataHeader.encoding = .bin32)) fuel
        receivedOffset
      return .inl nextOffset
  | .zEof =>
    if dataHeader.positionU32 ≠ receivedOffset ∨
        ¬ fileHeader.fileSize.all (· = receivedOffset) then do
      writePosition .zRpos receivedOffset
      return .inl receivedOffset
    else do
      onFile .flush
      sendZrinit
      return .inr ()
  | .zAbort => Program.fail .cancelled
  | .zCan => Program.fail .cancelled
  | _ => Program.fail .unexpectedFrame

/-- One frame of a file. -/
def fileRound (fileHeader : ZmodemFileHeader) (receivedOffset : Nat) : Zmodem (Nat ⊕ Unit) := do
  let dataHeader ← readHeader
  fileFrame fuel fileHeader receivedOffset dataHeader

/-- A file, from its header on. -/
def receiveFile (fileHeader : ZmodemFileHeader) : Zmodem Unit := do
  Program.done (fileHeader.fileSize.elim (.ok ()) validateZmodemFileSize)
  onFile (.openWriter fileHeader)
  writePosition .zRpos 0
  Program.loop (fileRound fuel fileHeader) fuel 0

/-- What is done with a header between files. -/
def sessionFrame (received : List ZmodemFileHeader) (header : ZHeader) :
    Zmodem (List ZmodemFileHeader ⊕ List ZmodemFileHeader) :=
  match header.frameType with
  | .zrqInit => do
    sendZrinit
    return .inl received
  | .zFile => do
    let frame ← readData (header.encoding = .bin32) zmodemMaxChunk
    if frame.frameEnd ≠ .endWithAck then Program.fail .unexpectedFrame
    else
      match ← Program.done (parseZfileHeader frame.payload header.position.b2) with
      | none => do
        finishZmodemReceive fuel
        return .inr received
      | some fileHeader => do
        receiveFile fuel fileHeader
        return .inl (received ++ [fileHeader])
  | .zsInit => do
    let frame ← readData (header.encoding = .bin32) zmodemAttentionMaxBytes
    if frame.frameEnd ≠ .endWithAck then Program.fail .unexpectedFrame
    else do
      writeHeader .zAck (positionHeader 1)
      return .inl received
  | .zFin => do
    finishZmodemReceive fuel
    return .inr received
  | .zAbort => Program.fail .cancelled
  | .zCan => Program.fail .cancelled
  | _ => return .inl received

/-- One frame between files. -/
def sessionRound (received : List ZmodemFileHeader) :
    Zmodem (List ZmodemFileHeader ⊕ List ZmodemFileHeader) := do
  let header ← readHeader
  sessionFrame fuel received header

def receiveZmodem : Zmodem (List ZmodemFileHeader) := do
  sendZrinit
  Program.loop (sessionRound fuel) fuel []

end

/-! ## Sending -/

structure ZmodemSendStreamEntry (R : Type) where
  fileName : List Char
  fileSize : Nat
  reader : R

inductive ZmodemSendDataResult where
  | complete
  | resumeAt (offset : Nat)
  | skip

def waitForZrinitRound (_ : Unit) : Zmodem (Unit ⊕ ZmodemPeerCapabilities) := do
  let header ← readHeader
  match header.frameType with
  | .zrInit =>
    let advertisedChunk := header.position.b0.toNat + 256 * header.position.b1.toNat
    return .inr
      { chunkSize := if advertisedChunk < 32 then 1024 else min advertisedChunk zmodemMaxChunk
        useCrc32 := header.position.b3 &&& zmodemCanCrc32 ≠ 0
        escapeControl := header.position.b3 &&& zmodemEscapeControl ≠ 0 }
  | .zrqInit => do
    writeHeader .zrInit zrinitFlags
    return .inl ()
  | .zAbort => Program.fail .cancelled
  | .zCan => Program.fail .cancelled
  | _ => return .inl ()

section

variable (peer : ZmodemPeerCapabilities)

def writePeerHeader (frameType : ZFrameType) (position : ZPosition) : Zmodem Unit :=
  Program.call (B := ZCall.Answer)
    (ZCall.writeBinaryHeader frameType position peer.useCrc32 peer.escapeControl)

def writePeerData (payload : Bytes) (frameEnd : ZDataEnd) : Zmodem Unit :=
  Program.call (B := ZCall.Answer)
    (ZCall.writeData payload frameEnd peer.useCrc32 peer.escapeControl)

variable {R : Type} [Read R]

/-- The response to a subpacket that is not the last one. -/
def chunkResponse (sentOffset : Nat) (reader : R) (response : ZHeader) :
    Zmodem (Nat × R ⊕ ZmodemSendDataResult × R) :=
  match response.frameType with
  | .zAck =>
    if response.positionU32 = sentOffset then return .inl (sentOffset, reader)
    else Program.fail .unexpectedFrame
  | .zRpos => return .inr (.resumeAt response.positionU32, reader)
  | .zSkip => return .inr (.skip, reader)
  | .zAbort => Program.fail .cancelled
  | .zCan => Program.fail .cancelled
  | _ => Program.fail .unexpectedFrame

/-- One subpacket of a file, of which so much is sent. -/
def sendChunk (fileSize : Nat) (s : Nat × R) : Zmodem (Nat × R ⊕ ZmodemSendDataResult × R) :=
  if fileSize ≤ s.1 then return .inr (.complete, s.2)
  else do
    let (bytes, reader) ← Program.done
      (readPadded s.2 (min (fileSize - s.1) peer.chunkSize))
    if bytes = [] then Program.fail .unexpectedFrame
    else if s.1 + bytes.length < fileSize then do
      writePeerData peer bytes .continueWithAck
      let response ← readHeader
      chunkResponse (s.1 + bytes.length) reader response
    else do
      writePeerData peer bytes .endFrame
      return .inl (s.1 + bytes.length, reader)

variable [Seek R] (fuel : Nat)

/-- The end of a file of which all is sent from the start on. -/
def sendZeof (fileSize start : Nat) : Zmodem Unit :=
  if start = fileSize then do
    writePeerData peer [] .endFrame
    writePosition .zEof fileSize
  else writePosition .zEof fileSize

/-- What follows the subpackets of a file. -/
def finishStream (fileSize start : Nat) (outcome : ZmodemSendDataResult × R) :
    Zmodem (ZmodemSendDataResult × R) :=
  match outcome.1 with
  | .complete => do
    sendZeof peer fileSize start
    return outcome
  | .resumeAt _ => return outcome
  | .skip => return outcome

def sendZfileDataStream (reader : R) (fileSize offset : Nat) :
    Zmodem (ZmodemSendDataResult × R) := do
  let start := min offset fileSize
  let reader ← Program.done (Seek.seek reader start)
  let position ← Program.done (positionHeaderChecked start)
  writePeerHeader peer .zData position
  let outcome ← Program.loop (sendChunk peer fileSize) fuel (start, reader)
  finishStream peer fileSize start outcome

/-- The response to a file that is sent; what the file counts when it is over. -/
def fileResponse (fileSize : Nat) (reader : R) (followup : ZHeader) : Zmodem (Nat × R ⊕ Nat) :=
  match followup.frameType with
  | .zrInit => return .inr fileSize
  | .zRpos =>
    if fileSize < followup.positionU32 then Program.fail .unexpectedFrame
    else return .inl (followup.positionU32, reader)
  | .zSkip => return .inr 0
  | .zAbort => Program.fail .cancelled
  | .zCan => Program.fail .cancelled
  | _ => Program.fail .unexpectedFrame

/-- What follows an attempt to send a file. -/
def afterStream (fileSize : Nat) (outcome : ZmodemSendDataResult × R) :
    Zmodem (Nat × R ⊕ Nat) :=
  match outcome.1 with
  | .complete => do
    let followup ← readHeader
    fileResponse fileSize outcome.2 followup
  | .resumeAt nextOffset =>
    if fileSize < nextOffset then Program.fail .unexpectedFrame
    else return .inl (nextOffset, outcome.2)
  | .skip => return .inr 0

/-- One attempt to send a file from an offset; what it counts when it is over. -/
def sendFileRound (fileSize : Nat) (s : Nat × R) : Zmodem (Nat × R ⊕ Nat) := do
  let outcome ← sendZfileDataStream peer fuel s.2 fileSize s.1
  afterStream fileSize outcome

/-- The response to a file header; what the file counts when it is over. -/
def responseRound (entry : ZmodemSendStreamEntry R) (_ : Unit) : Zmodem (Unit ⊕ Nat) := do
  let response ← readHeader
  match response.frameType with
  | .zRpos =>
    if entry.fileSize < response.positionU32 then Program.fail .unexpectedFrame
    else do
      let counted ← Program.loop (sendFileRound peer fuel entry.fileSize) fuel
        (response.positionU32, entry.reader)
      return .inr counted
  | .zSkip => return .inr 0
  | .zAbort => Program.fail .cancelled
  | .zCan => Program.fail .cancelled
  | _ => return .inl ()

/-- The files one after the other, with what they count so far. -/
def sendEntries : List (ZmodemSendStreamEntry R) → Nat → Zmodem Nat
  | [], total => pure total
  | entry :: entries, total => do
    writePeerHeader peer .zFile zfileBinaryFlags
    writePeerData peer (buildZfileHeader entry.fileName entry.fileSize) .endWithAck
    let counted ← Program.loop (responseRound peer fuel entry) fuel ()
    sendEntries entries (total + counted)

end

/-- The rounds in which the sender ends the session. -/
def finishSendRounds : Nat → Zmodem Unit
  | 0 => Program.fail .timeout
  | rounds + 1 => do
    writeHeader .zFin (positionHeader 0)
    let header ← readHeader
    if header.frameType = .zFin then
      Program.call (B := ZCall.Answer) (ZCall.writeAll [0x4f, 0x4f])
    else if header.frameType ∈ [.zAbort, .zCan, .zFerr] then Program.fail .cancelled
    else finishSendRounds rounds

def finishZmodemSend : Zmodem Unit := finishSendRounds 3

def sendZmodemStream {R : Type} [Read R] [Seek R] (fuel : Nat)
    (entries : List (ZmodemSendStreamEntry R)) : Zmodem Nat := do
  Program.done (entries.forM fun entry => validateZmodemFileSize entry.fileSize)
  let peer ← Program.loop waitForZrinitRound fuel ()
  let total ← sendEntries peer fuel entries 0
  finishZmodemSend
  return total

end OxideTerm.Modem
