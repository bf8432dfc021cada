import OxideTerm.Modem.Io
import OxideTerm.Modem.Crc

/-!
# ZMODEM frames

A header has a type and four bytes of data, in hexadecimal or in one of two binary encodings, and
data comes in subpackets that end with a marker and a check value. In binary, bytes that would get
lost on the way are escaped.
-/

namespace OxideTerm.Modem

open OxideTerm.Lib

def zpad : UInt8 := 0x2a
def zdle : UInt8 := 0x18
def zbin : UInt8 := 0x41
def zhex : UInt8 := 0x42
def zbin32 : UInt8 := 0x43
def xon : UInt8 := 0x11
def zcrce : UInt8 := 0x68
def zcrcg : UInt8 := 0x69
def zcrcq : UInt8 := 0x6a
def zcrcw : UInt8 := 0x6b
def zrub0 : UInt8 := 0x6c
def zrub1 : UInt8 := 0x6d

inductive ZFrameType where
  | zrqInit
  | zrInit
  | zsInit
  | zAck
  | zFile
  | zSkip
  | zNak
  | zAbort
  | zFin
  | zRpos
  | zData
  | zEof
  | zFerr
  | zCrc
  | zChallenge
  | zCompl
  | zCan
  | zFreeCnt
  | zCommand
  | zStderr
deriving DecidableEq, Repr

namespace ZFrameType

/-- All types, in the order of their numbers. -/
def all : List ZFrameType :=
  [zrqInit, zrInit, zsInit, zAck, zFile, zSkip, zNak, zAbort, zFin, zRpos, zData, zEof, zFerr, zCrc,
    zChallenge, zCompl, zCan, zFreeCnt, zCommand, zStderr]

def toByte (frameType : ZFrameType) : UInt8 := UInt8.ofNat (all.idxOf frameType)

def fromByte (byte : UInt8) : Option ZFrameType := all[byte.toNat]?

@[simp] theorem fromByte_toByte (frameType : ZFrameType) :
    fromByte frameType.toByte = some frameType := by
  cases frameType <;> rfl

end ZFrameType

inductive ZHeaderEncoding where
  | bin16
  | bin32
  | hex
deriving DecidableEq, Repr

/-- The four bytes of data in a header. -/
structure ZPosition where
  b0 : UInt8
  b1 : UInt8
  b2 : UInt8
  b3 : UInt8
deriving DecidableEq, Repr

namespace ZPosition

def bytes (position : ZPosition) : Bytes := [position.b0, position.b1, position.b2, position.b3]

/-- `u32::from_le_bytes`. -/
def value (position : ZPosition) : Nat :=
  position.b0.toNat + 256 * (position.b1.toNat + 256 * (position.b2.toNat + 256 * position.b3.toNat))

end ZPosition

structure ZHeader where
  frameType : ZFrameType
  position : ZPosition
  encoding : ZHeaderEncoding
deriving DecidableEq, Repr

namespace ZHeader

def positionU32 (header : ZHeader) : Nat := header.position.value

/-- What the check value of a header covers. -/
def payload (frameType : ZFrameType) (position : ZPosition) : Bytes :=
  frameType.toByte :: position.bytes

end ZHeader

/-- `u32::to_le_bytes`. -/
def positionHeader (position : Nat) : ZPosition where
  b0 := UInt8.ofNat position
  b1 := UInt8.ofNat (position / 256)
  b2 := UInt8.ofNat (position / 65536)
  b3 := UInt8.ofNat (position / 16777216)

theorem value_positionHeader {position : Nat} (h : position < 2 ^ 32) :
    (positionHeader position).value = position := by
  simp only [ZPosition.value, positionHeader, UInt8.toNat_ofNat']
  omega

/-! ## Ends of subpackets -/

inductive ZDataEnd where
  | endFrame
  | continueFrame
  | continueWithAck
  | endWithAck
deriving DecidableEq, Repr

namespace ZDataEnd

def marker : ZDataEnd → UInt8
  | endFrame => zcrce
  | continueFrame => zcrcg
  | continueWithAck => zcrcq
  | endWithAck => zcrcw

def fromMarker (marker : UInt8) : Option ZDataEnd :=
  if marker = zcrce then some endFrame
  else if marker = zcrcg then some continueFrame
  else if marker = zcrcq then some continueWithAck
  else if marker = zcrcw then some endWithAck
  else none

@[simp] theorem fromMarker_marker (e : ZDataEnd) : fromMarker e.marker = some e := by
  cases e <;> rfl

end ZDataEnd

/-! ## Encoding -/

def hexDigits : Bytes :=
  [0x30, 0x31, 0x32, 0x33, 0x34, 0x35, 0x36, 0x37, 0x38, 0x39, 0x61, 0x62, 0x63, 0x64, 0x65, 0x66]

def hexByte (byte : UInt8) : Bytes :=
  [hexDigits.getD (byte >>> 4).toNat 0, hexDigits.getD (byte &&& 0x0f).toNat 0]

def shouldEscapeZdle (byte : UInt8) : Bool :=
  byte ∈ [zdle, 0x10, 0x11, 0x13, 0x90, 0x91, 0x93]

def zdleEscaped (byte : UInt8) (escapeControl : Bool) : Bytes :=
  if shouldEscapeZdle byte ∨ (escapeControl ∧ byte &&& 0x60 = 0) then [zdle, byte ^^^ 0x40]
  else [byte]

/-- Bytes that are escaped one by one. -/
def zdleEscapedAll (bytes : Bytes) (escapeControl : Bool) : Bytes :=
  bytes.flatMap fun byte => zdleEscaped byte escapeControl

def encodeHexHeader (frameType : ZFrameType) (position : ZPosition) (includeXon : Bool) : Bytes :=
  let payload := ZHeader.payload frameType position
  [zpad, zpad, zdle, zhex] ++ (payload ++ u16ToBeBytes (crc16Xmodem payload)).flatMap hexByte ++
    [0x0d, 0x8a] ++ if includeXon then [xon] else []

/-- The check value of a binary header, which is sent with it. -/
def crc16Sent (payload : Bytes) : UInt16 :=
  crc16XmodemUpdate (crc16XmodemUpdate (payload.foldl crc16XmodemUpdate 0) 0) 0

def encodeBin16Header (frameType : ZFrameType) (position : ZPosition) (escapeControl : Bool) :
    Bytes :=
  let payload := ZHeader.payload frameType position
  [zpad, zdle, zbin] ++
    zdleEscapedAll (payload ++ u16ToBeBytes (crc16Sent payload)) escapeControl

def encodeBin32Header (frameType : ZFrameType) (position : ZPosition) (escapeControl : Bool) :
    Bytes :=
  let payload := ZHeader.payload frameType position
  [zpad, zdle, zbin32] ++
    zdleEscapedAll (payload ++ u32ToLeBytes (crc32Ieee payload)) escapeControl

/-! ## Decoding -/

/-- The byte that an escaped one stands for. -/
def unescapedZdle (escaped : UInt8) : Option UInt8 :=
  if escaped = zrub0 then some 0x7f
  else if escaped = zrub1 then some 0xff
  else if escaped &&& 0x60 = 0x40 then some (escaped ^^^ 0x40)
  else none

/-- So many bytes from the front; nothing is passed over. -/
def decodeZdlePayload : Bytes → Nat → Except ModemError Bytes
  | _, 0 => .ok []
  | [], _ + 1 => .error .incomplete
  | byte :: bytes, n + 1 =>
    if byte = zdle then
      match bytes with
      | [] => .error .incomplete
      | escaped :: bytes =>
        match unescapedZdle escaped with
        | none => .error .invalidEscape
        | some decoded =>
          match decodeZdlePayload bytes n with
          | .error e => .error e
          | .ok rest => .ok (decoded :: rest)
    else
      match decodeZdlePayload bytes n with
      | .error e => .error e
      | .ok rest => .ok (byte :: rest)

/-- The header in decoded bytes. The type is looked at first. -/
def headerOf (encoding : ZHeaderEncoding) (decoded : Bytes) : Except ModemError ZHeader :=
  match ZFrameType.fromByte (decoded.getD 0 0) with
  | none => .error .invalidFrameType
  | some frameType =>
    let header : ZHeader :=
      { frameType
        position := { b0 := decoded.getD 1 0, b1 := decoded.getD 2 0,
                      b2 := decoded.getD 3 0, b3 := decoded.getD 4 0 }
        encoding }
    match encoding with
    | .bin16 =>
      if crc16Sent (decoded.take 5) ≠ u16FromBeBytes (decoded.drop 5) then .error .invalidCrc
      else .ok header
    | .bin32 =>
      if crc32Ieee (decoded.take 5) ≠ u32FromLeBytes (decoded.drop 5) then .error .invalidCrc
      else .ok header
    | .hex => .error .invalidFrameEncoding

/-- The binary header at the front of the bytes. -/
def parseBinaryHeader : Bytes → Except ModemError ZHeader
  | first :: second :: third :: bytes =>
    if first ≠ zpad ∨ second ≠ zdle then .error .invalidMarker
    else if third = zbin then (decodeZdlePayload bytes 7).bind (headerOf .bin16)
    else if third = zbin32 then (decodeZdlePayload bytes 9).bind (headerOf .bin32)
    else .error .invalidFrameEncoding
  | _ => .error .incomplete

end OxideTerm.Modem
