import OxideTerm.Lib.Words

/-!
# X11 setup packets

The first packet of an X11 connection: a header with the byte order and the lengths, the name of the
authentication protocol and its data, each padded to words. Its data is compared with a fake cookie
and replaced by the local one. A slice outside of a packet is a panic.
-/

namespace OxideTerm.X11

open Lib Lib.Text

/-! ## Cookies -/

inductive X11AuthProtocol where
  | mitMagicCookie1
deriving DecidableEq, Repr

/-- `X11AuthCookie`, which is not empty. -/
abbrev X11AuthCookie := { bytes : Bytes // bytes ≠ [] }

inductive X11ForwardingError where
  | invalidAuthCookie (message : String)
  | unsupportedAuthProtocol (name : List Char)
  | authCookieMismatch
  | incompleteSetupPacket
  | setupPacketTooLarge (limit : Nat)
  | unsupportedByteOrder (byte : UInt8)
  | invalidSetupPacketLength
deriving DecidableEq, Repr

/-- How a call ends without a result: with an error, or in a panic. -/
inductive Failure where
  | error (error : X11ForwardingError)
  | panic
deriving DecidableEq, Repr

structure X11AuthMaterial where
  protocol : X11AuthProtocol
  fakeCookie : X11AuthCookie
  localCookie : X11AuthCookie
deriving DecidableEq

namespace X11AuthProtocol

/-- `ssh_name`. -/
def sshName : X11AuthProtocol → List Char
  | mitMagicCookie1 => "MIT-MAGIC-COOKIE-1".toList

/-- `X11AuthProtocol::parse`. -/
def parse (input : List Char) : Except Failure X11AuthProtocol :=
  if trim input = sshName mitMagicCookie1 then .ok mitMagicCookie1
  else .error (.error (.unsupportedAuthProtocol (trim input)))

end X11AuthProtocol

/-- `X11AuthCookie::from_bytes`. -/
def X11AuthCookie.fromBytes (bytes : Bytes) : Except Failure X11AuthCookie :=
  if h : bytes ≠ [] then .ok ⟨bytes, h⟩
  else .error (.error (.invalidAuthCookie "cookie bytes must not be empty"))

/-! ## Bytes -/

inductive X11ByteOrder where
  | bigEndian
  | littleEndian
deriving DecidableEq, Repr

def setupHeaderLen : Nat := 12

/-- `&bytes[first..last]`. -/
def slice (bytes : Bytes) (first last : Nat) : Except Failure Bytes :=
  if first ≤ last ∧ last ≤ bytes.length then .ok ((bytes.drop first).take (last - first))
  else .error .panic

/-- `bytes[first..last].copy_from_slice(source)`. -/
def copyFromSlice (bytes : Bytes) (first last : Nat) (source : Bytes) : Except Failure Bytes :=
  if first ≤ last ∧ last ≤ bytes.length ∧ source.length = last - first then
    .ok (bytes.take first ++ (source ++ bytes.drop last))
  else .error .panic

/-- `bytes[index]`. -/
def byteAt (bytes : Bytes) (index : Nat) : Except Failure UInt8 :=
  match bytes[index]? with
  | some byte => .ok byte
  | none => .error .panic

def parseByteOrder (byte : UInt8) : Except Failure X11ByteOrder :=
  if byte = 66 then .ok .bigEndian
  else if byte = 108 then .ok .littleEndian
  else .error (.error (.unsupportedByteOrder byte))

def readU16 (bytes : Bytes) (byteOrder : X11ByteOrder) : Except Failure UInt16 := do
  let first ← byteAt bytes 0
  let second ← byteAt bytes 1
  match byteOrder with
  | .bigEndian => return u16FromBeBytes [first, second]
  | .littleEndian => return u16FromBeBytes [second, first]

/-- What `write_u16` writes. -/
def encodeU16 (value : UInt16) : X11ByteOrder → Bytes
  | .bigEndian => u16ToBeBytes value
  | .littleEndian => (u16ToBeBytes value).reverse

/-- `padded_len`; the two low bits of a sum are cleared. -/
def paddedLen (len : Nat) : Except Failure Nat :=
  match checkedAdd len 3 with
  | some value => .ok (value / 4 * 4)
  | none => .error (.error .invalidSetupPacketLength)

/-- A sum, or the error for lengths. -/
def addLen (left right : Nat) : Except Failure Nat :=
  match checkedAdd left right with
  | some sum => .ok sum
  | none => .error (.error .invalidSetupPacketLength)

/-! ## Packets -/

structure X11SetupRequest where
  byteOrder : X11ByteOrder
  protocolMajor : UInt16
  protocolMinor : UInt16
  authProtocol : List Char
  authDataLen : Nat
deriving DecidableEq, Repr

structure ParsedSetup where
  request : X11SetupRequest
  authProtocolBytes : Bytes
  authDataStart : Nat
  authDataEnd : Nat
  authDataPaddedEnd : Nat
deriving DecidableEq, Repr

def setupPacketTotalLen (packet : Bytes) : Except Failure (Option Nat) :=
  if packet.length < setupHeaderLen then .ok none
  else do
    let byteOrder ← parseByteOrder (← byteAt packet 0)
    let authProtocolLen ← readU16 (← slice packet 6 8) byteOrder
    let authDataLen ← readU16 (← slice packet 8 10) byteOrder
    let authProtocolPaddedLen ← paddedLen authProtocolLen.toNat
    let authDataPaddedLen ← paddedLen authDataLen.toNat
    let total ← addLen (← addLen setupHeaderLen authProtocolPaddedLen) authDataPaddedLen
    return some total

def parseSetupPacket (packet : Bytes) : Except Failure ParsedSetup := do
  match ← setupPacketTotalLen packet with
  | none => .error (.error .incompleteSetupPacket)
  | some packetMinLen =>
    if packet.length < packetMinLen then .error (.error .incompleteSetupPacket)
    else do
      let byteOrder ← parseByteOrder (← byteAt packet 0)
      let protocolMajor ← readU16 (← slice packet 2 4) byteOrder
      let protocolMinor ← readU16 (← slice packet 4 6) byteOrder
      let authProtocolLen ← readU16 (← slice packet 6 8) byteOrder
      let authDataLen ← readU16 (← slice packet 8 10) byteOrder
      let authProtocolPaddedLen ← paddedLen authProtocolLen.toNat
      let authProtocolEnd ← addLen setupHeaderLen authProtocolLen.toNat
      let authDataStart ← addLen setupHeaderLen authProtocolPaddedLen
      let authDataEnd ← addLen authDataStart authDataLen.toNat
      let authProtocolBytes ← slice packet setupHeaderLen authProtocolEnd
      return {
        request :=
          { byteOrder
            protocolMajor
            protocolMinor
            authProtocol := fromUtf8Lossy authProtocolBytes
            authDataLen := authDataLen.toNat }
        authProtocolBytes
        authDataStart
        authDataEnd
        authDataPaddedEnd := packetMinLen }

structure X11SetupAuthentication where
  request : X11SetupRequest
  protocol : X11AuthProtocol
  fakeCookie : X11AuthCookie

def inspectSetupRequest (packet : Bytes) : Except Failure X11SetupRequest := do
  return (← parseSetupPacket packet).request

def inspectSetupAuthentication (packet : Bytes) : Except Failure X11SetupAuthentication := do
  let parsed ← parseSetupPacket packet
  let protocol ← X11AuthProtocol.parse parsed.request.authProtocol
  let fakeCookie ← X11AuthCookie.fromBytes (← slice packet parsed.authDataStart parsed.authDataEnd)
  return { request := parsed.request, protocol, fakeCookie }

/-! ## Rewriting -/

/-- `rewrite_auth_data`, with the packet after it. -/
def rewriteAuthData (packet : Bytes) (parsed : ParsedSetup) (replacement : Bytes) :
    Except Failure Bytes :=
  if 65535 < replacement.length then .error (.error .invalidSetupPacketLength)
  else do
    let packet ← copyFromSlice packet 8 10
      (encodeU16 (UInt16.ofNat replacement.length) parsed.request.byteOrder)
    if replacement.length = parsed.authDataEnd - parsed.authDataStart then
      copyFromSlice packet parsed.authDataStart parsed.authDataEnd replacement
    else do
      let tail ← slice packet parsed.authDataPaddedEnd packet.length
      let padded ← paddedLen replacement.length
      return packet.take parsed.authDataStart ++ (replacement ++
        (List.replicate (padded - replacement.length) 0 ++ tail))

/-- `rewrite_setup_authentication`, with the packet after it. -/
def rewriteSetupAuthentication (packet : Bytes) (auth : X11AuthMaterial) :
    Except Failure (X11SetupRequest × Bytes) := do
  let parsed ← parseSetupPacket packet
  if parsed.authProtocolBytes ≠ utf8Bytes auth.protocol.sshName then
    .error (.error (.unsupportedAuthProtocol (fromUtf8Lossy parsed.authProtocolBytes)))
  else do
    let suppliedCookie ← slice packet parsed.authDataStart parsed.authDataEnd
    if suppliedCookie ≠ auth.fakeCookie.1 then .error (.error .authCookieMismatch)
    else do
      let packet ← rewriteAuthData packet parsed auth.localCookie.1
      return (parsed.request, packet)

/-- `build_auth_failure_response`. -/
def buildAuthFailureResponse (request : X11SetupRequest) (reason : List Char) :
    Except Failure Bytes :=
  let reasonBytes := utf8Bytes reason
  if 255 < reasonBytes.length then .error (.error .invalidSetupPacketLength)
  else do
    let paddedReasonLen ← paddedLen reasonBytes.length
    let lengthUnits := paddedReasonLen / 4
    if 65535 < lengthUnits then .error (.error .invalidSetupPacketLength)
    else
      return [0, UInt8.ofNat reasonBytes.length] ++
        encodeU16 request.protocolMajor request.byteOrder ++
        encodeU16 request.protocolMinor request.byteOrder ++
        encodeU16 (UInt16.ofNat lengthUnits) request.byteOrder ++ reasonBytes ++
        List.replicate (paddedReasonLen - reasonBytes.length) 0

end OxideTerm.X11
