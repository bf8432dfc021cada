import OxideTerm.Connections.Container

/-!
# Archives

An `.oxide` archive as it is read and written. Since the second version of the container it is one
sealed document, which is kept as it came; before, the header was followed by metadata in the clear,
what the cipher made of the payload, and its tag.

The JSON text of metadata and the MessagePack of payloads are made by code from outside the
repository; they are parameters, with the types that they describe.
-/

namespace OxideTerm.Connections

open OxideTerm.Lib

/-- `VERSION`, of the first container. -/
def fileVersion : UInt32 := 1

abbrev Tag := FixedBytes tagLen

/-- `serde_json` for `Option<OxideMetadata>`, and for `OxideMetadata`. -/
structure MetadataJson (Metadata : Type) where
  toVec : Option Metadata → Bytes
  fromSlice : Bytes → Option Metadata

/-- A value is read back, and no part of an object's text in front of its end is a text. -/
structure MetadataJson.Lawful {Metadata : Type} (json : MetadataJson Metadata) : Prop where
  fromSlice_toVec : ∀ metadata, json.fromSlice (json.toVec (some metadata)) = some metadata
  fromSlice_front : ∀ metadata front behind, json.toVec (some metadata) = front ++ behind →
    behind ≠ [] → json.fromSlice front = none

/-- `rmp_serde::from_slice`, and the checksum of a payload. -/
structure PayloadPack (Metadata Payload : Type) where
  archive : Bytes → Option (Metadata × Payload)
  payload : Bytes → Option Payload
  verifyChecksum : Payload → Except OxideFileError Unit

structure OxideFile (Metadata : Type) where
  metadata : Option Metadata
  archive : Option Bytes
  salt : Salt
  nonce : Nonce
  encryptedData : Bytes
  tag : Tag
  kdfVersion : UInt32

/-! ## Headers -/

theorem length_zeros (n : Nat) : (List.replicate n (0 : UInt8)).length = n := List.length_replicate

namespace FileHeader

/-- `FileHeader::new`. -/
def new (metadataLength encryptedDataLength : UInt32) : FileHeader :=
  { magic := ⟨Connections.magic, length_magic⟩
    version := fileVersion
    flags := currentKdf
    metadataLength
    encryptedDataLength }

def kdfVersion (header : FileHeader) : UInt32 := header.flags &&& kdfVersionMask

/-- A word of the header, with the message if it cannot be read. -/
def word (data : Bytes) (offset : Nat) (message : String) : Except Failure UInt32 := do
  let word ← fixed 4 (← sliceBytes data offset (offset + 4)) (.error (.invalidFormat message))
  return u32FromLeBytes word.1

/-- `FileHeader::from_bytes`. -/
def fromBytes (data : Bytes) : Except Failure FileHeader :=
  if data.length < headerLen then .error (.error (.invalidFormat "Header too short"))
  else do
    let magic ← fixed 5 (← sliceBytes data 0 5) .panic
    if magic.1 ≠ Connections.magic then .error (.error .invalidMagic)
    else do
      let version ← word data 5 "Failed to read version"
      if version ≠ fileVersion then .error (.error (.unsupportedVersion version))
      else do
        let flags ← word data 9 "Failed to read flags"
        let metadataLength ← word data 13 "Failed to read metadata length"
        let encryptedDataLength ← word data 17 "Failed to read encrypted data length"
        return { magic, version, flags, metadataLength, encryptedDataLength }

end FileHeader

/-! ## Reading and writing -/

/-- `data.get(first..last)`. -/
def getBytes (data : Bytes) (first last : Nat) : Option Bytes := (sliceBytes data first last).toOption

/-- `Cursor::read_exact` of so many bytes, with what is left behind them. -/
def readExact (n : Nat) (rest : Bytes) (message : String) :
    Except Failure (FixedBytes n × Bytes) :=
  if h : n ≤ rest.length then .ok (⟨rest.take n, List.length_take_of_le h⟩, rest.drop n)
  else .error (.error (.invalidFormat message))

namespace OxideFile

variable {Metadata Payload : Type} (json : MetadataJson Metadata)

def toBytes (file : OxideFile Metadata) : Bytes :=
  match file.archive with
  | some bytes => bytes
  | none =>
    let metadataJson := json.toVec file.metadata
    let header := FileHeader.new (UInt32.ofNat metadataJson.length)
      (UInt32.ofNat file.encryptedData.length)
    header.toBytes ++ file.salt.1 ++ file.nonce.1 ++ metadataJson ++ file.encryptedData ++ file.tag.1

/-- The first branch of `from_bytes`: a sealed document. -/
def fromDocument (data : Bytes) : Except Failure (OxideFile Metadata) := do
  let flags ← validateContainer data
  if flags &&& ~~~kdfVersionMask ≠ 0 then
    .error (.error (.invalidFormat "Expected a password-encrypted archive"))
  else do
    let salt ← fixed saltLen (← sliceBytes data headerLen (headerLen + saltLen)) (.error .cryptoError)
    let nonce ← fixed nonceLen (← sliceBytes data (headerLen + saltLen) prefixLen)
      (.error .cryptoError)
    return {
      metadata := none
      archive := some data
      salt
      nonce
      encryptedData := []
      tag := ⟨List.replicate tagLen 0, length_zeros tagLen⟩
      kdfVersion := flags &&& kdfVersionMask }

/-- The rest of `from_bytes`: the parts in their order; what is behind them is not looked at. -/
def fromParts (data : Bytes) : Except Failure (OxideFile Metadata) := do
  let (headerBytes, rest) ← readExact headerLen data "Failed to read header"
  let header ← FileHeader.fromBytes headerBytes.1
  -- lengths of 32 bits do not saturate the sum
  let expectedLen := headerLen + saltLen + nonceLen + header.metadataLength.toNat +
    header.encryptedDataLength.toNat + tagLen
  if data.length < expectedLen then
    .error (.error (.invalidFormat "File is shorter than header lengths"))
  else do
    let (salt, rest) ← readExact saltLen rest "Failed to read salt"
    let (nonce, rest) ← readExact nonceLen rest "Failed to read nonce"
    let (metadataBytes, rest) ← readExact header.metadataLength.toNat rest "Failed to read metadata"
    match json.fromSlice metadataBytes.1 with
    | none => .error (.error .json)
    | some metadata => do
      let (encryptedData, rest) ←
        readExact header.encryptedDataLength.toNat rest "Failed to read encrypted data"
      let (tag, _) ← readExact tagLen rest "Failed to read tag"
      return {
        metadata := some metadata
        archive := none
        salt
        nonce
        encryptedData := encryptedData.1
        tag
        kdfVersion := header.kdfVersion }

def fromBytes (data : Bytes) : Except Failure (OxideFile Metadata) :=
  if getBytes data 5 9 = some (u32ToLeBytes containerVersion) then fromDocument data
  else fromParts json data

/-! ## Decrypting -/

/-- `decrypt_oxide_payload`, without the metadata, which is not handed on. -/
def decryptPayload (cipher : Aead) (pack : PayloadPack Metadata Payload)
    (file : OxideFile Metadata) (key : Key) : Except Failure Payload :=
  match file.archive with
  | some bytes => do
    let plaintext ← openContainer cipher bytes .archive key
    match pack.archive plaintext with
    | none => .error (.error .msgPack)
    | some (_, payload) =>
      match pack.verifyChecksum payload with
      | .error error => .error (.error error)
      | .ok () => .ok payload
  | none =>
    match cipher.decrypt key file.nonce [] (file.encryptedData ++ file.tag.1) with
    | none => .error (.error .decryptionFailed)
    | some plaintext =>
      match pack.payload plaintext with
      | none => .error (.error .msgPack)
      | some payload =>
        match pack.verifyChecksum payload with
        | .error error => .error (.error error)
        | .ok () => if file.metadata.isSome then .ok payload else .error (.error .cryptoError)

/-- `decrypt_oxide_file`. -/
def decrypt (cipher : Aead) (argon2 : Argon2) (pack : PayloadPack Metadata Payload)
    (file : OxideFile Metadata) (password : Bytes) : Except Failure Payload :=
  match deriveKey argon2 password file.salt file.kdfVersion with
  | .error error => .error (.error error)
  | .ok key => decryptPayload cipher pack file key

end OxideFile

end OxideTerm.Connections
