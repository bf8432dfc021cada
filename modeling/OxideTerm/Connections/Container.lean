import OxideTerm.Lib.Bytes

/-!
# Sealed documents

The container of an `.oxide` document: a header, a salt and a nonce, authenticated in front of what
the cipher makes of the purpose byte and the payload. Documents are sealed under a key that is
derived from a password, local ones under a key of the platform's secret store.

The cipher (ChaCha20-Poly1305) and the key derivation (Argon2id) are from outside the repository;
they are parameters. A random nonce is an argument.
-/

namespace OxideTerm.Connections

open OxideTerm.Lib

/-- `[u8; n]`. -/
abbrev FixedBytes (n : Nat) := { bytes : Bytes // bytes.length = n }

def magic : Bytes := [0x4f, 0x58, 0x49, 0x44, 0x45]

theorem length_magic : magic.length = 5 := rfl

def saltLen : Nat := 32
def nonceLen : Nat := 12
def tagLen : Nat := 16
def kdfV1 : UInt32 := 0x0001
def kdfV2 : UInt32 := 0x0002
def kdfVersionMask : UInt32 := 0x00ff
def currentKdf : UInt32 := kdfV1
def containerVersion : UInt32 := 2
def headerLen : Nat := 21
def prefixLen : Nat := headerLen + saltLen + nonceLen
def localKeyFlag : UInt32 := (1 : UInt32) <<< 8

abbrev Key := FixedBytes 32
abbrev Salt := FixedBytes saltLen
abbrev Nonce := FixedBytes nonceLen

inductive OxideFileError where
  | invalidMagic
  | unsupportedVersion (version : UInt32)
  | unsupportedKdfVersion (version : UInt32)
  | invalidFormat (message : String)
  | encryptionFailed
  | decryptionFailed
  | checksumMismatch
  | cryptoError
  | passwordTooShort
  | json
  | msgPack
deriving DecidableEq

/-- How a call ends without a result: with an error, or in a panic. -/
inductive Failure where
  | error (error : OxideFileError)
  | panic
deriving DecidableEq

/-! ## What is from outside -/

/-- The cipher: a key, a nonce, the associated data, and a message or a ciphertext. -/
structure Aead where
  encrypt : Key → Nonce → Bytes → Bytes → Option Bytes
  decrypt : Key → Nonce → Bytes → Bytes → Option Bytes

/-- An ideal cipher opens just what it made of this key, nonce and data; a tag is appended. -/
structure Aead.Ideal (cipher : Aead) : Prop where
  decrypt_iff : ∀ key nonce aad ciphertext message,
    cipher.decrypt key nonce aad ciphertext = some message ↔
      cipher.encrypt key nonce aad message = some ciphertext
  length_encrypt : ∀ key nonce aad message ciphertext,
    cipher.encrypt key nonce aad message = some ciphertext →
      ciphertext.length = message.length + tagLen

structure KdfParams where
  memoryCost : UInt32
  iterations : UInt32
  parallelism : UInt32

/-- Argon2id with 32 bytes of output. -/
abbrev Argon2 := KdfParams → Bytes → Salt → Option Key

/-! ## Keys of a password -/

def KdfParams.forVersion (version : UInt32) : Except OxideFileError KdfParams :=
  if version = kdfV1 ∨ version = 0 then .ok ⟨262144, 4, 4⟩
  else if version = kdfV2 then .ok ⟨524288, 6, 4⟩
  else .error (.unsupportedKdfVersion version)

def deriveKey (argon2 : Argon2) (password : Bytes) (salt : Salt) (kdfVersion : UInt32) :
    Except OxideFileError Key := do
  let kdf ← KdfParams.forVersion kdfVersion
  match argon2 kdf password salt with
  | some key => .ok key
  | none => .error .cryptoError

structure OxideBatchEncryptionContext where
  salt : Salt
  key : Key
  kdfVersion : UInt32

/-- `new`, with its random salt. -/
def OxideBatchEncryptionContext.new (argon2 : Argon2) (password : Bytes) (salt : Salt) :
    Except OxideFileError OxideBatchEncryptionContext := do
  if password.length < 6 then throw .passwordTooShort
  let key ← deriveKey argon2 password salt currentKdf
  return { salt, key, kdfVersion := currentKdf }

structure CachedOxideDecryptionKey where
  salt : Salt
  key : Key
  kdfVersion : UInt32

/-- Reuses a derived key while consecutive files share the same salt and version. -/
structure OxideBatchDecryptionContext (argon2 : Argon2) where
  password : Bytes
  cached : Option CachedOxideDecryptionKey
  derived : ∀ key ∈ cached, deriveKey argon2 password key.salt key.kdfVersion = .ok key.key

namespace OxideBatchDecryptionContext

variable {argon2 : Argon2}

def new (argon2 : Argon2) (password : Bytes) :
    Except OxideFileError (OxideBatchDecryptionContext argon2) :=
  if password.length < 6 then .error .passwordTooShort
  else .ok ⟨password, none, fun _ h => absurd h (by simp)⟩

/-- The key, and the context that remembers it. -/
def keyFor (context : OxideBatchDecryptionContext argon2) (salt : Salt) (kdfVersion : UInt32) :
    Except OxideFileError Key × OxideBatchDecryptionContext argon2 :=
  match context.cached.filter fun cached => cached.salt = salt ∧ cached.kdfVersion = kdfVersion with
  | some cached => (.ok cached.key, context)
  | none =>
    match h : deriveKey argon2 context.password salt kdfVersion with
    | .error error => (.error error, context)
    | .ok key => (.ok key, ⟨context.password, some ⟨salt, key, kdfVersion⟩, by
        rintro _ ⟨⟩
        exact h⟩)

end OxideBatchDecryptionContext

/-! ## The container -/

inductive OxideDocumentKind where
  | archive
  | syncSnapshot
  | localReplica
  | recovery
deriving DecidableEq

namespace OxideDocumentKind

/-- `kind as u8`. -/
def toByte : OxideDocumentKind → UInt8
  | archive => 1
  | syncSnapshot => 2
  | localReplica => 3
  | recovery => 4

def isLocal : OxideDocumentKind → Bool
  | localReplica | recovery => true
  | archive | syncSnapshot => false

end OxideDocumentKind

def invalidContainer : OxideFileError :=
  .invalidFormat "Invalid .oxide container or document purpose"

structure FileHeader where
  magic : FixedBytes 5
  version : UInt32
  flags : UInt32
  metadataLength : UInt32
  encryptedDataLength : UInt32

def FileHeader.toBytes (header : FileHeader) : Bytes :=
  header.magic.1 ++ u32ToLeBytes header.version ++ u32ToLeBytes header.flags ++
    u32ToLeBytes header.metadataLength ++ u32ToLeBytes header.encryptedDataLength

section Sealing

variable (cipher : Aead)

/-- `seal`, under a random nonce. -/
def sealContainer (kind : OxideDocumentKind) (payload : Bytes) (key : Key) (salt : Salt)
    (flags : UInt32) (nonce : Nonce) : Except OxideFileError Bytes :=
  match checkedAdd payload.length 1 with
  | none => .error invalidContainer
  | some plaintextLen =>
    if 2 ^ 32 ≤ plaintextLen then .error invalidContainer
    else
      let header : FileHeader :=
        { magic := ⟨magic, length_magic⟩
          version := containerVersion
          flags
          metadataLength := 0
          encryptedDataLength := UInt32.ofNat plaintextLen }
      let bytes := header.toBytes ++ salt.1 ++ nonce.1
      match cipher.encrypt key nonce bytes (kind.toByte :: payload) with
      | some encrypted => .ok (bytes ++ encrypted)
      | none => .error .encryptionFailed

def sealOxideDocument (kind : OxideDocumentKind) (payload : Bytes)
    (context : OxideBatchEncryptionContext) (nonce : Nonce) : Except OxideFileError Bytes :=
  if kind.isLocal then .error invalidContainer
  else sealContainer cipher kind payload context.key context.salt context.kdfVersion nonce

def sealLocalOxideDocument (kind : OxideDocumentKind) (payload : Bytes) (key : Key) (nonce : Nonce) :
    Except OxideFileError Bytes :=
  if !kind.isLocal then .error invalidContainer
  else sealContainer cipher kind payload key ⟨List.replicate saltLen 0, List.length_replicate⟩
    localKeyFlag nonce

end Sealing

/-! ## Opening -/

/-- `&bytes[first..last]`. -/
def sliceBytes (bytes : Bytes) (first last : Nat) : Except Failure Bytes :=
  if first ≤ last ∧ last ≤ bytes.length then .ok ((bytes.drop first).take (last - first))
  else .error .panic

/-- An array of a slice, as `try_into` makes it. -/
def fixed (n : Nat) (bytes : Bytes) (failure : Failure) : Except Failure (FixedBytes n) :=
  if h : bytes.length = n then .ok ⟨bytes, h⟩ else .error failure

def readU32 (bytes : Bytes) (offset : Nat) : Except Failure UInt32 := do
  let word ← fixed 4 (← sliceBytes bytes offset (offset + 4)) .panic
  return u32FromLeBytes word.1

def validateContainer (bytes : Bytes) : Except Failure UInt32 :=
  if bytes.length < prefixLen + tagLen + 1 ∨ ¬ magic <+: bytes then
    .error (.error invalidContainer)
  else do
    let version ← readU32 bytes 5
    if version ≠ containerVersion then .error (.error (.unsupportedVersion version))
    else do
      let flags ← readU32 bytes 9
      let metadataLength ← readU32 bytes 13
      if metadataLength ≠ 0 ∨ flags &&& ~~~(localKeyFlag ||| kdfVersionMask) ≠ 0 then
        .error (.error invalidContainer)
      else do
        let dataLength ← readU32 bytes 17
        match checkedAdd dataLength.toNat (prefixLen + tagLen) with
        | none => .error (.error invalidContainer)
        | some expectedLen =>
          if expectedLen ≠ bytes.length then .error (.error invalidContainer) else .ok flags

/-- `open`, after the container was validated. -/
def openContainer (cipher : Aead) (bytes : Bytes) (expected : OxideDocumentKind) (key : Key) :
    Except Failure Bytes := do
  let nonce ← fixed nonceLen (← sliceBytes bytes (headerLen + saltLen) prefixLen) .panic
  let message ← sliceBytes bytes prefixLen bytes.length
  let aad ← sliceBytes bytes 0 prefixLen
  match cipher.decrypt key nonce aad message with
  | none => .error (.error .decryptionFailed)
  | some plaintext =>
    if plaintext.head? ≠ some expected.toByte then .error (.error invalidContainer)
    else .ok plaintext.tail

/-- The salt and the version of the key, from a container that is not local. -/
def keyOf (bytes : Bytes) (expected : OxideDocumentKind) : Except Failure (Salt × UInt32) := do
  let flags ← validateContainer bytes
  if expected.isLocal ∨ flags &&& localKeyFlag ≠ 0 then .error (.error invalidContainer)
  else do
    let salt ← fixed saltLen (← sliceBytes bytes headerLen (headerLen + saltLen))
      (.error invalidContainer)
    return (salt, flags &&& kdfVersionMask)

/-- The payload, and the context after the call. -/
def openOxideDocument (cipher : Aead) {argon2 : Argon2} (bytes : Bytes)
    (expected : OxideDocumentKind) (context : OxideBatchDecryptionContext argon2) :
    Except Failure Bytes × OxideBatchDecryptionContext argon2 :=
  match keyOf bytes expected with
  | .error failure => (.error failure, context)
  | .ok (salt, kdfVersion) =>
    match context.keyFor salt kdfVersion with
    | (.error error, context) => (.error (.error error), context)
    | (.ok key, context) => (openContainer cipher bytes expected key, context)

def openLocalOxideDocument (cipher : Aead) (bytes : Bytes) (expected : OxideDocumentKind)
    (key : Key) : Except Failure Bytes :=
  if !expected.isLocal then .error (.error invalidContainer)
  else do
    let flags ← validateContainer bytes
    if flags ≠ localKeyFlag then .error (.error invalidContainer)
    else openContainer cipher bytes expected key

end OxideTerm.Connections
