import Mathlib.Data.Nat.Bitwise
import OxideTerm.Lib.Protobuf

/-!
# Wire messages

A state update travels as protobuf inside a zlib stream. The receiving side checks the wire
structure itself (`validateFields`, `validateInstructionBatch`) before it decodes.

Encoding follows the protobuf format that `derive(Message)` documents: fields in tag order,
default scalars left out. Decoding and the compressor are from outside the repository and are
the parameters `Prost` and `Zlib`; what is used of them is that they invert encoding.
-/

namespace OxideTerm.Fernomade

open OxideTerm.Lib OxideTerm.Lib.Protobuf

def protocolVersion : UInt64 := 2
def maximumDecompressedBytes : Nat := 16 * 1024 * 1024

def sessionControlCapability : UInt8 := 1
def sessionListRequest : UInt32 := 1
def sessionListResponse : UInt32 := 2
def sessionSwitchRequest : UInt32 := 3
def sessionSwitched : UInt32 := 4
def sessionCreateRequest : UInt32 := 5
def sessionCreated : UInt32 := 6

inductive MessageError where
  | compressionFailed
  | decompressionFailed
  | decompressedMessageTooLarge
  | malformedProtobuf
  | unsupportedProtocolVersion
  | unsupportedWireType
deriving DecidableEq

structure ByteRun where
  value : Bytes
deriving DecidableEq

structure ViewportSize where
  columns : UInt64
  rows : UInt64
deriving DecidableEq

structure Marker where
  value : UInt64
deriving DecidableEq

/-- Optional mosh-go session-control instruction carried in instruction field 9. -/
structure SessionControl where
  kind : UInt32
  payload : Bytes
deriving DecidableEq

structure Instruction where
  bytes : Option ByteRun
  viewport : Option ViewportSize
  marker : Option Marker
  sessionControl : Option SessionControl
deriving DecidableEq

structure InstructionBatch where
  instructions : List Instruction
deriving DecidableEq

structure StateUpdate where
  protocolVersion : UInt64
  baseState : UInt64
  targetState : UInt64
  acknowledgedState : UInt64
  discardBefore : UInt64
  delta : Bytes
  padding : Bytes
  capabilities : Bytes
deriving DecidableEq

/-! ## Protobuf encoding -/

def ByteRun.fields (m : ByteRun) : List Field := bytesField 4 m.value

def ViewportSize.fields (m : ViewportSize) : List Field :=
  uintField 5 m.columns.toNat ++ uintField 6 m.rows.toNat

def Marker.fields (m : Marker) : List Field := uintField 8 m.value.toNat

def SessionControl.fields (m : SessionControl) : List Field :=
  uintField 10 m.kind.toNat ++ bytesField 11 m.payload

def Instruction.fields (m : Instruction) : List Field :=
  messageField 2 (m.bytes.map ByteRun.fields) ++
    messageField 3 (m.viewport.map ViewportSize.fields) ++
    messageField 7 (m.marker.map Marker.fields) ++
    messageField 9 (m.sessionControl.map SessionControl.fields)

def InstructionBatch.fields (m : InstructionBatch) : List Field :=
  m.instructions.flatMap fun instruction => messageField 1 (some instruction.fields)

def StateUpdate.fields (m : StateUpdate) : List Field :=
  uintField 1 m.protocolVersion.toNat ++ uintField 2 m.baseState.toNat ++
    uintField 3 m.targetState.toNat ++ uintField 4 m.acknowledgedState.toNat ++
    uintField 5 m.discardBefore.toNat ++ bytesField 6 m.delta ++ bytesField 7 m.padding ++
    bytesField 8 m.capabilities

def InstructionBatch.encodeBytes (m : InstructionBatch) : Bytes := encodeFields m.fields

def StateUpdate.encode (m : StateUpdate) : Bytes := encodeFields m.fields

/-- The generated protobuf decoders. -/
structure Prost where
  decodeUpdate : Bytes → Option StateUpdate
  decodeBatch : Bytes → Option InstructionBatch

/-- Decoding inverts encoding. -/
structure Prost.Lawful (P : Prost) : Prop where
  decodeUpdate_encode : ∀ u : StateUpdate, P.decodeUpdate u.encode = some u
  decodeBatch_encode : ∀ b : InstructionBatch, P.decodeBatch b.encodeBytes = some b

/-- The compressor. -/
structure Zlib where
  compress : Bytes → Option Bytes
  /-- Reads at most so many bytes of what a stream decompresses to. -/
  readTake : Nat → Bytes → Option Bytes

/-- Decompression inverts compression, as far as it is read. -/
structure Zlib.Lawful (Z : Zlib) : Prop where
  readTake_compress : ∀ encoded compressed, Z.compress encoded = some compressed →
    ∀ limit, Z.readTake limit compressed = some (encoded.take limit)

/-! ## Structural validation -/

/-- The loop of `decode_varint`, after `index` bytes that made up `value`. -/
def decodeVarintFrom (index value : Nat) : Bytes → Except MessageError (Nat × Nat)
  | [] => .error .malformedProtobuf
  | byte :: rest =>
    if index ≥ 10 then .error .malformedProtobuf
    else
      let payload := byte.toNat % 128
      if index = 9 ∧ payload > 1 then .error .malformedProtobuf
      else
        let value := value ||| payload <<< (index * 7)
        if byte.toNat < 128 then .ok (value, index + 1)
        else decodeVarintFrom (index + 1) value rest

/-- A varint of at most ten bytes, with the number of bytes it took. -/
def decodeVarint (encoded : Bytes) : Except MessageError (Nat × Nat) := decodeVarintFrom 0 0 encoded

/-- `encoded.get(count..)`. -/
def getFrom (count : Nat) (encoded : Bytes) : Except MessageError Bytes :=
  if count ≤ encoded.length then .ok (encoded.drop count) else .error .malformedProtobuf

def skipValue (encoded : Bytes) (wireType : Nat) : Except MessageError Bytes :=
  match wireType with
  | 0 => do
    let (_, bytes) ← decodeVarint encoded
    .ok (encoded.drop bytes)
  | 1 => getFrom 8 encoded
  | 2 => do
    let (length, bytes) ← decodeVarint encoded
    getFrom length (encoded.drop bytes)
  | 5 => getFrom 4 encoded
  | _ => .error .unsupportedWireType

theorem decodeVarintFrom_pos : ∀ {bs : Bytes} {index value v n : Nat},
    decodeVarintFrom index value bs = .ok (v, n) → index < n ∧ n ≤ index + bs.length
  | [], _, _, _, _, h => by simp [decodeVarintFrom] at h
  | byte :: rest, index, value, v, n, h => by
    rw [decodeVarintFrom] at h
    split at h
    · simp at h
    · simp only at h
      split at h
      · simp at h
      · split at h
        · simp only [Except.ok.injEq, Prod.mk.injEq] at h
          simp only [List.length_cons]
          omega
        · have := decodeVarintFrom_pos h
          simp only [List.length_cons]
          omega

theorem decodeVarint_pos {bs : Bytes} {v n : Nat} (h : decodeVarint bs = .ok (v, n)) :
    0 < n ∧ n ≤ bs.length := by
  have := decodeVarintFrom_pos h
  omega

theorem getFrom_length {count : Nat} {bs rest : Bytes} (h : getFrom count bs = .ok rest) :
    rest.length ≤ bs.length := by
  unfold getFrom at h
  split at h
  · simp only [Except.ok.injEq] at h
    subst h
    simp
  · simp at h

theorem skipValue_length {bs rest : Bytes} {wireType : Nat}
    (h : skipValue bs wireType = .ok rest) : rest.length ≤ bs.length := by
  unfold skipValue at h
  split at h
  · cases hv : decodeVarint bs with
    | error e => rw [hv] at h; simp [bind, Except.bind] at h
    | ok r =>
      rw [hv] at h
      simp only [bind, Except.bind, Except.ok.injEq] at h
      subst h
      simp
  · exact getFrom_length h
  · cases hv : decodeVarint bs with
    | error e => rw [hv] at h; simp [bind, Except.bind] at h
    | ok r =>
      rw [hv] at h
      have := getFrom_length h
      simp only [List.length_drop] at this
      omega
  · exact getFrom_length h
  · simp at h

/-- Walks the fields of a message; a known field must have its wire type. -/
def validateFields (allowed : List (Nat × Nat)) (remaining : Bytes) : Except MessageError Unit :=
  if remaining = [] then .ok ()
  else
    match hkey : decodeVarint remaining with
    | .error e => .error e
    | .ok (key, keyBytes) =>
      let field := key / 8
      let wireType := key % 8
      if (allowed.find? (fun known => known.1 = field)).any (fun known => wireType ≠ known.2) then
        .error .unsupportedWireType
      else
        match hskip : skipValue (remaining.drop keyBytes) wireType with
        | .error e => .error e
        | .ok rest => validateFields allowed rest
termination_by remaining.length
decreasing_by
  have h₁ := decodeVarint_pos hkey
  have h₂ := skipValue_length hskip
  simp only [List.length_drop] at h₂
  omega

/-- The length-delimited fields of a message, in order. -/
def lengthDelimitedFields (encoded : Bytes) : Except MessageError (List (Nat × Bytes)) :=
  if encoded = [] then .ok []
  else
    match hkey : decodeVarint encoded with
    | .error e => .error e
    | .ok (key, keyBytes) =>
      let field := key / 8
      let wireType := key % 8
      let afterKey := encoded.drop keyBytes
      if wireType = 2 then
        match hlen : decodeVarint afterKey with
        | .error e => .error e
        | .ok (length, lengthBytes) =>
          let body := afterKey.drop lengthBytes
          if length ≤ body.length then
            match lengthDelimitedFields (body.drop length) with
            | .error e => .error e
            | .ok values => .ok ((field, body.take length) :: values)
          else .error .malformedProtobuf
      else
        match hskip : skipValue afterKey wireType with
        | .error e => .error e
        | .ok rest => lengthDelimitedFields rest
termination_by encoded.length
decreasing_by
  · have h₁ := decodeVarint_pos hkey
    simp only [afterKey, body, List.length_drop] at *
    omega
  · have h₁ := decodeVarint_pos hkey
    have h₂ := skipValue_length hskip
    simp only [afterKey, List.length_drop] at h₂
    omega

def lengthDelimitedValues (encoded : Bytes) (allowed : List (Nat × Nat)) :
    Except MessageError (List Bytes) := do
  validateFields allowed encoded
  let fields ← lengthDelimitedFields encoded
  .ok ((fields.filter fun value => allowed.contains (value.1, 2)).map Prod.snd)

/-- The fields a nested message of an instruction may have, by the instruction's own tag. -/
def instructionFieldTable (field : Nat) : Option (List (Nat × Nat)) :=
  match field with
  | 2 => some [(4, 2)]
  | 3 => some [(5, 0), (6, 0)]
  | 7 => some [(8, 0)]
  | 9 => some [(10, 0), (11, 2)]
  | _ => none

def validateInstruction (instruction : Bytes) : Except MessageError Unit := do
  validateFields [(2, 2), (3, 2), (7, 2), (9, 2)] instruction
  let fields ← lengthDelimitedFields instruction
  fields.forM fun (field, value) =>
    match instructionFieldTable field with
    | some allowed => validateFields allowed value
    | none => .ok ()

def validateInstructionBatch (encoded : Bytes) : Except MessageError Unit := do
  let instructions ← lengthDelimitedValues encoded [(1, 2)]
  instructions.forM validateInstruction

def updateFieldTable : List (Nat × Nat) :=
  [(1, 0), (2, 0), (3, 0), (4, 0), (5, 0), (6, 2), (7, 2), (8, 2)]

/-! ## The message API -/

def StateUpdate.new (baseState targetState acknowledgedState : UInt64) : StateUpdate where
  protocolVersion := Fernomade.protocolVersion
  baseState
  targetState
  acknowledgedState
  discardBefore := 0
  delta := []
  padding := []
  capabilities := []

/-- Decodes the instruction batch in field 6. -/
def StateUpdate.decodeInstructions (P : Prost) (u : StateUpdate) :
    Except MessageError InstructionBatch :=
  match validateInstructionBatch u.delta with
  | .error e => .error e
  | .ok () =>
    match P.decodeBatch u.delta with
    | none => .error .malformedProtobuf
    | some batch => .ok batch

/-- Compresses one validated state update. -/
def encodeCompressedUpdate (Z : Zlib) (u : StateUpdate) : Except MessageError Bytes :=
  if u.protocolVersion ≠ protocolVersion then .error .unsupportedProtocolVersion
  else
    match Z.compress u.encode with
    | none => .error .compressionFailed
    | some compressed => .ok compressed

/-- Decompresses a bounded zlib stream and skips unknown protobuf fields. -/
def decodeCompressedUpdate (P : Prost) (Z : Zlib) (compressed : Bytes) :
    Except MessageError StateUpdate :=
  match Z.readTake (maximumDecompressedBytes + 1) compressed with
  | none => .error .decompressionFailed
  | some encoded =>
    if encoded.length > maximumDecompressedBytes then .error .decompressedMessageTooLarge
    else
      match validateFields updateFieldTable encoded with
      | .error e => .error e
      | .ok () =>
        match P.decodeUpdate encoded with
        | none => .error .malformedProtobuf
        | some update =>
          if update.protocolVersion ≠ protocolVersion then .error .unsupportedProtocolVersion
          else
            match validateInstructionBatch update.delta with
            | .error e => .error e
            | .ok () => .ok update

end OxideTerm.Fernomade
