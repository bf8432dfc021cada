import Mathlib.Data.String.Basic
import Mathlib.Order.WithBot
import OxideTerm.Lib.Bytes
import OxideTerm.Lib.FiniteMap
import OxideTerm.Lib.Register

/-!
# Fields, values and candidates of the cloud sync replica

A record is a resource, and each group of its settings is a field. A further field says whether
the record is there at all. The replica's document holds digests of values only, the values
themselves are kept beside it.
-/

namespace OxideTerm.CloudSync

open OxideTerm.Lib

/-- What fails, with the text of the error. -/
abbrev Result := Except String

/-- A 128-bit identity. -/
abbrev Uuid := Fin (2 ^ 128)

instance neZeroUuid : NeZero (2 ^ 128) := ⟨by decide⟩

/-! ## Fields -/

inductive ResourceKind where
  | connection
  | localTerminal
  | pluginConnection
  | forward
  | quickCommand
  | quickCommandCategory
  | serial
  | telnet
  | mosh
  | standaloneSftp
  | ftp
  | remoteDesktop
  | totp
  | appSettings
  | pluginSettings
  | credential
  | managedKey
  | aiCredential
  | pluginCredential
  | privilegeCredential
deriving DecidableEq

instance : LinearOrder ResourceKind :=
  LinearOrder.lift' ResourceKind.ctorIdx fun a b h => by
    rw [← ResourceKind.ofNat_ctorIdx a, ← ResourceKind.ofNat_ctorIdx b, h]

structure SyncResource where
  kind : ResourceKind
  id : String
deriving DecidableEq

instance : LinearOrder SyncResource :=
  LinearOrder.lift' (fun r => (toLex (r.kind, r.id) : ResourceKind ×ₗ String)) fun a b h => by
    obtain ⟨kind, id⟩ := a
    obtain ⟨kind', id'⟩ := b
    simpa using h

structure SyncField where
  resource : SyncResource
  group : String
deriving DecidableEq

instance : LinearOrder SyncField :=
  LinearOrder.lift' (fun f => (toLex (f.resource, f.group) : SyncResource ×ₗ String))
    fun a b h => by
      obtain ⟨resource, group⟩ := a
      obtain ⟨resource', group'⟩ := b
      simpa using h

namespace SyncField

/-- The field that says whether the record is there. -/
def presence (resource : SyncResource) : SyncField where
  resource
  group := "$present"

def isPresence (field : SyncField) : Bool := field.group == "$present"

/-- The register of a field. The source names it by the field's canonical JSON, which is as good
as the field itself. -/
def key (field : SyncField) : Result SyncField :=
  if field.resource.id = "" ∨ field.group = "" then .error "Invalid sync field identity"
  else .ok field

/-- The field of a register. -/
def fromKey (key : SyncField) : Result SyncField := key.key

@[simp] theorem isPresence_presence (r : SyncResource) : (presence r).isPresence = true := rfl

@[simp] theorem resource_presence (r : SyncResource) : (presence r).resource = r := rfl

theorem isPresence_iff {field : SyncField} :
    field.isPresence = true ↔ field = presence field.resource := by
  obtain ⟨resource, group⟩ := field
  simp [isPresence, presence]

/-- A field with an identity. -/
def Valid (field : SyncField) : Prop := field.resource.id ≠ "" ∧ field.group ≠ ""

instance (field : SyncField) : Decidable field.Valid := inferInstanceAs (Decidable (_ ∧ _))

theorem key_ok_iff {field k : SyncField} : field.key = .ok k ↔ field.Valid ∧ k = field := by
  unfold key Valid
  split
  · next h =>
    simp only [reduceCtorEq, false_iff, not_and]
    intro hvalid
    tauto
  · next h =>
    rw [not_or] at h
    simp only [Except.ok.injEq]
    constructor
    · rintro rfl
      exact ⟨h, rfl⟩
    · rintro ⟨-, rfl⟩
      rfl

theorem key_of_valid {field : SyncField} (h : field.Valid) : field.key = .ok field :=
  key_ok_iff.mpr ⟨h, rfl⟩

/-- A record whose fields have an identity has one for its presence. -/
theorem Valid.presence {field : SyncField} (h : field.Valid) : (presence field.resource).Valid :=
  ⟨h.1, show "$present" ≠ "" by decide⟩

end SyncField

/-! ## Values -/

/-- A value, as its canonical JSON. -/
abbrev FieldValue := Bytes

namespace FieldValue

def whitespace (b : UInt8) : Bool := b == 0x20 || b == 0x09 || b == 0x0a || b == 0x0d

/-- The JSON of a truth value. -/
def encodeBool (b : Bool) : FieldValue :=
  if b then [0x74, 0x72, 0x75, 0x65] else [0x66, 0x61, 0x6c, 0x73, 0x65]

/-- Reads the JSON of a truth value, with white space around it. -/
def decodeBool (value : FieldValue) : Result Bool :=
  let text := ((value.dropWhile whitespace).reverse.dropWhile whitespace).reverse
  if text = encodeBool true then .ok true
  else if text = encodeBool false then .ok false
  else .error "Invalid sync field value"

@[simp] theorem decodeBool_encodeBool (b : Bool) : decodeBool (encodeBool b) = .ok b := by
  cases b <;> rfl

end FieldValue

/-- The values of some fields. -/
abbrev SyncValues := FiniteMap SyncField FieldValue

/-- Whether the values mark the record as present; without a mark it is not. -/
def SyncValues.present (values : SyncValues) (resource : SyncResource) : Result Bool :=
  match values.get (.presence resource) with
  | none => .ok false
  | some value => value.decodeBool

/-! ## Candidates -/

/-- What a register holds. A reference names a value by its digest, next to an identity of its
own: two writes of one value differ. The write's place in the document serves as this identity,
for the source draws it at random and never twice. -/
inductive ScalarValue where
  | reference (digest : String) (writeId : WriteId Uuid)
  | null
  /-- Any other text or value, which no replica writes. -/
  | unsupported
deriving DecidableEq

/-- The document of a replica: one register for each field. -/
abbrev SyncDocument := Document SyncField Uuid ScalarValue

structure SyncCandidate where
  operation : WriteId Uuid
  valueDigest : Option String
deriving DecidableEq

instance : LinearOrder SyncCandidate :=
  LinearOrder.lift' (fun c => (toLex (c.operation, c.valueDigest) : WriteId Uuid ×ₗ WithBot String))
    fun a b h => by
      obtain ⟨operation, valueDigest⟩ := a
      obtain ⟨operation', valueDigest'⟩ := b
      obtain ⟨rfl, rfl⟩ : operation = operation' ∧ valueDigest = valueDigest' := Prod.mk.inj h
      rfl

structure SyncConflict where
  field : SyncField
  candidates : List SyncCandidate
deriving DecidableEq

end OxideTerm.CloudSync
