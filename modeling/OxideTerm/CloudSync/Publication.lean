import OxideTerm.CloudSync.Replica
import OxideTerm.Lib.Text

/-!
# Publications

A writer publishes its replica as one sealed object. The object's path names the writer, the
number of the publication and the digest of the bytes, so that it is never replaced.
-/

namespace OxideTerm.CloudSync

open OxideTerm.Lib

structure PublicationId where
  writer : Uuid
  sequence : Nat
  digest : String
deriving DecidableEq

/-- A sealed object and where it is to be put. -/
structure PendingPublication where
  path : String
  bytes : Bytes
deriving DecidableEq

structure PublishedReplica where
  schema : Nat
  writer : Uuid
  sequence : Nat
  createdAtMs : Int
  snapshot : ReplicaSnapshot
deriving DecidableEq

/--
What the publications rest on.

Sealing covers both the encoding of the published replica and its encryption; whatever these draw
at random, and the password, are in the context.
-/
structure Codec (Context : Type) where
  uuidText : Uuid → String
  parseUuid : String → Option Uuid
  contentDigest : Bytes → String
  /-- The digest of a document's bytes. -/
  documentDigest : SyncDocument → String
  sealDocument : Context → PublishedReplica → Result Bytes
  openDocument : Context → Bytes → Result PublishedReplica

/-- A digit of a digest. -/
def lowerHex (c : Char) : Bool := c.isDigit || decide ('a' ≤ c) && decide (c ≤ 'f')

/-- What is relied on: identities can be read back from their text, a digest is 64 hexadecimal
digits, the digests of documents do not collide, and what was sealed can be opened. -/
structure Codec.Lawful {Context : Type} (codec : Codec Context) : Prop where
  parseUuid_uuidText : ∀ u, codec.parseUuid (codec.uuidText u) = some u
  uuidText_slash : ∀ u, '/' ∉ (codec.uuidText u).toList
  digest_length : ∀ bytes, (codec.contentDigest bytes).length = 64
  digest_hex : ∀ bytes, (codec.contentDigest bytes).toList.all lowerHex = true
  documentDigest_injective : Function.Injective codec.documentDigest
  openDocument_sealDocument : ∀ context publication bytes, codec.sealDocument context publication = .ok bytes →
    codec.openDocument context bytes = .ok publication

/-- The size limit of an object. -/
def maxRemoteSnapshotBytes : Nat := 10 * 1024 * 1024

section

variable {Context : Type} (codec : Codec Context)

namespace PublicationId

def path (id : PublicationId) : String :=
  "sync-v3/" ++ codec.uuidText id.writer ++ "/" ++ toString id.sequence ++ "-" ++ id.digest ++
    ".oxide"

def parse (path : String) : Result PublicationId :=
  match Text.split '/' path.toList with
  | [root, writer, file] =>
    if root ≠ "sync-v3".toList then .error "Invalid sync publication path"
    else
      match codec.parseUuid (String.ofList writer) with
      | none => .error "Invalid sync writer identity"
      | some writer =>
        match (Text.stripSuffix ".oxide".toList file).bind (Text.splitOnce '-') with
        | none => .error "Invalid sync publication filename"
        | some (sequence, digest) =>
          match Text.parseU64 sequence with
          | none => .error "Invalid sync publication sequence"
          | some sequence =>
            if writer = 0 ∨ sequence = 0 ∨ digest.length ≠ 64 ∨ ¬ digest.all lowerHex then
              .error "Invalid sync publication identity"
            else
              let id : PublicationId := { writer, sequence, digest := String.ofList digest }
              if id.path codec ≠ path then .error "Noncanonical sync publication path" else .ok id
  | _ => .error "Invalid sync publication path"

/-- An identity that a publication can have. -/
structure Valid (id : PublicationId) : Prop where
  writer : id.writer ≠ 0
  sequence : id.sequence ≠ 0
  sequence_lt : id.sequence < 2 ^ 64
  digest_length : id.digest.length = 64
  digest_hex : id.digest.toList.all lowerHex = true

variable {codec}

theorem Valid.slash_notMem {id : PublicationId} (h : id.Valid) : '/' ∉ id.digest.toList := by
  intro hmem
  have hhex := List.all_eq_true.mp h.digest_hex _ hmem
  exact absurd hhex (by decide)

/-- **The path of a publication can be read back.** -/
theorem parse_path (hcodec : codec.Lawful) {id : PublicationId} (h : id.Valid) :
    parse codec (id.path codec) = .ok id := by
  have hroot : '/' ∉ "sync-v3".toList := by decide
  have hslash : '/' ∉ (toString id.sequence).toList := Text.notMem_repr (by decide)
  have hfile : '/' ∉ (toString id.sequence).toList ++ '-' :: id.digest.toList ++ ".oxide".toList := by
    simp only [List.mem_append, List.mem_cons, not_or]
    exact ⟨⟨hslash, by decide, h.slash_notMem⟩, by decide⟩
  have hpath : (id.path codec).toList = "sync-v3".toList ++ '/' :: ((codec.uuidText id.writer).toList ++
      '/' :: ((toString id.sequence).toList ++ '-' :: id.digest.toList ++ ".oxide".toList)) := by
    simp [path, String.toList_append]
  have hsplit : Text.split '/' (id.path codec).toList = ["sync-v3".toList,
      (codec.uuidText id.writer).toList,
      (toString id.sequence).toList ++ '-' :: id.digest.toList ++ ".oxide".toList] := by
    rw [hpath, Text.split_append _ _ hroot,
      Text.split_append _ _ (hcodec.uuidText_slash id.writer), Text.split_of_notMem _ hfile]
  have hname : (Text.stripSuffix ".oxide".toList
      ((toString id.sequence).toList ++ '-' :: id.digest.toList ++ ".oxide".toList)).bind
        (Text.splitOnce '-') = some ((toString id.sequence).toList, id.digest.toList) := by
    rw [Text.stripSuffix_append]
    exact Text.splitOnce_append _ _ (Text.notMem_repr (by decide))
  have hidentity : ¬ (id.writer = 0 ∨ id.sequence = 0 ∨ id.digest.toList.length ≠ 64 ∨
      ¬ id.digest.toList.all lowerHex) := by
    rw [String.length_toList]
    simp [h.writer, h.sequence, h.digest_length, h.digest_hex]
  unfold parse
  rw [hsplit]
  simp only [ne_eq, not_true_eq_false, if_false, String.ofList_toList,
    hcodec.parseUuid_uuidText, hname, Text.parseU64_repr h.sequence_lt]
  rw [if_neg hidentity]

end PublicationId

/-! ## Sealing -/

namespace PublishedReplica

def encode (context : Context) (now : Int) (writer : Uuid) (sequence : Nat)
    (snapshot : ReplicaSnapshot) : Result PendingPublication :=
  if writer = 0 ∨ sequence = 0 then .error "Invalid sync publication identity"
  else
    match codec.sealDocument context { schema := 3, writer, sequence, createdAtMs := now, snapshot } with
    | .error e => .error e
    | .ok bytes =>
      if bytes.length > maxRemoteSnapshotBytes then
        .error "Cloud sync snapshot exceeds the size limit"
      else
        let id : PublicationId := { writer, sequence, digest := codec.contentDigest bytes }
        .ok { path := id.path codec, bytes }

def decode (id : PublicationId) (bytes : Bytes) (context : Context) : Result PublishedReplica :=
  if bytes.length > maxRemoteSnapshotBytes ∨ codec.contentDigest bytes ≠ id.digest then
    .error "Cloud sync snapshot size or digest mismatch"
  else
    match codec.openDocument context bytes with
    | .error e => .error e
    | .ok publication =>
      if publication.schema ≠ 3 ∨ publication.writer ≠ id.writer ∨
          publication.sequence ≠ id.sequence then
        .error "Cloud sync publication identity mismatch"
      else
        match SyncReplica.load codec.contentDigest publication.snapshot publication.writer with
        | .error e => .error e
        | .ok _ => .ok publication

variable {codec}

/-- **What sealing a replica comes to.** -/
theorem encode_ok {context : Context} {now : Int} {writer : Uuid} {sequence : Nat}
    {snapshot : ReplicaSnapshot} {pending : PendingPublication}
    (h : encode codec context now writer sequence snapshot = .ok pending) :
    writer ≠ 0 ∧ sequence ≠ 0 ∧ pending.bytes.length ≤ maxRemoteSnapshotBytes ∧
      codec.sealDocument context { schema := 3, writer, sequence, createdAtMs := now, snapshot } =
        .ok pending.bytes ∧
      pending.path =
        PublicationId.path codec ⟨writer, sequence, codec.contentDigest pending.bytes⟩ := by
  unfold encode at h
  split at h
  · simp at h
  next hidentity =>
  rw [not_or] at hidentity
  split at h
  · simp at h
  next bytes hseal =>
  split at h
  · simp at h
  next hsize =>
  rw [Except.ok.injEq] at h
  subst h
  exact ⟨hidentity.1, hidentity.2, Nat.le_of_not_lt hsize, hseal, rfl⟩

/-- **A sealed replica can be opened by who knows its identity,** if it can be loaded. -/
theorem decode_encode (hcodec : codec.Lawful) {context : Context} {now : Int} {writer : Uuid}
    {sequence : Nat} {snapshot : ReplicaSnapshot} {pending : PendingPublication}
    (h : encode codec context now writer sequence snapshot = .ok pending)
    {r : SyncReplica} (hload : SyncReplica.load codec.contentDigest snapshot writer = .ok r) :
    decode codec ⟨writer, sequence, codec.contentDigest pending.bytes⟩ pending.bytes context =
      .ok { schema := 3, writer, sequence, createdAtMs := now, snapshot } := by
  obtain ⟨-, -, hsize, hseal, -⟩ := encode_ok h
  have hsame : ¬ (pending.bytes.length > maxRemoteSnapshotBytes ∨
      codec.contentDigest pending.bytes ≠ codec.contentDigest pending.bytes) := by
    rw [not_or, not_not]
    exact ⟨Nat.not_lt.mpr hsize, rfl⟩
  rw [decode, if_neg hsame, hcodec.openDocument_sealDocument _ _ _ hseal]
  simp [hload]

end PublishedReplica

end

end OxideTerm.CloudSync
