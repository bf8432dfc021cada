import OxideTerm.CloudSync.Publication
import OxideTerm.CloudSync.Validity
import OxideTerm.Lib.Durable

/-!
# The stored replica

What a device keeps of its replica: the snapshot, the values that were last applied, and how far
it has come in publishing. The store holds one such record, which is replaced as a whole.
-/

namespace OxideTerm.CloudSync

open OxideTerm.Lib

structure LocalReplica where
  schema : Nat
  writer : Uuid
  snapshot : ReplicaSnapshot
  effective : SyncValues
  nextSequence : Nat
  pending : Option PendingPublication
  publishedDocument : Option String
  pendingDocument : Option String
  observed : FiniteMap Uuid PublicationId
  publications : List (PublicationId × Int)
deriving DecidableEq

namespace LocalReplica

def new (writer : Uuid) : LocalReplica where
  schema := 3
  writer
  snapshot := (SyncReplica.new writer).snapshot
  effective := .empty
  nextSequence := 1
  pending := none
  publishedDocument := none
  pendingDocument := none
  observed := .empty
  publications := []

variable {Context : Type} (codec : Codec Context)

def needsPublication (record : LocalReplica) : Bool :=
  record.pending.isSome ||
    decide (record.publishedDocument ≠ some (codec.documentDigest record.snapshot.document))

def requestPublication (record : LocalReplica) : LocalReplica :=
  { record with publishedDocument := none }

/-- All publications but the last five that are a day old. -/
def supersededPublications (record : LocalReplica) (now : Int) : List PublicationId :=
  ((record.publications.take (record.publications.length - 5)).filter fun p =>
    decide (p.1.writer = record.writer) && decide (now - p.2 > 24 * 60 * 60 * 1000)).map Prod.fst

end LocalReplica

namespace ReplicaStore

variable {Context : Type} (codec : Codec Context)

/-- Checks the object that waits to be published. -/
def validatePending (record : LocalReplica) (pending : PendingPublication) : Result Unit :=
  match PublicationId.parse codec pending.path with
  | .error e => .error e
  | .ok id =>
    if id.writer ≠ record.writer ∨ checkedAdd id.sequence 1 ≠ some record.nextSequence ∨
        codec.contentDigest pending.bytes ≠ id.digest then
      .error "Invalid cloud sync pending publication"
    else .ok ()

def validateRecord (record : LocalReplica) : Result Unit :=
  if record.schema ≠ 3 ∨ record.writer = 0 ∨ record.nextSequence = 0 then
    .error "Invalid cloud sync local replica identity"
  else
    match SyncReplica.load codec.contentDigest record.snapshot record.writer with
    | .error e => .error e
    | .ok _ =>
      match record.pending with
      | none => .ok ()
      | some pending => validatePending codec record pending

/-- Reads the record. There is none before the first one was saved. -/
def load (disk : Option LocalReplica) : Result (Option LocalReplica) :=
  match disk with
  | none => .ok none
  | some record =>
    match validateRecord codec record with
    | .error e => .error e
    | .ok () => .ok (some record)

def save (disk : Option LocalReplica) (record : LocalReplica) (outcome : WriteOutcome) :
    Option LocalReplica × Result Unit :=
  match validateRecord codec record with
  | .error e => (disk, .error e)
  | .ok () =>
    match outcome with
    | .written => (some record, .ok ())
    | .failed => (disk, .error "Cannot persist cloud sync replica")
    | .unreported => (some record, .error "Cannot persist cloud sync replica")

/-- What the operations on a record return: the disk, the record and the result. -/
abbrev Stored := Option LocalReplica × LocalReplica × Result Unit

/-- Replaces the record if its successor could be saved. -/
def replace (disk : Option LocalReplica) (record updated : LocalReplica) (outcome : WriteOutcome) :
    Stored :=
  match save codec disk updated outcome with
  | (disk, .error e) => (disk, record, .error e)
  | (disk, .ok ()) => (disk, updated, .ok ())

/-- The record with its snapshot sealed and waiting to be published. -/
def staged (record : LocalReplica) (context : Context) (now : Int) : Result LocalReplica :=
  match checkedAdd record.nextSequence 1 with
  | none => .error "Cloud sync publication sequence exhausted"
  | some nextSequence =>
    match PublishedReplica.encode codec context now record.writer record.nextSequence
        record.snapshot with
    | .error e => .error e
    | .ok pending =>
      .ok { record with
        nextSequence
        pending := some pending
        pendingDocument := some (codec.documentDigest record.snapshot.document) }

def stagePublication (disk : Option LocalReplica) (record : LocalReplica) (context : Context)
    (now : Int) (outcome : WriteOutcome) : Stored :=
  if record.pending.isSome then (disk, record, .ok ())
  else
    match staged codec record context now with
    | .error e => (disk, record, .error e)
    | .ok updated => replace codec disk record updated outcome

/-- The record after its object was published. -/
def committed (record : LocalReplica) (path : String) (now : Int) : Result LocalReplica :=
  if record.pending.all fun pending => decide (pending.path ≠ path) then
    .error "Cloud sync acknowledgement does not match the pending publication"
  else
    match PublicationId.parse codec path with
    | .error e => .error e
    | .ok id =>
      .ok { record with
        pending := none
        publishedDocument := record.pendingDocument
        pendingDocument := none
        observed := record.observed.insert record.writer id
        publications := record.publications ++ [(id, now)] }

def confirmPublication (disk : Option LocalReplica) (record : LocalReplica) (path : String)
    (now : Int) (outcome : WriteOutcome) : Stored :=
  match committed codec record path now with
  | .error e => (disk, record, .error e)
  | .ok updated => replace codec disk record updated outcome

def confirmRemoval (disk : Option LocalReplica) (record : LocalReplica) (id : PublicationId)
    (outcome : WriteOutcome) : Stored :=
  if id.writer ≠ record.writer then
    (disk, record, .error "Cannot remove another device's publication")
  else
    replace codec disk record
      { record with publications := record.publications.filter fun p => p.1 ≠ id } outcome

/-! ## What is stored -/

variable {codec}

theorem load_eq {disk stored : Option LocalReplica} (h : load codec disk = .ok stored) :
    stored = disk := by
  unfold load at h
  split at h
  · exact (Except.ok.inj h).symm
  · split at h
    · simp at h
    · exact (Except.ok.inj h).symm

theorem save_cases {disk disk' : Option LocalReplica} {record : LocalReplica}
    {outcome : WriteOutcome} {result : Result Unit}
    (h : save codec disk record outcome = (disk', result)) : disk' = disk ∨ disk' = some record := by
  unfold save at h
  split at h
  · exact Or.inl (Prod.mk.inj h).1.symm
  · cases outcome with
    | written => exact Or.inr (Prod.mk.inj h).1.symm
    | failed => exact Or.inl (Prod.mk.inj h).1.symm
    | unreported => exact Or.inr (Prod.mk.inj h).1.symm

theorem save_ok {disk : Option LocalReplica} {record : LocalReplica} {outcome : WriteOutcome}
    (h : (save codec disk record outcome).2 = .ok ()) :
    (save codec disk record outcome).1 = some record := by
  unfold save at h ⊢
  cases hvalid : validateRecord codec record with
  | error e => simp [hvalid] at h
  | ok u =>
    cases outcome with
    | written => rfl
    | failed => simp [hvalid] at h
    | unreported => simp [hvalid] at h

/-- **What replacing the record comes to:** nothing, or the successor is on the disk. -/
theorem replace_cases {disk : Option LocalReplica} {record updated : LocalReplica}
    {outcome : WriteOutcome} :
    ((replace codec disk record updated outcome).1 = disk ∧
        (replace codec disk record updated outcome).2.1 = record ∧
        ¬ (validateRecord codec updated = .ok () ∧ outcome.persists = true)) ∨
      ((replace codec disk record updated outcome).1 = some updated ∧
        ((replace codec disk record updated outcome).2.1 = record ∨
          (replace codec disk record updated outcome).2.1 = updated) ∧
        validateRecord codec updated = .ok () ∧ outcome.persists = true) := by
  unfold replace save
  cases hvalid : validateRecord codec updated with
  | error e =>
    left
    simp
  | ok u =>
    cases outcome with
    | written =>
      right
      exact ⟨rfl, Or.inr rfl, rfl, rfl⟩
    | failed =>
      left
      simp [WriteOutcome.persists]
    | unreported =>
      right
      exact ⟨rfl, Or.inl rfl, rfl, rfl⟩

/-- What staging makes of the record. -/
theorem staged_ok {record updated : LocalReplica} {context : Context} {now : Int}
    (h : staged codec record context now = .ok updated) :
    record.nextSequence + 1 < 2 ^ 64 ∧ ∃ pending,
      PublishedReplica.encode codec context now record.writer record.nextSequence
        record.snapshot = .ok pending ∧
      updated = { record with
        nextSequence := record.nextSequence + 1
        pending := some pending
        pendingDocument := some (codec.documentDigest record.snapshot.document) } := by
  unfold staged checkedAdd at h
  split at h
  · simp at h
  next next hnext =>
  rw [Option.ite_none_right_eq_some, Option.some.injEq] at hnext
  obtain ⟨hlt, rfl⟩ := hnext
  split at h
  · simp at h
  next pending hencode =>
  exact ⟨hlt, pending, hencode, (Except.ok.inj h).symm⟩

/-- What confirming makes of the record. -/
theorem committed_ok {record updated : LocalReplica} {path : String} {now : Int}
    (h : committed codec record path now = .ok updated) :
    ∃ pending id, record.pending = some pending ∧ pending.path = path ∧
      PublicationId.parse codec path = .ok id ∧
      updated = { record with
        pending := none
        publishedDocument := record.pendingDocument
        pendingDocument := none
        observed := record.observed.insert record.writer id
        publications := record.publications ++ [(id, now)] } := by
  unfold committed at h
  split at h
  · simp at h
  next hpending =>
  split at h
  · simp at h
  next id hid =>
  cases hp : record.pending with
  | none => simp [hp] at hpending
  | some pending =>
    refine ⟨pending, id, rfl, ?_, hid, (Except.ok.inj h).symm⟩
    simpa [hp] using hpending

end ReplicaStore

end OxideTerm.CloudSync
