import OxideTerm.Forwarding.Saved
import OxideTerm.Lib.Machine

/-!
# The store of saved forwards

The data in memory and the file behind it. An operation works on a copy of the data, which becomes
visible once it was written. A write replaces the file as a whole, and may fail before that, or
after it: when the directory is flushed.
-/

namespace OxideTerm.Forwarding

open OxideTerm.Lib

/-- The JSON text of the data, as the serializer prints and reads it. -/
structure DataCodec (φ : Type) where
  toJson : SavedForwardData → φ
  fromJson : φ → Option SavedForwardData
  fromJson_toJson : ∀ data, fromJson (toJson data) = some data

/-- How the replacement of a file ends. -/
inductive WriteOutcome where
  | replaced
  | failedBefore
  | failedAfter
deriving DecidableEq

/-- A file that is missing is `none`. -/
abbrev SavedForwardFileState (φ : Type) := Option φ

structure SavedForwardCheckpoint (φ : Type) where
  data : SavedForwardData
  fileState : SavedForwardFileState φ

structure SavedForwardStore (φ : Type) where
  data : SavedForwardData
  file : SavedForwardFileState φ

/-- A file is replaced by another, or removed. -/
def replaceFile {φ : Type} (outcome : WriteOutcome) (file target : SavedForwardFileState φ) :
    Except SavedForwardError Unit × SavedForwardFileState φ :=
  match outcome with
  | .replaced => (.ok (), target)
  | .failedBefore => (.error .io, file)
  | .failedAfter => (.error .io, target)

namespace SavedForwardStore

variable {φ α : Type} (codec : DataCodec φ) (timestamps : Timestamps)

/-- What `load` reads from the file. -/
def loadData (file : SavedForwardFileState φ) : Except SavedForwardError SavedForwardData :=
  match file with
  | none => .ok .default
  | some text =>
    match codec.fromJson text with
    | some data => .ok data
    | none => .error .json

/-- The file is read, which may fail. -/
def checkpoint (reads : Bool) (store : SavedForwardStore φ) :
    Except SavedForwardError (SavedForwardCheckpoint φ) :=
  if reads then .ok ⟨store.data, store.file⟩ else .error .io

def replaceFromCheckpoint (outcome : WriteOutcome) (store : SavedForwardStore φ)
    (checkpoint : SavedForwardCheckpoint φ) : Except SavedForwardError Unit × SavedForwardStore φ :=
  match replaceFile outcome store.file checkpoint.fileState with
  | (.ok (), file) => (.ok (), { data := checkpoint.data, file })
  | (.error error, file) => (.error error, { store with file })

/-- An update of a copy: a result, the new data, and whether there is anything to store. -/
abbrev Update (α : Type) := SavedForwardData → Except SavedForwardError (α × SavedForwardData × Bool)

def commitUpdateIf (now : Int) (outcome : WriteOutcome) (update : Update α)
    (store : SavedForwardStore φ) : Except SavedForwardError α × SavedForwardStore φ :=
  match update store.data with
  | .error error => (.error error, store)
  | .ok (result, candidate, shouldPersist) =>
    if shouldPersist then
      let candidate := { candidate with tombstones := activeTombstones now candidate.tombstones }
      match replaceFile outcome store.file (some (codec.toJson candidate)) with
      | (.ok (), file) => (.ok result, { data := candidate, file })
      | (.error error, file) => (.error error, { store with file })
    else (.ok result, store)

/-- `apply_snapshot`, on a copy. -/
def applySnapshotUpdate (records : List SavedForwardSyncRecord) (validOwners : List (List Char)) :
    Update ApplySavedForwardsSyncSnapshotResult := fun data => do
  let state ← Forwarding.applySnapshot timestamps data records validOwners
  return (state.result, state.data, state.result.applied > 0)

def applySnapshot (now : Int) (outcome : WriteOutcome) (records : List SavedForwardSyncRecord)
    (validOwners : List (List Char)) (store : SavedForwardStore φ) :
    Except SavedForwardError ApplySavedForwardsSyncSnapshotResult × SavedForwardStore φ :=
  commitUpdateIf codec now outcome (applySnapshotUpdate timestamps records validOwners) store

end SavedForwardStore

/-! ## Steps -/

open SavedForwardStore

/-- The operations on a store. A checkpoint is one that was taken before, by its number. -/
inductive Operation where
  | persistForward (forward : PersistedForward)
  | syncPersistedForwardRule (forwardId sessionId : List Char)
      (ownerConnectionId : Option (List Char)) (rule : ForwardRule)
  | deletePersistedForward (forwardId : List Char)
  | deleteOwnedForwards (ownerConnectionId : List Char)
  | updateAutoStart (forwardId : List Char) (autoStart : Bool)
  | updateTunnelProfile (id : List Char) (profile : SshTunnelProfile)
  | updateTunnelGroups (groups : List (List Char × Option (List Char)))
  | bindOwnedForwardsToSession (ownerConnectionId sessionId : List Char)
  | applyOwnedForwardImportRecords (fresh : FreshIds) (records : List OwnedForwardImportRecord)
      (replaceOwners mergeOwners owners : List (List Char))
  | applySnapshot (records : List SavedForwardSyncRecord) (validOwners : List (List Char))
  | replaceResolved (records : List PersistedForwardDto) (owners : List (List Char))
  | checkpoint (reads : Bool)
  | replaceFromCheckpoint (number : Nat)

/-- An operation, the time, and how its write ends. -/
structure Step where
  operation : Operation
  now : Int
  outcome : WriteOutcome

/-- A store, and the checkpoints that were taken of it. -/
structure System (φ : Type) where
  store : SavedForwardStore φ
  checkpoints : List (SavedForwardCheckpoint φ)

section Steps

variable {φ : Type} (timestamps : Timestamps) (codec : DataCodec φ)

/-- The updates through which the operations go. -/
def Operation.update (now : Int) : Operation → Update Unit
  | persistForward forward => fun data => .ok ((), Forwarding.persistForward data forward, true)
  | syncPersistedForwardRule forwardId sessionId owner rule => fun data => do
    let (_, data) ← Forwarding.syncPersistedForwardRule now data forwardId sessionId owner rule
    return ((), data, true)
  | deletePersistedForward forwardId => fun data =>
    .ok ((), Forwarding.deletePersistedForward now data forwardId)
  | deleteOwnedForwards owner => fun data =>
    .ok ((), (Forwarding.deleteOwnedForwards now data owner).2, true)
  | updateAutoStart forwardId autoStart => fun data => do
    return ((), ← Forwarding.updateAutoStart now data forwardId autoStart)
  | updateTunnelProfile id profile => fun data => do
    let (_, data) ← Forwarding.updateTunnelProfile now data id profile
    return ((), data, true)
  | updateTunnelGroups groups => fun data => do
    return ((), ← Forwarding.updateTunnelGroups now false data groups)
  | bindOwnedForwardsToSession owner sessionId => fun data =>
    .ok ((), (Forwarding.bindOwnedForwardsToSession now data owner sessionId).2, true)
  | applyOwnedForwardImportRecords fresh records replaceOwners mergeOwners owners => fun data => do
    let (_, data) ← Forwarding.applyOwnedForwardImportRecords fresh now data records replaceOwners
      mergeOwners owners
    return ((), data, true)
  | applySnapshot records validOwners => fun data => do
    let (_, update) ← applySnapshotUpdate timestamps records validOwners data
    return ((), update)
  | replaceResolved records owners => fun data => do
    let data ← Forwarding.replaceResolved timestamps now data records owners
    return ((), data, true)
  -- these two do not go through an update
  | checkpoint _ | replaceFromCheckpoint _ => fun data => .ok ((), data, false)

/-- A checkpoint that was never taken is not restored. -/
def System.step (system : System φ) (step : Step) : System φ × Except SavedForwardError Unit :=
  match step.operation with
  | .checkpoint reads =>
    match system.store.checkpoint reads with
    | .ok checkpoint =>
      ({ system with checkpoints := system.checkpoints ++ [checkpoint] }, .ok ())
    | .error error => (system, .error error)
  | .replaceFromCheckpoint number =>
    match system.checkpoints[number]? with
    | some checkpoint =>
      let (result, store) := system.store.replaceFromCheckpoint step.outcome checkpoint
      ({ system with store }, result)
    | none => (system, .ok ())
  | operation =>
    let (result, store) :=
      commitUpdateIf codec step.now step.outcome (operation.update timestamps step.now) system.store
    ({ system with store }, result)

/-- From an empty store, whose file is missing. -/
def savedForwards : Machine (System φ) Step (Except SavedForwardError Unit) where
  init := { store := { data := .default, file := none }, checkpoints := [] }
  step := System.step timestamps codec

end Steps

end OxideTerm.Forwarding
