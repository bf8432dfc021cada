import OxideTerm.Lib.Keyed
import Mathlib

/-!
# Saved forwards

The forwards that are kept for connections and sessions, the tombstones of the deleted ones, and the
snapshots through which devices exchange them. Times are numbers of nanoseconds, and none passes
within an operation. What prints and reads them (RFC 3339) is from outside, and so are fresh ids.
-/

namespace OxideTerm.Forwarding

open OxideTerm.Lib

inductive ForwardType where
  | localForward
  | remoteForward
  | dynamicForward
deriving DecidableEq

inductive ForwardStatus where
  | starting
  | active
  | stopped
  | error
  | suspended
deriving DecidableEq

structure ForwardRule where
  id : List Char
  forwardType : ForwardType
  bindAddress : List Char
  bindPort : UInt16
  targetHost : List Char
  targetPort : UInt16
  status : ForwardStatus
  description : List Char
deriving DecidableEq

structure SshTunnelProfile where
  name : List Char
  group : Option (List Char)
  connectOnStartup : Bool
deriving DecidableEq

structure PersistedForward where
  id : List Char
  sessionId : List Char
  ownerConnectionId : Option (List Char)
  forwardType : ForwardType
  rule : ForwardRule
  createdAt : Int
  updatedAt : Option Int
  autoStart : Bool
  tunnel : Option SshTunnelProfile
  version : UInt32
deriving DecidableEq

structure DeletedPersistedForwardTombstone where
  id : List Char
  deletedAt : Int
deriving DecidableEq

structure PersistedForwardDto where
  id : List Char
  sessionId : List Char
  ownerConnectionId : Option (List Char)
  ownerConnectionName : Option (List Char)
  forwardType : List Char
  bindAddress : List Char
  bindPort : UInt16
  targetHost : List Char
  targetPort : UInt16
  autoStart : Bool
  tunnel : Option SshTunnelProfile
  createdAt : List Char
  description : Option (List Char)
deriving DecidableEq

structure OwnedForwardImportRecord where
  ownerConnectionId : List Char
  forwardType : List Char
  bindAddress : List Char
  bindPort : UInt16
  targetHost : List Char
  targetPort : UInt16
  description : Option (List Char)
  autoStart : Bool
  tunnel : Option SshTunnelProfile
deriving DecidableEq

/-- A record of a snapshot, without the digest that nothing here reads. -/
structure SavedForwardSyncRecord where
  id : List Char
  updatedAt : List Char
  deleted : Bool
  payload : Option PersistedForwardDto
deriving DecidableEq

inductive SavedForwardError where
  | invalidSnapshot (message : String)
  | notFound (id : List Char)
  | io
  | json
  | invalidTimestamp (field : String) (value : List Char)
  | unsupportedForwardType (forwardType : List Char)
deriving DecidableEq

structure SavedForwardData where
  forwards : List PersistedForward
  tombstones : List DeletedPersistedForwardTombstone
deriving DecidableEq

def SavedForwardData.default : SavedForwardData := { forwards := [], tombstones := [] }

/-- `to_rfc3339` and `parse_from_rfc3339`. -/
structure Timestamps where
  toRfc3339 : Int → List Char
  parseFromRfc3339 : List Char → Option Int
  parse_toRfc3339 : ∀ time, parseFromRfc3339 (toRfc3339 time) = some time

/-! ## Forwards and their types -/

def ForwardType.asStr : ForwardType → List Char
  | localForward => ['l', 'o', 'c', 'a', 'l']
  | remoteForward => ['r', 'e', 'm', 'o', 't', 'e']
  | dynamicForward => ['d', 'y', 'n', 'a', 'm', 'i', 'c']

def ForwardType.tryFromTauriStr (value : List Char) : Except SavedForwardError ForwardType :=
  if value = ['l', 'o', 'c', 'a', 'l'] then .ok .localForward
  else if value = ['r', 'e', 'm', 'o', 't', 'e'] then .ok .remoteForward
  else if value = ['d', 'y', 'n', 'a', 'm', 'i', 'c'] then .ok .dynamicForward
  else .error (.unsupportedForwardType value)

def persistedForwardVersion : UInt32 := 1

def stoppedRule (rule : ForwardRule) : ForwardRule := { rule with status := .stopped }

namespace PersistedForward

def new (now : Int) (id sessionId : List Char) (ownerConnectionId : Option (List Char))
    (forwardType : ForwardType) (rule : ForwardRule) (autoStart : Bool) : PersistedForward where
  id
  sessionId
  ownerConnectionId
  forwardType
  rule := stoppedRule rule
  createdAt := now
  updatedAt := some now
  autoStart
  tunnel := none
  version := persistedForwardVersion

def syncUpdatedAt (forward : PersistedForward) : Int := forward.updatedAt.getD forward.createdAt

def markUpdated (now : Int) (forward : PersistedForward) : PersistedForward :=
  { forward with updatedAt := some now }

end PersistedForward

/-! ## Upserts and retention -/

def upsertForward (forwards : List PersistedForward) (forward : PersistedForward) :
    List PersistedForward :=
  Keyed.upsert PersistedForward.id (fun _ => forward) forward forwards

def upsertTombstone (tombstones : List DeletedPersistedForwardTombstone)
    (tombstone : DeletedPersistedForwardTombstone) : List DeletedPersistedForwardTombstone :=
  Keyed.upsert DeletedPersistedForwardTombstone.id
    (fun existing => if existing.deletedAt < tombstone.deletedAt then tombstone else existing)
    tombstone tombstones

def forwardTombstoneRetentionDays : Int := 30

/-- `Utc::now()` less the retention. -/
def cutoff (now : Int) : Int := now - forwardTombstoneRetentionDays * (24 * 60 * 60 * 1000000000)

def activeTombstones (now : Int) (tombstones : List DeletedPersistedForwardTombstone) :
    List DeletedPersistedForwardTombstone :=
  tombstones.filter fun tombstone => cutoff now ≤ tombstone.deletedAt

namespace SavedForwardData

/-- Tombstones of the forwards' ids are dropped. -/
def retainTombstones (data : SavedForwardData) : SavedForwardData :=
  { data with tombstones := data.tombstones.filter fun tombstone =>
      !(data.forwards.map (·.id)).contains tombstone.id }

/-- The first forward of an id. -/
def find (data : SavedForwardData) (id : List Char) : Option PersistedForward :=
  Keyed.lookup PersistedForward.id id data.forwards

/-- A map by ids holds the last forward of an id. -/
def existingById (data : SavedForwardData) (id : List Char) : Option PersistedForward :=
  Keyed.lookup PersistedForward.id id data.forwards.reverse

def tombstonesById (data : SavedForwardData) (id : List Char) :
    Option DeletedPersistedForwardTombstone :=
  Keyed.lookup DeletedPersistedForwardTombstone.id id data.tombstones.reverse

def modify (data : SavedForwardData) (id : List Char) (f : PersistedForward → PersistedForward) :
    SavedForwardData :=
  { data with forwards := Keyed.modifyFirst PersistedForward.id id f data.forwards }

/-- Tombstones for removed forwards. -/
def bury (ids : List (List Char)) (now : Int) (data : SavedForwardData) : SavedForwardData :=
  { data with tombstones := ids.foldl (fun tombstones id =>
      upsertTombstone tombstones { id, deletedAt := now }) data.tombstones }

/-- The loop that removes the forwards of a connection, with tombstones. -/
def removeOwned (ownerConnectionId : List Char) (now : Int) (data : SavedForwardData) :
    SavedForwardData :=
  let isOwned (forward : PersistedForward) : Bool :=
    forward.ownerConnectionId = some ownerConnectionId
  bury ((data.forwards.filter isOwned).map (·.id)) now
    { data with forwards := data.forwards.filter fun forward => !isOwned forward }

end SavedForwardData

/-! ## Changes by the user -/

section Updates

variable (now : Int) (data : SavedForwardData)

def syncPersistedForwardRule (forwardId sessionId : List Char)
    (ownerConnectionId : Option (List Char)) (rule : ForwardRule) :
    Except SavedForwardError (Option PersistedForward × SavedForwardData) :=
  match data.find forwardId with
  | some existing =>
    let saved := PersistedForward.markUpdated now
      { existing with
        sessionId
        ownerConnectionId := ownerConnectionId.or existing.ownerConnectionId
        forwardType := rule.forwardType
        rule := stoppedRule rule }
    .ok (some saved, data.modify forwardId fun _ => saved)
  | none =>
    match ownerConnectionId with
    | some ownerConnectionId =>
      let forward := PersistedForward.new now forwardId sessionId (some ownerConnectionId)
        rule.forwardType rule false
      .ok (some forward, {
        forwards := data.forwards ++ [forward]
        tombstones := data.tombstones.filter fun tombstone => tombstone.id ≠ forwardId })
    | none => .ok (none, data)

def persistForward (forward : PersistedForward) : SavedForwardData :=
  { data with forwards := upsertForward data.forwards forward }.retainTombstones

/-- The data, and whether anything was removed. -/
def deletePersistedForward (forwardId : List Char) : SavedForwardData × Bool :=
  match data.forwards.findIdx? (fun forward => forward.id = forwardId) with
  | none => (data, false)
  | some index =>
    let remaining := { data with forwards := data.forwards.eraseIdx index }
    match data.forwards[index]? with
    | some { ownerConnectionId := some _, .. } => (remaining.bury [forwardId] now, true)
    | _ => (remaining, true)

def updateAutoStart (forwardId : List Char) (autoStart : Bool) :
    Except SavedForwardError (SavedForwardData × Bool) :=
  match data.find forwardId with
  | none => .error (.notFound forwardId)
  | some forward =>
    if forward.autoStart = autoStart then .ok (data, false)
    else .ok (data.modify forwardId fun forward => { forward with autoStart }.markUpdated now, true)

def updateTunnelProfile (id : List Char) (profile : SshTunnelProfile) :
    Except SavedForwardError (PersistedForward × SavedForwardData) :=
  match data.find id with
  | none => .error (.notFound id)
  | some saved =>
    let saved := { saved with tunnel := some profile }.markUpdated now
    .ok (saved, data.modify id fun _ => saved)

/-- The loop over the groups, and whether it changed anything. -/
def updateTunnelGroups (changed : Bool) (data : SavedForwardData) :
    List (List Char × Option (List Char)) → Except SavedForwardError (SavedForwardData × Bool)
  | [] => .ok (data, changed)
  | (id, group) :: groups =>
    match data.find id with
    | none => .error (.notFound id)
    | some saved =>
      match saved.tunnel with
      | none => .error (.notFound id)
      | some profile =>
        if profile.group ≠ group then
          updateTunnelGroups true (data.modify id fun saved =>
            { saved with tunnel := some { profile with group } }.markUpdated now) groups
        else updateTunnelGroups changed data groups

/-- The data, and how many forwards were bound. -/
def bindOwnedForwardsToSession (ownerConnectionId sessionId : List Char) :
    Nat × SavedForwardData :=
  let isBound (forward : PersistedForward) : Bool :=
    forward.ownerConnectionId = some ownerConnectionId ∧ forward.sessionId ≠ sessionId
  let bind (forward : PersistedForward) : PersistedForward :=
    if isBound forward then { forward with sessionId }.markUpdated now else forward
  (data.forwards.countP isBound, { data with forwards := data.forwards.map bind })

def deleteOwnedForwards (ownerConnectionId : List Char) : Nat × SavedForwardData :=
  (data.forwards.countP fun forward => forward.ownerConnectionId = some ownerConnectionId,
    data.removeOwned ownerConnectionId now)

end Updates

/-! ## Imports -/

structure ForwardIdentity where
  tunnel : Option (List Char × Option (List Char))
  forwardType : List Char
  bindAddress : List Char
  bindPort : UInt16
  targetHost : List Char
  targetPort : UInt16
deriving DecidableEq

def ForwardIdentity.fromImport (record : OwnedForwardImportRecord) : ForwardIdentity where
  tunnel := record.tunnel.map fun profile => (profile.name, profile.group)
  forwardType := record.forwardType
  bindAddress := record.bindAddress
  bindPort := record.bindPort
  targetHost := record.targetHost
  targetPort := record.targetPort

def ForwardIdentity.fromPersisted (forward : PersistedForward) : ForwardIdentity where
  tunnel := forward.tunnel.map fun profile => (profile.name, profile.group)
  forwardType := forward.forwardType.asStr
  bindAddress := forward.rule.bindAddress
  bindPort := forward.rule.bindPort
  targetHost := forward.rule.targetHost
  targetPort := forward.rule.targetPort

/-- Under a fresh id. -/
def importRecordToPersisted (freshId : List Char) (record : OwnedForwardImportRecord)
    (persistedAt : Int) : Except SavedForwardError PersistedForward := do
  let forwardType ← ForwardType.tryFromTauriStr record.forwardType
  let rule : ForwardRule :=
    { id := freshId
      forwardType
      bindAddress := record.bindAddress
      bindPort := record.bindPort
      targetHost := record.targetHost
      targetPort := record.targetPort
      status := .stopped
      description := record.description.getD [] }
  return {
    id := rule.id
    sessionId := []
    ownerConnectionId := some record.ownerConnectionId
    forwardType
    rule
    createdAt := persistedAt
    updatedAt := some persistedAt
    autoStart := record.autoStart
    tunnel := record.tunnel
    version := persistedForwardVersion }

/-- Where each identity of an owner's forwards is found; of several, the last. -/
abbrev IdentityIndex := List (ForwardIdentity × Nat)

def existingByIdentity (ownerConnectionId : List Char) (forwards : List PersistedForward) :
    IdentityIndex :=
  ((forwards.zipIdx.filter fun (forward, _) =>
    forward.ownerConnectionId = some ownerConnectionId).map fun (forward, index) =>
      (ForwardIdentity.fromPersisted forward, index)).reverse

def IdentityIndex.get (index : IdentityIndex) (identity : ForwardIdentity) : Option Nat :=
  (index.find? fun entry => entry.1 = identity).map (·.2)

/-- What an import changes of a forward that is there. -/
def mergeImport (ownerConnectionId : List Char) (record : OwnedForwardImportRecord)
    (mergedAt : Int) (existing : PersistedForward) : PersistedForward :=
  { existing with
    autoStart := record.autoStart
    tunnel := record.tunnel
    rule := { existing.rule with description := record.description.getD [] }
    ownerConnectionId := some ownerConnectionId
    updatedAt := some mergedAt }

/-- The loops of an import draw fresh ids, each in its turn. -/
abbrev FreshIds := Nat → List Char

/-- The loop of a merge, with the next fresh id. -/
def mergeImportedFrom (fresh : FreshIds) (ownerConnectionId : List Char) (mergedAt : Int) :
    Nat → IdentityIndex → List PersistedForward → List OwnedForwardImportRecord →
      Except SavedForwardError (Nat × List PersistedForward)
  | next, _, forwards, [] => .ok (next, forwards)
  | next, index, forwards, record :: records =>
    match index.get (ForwardIdentity.fromImport record) with
    | some position =>
      mergeImportedFrom fresh ownerConnectionId mergedAt next index
        (forwards.modify position (mergeImport ownerConnectionId record mergedAt)) records
    | none => do
      let persisted ← importRecordToPersisted (fresh next) record mergedAt
      mergeImportedFrom fresh ownerConnectionId mergedAt (next + 1)
        ((ForwardIdentity.fromImport record, forwards.length) :: index) (forwards ++ [persisted])
        records

def mergeImportedOwnerForwards (fresh : FreshIds) (next : Nat) (forwards : List PersistedForward)
    (ownerConnectionId : List Char) (records : List OwnedForwardImportRecord) (mergedAt : Int) :
    Except SavedForwardError (Nat × List PersistedForward) :=
  mergeImportedFrom fresh ownerConnectionId mergedAt next
    (existingByIdentity ownerConnectionId forwards) forwards records

/-- The loop that appends the records of an owner. -/
def appendImported (fresh : FreshIds) (now : Int) :
    Nat → List PersistedForward → List OwnedForwardImportRecord →
      Except SavedForwardError (Nat × List PersistedForward)
  | next, forwards, [] => .ok (next, forwards)
  | next, forwards, record :: records => do
    let persisted ← importRecordToPersisted (fresh next) record now
    appendImported fresh now (next + 1) (forwards ++ [persisted]) records

/-- The loop over the owners, in the order of the map. -/
def importOwners (fresh : FreshIds) (now : Int) (replaceOwners mergeOwners : List (List Char))
    (records : List OwnedForwardImportRecord) :
    Nat → List PersistedForward → List (List Char) →
      Except SavedForwardError (List PersistedForward)
  | _, forwards, [] => .ok forwards
  | next, forwards, owner :: owners => do
    let ownerRecords := records.filter fun record => record.ownerConnectionId = owner
    let (next, forwards) ←
      if mergeOwners.contains owner && !replaceOwners.contains owner then
        mergeImportedOwnerForwards fresh next forwards owner ownerRecords now
      else appendImported fresh now next forwards ownerRecords
    importOwners fresh now replaceOwners mergeOwners records next forwards owners

/-- The owners of the records are visited in the order that the map has them. -/
def applyOwnedForwardImportRecords (fresh : FreshIds) (now : Int) (data : SavedForwardData)
    (records : List OwnedForwardImportRecord) (replaceOwners mergeOwners : List (List Char))
    (owners : List (List Char)) : Except SavedForwardError (Nat × SavedForwardData) := do
  let replaced := replaceOwners.foldl (fun data owner => data.removeOwned owner now) data
  let forwards ← importOwners fresh now replaceOwners mergeOwners records 0 replaced.forwards owners
  return (records.length, { replaced with forwards }.retainTombstones)

/-! ## Snapshots -/

section Snapshots

variable (timestamps : Timestamps)

def parseSyncTimestamp (value : List Char) (field : String) : Except SavedForwardError Int :=
  match timestamps.parseFromRfc3339 value with
  | some time => .ok time
  | none => .error (.invalidTimestamp field value)

def persistedForwardToDto (forward : PersistedForward)
    (ownerConnectionName : Option (List Char)) : PersistedForwardDto where
  id := forward.id
  sessionId := forward.sessionId
  ownerConnectionId := forward.ownerConnectionId
  ownerConnectionName
  forwardType := forward.forwardType.asStr
  bindAddress := forward.rule.bindAddress
  bindPort := forward.rule.bindPort
  targetHost := forward.rule.targetHost
  targetPort := forward.rule.targetPort
  autoStart := forward.autoStart
  tunnel := forward.tunnel
  createdAt := timestamps.toRfc3339 forward.createdAt
  description := if forward.rule.description ≠ [] then some forward.rule.description else none

def buildSavedForwardSyncRecord (forward : PersistedForward) : SavedForwardSyncRecord :=
  let payload := persistedForwardToDto timestamps forward none
  { id := payload.id
    updatedAt := timestamps.toRfc3339 forward.syncUpdatedAt
    deleted := false
    payload := some payload }

def buildSavedForwardTombstoneRecord (tombstone : DeletedPersistedForwardTombstone) :
    SavedForwardSyncRecord where
  id := tombstone.id
  updatedAt := timestamps.toRfc3339 tombstone.deletedAt
  deleted := true
  payload := none

/-- The forwards of connections, and the tombstones in retention. -/
def loadSyncState (now : Int) (data : SavedForwardData) :
    List PersistedForward × List DeletedPersistedForwardTombstone :=
  ((data.forwards.filter fun forward => forward.ownerConnectionId.isSome).insertionSort
      fun a b => a.createdAt ≤ b.createdAt,
    (activeTombstones now data.tombstones).insertionSort fun a b => a.deletedAt ≤ b.deletedAt)

/-- The records, by their ids. -/
def exportSnapshot (now : Int) (data : SavedForwardData) : List SavedForwardSyncRecord :=
  let (forwards, tombstones) := loadSyncState now data
  (forwards.map (buildSavedForwardSyncRecord timestamps) ++
    tombstones.map (buildSavedForwardTombstoneRecord timestamps)).insertionSort
      fun a b => a.id ≤ b.id

def persistedForwardFromSyncPayload (payload : PersistedForwardDto) (recordUpdatedAt : Int) :
    Except SavedForwardError PersistedForward := do
  let forwardType ← ForwardType.tryFromTauriStr payload.forwardType
  let createdAt ← parseSyncTimestamp timestamps payload.createdAt "created_at"
  return {
    id := payload.id
    sessionId := []
    ownerConnectionId := payload.ownerConnectionId
    forwardType
    rule := {
      id := payload.id
      forwardType
      bindAddress := payload.bindAddress
      bindPort := payload.bindPort
      targetHost := payload.targetHost
      targetPort := payload.targetPort
      status := .stopped
      description := payload.description.getD [] }
    createdAt
    updatedAt := some recordUpdatedAt
    autoStart := payload.autoStart
    tunnel := payload.tunnel
    version := persistedForwardVersion }

structure ApplySavedForwardsSyncSnapshotResult where
  applied : Nat
  skipped : Nat
deriving DecidableEq

/-- What the loop over the records carries. -/
structure ApplyState where
  data : SavedForwardData
  result : ApplySavedForwardsSyncSnapshotResult

def ApplyState.skip (state : ApplyState) : ApplyState :=
  { state with result := { state.result with skipped := state.result.skipped + 1 } }

def ApplyState.apply (state : ApplyState) (data : SavedForwardData) : ApplyState :=
  { data, result := { state.result with applied := state.result.applied + 1 } }

/-- One record, against the data that was there in front of the loop. -/
def applyRecord (validOwners : List (List Char)) (before : SavedForwardData) (state : ApplyState)
    (record : SavedForwardSyncRecord) : Except SavedForwardError ApplyState := do
  let recordUpdatedAt ← parseSyncTimestamp timestamps record.updatedAt "updated_at"
  let isNewer := (before.existingById record.id).any fun existing =>
    recordUpdatedAt < existing.syncUpdatedAt
  if record.deleted then
    if isNewer then return state.skip
    else return state.apply {
      forwards := state.data.forwards.filter fun forward => forward.id ≠ record.id
      tombstones := upsertTombstone state.data.tombstones
        { id := record.id, deletedAt := recordUpdatedAt } }
  else
    match record.payload with
    | none => return state.skip
    | some payload =>
      let isBuried := (before.tombstonesById record.id).any fun tombstone =>
        recordUpdatedAt ≤ tombstone.deletedAt
      if isBuried then return state.skip
      else if isNewer then return state.skip
      else
        match payload.ownerConnectionId with
        | none => return state.skip
        | some ownerConnectionId =>
          if ownerConnectionId ∉ validOwners then return state.skip
          else do
            let forward ← persistedForwardFromSyncPayload timestamps payload recordUpdatedAt
            return state.apply {
              forwards := upsertForward state.data.forwards forward
              tombstones := state.data.tombstones.filter fun tombstone =>
                tombstone.id ≠ record.id }

/-- The result and the data, which is stored if anything was applied. -/
def applySnapshot (data : SavedForwardData) (records : List SavedForwardSyncRecord)
    (validOwners : List (List Char)) : Except SavedForwardError ApplyState :=
  records.foldlM (applyRecord timestamps validOwners data) ⟨data, ⟨0, 0⟩⟩

/-- The loop that checks and reads the records, with the ids it has seen. -/
def resolveRecords (owners : List (List Char)) (now : Int) (ids : List (List Char)) :
    List PersistedForwardDto → Except SavedForwardError (List PersistedForward)
  | [] => .ok []
  | record :: records =>
    if ids.contains record.id || record.ownerConnectionId.all (!owners.contains ·) then
      .error (.invalidSnapshot "Invalid resolved forward identity or owner")
    else do
      let forward ← persistedForwardFromSyncPayload timestamps record now
      let forwards ← resolveRecords owners now (record.id :: ids) records
      return forward :: forwards

def replaceResolved (now : Int) (data : SavedForwardData) (records : List PersistedForwardDto)
    (owners : List (List Char)) : Except SavedForwardError SavedForwardData := do
  let resolved ← resolveRecords timestamps owners now [] records
  let ids := records.map (·.id)
  let dropped := data.forwards.filter fun forward =>
    forward.ownerConnectionId.isSome && !ids.contains forward.id
  return {
    forwards := data.forwards.filter (fun forward => forward.ownerConnectionId = none) ++ resolved
    tombstones := (data.bury (dropped.map (·.id)) now).tombstones.filter fun tombstone =>
      !ids.contains tombstone.id }

end Snapshots

end OxideTerm.Forwarding
