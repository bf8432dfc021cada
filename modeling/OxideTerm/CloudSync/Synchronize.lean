import OxideTerm.CloudSync.Network
import OxideTerm.CloudSync.Storage

/-!
# The synchronization cycle

Any number of devices, each with its configuration, its stored replica and at most one plan. To
synchronize, a device captures its configuration against the values that were last applied and
reads what others published; the plan may be cancelled, and conflicts may be resolved in it. When
it is applied, the configuration is captured once more, everything is merged, and what has one
value is applied. The values applied are what the next capture compares with.
-/

namespace OxideTerm.CloudSync

open OxideTerm.Lib

/-- What is synchronized. The settings that select the records are behind a function of the
records that are known and of the values. -/
structure SyncScope where
  select : Finset SyncResource → SyncValues → Finset SyncResource
  fieldEnabled : SyncField → Bool
  collects : SyncField → Bool

namespace SyncScope

variable (scope : SyncScope)

/-- Whether the field is part of the view. -/
def views (field : SyncField) : Bool := scope.collects field && scope.fieldEnabled field

/-- The part of the configuration that is synchronized. -/
def collect (live : SyncValues) : SyncValues := live.retain scope.views

def updateEffective (effective current : SyncValues) (selected : Finset SyncResource) :
    SyncValues :=
  (effective.retain fun field =>
      decide (field.resource ∉ selected) || !scope.fieldEnabled field).extend
    (current.retain fun field => decide (field.resource ∈ selected))

def captureBaseline (effective : SyncValues) : SyncValues := effective.retain scope.fieldEnabled

end SyncScope

/-- The candidate chosen for a conflict. -/
structure Resolution where
  conflict : SyncConflict
  index : Fin conflict.candidates.length

structure PreparedSync where
  localReplica : LocalReplica
  remote : List ReplicaSnapshot
  observed : List PublicationId
  scope : SyncScope
  resolutions : List Resolution

/-- The replica that a record holds. -/
def LocalReplica.replica (record : LocalReplica) : SyncReplica where
  document := record.snapshot.document
  writer := record.writer
  values := record.snapshot.values

section

variable {Context : Type} (codec : Codec Context)

/-- Captures the values into the replica of the record. Further records may be known to others.
Returns the records that were selected, too. -/
def LocalReplica.capture (record : LocalReplica) (scope : SyncScope) (values : SyncValues)
    (known : Finset SyncResource) : Result (SyncReplica × Finset SyncResource) :=
  match SyncReplica.load codec.contentDigest record.snapshot record.writer with
  | .error e => .error e
  | .ok replica =>
    match replica.resources with
    | .error e => .error e
    | .ok resources =>
      match replica.captureLocal codec.contentDigest (scope.captureBaseline record.effective) values
          (scope.select (resources ∪ known) values) with
      | (_, .error e) => .error e
      | (replica, .ok _) => .ok (replica, scope.select (resources ∪ known) values)

/-- Makes a plan. The snapshots are those read from the cloud, and `missing` tells that none of
the device's own is there any more. Returns the disk, too. -/
def prepareSync (disk : Option LocalReplica) (writer : Uuid) (live : SyncValues) (scope : SyncScope)
    (remote : List (PublicationId × ReplicaSnapshot)) (missing : Bool) (outcome : WriteOutcome) :
    Option LocalReplica × Result PreparedSync :=
  match ReplicaStore.load codec disk with
  | .error e => (disk, .error e)
  | .ok stored =>
    let record := stored.getD (.new writer)
    match record.capture codec scope (scope.collect live) ∅ with
    | .error e => (disk, .error e)
    | .ok (replica, selected) =>
      let record : LocalReplica := { record with
        snapshot := replica.snapshot
        effective := scope.updateEffective record.effective (scope.collect live) selected }
      let plan (record : LocalReplica) : PreparedSync :=
        { localReplica := record
          remote := remote.map Prod.snd
          observed := remote.map Prod.fst
          scope
          resolutions := [] }
      if record.writer ∈ record.observed.keys ∧ missing = true then
        match ReplicaStore.save codec disk record.requestPublication outcome with
        | (disk, .error e) => (disk, .error e)
        | (disk, .ok ()) => (disk, .ok (plan record.requestPublication))
      else (disk, .ok (plan record))

namespace PreparedSync

/-- A choice replaces an earlier one for the same field. -/
def chooseCandidate (plan : PreparedSync) (resolution : Resolution) : PreparedSync :=
  { plan with
    resolutions := (plan.resolutions.filter fun previous =>
      decide (previous.conflict.field ≠ resolution.conflict.field)) ++ [resolution] }

def remoteReplica (plan : PreparedSync) : Result SyncReplica :=
  SyncReplica.mergeAll codec.contentDigest plan.remote (SyncReplica.new plan.localReplica.writer)

/-- Resolves one conflict after the other. -/
def resolveAll : List Resolution → SyncReplica → Result SyncReplica
  | [], replica => .ok replica
  | resolution :: rest, replica =>
    let choice :=
      replica.candidateValue (resolution.conflict.candidates.get resolution.index)
    match replica.resolve codec.contentDigest resolution.conflict choice with
    | (_, .error e) => .error e
    | (replica, .ok ()) => resolveAll rest replica

/-- The capture that the plan makes of the values, with what was read from the cloud. -/
def captured (plan : PreparedSync) (values : SyncValues) :
    Result (SyncReplica × SyncReplica) :=
  match plan.remoteReplica codec with
  | .error e => .error e
  | .ok remote =>
    match remote.resources with
    | .error e => .error e
    | .ok known =>
      match plan.localReplica.capture codec plan.scope values known with
      | .error e => .error e
      | .ok (replica, _) => .ok (replica, remote)

def plannedReplica (plan : PreparedSync) (values : SyncValues) : Result SyncReplica :=
  match plan.captured codec values with
  | .error e => .error e
  | .ok (replica, remote) =>
    match replica.merge codec.contentDigest remote.snapshot with
    | (_, .error e) => .error e
    | (replica, .ok ()) => resolveAll codec plan.resolutions replica

/-- What applying the plan leads to: the values, and the record to be stored with them. -/
def applied (plan : PreparedSync) (live : SyncValues) : Result (SyncValues × LocalReplica) :=
  let current := plan.scope.collect live
  match plan.plannedReplica codec current with
  | .error e => .error e
  | .ok replica =>
    match replica.resources with
    | .error e => .error e
    | .ok resources =>
      match replica.materialize current resources with
      | .error e => .error e
      | .ok merged =>
        let selected := plan.scope.select resources merged
        match replica.materialize current selected with
        | .error e => .error e
        | .ok desired =>
          let desired := desired.retain plan.scope.fieldEnabled
          .ok (desired, { plan.localReplica with
            observed := plan.localReplica.observed.extend
              (.ofList (plan.observed.map fun id => (id.writer, id)))
            snapshot := replica.snapshot
            effective := plan.scope.updateEffective plan.localReplica.effective desired selected })

end PreparedSync

end

end OxideTerm.CloudSync
