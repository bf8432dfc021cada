import OxideTerm.CloudSync.Model

/-!
# The replica of the synchronized records

A replica is a document of registers that hold digests, and the values with these digests.
Local changes are captured by comparing the values that were last applied with the current ones;
a register that shows different values is a conflict, and is left alone until it is resolved.
-/

namespace OxideTerm.CloudSync

open OxideTerm.Lib

structure ReplicaSnapshot where
  schema : Nat
  document : SyncDocument
  values : FiniteMap String FieldValue
deriving DecidableEq

structure SyncReplica where
  document : SyncDocument
  writer : Uuid
  values : FiniteMap String FieldValue
deriving DecidableEq

/-- How many different values the candidates have. -/
def distinctValues (candidates : List SyncCandidate) : Nat :=
  (candidates.map SyncCandidate.valueDigest).toFinset.card

/-- What a write offers as the value of its field. -/
def candidateOf (p : Put SyncField Uuid ScalarValue) : SyncCandidate where
  operation := p.id
  valueDigest := match p.value with
    | .reference digest _ => some digest
    | _ => none

namespace SyncReplica

variable (contentDigest : FieldValue → String)

/-! ## Reading -/

def new (writer : Uuid) : SyncReplica where
  document := ∅
  writer
  values := .empty

def snapshot (r : SyncReplica) : ReplicaSnapshot where
  schema := 3
  document := r.document
  values := r.values

/-- What the register of a field shows, in the order of the operations. -/
def candidates (r : SyncReplica) (key : SyncField) : Result (List SyncCandidate) :=
  if ∃ p ∈ r.document.visible key, p.value = .unsupported then
    .error "Invalid sync register value"
  else .ok (inOrder ((r.document.visible key).image candidateOf))

def candidateValue (r : SyncReplica) (candidate : SyncCandidate) : Option FieldValue :=
  candidate.valueDigest.bind r.values.get

/-- Whether the conflicts of a field are those of a record whose presence is in conflict, or
which is deleted. -/
def recordUndecided (r : SyncReplica) (field : SyncField) : Result Bool :=
  if field.isPresence then .ok false
  else
    match (SyncField.presence field.resource).key with
    | .error e => .error e
    | .ok key =>
      match r.candidates key with
      | .error e => .error e
      | .ok presence =>
        .ok (decide (distinctValues presence > 1) || presence.head?.any fun candidate =>
          (r.candidateValue candidate).any fun value => decide (value.decodeBool = .ok false))

/-- The conflict in one register. -/
def conflictAt (r : SyncReplica) (key : SyncField) : Result (Option SyncConflict) :=
  match SyncField.fromKey key with
  | .error e => .error e
  | .ok field =>
    match r.recordUndecided field with
    | .error e => .error e
    | .ok true => .ok none
    | .ok false =>
      match r.candidates key with
      | .error e => .error e
      | .ok candidates =>
        .ok (if distinctValues candidates > 1 then some { field, candidates } else none)

def conflicts (r : SyncReplica) : Result (List SyncConflict) :=
  ((inOrder r.document.keys).mapM r.conflictAt).map List.reduceOption

/-! ## Validation -/

/-- Checks one candidate of a field. -/
def validateCandidate (r : SyncReplica) (field : SyncField) (candidate : SyncCandidate) :
    Result Unit :=
  match candidate.valueDigest with
  | some digest =>
    match r.values.get digest with
    | none => .error "Cloud sync value is missing"
    | some value => if field.isPresence then value.decodeBool.map fun _ => () else .ok ()
  | none => if field.isPresence then .error "Invalid sync record presence" else .ok ()

/-- Checks one register, and that the record has a presence. -/
def validateKey (r : SyncReplica) (key : SyncField) : Result Unit :=
  match SyncField.fromKey key with
  | .error e => .error e
  | .ok field =>
    match r.candidates key with
    | .error e => .error e
    | .ok candidates =>
      match candidates.forM (r.validateCandidate field) with
      | .error e => .error e
      | .ok () =>
        match (SyncField.presence field.resource).key with
        | .error e => .error e
        | .ok key =>
          match r.candidates key with
          | .error e => .error e
          | .ok presence =>
            if presence = [] then .error "Cloud sync record has no presence state" else .ok ()

def validate (r : SyncReplica) : Result Unit :=
  if ∃ digest ∈ r.values.keys, (r.values.get digest).map contentDigest ≠ some digest then
    .error "Cloud sync value digest mismatch"
  else (inOrder r.document.keys).forM r.validateKey

def load (snapshot : ReplicaSnapshot) (writer : Uuid) : Result SyncReplica :=
  if snapshot.schema ≠ 3 then .error "Unsupported cloud sync replica schema"
  else
    let replica : SyncReplica :=
      { document := snapshot.document, writer, values := snapshot.values }
    match replica.validate contentDigest with
    | .error e => .error e
    | .ok () => .ok replica

def merge (r : SyncReplica) (remote : ReplicaSnapshot) : SyncReplica × Result Unit :=
  match load contentDigest remote 0 with
  | .error e => (r, .error e)
  | .ok incoming =>
    ({ r with
        document := r.document ∪ incoming.document
        values := r.values.extend incoming.values }, .ok ())

/-- Merges one snapshot after the other. -/
def mergeAll : List ReplicaSnapshot → SyncReplica → Result SyncReplica
  | [], r => .ok r
  | s :: rest, r =>
    match r.merge contentDigest s with
    | (_, .error e) => .error e
    | (r, .ok ()) => mergeAll rest r

/-! ## Writing -/

/-- Keeps a value that is to be referred to. -/
def keep (r : SyncReplica) (value : Option FieldValue) : SyncReplica :=
  match value with
  | some value => { r with values := r.values.insert (contentDigest value) value }
  | none => r

/-- What a register is to hold for the value. -/
def scalarOf (r : SyncReplica) (value : Option FieldValue) : ScalarValue :=
  match value with
  | some value => .reference (contentDigest value) (r.document.nextId r.writer)
  | none => .null

def write (r : SyncReplica) (field : SyncField) (value : Option FieldValue) :
    SyncReplica × Result Unit :=
  match field.key with
  | .error e => (r.keep contentDigest value, .error e)
  | .ok key =>
    ({ r.keep contentDigest value with
        document := r.document.put r.writer key (r.scalarOf contentDigest value) }, .ok ())

/-- A write to a field. -/
abbrev FieldWrite := SyncField × Option FieldValue

/-- The loops that write: each item is passed over, written, or ends the loop with an error.
Returns the items that were written. -/
def writeEach {ι : Type} (choose : ι → Result (Option FieldWrite)) :
    List ι → SyncReplica → SyncReplica × Result (List ι)
  | [], r => (r, .ok [])
  | i :: rest, r =>
    match choose i with
    | .error e => (r, .error e)
    | .ok none => writeEach choose rest r
    | .ok (some (field, value)) =>
      match r.write contentDigest field value with
      | (r, .error e) => (r, .error e)
      | (r, .ok ()) =>
        match writeEach choose rest r with
        | (r, .error e) => (r, .error e)
        | (r, .ok written) => (r, .ok (i :: written))

/-- The record was present, and no longer is. -/
def deletion (previous current : SyncValues) (blockedRecords : Finset SyncResource)
    (resource : SyncResource) : Result (Option FieldWrite) :=
  match previous.present resource with
  | .error e => .error e
  | .ok wasPresent =>
    match current.present resource with
    | .error e => .error e
    | .ok isPresent =>
      .ok (if !isPresent && wasPresent && resource ∉ blockedRecords then
        some (.presence resource, some (.encodeBool false)) else none)

/-- The field has another value than before, and may be written. -/
def changedField (previous current : SyncValues) (selected blockedRecords deletedRecords :
    Finset SyncResource) (blockedFields : Finset SyncField) (field : SyncField) :
    Result (Option FieldWrite) :=
  if field.resource ∉ selected ∨ field.resource ∈ blockedRecords ∨
      field.resource ∈ deletedRecords ∨ field ∈ blockedFields ∨
      previous.get field = current.get field then .ok none
  else if field.isPresence then
    match current.present field.resource with
    | .error e => .error e
    | .ok present => .ok (some (field, some (.encodeBool present)))
  else .ok (some (field, current.get field))

/-- A record with a change is marked as present once more. -/
def reaffirmation (current : SyncValues) (resource : SyncResource) :
    Result (Option FieldWrite) :=
  match current.present resource with
  | .error e => .error e
  | .ok present =>
    .ok (if present then some (.presence resource, some (.encodeBool true)) else none)

/-- Compares with what actually reached the domain stores, and writes the differences. Reports
whether there are any. -/
def captureLocal (r : SyncReplica) (previous current : SyncValues)
    (selected : Finset SyncResource) : SyncReplica × Result Bool :=
  match r.conflicts with
  | .error e => (r, .error e)
  | .ok conflicts =>
    let blockedFields := (conflicts.map SyncConflict.field).toFinset
    let blockedRecords :=
      (blockedFields.filter fun field => field.isPresence = true).image SyncField.resource
    match writeEach contentDigest (deletion previous current blockedRecords)
        (inOrder selected) r with
    | (r, .error e) => (r, .error e)
    | (r, .ok deleted) =>
      match writeEach contentDigest (changedField previous current selected blockedRecords
          deleted.toFinset blockedFields) (inOrder (previous.keys ∪ current.keys)) r with
      | (r, .error e) => (r, .error e)
      | (r, .ok changed) =>
        let changedRecords := deleted.toFinset ∪ (changed.map SyncField.resource).toFinset
        match writeEach contentDigest (reaffirmation current) (inOrder changedRecords) r with
        | (r, .error e) => (r, .error e)
        | (r, .ok _) => (r, .ok (decide (changedRecords ≠ ∅)))

/-- The replacement of one field in a directional synchronization. -/
def replacement (values : SyncValues) (field : SyncField) : Result (Option FieldWrite) :=
  if field.isPresence then
    match values.present field.resource with
    | .error e => .error e
    | .ok present => .ok (some (field, some (.encodeBool present)))
  else
    .ok (if .presence field.resource ∈ values.keys then some (field, values.get field) else none)

/-- Explicit directional synchronization replaces only the user's selected fields. -/
def replaceFields (r : SyncReplica) (values : SyncValues) (fields : Finset SyncField) :
    SyncReplica × Result Unit :=
  match writeEach contentDigest (replacement values) (inOrder fields) r with
  | (r, .error e) => (r, .error e)
  | (r, .ok _) => (r, .ok ())

/-- Whether a choice can be made for the field: a presence needs a truth value. -/
def validateChoice (field : SyncField) (choice : Option FieldValue) : Result Unit :=
  if field.isPresence then
    match choice with
    | none => .error "A record resolution requires a presence value"
    | some value => value.decodeBool.map fun _ => ()
  else .ok ()

def resolve (r : SyncReplica) (conflict : SyncConflict) (choice : Option FieldValue) :
    SyncReplica × Result Unit :=
  match conflict.field.key with
  | .error e => (r, .error e)
  | .ok key =>
    match r.candidates key with
    | .error e => (r, .error e)
    | .ok candidates =>
      if candidates ≠ conflict.candidates then
        (r, .error "Sync conflict changed; refresh before resolving it")
      else
        match validateChoice conflict.field choice with
        | .error e => (r, .error e)
        | .ok () => r.write contentDigest conflict.field choice

/-! ## Applying -/

/-- Applies one register of a record. -/
def materializeField (r : SyncReplica) (resource : SyncResource) (result : SyncValues)
    (key : SyncField) : Result SyncValues :=
  match SyncField.fromKey key with
  | .error e => .error e
  | .ok field =>
    if field.resource ≠ resource then .ok result
    else
      match r.candidates key with
      | .error e => .error e
      | .ok candidates =>
        match candidates with
        | [] => .ok result
        | candidate :: _ =>
          if distinctValues candidates > 1 then .ok result
          else
            match r.candidateValue candidate with
            | some value => .ok (result.insert field value)
            | none => .ok (result.erase field)

/-- Applies one record. -/
def materializeRecord (r : SyncReplica) (loc result : SyncValues) (resource : SyncResource) :
    Result SyncValues :=
  match (SyncField.presence resource).key with
  | .error e => .error e
  | .ok key =>
    match r.candidates key with
    | .error e => .error e
    | .ok [] => .ok result
    | .ok (candidate :: others) =>
      if distinctValues (candidate :: others) > 1 then .ok result
      else
        match r.candidateValue candidate with
        | none => .error "Missing sync record presence"
        | some value =>
          match value.decodeBool with
          | .error e => .error e
          | .ok false => .ok (result.retain fun field => field.resource ≠ resource)
          | .ok true =>
            let keys := inOrder r.document.keys
            if .presence resource ∈ loc.keys then keys.foldlM (r.materializeField resource) result
            else
              -- a new record with unresolved fields has no complete local value to retain
              match r.conflicts with
              | .error e => .error e
              | .ok conflicts =>
                if conflicts.any fun conflict => conflict.field.resource = resource then .ok result
                else keys.foldlM (r.materializeField resource) result

def materialize (r : SyncReplica) (loc : SyncValues) (selected : Finset SyncResource) :
    Result SyncValues := (inOrder selected).foldlM (r.materializeRecord loc) loc

def resources (r : SyncReplica) : Result (Finset SyncResource) :=
  ((inOrder r.document.keys).mapM SyncField.fromKey).map fun fields =>
    (fields.map SyncField.resource).toFinset

def fields (r : SyncReplica) : Result (Finset SyncField) :=
  ((inOrder r.document.keys).mapM SyncField.fromKey).map List.toFinset

end SyncReplica

end OxideTerm.CloudSync
