import OxideTerm.CloudSync.Stores

/-!
# Applying and recovering

Applying a plan changes one store after the other. Before the first change the journal is written,
with what the stores hold, and before a slot is created it is recorded there. Once everything is
written, the journal is marked as committed. Recovery puts everything back before that, and
deletes the slots no longer needed after it; it may be cut off itself, and starts again from the
journal.
-/

namespace OxideTerm.CloudSync

open OxideTerm.Lib Procedure Access

/-! ## The journal -/

namespace RecoveryJournal

def begin (replica : LocalReplica) : Access RecoveryJournal := do
  let pending ← readRecovery
  if pending.isSome then raise "Cloud sync recovery must complete before applying data"
  else
    let connections ← createCheckpoint
    attempt "failed to checkpoint saved forwards"
    let forwards ← gets fun w => if w.forwardStore then some w.stores.forwards else none
    attempt "failed to checkpoint settings"
    let settings ← gets fun w => w.stores.settings
    attempt "failed to checkpoint quick commands"
    let commands ← gets fun w => w.stores.commands
    attempt "failed to checkpoint plugin settings"
    let plugins ← gets fun w => w.stores.plugins
    let journal : RecoveryJournal :=
      { schema := 3
        committed := false
        connections
        forwards
        settings
        commands
        plugins
        replica
        createdSlots := []
        connectionCleanup := none
        credentialCleanup := none
        auxiliaryBefore := { secrets := [], inventory := [] }
        managedCreated := []
        managedStale := []
        privilegeCreated := []
        privilegeStale := [] }
    persist journal
    pure journal

def checkpointAuxiliary (journal : RecoveryJournal) (incoming : List (String × String)) :
    Access RecoveryJournal := do
  let auxiliaryBefore ← checkpointAuxiliarySecrets incoming
  persist { journal with auxiliaryBefore }
  pure { journal with auxiliaryBefore }

section

variable {Context : Type} (codec : Codec Context)

/-- What comes before the journal is marked as committed. -/
def prepareCommit (journal : RecoveryJournal) (next : LocalReplica)
    (connectionCleanup : Option ConnectionCleanup) (credentialCleanup : Option (List String)) :
    Access RecoveryJournal := do
  persist { journal with connectionCleanup, credentialCleanup }
  saveReplica codec next
  pure { journal with connectionCleanup, credentialCleanup, committed := true }

/-- Puts the files and the keys of providers back. -/
def restoreFiles (journal : RecoveryJournal) : Access Unit := do
  restoreAuxiliary journal.auxiliaryBefore
  restoreCheckpoint journal.connections
  writeStores "failed to restore settings" fun s => { s with settings := journal.settings }
  journal.forwards.forM fun forwards =>
    writeStores "failed to restore saved forwards" fun s => { s with forwards }
  writeStores "failed to restore quick commands" fun s => { s with commands := journal.commands }
  writeStores "failed to restore plugin settings" fun s => { s with plugins := journal.plugins }

/-- The end of an apply that is taken back. -/
def restoreUncommitted (journal : RecoveryJournal) : Access Unit := do
  journal.restoreFiles
  removeStagedProfileCredentialSlots journal.createdSlots
  removeSyncedManagedKeySlots journal.managedCreated
  removeSyncedPrivilegeSlots journal.privilegeCreated
  saveReplica codec journal.replica

/-- The end of an apply that is committed. -/
def finishCommitted (journal : RecoveryJournal) : Access Unit := do
  removeSyncedPrivilegeSlots journal.privilegeStale
  removeSyncedManagedKeySlots journal.managedStale
  journal.connectionCleanup.forM finalizeSavedConnectionsSyncCleanup
  journal.credentialCleanup.forM commitProfileCredentials

/-- Returns whether there was something to recover. -/
def recover : Access Bool := do
  let pending ← readRecovery
  match pending with
  | none => pure false
  | some journal =>
    if journal.schema ≠ 3 then raise "Unsupported cloud sync recovery record"
    else
      if journal.committed then finishCommitted journal else restoreUncommitted codec journal
      clearRecovery
      pure true

end

end RecoveryJournal

/-! ## Slots that are created -/

/-- What becomes of a value, and the slot to be created for it. -/
structure SlotDecision (α : Type) where
  next : α
  creates : Option (String × String)

/-- A new slot is recorded before it is created. -/
def stageSlot {α : Type} (kind : SlotKind) (decide : KeyStore → Result (SlotDecision α))
    (journal : RecoveryJournal) : Access (α × RecoveryJournal) := do
  attempt "failed to read password from OS keychain"
  let slots ← readSlots kind
  let decision ← ofExcept (decide slots)
  match decision.creates with
  | none => pure (decision.next, journal)
  | some (reference, secret) =>
    persist (journal.recordCreation kind reference)
    storeSlot kind reference secret
    pure (decision.next, journal.recordCreation kind reference)

/-! ## Managed keys -/

/-- A key as it was received, with what is wrong with it. -/
structure ManagedKeySyncRecord where
  metadata : ManagedKey
  privateKey : String
  problem : Option String
  uuid : String

def ManagedKeySyncRecord.reference (incoming : ManagedKeySyncRecord) : String :=
  "managed-key-sync-" ++ incoming.uuid

/-- The connections with the key in its slot. -/
def ConnectionData.withManagedKey (data : ConnectionData) (key : ManagedKey) : ConnectionData :=
  { data with managedKeys := (data.managedKeys.filter fun k => k.id ≠ key.id) ++ [key] }

/-- An unchanged key stays in its slot. Returns the slot that becomes stale. -/
def managedKeyDecision (data : ConnectionData) (incoming : ManagedKeySyncRecord) (slots : KeyStore) :
    Result (SlotDecision (ConnectionData × Option String)) :=
  if incoming.metadata.id = "" then .error "Managed key identity cannot be empty"
  else
    match incoming.problem with
    | some problem => .error problem
    | none =>
      let created (stale : Option String) : SlotDecision (ConnectionData × Option String) :=
        { next := (data.withManagedKey { incoming.metadata with secretId := incoming.reference },
            stale)
          creates := some (incoming.reference, incoming.privateKey) }
      match data.managedKeys.find? fun k => k.id = incoming.metadata.id with
      | none => .ok (created none)
      | some previous =>
        match slots previous.secretId with
        | none => .error "Managed SSH key secret unavailable"
        | some secret =>
          if secret = incoming.privateKey then
            .ok
              { next := (data.withManagedKey
                  { incoming.metadata with secretId := previous.secretId }, none)
                creates := none }
          else .ok (created (some previous.secretId))

def prepareManagedKeySync (journal : RecoveryJournal) (incoming : ManagedKeySyncRecord) :
    Access RecoveryJournal := do
  let data ← gets World.connections
  let ((data, stale), journal) ← stageSlot .managedKey (managedKeyDecision data incoming) journal
  setConnections data
  match stale with
  | none => pure journal
  | some old => pure (journal.deferManagedCleanup old)

/-! ## Privilege credentials -/

structure PrivilegeSyncRecord where
  metadata : PrivilegeCredential
  secret : Option String
  uuid : String

def PrivilegeSyncRecord.reference (record : PrivilegeSyncRecord) : String :=
  "privilege-sync-" ++ record.uuid

/-- Whether the connections have a place for credentials under this name. -/
def ConnectionData.hasPrivilegeScope (data : ConnectionData) (owner : String) : Bool :=
  decide (owner = "local-shell" ∨ owner = "ssh-common" ∨ owner ∈ data.connectionIds)

def checkPrivilegeIdentities (records : List PrivilegeSyncRecord) : Result Unit :=
  if records.any fun r => r.metadata.id = "" then
    .error "Privilege credential identity cannot be empty"
  else if records.any fun r => r.metadata.label = "" then
    .error "Privilege credential label cannot be empty"
  else if ¬ (records.map fun r => (r.metadata.connectionId, r.metadata.id)).Nodup then
    .error "Duplicate privilege credential identity"
  else .ok ()

/-- Returns the credential with the slot it uses. -/
def privilegeDecision (data : ConnectionData) (record : PrivilegeSyncRecord) (slots : KeyStore) :
    Result (SlotDecision PrivilegeCredential) :=
  if ¬ data.hasPrivilegeScope record.metadata.connectionId then .error "Connection not found"
  else
    let old := data.privileges.find? fun c =>
      c.connectionId = record.metadata.connectionId ∧ c.id = record.metadata.id
    let kept (keychainId : Option String) : SlotDecision PrivilegeCredential :=
      { next := { record.metadata with keychainId, plaintextSecret := none }
        creates := none }
    let created : SlotDecision PrivilegeCredential :=
      match record.secret with
      | none => kept none
      | some secret =>
        { next := { record.metadata with
            keychainId := some record.reference
            plaintextSecret := none }
          creates := some (record.reference, secret) }
    match old.bind PrivilegeCredential.keychainId with
    | none => .ok created
    | some reference =>
      match slots reference with
      | none => .error "failed to read password from OS keychain"
      | some previous =>
        if some previous = record.secret then .ok (kept (some reference)) else .ok created

/-- The connections with the credentials of the owners replaced, and the slots that become
stale. -/
def ConnectionData.withPrivileges (data : ConnectionData) (owners : List String)
    (prepared : List PrivilegeCredential) : ConnectionData × List String :=
  ({ data with
      privileges := (data.privileges.filter fun c => c.connectionId ∉ owners) ++
        owners.flatMap fun owner => prepared.filter fun c => c.connectionId = owner },
    (owners.flatMap fun owner =>
      (data.privileges.filter fun c => c.connectionId = owner).filterMap
        PrivilegeCredential.keychainId).filter fun reference =>
      reference ∉ prepared.filterMap PrivilegeCredential.keychainId)

def preparePrivilegeSync (records : List PrivilegeSyncRecord)
    (owners : ConnectionData → List String) (journal : RecoveryJournal) :
    Access RecoveryJournal := do
  ofExcept (checkPrivilegeIdentities records)
  let data ← gets World.connections
  let (prepared, journal) ← records.foldlM (fun (prepared, journal) record =>
    if record.metadata.connectionId ∉ owners data then pure (prepared, journal)
    else do
      let (credential, journal) ← stageSlot .privilege (privilegeDecision data record) journal
      pure (prepared ++ [credential], journal)) ([], journal)
  if (owners data).all data.hasPrivilegeScope then
    setConnections (data.withPrivileges (owners data) prepared).1
    saveConnections
    pure (journal.deferPrivilegeCleanup (data.withPrivileges (owners data) prepared).2)
  else raise "Connection not found"

/-! ## Credentials of profiles -/

/-- A credential as it was received, with what is wrong with it. -/
structure ProfileCredential where
  target : String
  cleared : Bool
  secret : String
  problem : Option String
  uuid : String

def globalProxyTarget : String := "global-proxy"

def ProfileCredential.reference (credential : ProfileCredential) : String :=
  (if credential.target = globalProxyTarget then "oxide_global_proxy_"
    else "oxide_sync_credential_") ++ credential.uuid

/-- The targets that there are, with the slots they use. -/
def credentialBindings (data : ConnectionData) (proxy : Option (Option String)) (target : String) :
    Option (Option String) :=
  (data.credentials ++ (proxy.map fun reference => (globalProxyTarget, reference)).toList).reverse.lookup
    target

/-- The credentials that are to be restored. -/
def selectedCredentials (bound : String → Bool) :
    List ProfileCredential → List String → Result (List ProfileCredential)
  | [], _ => .ok []
  | credential :: rest, seen =>
    if credential.target ∈ seen then .error "Duplicate portable credential target"
    else if ¬ bound credential.target then
      selectedCredentials bound rest (credential.target :: seen)
    else if credential.cleared = true ∧ credential.secret ≠ "" then
      .error "Credential deletion must not contain a value"
    else
      match selectedCredentials bound rest (credential.target :: seen) with
      | .error e => .error e
      | .ok selected => .ok (credential :: selected)

/-- Returns the slot that the credential gets. A slot in use is never overwritten. -/
def credentialDecision (credential : ProfileCredential) (_ : KeyStore) :
    Result (SlotDecision (Option String)) :=
  if credential.cleared then .ok { next := none, creates := none }
  else
    match credential.problem with
    | some problem => .error problem
    | none =>
      .ok
        { next := some credential.reference
          creates := some (credential.reference, credential.secret) }

def updateReference (data : ConnectionData) (proxy : Option (Option String)) (target : String)
    (reference : Option String) : Result (ConnectionData × Option (Option String)) :=
  if target = globalProxyTarget then
    match proxy with
    | none => .error "Global proxy is unavailable"
    | some _ => .ok (data, some reference)
  else if data.credentials.any fun binding => binding.1 = target then
    .ok
      ({ data with
          credentials := data.credentials.map fun binding =>
            if binding.1 = target then (target, reference) else binding }, proxy)
  else .error "Profile is unavailable"

structure CredentialStaging where
  data : ConnectionData
  proxy : Option (Option String)
  created : List String
  stale : List String
  journal : RecoveryJournal

/-- Deletes the slots created so far when an error is raised. -/
def orRollBack {α : Type} (created : List String) (x : Access α) : Access α :=
  x.handle fun e => do
    removeStagedProfileCredentialSlots created
    raise e

def stageCredential (bindings : String → Option (Option String)) (staging : CredentialStaging)
    (credential : ProfileCredential) : Access CredentialStaging := do
  let (reference, journal) ← orRollBack staging.created
    (stageSlot .credential (credentialDecision credential) staging.journal)
  let created := staging.created ++ reference.toList
  let (data, proxy) ← orRollBack created
    (ofExcept (updateReference staging.data staging.proxy credential.target reference))
  pure
    { data
      proxy
      created
      stale := staging.stale ++ (bindings credential.target).join.toList
      journal }

def prepareProfileCredentials (credentials : List ProfileCredential)
    (selected : ConnectionData → String → Bool) (proxy : Option (Option String))
    (journal : RecoveryJournal) : Access CredentialStaging := do
  let data ← gets World.connections
  let bindings := credentialBindings data proxy
  let chosen ← ofExcept (selectedCredentials
    (fun target => selected data target && (bindings target).isSome) credentials [])
  let staging ← chosen.foldlM (stageCredential bindings)
    { data, proxy, created := [], stale := [], journal }
  setConnections staging.data
  pure staging

/-! ## Applying a plan -/

/-- What a plan comes to once everything is decoded: the record it was made for and the one to be
stored, and what is to be written. -/
structure ResolvedSync where
  localReplica : LocalReplica
  next : LocalReplica
  auxiliary : List (String × String)
  managed : List ManagedKeySyncRecord
  configuration : ConnectionData → Result ConnectionData
  connectionIds : List String
  forwards : List String
  commands : String
  settings : SettingsData
  plugins : String
  syncSensitiveCredentials : Bool
  privileges : List PrivilegeSyncRecord
  privilegeOwners : ConnectionData → List String
  credentials : List ProfileCredential
  credentialSelected : ConnectionData → String → Bool

namespace ResolvedSync

/-- A store that cannot be saved is put back at once. -/
def prepareResolvedConfiguration (plan : ResolvedSync) : Access ConnectionCleanup := do
  let checkpoint ← createCheckpoint
  let data ← gets World.connections
  let next ← ofExcept (plan.configuration data)
  setConnections next
  saveConnections.handle fun e => do
    restoreCheckpoint checkpoint
    raise e
  pure
    { pendingKeychainIds := data.credentialReferenceIds.filter fun reference =>
        reference ∉ next.credentialReferenceIds
      pendingPrivilegeKeychainIds := (data.privileges.filter fun c =>
        c.connectionId ∈ data.connectionIds ∧ c.connectionId ∉ plan.connectionIds).filterMap
          PrivilegeCredential.keychainId }

def replaceResolvedForwards (plan : ResolvedSync) : Access Unit := do
  let opened ← gets World.forwardStore
  if opened then
    writeStores "failed to save forwards" fun s => { s with forwards := plan.forwards }
  else if plan.forwards = [] then pure ()
  else raise "Saved-forward store is unavailable"

def prepareCredentials (plan : ResolvedSync) (journal : RecoveryJournal) :
    Access (Option (List String) × RecoveryJournal) :=
  if plan.syncSensitiveCredentials then do
    let journal ← preparePrivilegeSync plan.privileges plan.privilegeOwners journal
    let settings ← gets fun w => w.stores.settings
    let staging ← prepareProfileCredentials plan.credentials plan.credentialSelected
      settings.proxy journal
    writeStores "failed to save settings" fun s =>
      { s with settings := { settings with proxy := staging.proxy } }
    saveConnections
    pure (some staging.stale, staging.journal)
  else pure (none, journal)

section

variable {Context : Type} (codec : Codec Context)

/-- All that is written before the journal is marked as committed. -/
def prepareWrites (plan : ResolvedSync) (journal : RecoveryJournal) : Access RecoveryJournal := do
  let journal ← journal.checkpointAuxiliary plan.auxiliary
  let journal ← plan.managed.foldlM prepareManagedKeySync journal
  let cleanup ← plan.prepareResolvedConfiguration
  plan.replaceResolvedForwards
  writeStores "failed to save quick commands" fun s => { s with commands := plan.commands }
  writeStores "failed to save settings" fun s => { s with settings := plan.settings }
  writeStores "failed to save plugin settings" fun s => { s with plugins := plan.plugins }
  let (credentialCleanup, journal) ← plan.prepareCredentials journal
  applyAuxiliary plan.auxiliary
  journal.prepareCommit codec plan.next (some cleanup) credentialCleanup

/-- Everything up to the write that commits. -/
def commit (plan : ResolvedSync) (journal : RecoveryJournal) : Access Unit := do
  let committed ← plan.prepareWrites codec journal
  persist committed

/-- After an error everything is put back. -/
def apply (plan : ResolvedSync) : Access Unit := do
  let journal ← RecoveryJournal.begin plan.localReplica
  (plan.commit codec journal).handle fun e => do
    let _ ← RecoveryJournal.recover codec
    raise e
  let _ ← fails (do let _ ← RecoveryJournal.recover codec)

end

end ResolvedSync

/-! ## Recovery after a crash -/

/-- An attempt to recover, in a new process or in the one that is there. -/
structure Restart where
  reloads : Bool
  outcomes : List WriteOutcome

section

variable {Context : Type} (codec : Codec Context)

def recoverPending (reloads : Bool) : Access Bool := do
  update fun w => if reloads then w.reload else w
  RecoveryJournal.recover codec

/-- The attempts one after the other, each of which may be cut off. -/
def World.restarted (w : World) (restarts : List Restart) : World :=
  restarts.foldl (fun w r => (recoverPending codec r.reloads).after w r.outcomes) w

end

end OxideTerm.CloudSync
