import OxideTerm.CloudSync.Storage

/-!
# The stores of a device

Besides its replica a device keeps the configuration files, and secrets in the slots of key
stores. The connections name the slots they use. A recovery journal holds what the stores held
before they were changed, and which slots were created since.
-/

namespace OxideTerm.CloudSync

open OxideTerm.Lib

/-! ## What is stored -/

structure ManagedKey where
  id : String
  secretId : String
  details : String
deriving DecidableEq

structure PrivilegeCredential where
  connectionId : String
  id : String
  label : String
  keychainId : Option String
  plaintextSecret : Option String
deriving DecidableEq

/-- The profiles, with the slots that they refer to. -/
structure ConnectionData where
  profiles : String
  connectionIds : List String
  credentials : List (String × Option String)
  managedKeys : List ManagedKey
  privileges : List PrivilegeCredential
  pendingKeychainCleanup : List String
  pendingPrivilegeKeychainCleanup : List String
deriving DecidableEq

namespace ConnectionData

def empty : ConnectionData where
  profiles := ""
  connectionIds := []
  credentials := []
  managedKeys := []
  privileges := []
  pendingKeychainCleanup := []
  pendingPrivilegeKeychainCleanup := []

/-- The slots that profiles refer to. -/
def credentialReferenceIds (data : ConnectionData) : List String :=
  data.credentials.filterMap Prod.snd

def activePrivilegeKeychainIds (data : ConnectionData) : List String :=
  data.privileges.filterMap PrivilegeCredential.keychainId

def managedSlots (data : ConnectionData) : List String := data.managedKeys.map ManagedKey.secretId

/-- The same connections with other slots that wait to be deleted. -/
def queued (data : ConnectionData) (credentials privileges : List String) : ConnectionData :=
  { data with
    pendingKeychainCleanup := credentials
    pendingPrivilegeKeychainCleanup := privileges }

end ConnectionData

/-- The settings; the slot of the global proxy is the only part that is looked at. -/
structure SettingsData where
  content : String
  proxy : Option (Option String)
deriving DecidableEq

/-- The slots of a key store. -/
abbrev KeyStore := String → Option String

def KeyStore.insert (k : KeyStore) (reference secret : String) : KeyStore :=
  Function.update k reference (some secret)

def KeyStore.erase (k : KeyStore) (reference : String) : KeyStore :=
  Function.update k reference none

/-- Managed keys have a slot in the key store, or an encrypted file where the key store refuses
them. A provider without a key has the empty one. -/
structure Stores where
  connections : Option ConnectionData
  forwards : List String
  settings : SettingsData
  commands : String
  plugins : String
  providerKeys : String → String
  accounts : String → Option Bool
  keychain : KeyStore
  managedKeychain : KeyStore
  managedFiles : KeyStore
  privilegeKeychain : KeyStore

namespace Stores

/-- The secret of a managed key, wherever it is. -/
def managedSecret (s : Stores) : KeyStore := fun reference =>
  (s.managedKeychain reference).or (s.managedFiles reference)

end Stores

/-! ## The journal -/

structure ConnectionCheckpoint where
  originalData : ConnectionData
  originalFile : Option ConnectionData

structure AuxiliarySecretCheckpoint where
  secrets : List (String × String)
  inventory : List (String × Option Bool)

structure ConnectionCleanup where
  pendingKeychainIds : List String
  pendingPrivilegeKeychainIds : List String

inductive SlotKind where
  | managedKey
  | privilege
  | credential
deriving DecidableEq

structure RecoveryJournal where
  schema : Nat
  committed : Bool
  connections : ConnectionCheckpoint
  forwards : Option (List String)
  settings : SettingsData
  commands : String
  plugins : String
  replica : LocalReplica
  createdSlots : List String
  connectionCleanup : Option ConnectionCleanup
  credentialCleanup : Option (List String)
  auxiliaryBefore : AuxiliarySecretCheckpoint
  managedCreated : List String
  managedStale : List String
  privilegeCreated : List String
  privilegeStale : List String

namespace RecoveryJournal

/-- The journal with one more slot that is to be created. -/
def recordCreation (journal : RecoveryJournal) (kind : SlotKind) (reference : String) :
    RecoveryJournal :=
  match kind with
  | .managedKey => { journal with managedCreated := journal.managedCreated ++ [reference] }
  | .privilege => { journal with privilegeCreated := journal.privilegeCreated ++ [reference] }
  | .credential => { journal with createdSlots := journal.createdSlots ++ [reference] }

def deferManagedCleanup (journal : RecoveryJournal) (reference : String) : RecoveryJournal :=
  { journal with managedStale := journal.managedStale ++ [reference] }

def deferPrivilegeCleanup (journal : RecoveryJournal) (references : List String) :
    RecoveryJournal :=
  { journal with privilegeStale := journal.privilegeStale ++ references }

end RecoveryJournal

/-! ## Accesses -/

/-- What is on the disk, and what the process has in memory: the connections, and whether it has
opened the store of the forwards. Nobody reads the last field, which lists the slots of managed
keys that the key store refused to delete when the error was ignored. -/
structure World where
  stores : Stores
  replica : Option LocalReplica
  recovery : Option RecoveryJournal
  connections : ConnectionData
  forwardStore : Bool
  refusals : List String

namespace World

def setStores (w : World) (f : Stores → Stores) : World := { w with stores := f w.stores }

/-- A new process: the connections are read from their file. -/
def reload (w : World) : World :=
  { w with connections := w.stores.connections.getD .empty, forwardStore := true }

end World

abbrev Access := Procedure World String

namespace Access

open Procedure

/-- An atomic write to one of the stores. -/
def writeStores (error : String) (f : Stores → Stores) : Access Unit :=
  Procedure.write error fun w => w.setStores f

def readRecovery : Access (Option RecoveryJournal) := do
  attempt "Cannot read cloud sync recovery record"
  gets World.recovery

def persist (journal : RecoveryJournal) : Access Unit :=
  Procedure.write "Cannot persist cloud sync recovery record" fun w =>
    { w with recovery := some journal }

def clearRecovery : Access Unit :=
  Procedure.write "Cannot remove completed cloud sync recovery record" fun w =>
    { w with recovery := none }

section

variable {Context : Type} (codec : Codec Context)

def saveReplica (record : LocalReplica) : Access Unit :=
  access fun w outcome =>
    ({ w with replica := (ReplicaStore.save codec w.replica record outcome).1 },
      (ReplicaStore.save codec w.replica record outcome).2)

end

/-! ## Connections -/

def saveConnections : Access Unit :=
  Procedure.write "failed to replace the connection store" fun w =>
    w.setStores fun s => { s with connections := some w.connections }

def setConnections (data : ConnectionData) : Access Unit :=
  update fun w => { w with connections := data }

def createCheckpoint : Access ConnectionCheckpoint := do
  attempt "failed to checkpoint the connection store"
  gets fun w => { originalData := w.connections, originalFile := w.stores.connections }

/-- The disk is restored first. -/
def restoreCheckpoint (checkpoint : ConnectionCheckpoint) : Access Unit := do
  writeStores "failed to restore connection store" fun s =>
    { s with connections := checkpoint.originalFile }
  setConnections checkpoint.originalData

/-! ## Slots -/

/-- The secrets that can be read from the slots of a kind. -/
def readSlots (kind : SlotKind) : Access KeyStore :=
  gets fun w =>
    match kind with
    | .managedKey => w.stores.managedSecret
    | .privilege => w.stores.privilegeKeychain
    | .credential => w.stores.keychain

def deleteKeychain (reference : String) : Access Unit :=
  writeStores "failed to delete password from OS keychain" fun s =>
    { s with keychain := s.keychain.erase reference }

def deletePrivilegeKeychain (reference : String) : Access Unit :=
  writeStores "failed to delete password from OS keychain" fun s =>
    { s with privilegeKeychain := s.privilegeKeychain.erase reference }

def deleteManagedKeychain (reference : String) : Access Unit :=
  writeStores "failed to delete password from OS keychain" fun s =>
    { s with managedKeychain := s.managedKeychain.erase reference }

/-- Whether the procedure raises an error. -/
def fails (x : Access Unit) : Access Bool :=
  Procedure.handle (do x; pure false) fun _ => pure true

/-- A key that the key store does not take goes to an encrypted file. -/
def storeManagedSshKeySecret (reference secret : String) : Access Unit := do
  let refused ← fails <| writeStores "failed to save password to OS keychain" fun s =>
    { s with managedKeychain := s.managedKeychain.insert reference secret }
  if refused then
    let _ ← fails (deleteManagedKeychain reference)
    attempt "config encryption key is unavailable"
    writeStores "failed to write managed SSH key" fun s =>
      { s with managedFiles := s.managedFiles.insert reference secret }

/-- An error of the key store counts only if the file cannot be deleted either. -/
def deleteManagedSshKeySecret (reference : String) : Access Unit := do
  let refused ← fails (deleteManagedKeychain reference)
  writeStores "failed to delete managed SSH key secret" fun s =>
    { s with managedFiles := s.managedFiles.erase reference }
  if refused then update fun w => { w with refusals := w.refusals ++ [reference] }

def storeSlot (kind : SlotKind) (reference secret : String) : Access Unit :=
  match kind with
  | .managedKey => storeManagedSshKeySecret reference secret
  | .privilege => writeStores "failed to save password to OS keychain" fun s =>
      { s with privilegeKeychain := s.privilegeKeychain.insert reference secret }
  | .credential => writeStores "failed to save password to OS keychain" fun s =>
      { s with keychain := s.keychain.insert reference secret }

def removeSyncedManagedKeySlots (slots : List String) : Access Unit :=
  slots.forM fun reference => do
    let data ← gets World.connections
    if reference ∈ data.managedSlots then pure ()
    else if ¬ "managed-key-".toList <+: reference.toList then raise "Invalid managed key slot"
    else deleteManagedSshKeySecret reference

def removeSyncedPrivilegeSlots (slots : List String) : Access Unit :=
  slots.forM fun reference => do
    let data ← gets World.connections
    if reference ∈ data.activePrivilegeKeychainIds then pure ()
    else deletePrivilegeKeychain reference

/-- Goes on after a failure, and reports it in the end. -/
def removeStagedProfileCredentialSlots (references : List String) : Access Unit := do
  let failed ← references.foldlM (fun failed reference => do
    if ¬ "oxide_sync_credential_".toList <+: reference.toList ∧
        ¬ "oxide_global_proxy_".toList <+: reference.toList then
      raise "Invalid staged credential slot"
    else
      let refused ← fails (deleteKeychain reference)
      pure (failed || refused)) false
  if failed then raise "Failed to remove staged credential slots" else pure ()

/-- Deletes the slots and returns those that could not be deleted. -/
def deleteEach (delete : String → Access Unit) (slots : List String) : Access (List String) :=
  slots.foldlM (fun failed reference => do
    let refused ← fails (delete reference)
    pure (if refused then failed ++ [reference] else failed)) []

/-- In ascending order, each once. -/
def sorted (references : List String) : List String :=
  (references.insertionSort (· ≤ ·)).dedup

def finalizeSavedConnectionsSyncCleanup (cleanup : ConnectionCleanup) : Access Unit := do
  let data ← gets World.connections
  let failed ← deleteEach deleteKeychain
    (sorted (cleanup.pendingKeychainIds ++ data.pendingKeychainCleanup))
  let failedPrivileges ← deleteEach deletePrivilegeKeychain
    ((sorted (cleanup.pendingPrivilegeKeychainIds ++ data.pendingPrivilegeKeychainCleanup)).filter
      fun reference => reference ∉ data.activePrivilegeKeychainIds)
  setConnections (data.queued failed failedPrivileges)
  saveConnections
  if failed = [] ∧ failedPrivileges = [] then pure ()
  else raise "failed to delete stale connection keychain entries"

def deleteOrQueueConnectionKeychainEntry (reference : String) : Access Unit := do
  let refused ← fails (deleteKeychain reference)
  let data ← gets World.connections
  if refused = true ∧ reference ∉ data.pendingKeychainCleanup then
    setConnections { data with
      pendingKeychainCleanup := data.pendingKeychainCleanup ++ [reference] }
    saveConnections
  else pure ()

/-- A slot that a profile still owns is retained. -/
def commitProfileCredentials (stale : List String) : Access Unit := do
  stale.forM fun reference => do
    let data ← gets World.connections
    if reference ∈ data.credentialReferenceIds then pure ()
    else deleteOrQueueConnectionKeychainEntry reference
  let data ← gets World.connections
  if data.pendingKeychainCleanup = [] then pure () else saveConnections

/-! ## Keys of providers -/

def recordSyncAccount (providerId : String) (removed : Bool) : Access Unit := do
  attempt "Secret inventory is unavailable"
  let accounts ← gets fun w => w.stores.accounts
  if accounts providerId = some removed then pure ()
  else writeStores "failed to save AI provider key" fun s =>
    { s with accounts := Function.update s.accounts providerId (some removed) }

/-- The empty key deletes the stored one. -/
def storeProviderKey (providerId apiKey : String) : Access Unit := do
  if providerId = "" ∨ providerId = "oxideterm-sync-secret-inventory" then
    raise "Reserved or empty secret account"
  else
    writeStores "failed to save AI provider key" fun s =>
      { s with providerKeys := Function.update s.providerKeys providerId apiKey }
    recordSyncAccount providerId (apiKey = "")

def applyAuxiliary (secrets : List (String × String)) : Access Unit :=
  secrets.forM fun secret => storeProviderKey secret.1 secret.2

/-- The accounts with these entries put back. -/
def restoredAccounts (accounts : String → Option Bool) (previous : List (String × Option Bool)) :
    String → Option Bool :=
  previous.foldl (fun accounts entry => Function.update accounts entry.1 entry.2) accounts

def checkpointAuxiliarySecrets (incoming : List (String × String)) :
    Access AuxiliarySecretCheckpoint := do
  attempt "failed to read AI provider keys"
  gets fun w =>
    { secrets := incoming.map fun secret => (secret.1, w.stores.providerKeys secret.1)
      inventory := incoming.map fun secret => (secret.1, w.stores.accounts secret.1) }

def restoreAuxiliary (previous : AuxiliarySecretCheckpoint) : Access Unit := do
  if previous.secrets = [] then pure ()
  else
    applyAuxiliary previous.secrets
    attempt "Secret inventory is unavailable"
    writeStores "failed to save AI provider key" fun s =>
      { s with accounts := restoredAccounts s.accounts previous.inventory }

end Access

end OxideTerm.CloudSync
