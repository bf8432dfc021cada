import OxideTerm.Connections.Profiles

/-!
# Managed keys

Private keys that the application keeps, by the id under which saved authentications refer to them.
A key in use is deleted only by force; what uses it is found by a scan over the stored data.
-/

namespace OxideTerm.Connections

structure ManagedSshKey where
  id : List Char
  secretId : List Char
deriving DecidableEq

structure ConnectionStoreData where
  connections : List SavedConnection
  managedSshKeys : List ManagedSshKey
  moshProfiles : List MoshProfile
  standaloneSftpProfiles : List StandaloneSftpProfile

structure ManagedSshKeyUsageItem where
  connectionId : List Char
  connectionName : List Char
  location : String
deriving DecidableEq

structure ManagedSshKeyUsage where
  keyId : List Char
  count : Nat
  items : List ManagedSshKeyUsageItem
deriving DecidableEq

/-! ## The scan -/

/-- `matches!` against a managed key of the id. -/
def SavedAuth.isManagedKey (keyId : List Char) : SavedAuth → Bool
  | managedKey id _ _ => id = keyId
  | _ => false

section Usage

variable (keyId id name : List Char)

def usageItem (location : String) (auth : SavedAuth) : List ManagedSshKeyUsageItem :=
  if auth.isManagedKey keyId then
    [{ connectionId := id, connectionName := name, location }]
  else []

/-- The loop over a proxy chain. -/
def hopUsageItems (location : Nat → String) (proxyChain : List SavedProxyHop) :
    List ManagedSshKeyUsageItem :=
  proxyChain.zipIdx.flatMap fun (hop, index) => usageItem keyId id name (location index) hop.auth

end Usage

def SavedConnection.usageItems (keyId : List Char) (connection : SavedConnection) :
    List ManagedSshKeyUsageItem :=
  usageItem keyId connection.id connection.name "connection" connection.auth ++
    hopUsageItems keyId connection.id connection.name (fun index => s!"proxy_chain[{index}]")
      connection.proxyChain

def StandaloneSftpProfile.usageItems (keyId : List Char) (profile : StandaloneSftpProfile) :
    List ManagedSshKeyUsageItem :=
  usageItem keyId profile.id profile.name "standalone_sftp" profile.auth ++
    hopUsageItems keyId profile.id profile.name
      (fun index => s!"standalone_sftp.proxy_chain[{index}]") profile.proxyChain ++
    match profile.secondaryEndpoint with
    | some endpoint =>
      usageItem keyId profile.id profile.name "standalone_sftp.secondary_endpoint" endpoint.auth ++
        hopUsageItems keyId profile.id profile.name
          (fun index => s!"standalone_sftp.secondary_endpoint.proxy_chain[{index}]")
          endpoint.proxyChain
    | none => []

def managedKeyUsageFromData (data : ConnectionStoreData) (keyId : List Char) :
    ManagedSshKeyUsage :=
  let items := data.connections.flatMap (SavedConnection.usageItems keyId) ++
    data.standaloneSftpProfiles.flatMap (StandaloneSftpProfile.usageItems keyId)
  { keyId, count := items.length, items }

/-! ## The store -/

/-- The data in memory and in the file, and what holds the secrets of the keys. -/
structure ConnectionStore where
  data : ConnectionStoreData
  file : ConnectionStoreData
  managedKeychain : List (List Char)
  secretFiles : List (List Char)

/-- How the steps of a deletion that are outside the store end. -/
structure DeleteOutcomes where
  save : Except String Unit
  keychainDelete : Except String Unit
  fileDelete : Except String Unit

structure ManagedSshKeyDeleteResult where
  deleted : Bool
  keyId : List Char
  usage : ManagedSshKeyUsage

namespace ConnectionStore

def managedSshKeyUsage (store : ConnectionStore) (id : List Char) :
    Except String ManagedSshKeyUsage :=
  if !store.data.managedSshKeys.any (fun key => key.id = id) then
    .error "Managed SSH key not found"
  else .ok (managedKeyUsageFromData store.data id)

def deleteManagedSshKeySecret (outcomes : DeleteOutcomes) (store : ConnectionStore)
    (secretId : List Char) : Except String Unit × ConnectionStore :=
  let keychain := match outcomes.keychainDelete with
    | .ok () => store.managedKeychain.filter (· ≠ secretId)
    | .error _ => store.managedKeychain
  let files := match outcomes.fileDelete with
    | .ok () => store.secretFiles.filter (· ≠ secretId)
    | .error _ => store.secretFiles
  let result := match outcomes.keychainDelete, outcomes.fileDelete with
    | _, .ok () => .ok ()
    | .ok (), .error fileError => .error fileError
    | .error keychainError, .error fileError => .error (
      s!"failed to delete managed SSH key secret from keychain ({keychainError}) " ++
        s!"and encrypted file ({fileError})")
  (result, { store with managedKeychain := keychain, secretFiles := files })

/-- A save that fails leaves the file as it was. -/
def save (outcomes : DeleteOutcomes) (store : ConnectionStore) :
    Except String Unit × ConnectionStore :=
  match outcomes.save with
  | .ok () => (.ok (), { store with file := store.data })
  | .error error => (.error error, store)

def setManagedSshKeys (store : ConnectionStore) (keys : List ManagedSshKey) : ConnectionStore :=
  { store with data := { store.data with managedSshKeys := keys } }

def deleteManagedSshKey (outcomes : DeleteOutcomes) (store : ConnectionStore) (id : List Char)
    (force : Bool) : Except String ManagedSshKeyDeleteResult × ConnectionStore :=
  match store.managedSshKeyUsage id with
  | .error error => (.error error, store)
  | .ok usage =>
    if usage.count > 0 ∧ !force then
      let count := usage.count
      (.error s!"Managed SSH key is used by {count} saved connection entries", store)
    else
      match store.data.managedSshKeys.findIdx? (fun key => key.id = id) with
      | none => (.error "Managed SSH key not found", store)
      | some index =>
        match store.data.managedSshKeys[index]? with
        | none => (.error "Managed SSH key not found", store)
        | some removed =>
          let remaining := store.data.managedSshKeys.eraseIdx index
          match (store.setManagedSshKeys remaining).save outcomes with
          | (.error error, after) => (.error error, after.setManagedSshKeys (remaining ++ [removed]))
          | (.ok (), after) =>
            match after.deleteManagedSshKeySecret outcomes removed.secretId with
            | (.error error, after) => (.error error, after)
            | (.ok (), after) => (.ok { deleted := true, keyId := id, usage }, after)

end ConnectionStore

end OxideTerm.Connections
