import OxideTerm.Connections.ManagedKeys

/-!
# Keys in use

The scan sees every place of a connection or of a standalone SFTP profile that names the key itself.
It sees neither the places where Kerberos is preferred to the key, nor the Mosh profiles. So an
unforced deletion keeps a key in use just when there are none of these.
-/

namespace OxideTerm.Connections

/-! ## Every saved authentication -/

/-- The effective way is the managed key. -/
def SavedAuth.refersTo (keyId : List Char) (auth : SavedAuth) : Bool :=
  auth.conventionalFallback.isManagedKey keyId

def SavedConnection.auths (connection : SavedConnection) : List SavedAuth :=
  connection.auth :: connection.proxyChain.map (·.auth)

def MoshProfile.auths (profile : MoshProfile) : List SavedAuth :=
  profile.auth :: profile.proxyChain.map (·.auth)

def StandaloneSftpEndpoint.auths (endpoint : StandaloneSftpEndpoint) : List SavedAuth :=
  endpoint.auth :: endpoint.proxyChain.map (·.auth)

def StandaloneSftpProfile.auths (profile : StandaloneSftpProfile) : List SavedAuth :=
  profile.auth :: profile.proxyChain.map (·.auth) ++
    profile.secondaryEndpoint.toList.flatMap (·.auths)

namespace ConnectionStoreData

variable (data : ConnectionStoreData) (keyId : List Char)

/-- What the scan visits. -/
def scannedAuths : List SavedAuth :=
  data.connections.flatMap (·.auths) ++ data.standaloneSftpProfiles.flatMap (·.auths)

def moshAuths : List SavedAuth := data.moshProfiles.flatMap (·.auths)

def savedAuths : List SavedAuth := data.scannedAuths ++ data.moshAuths

/-- The key is used by a Mosh profile, or behind Kerberos. -/
def Overlooks : Prop :=
  (∃ auth ∈ data.moshAuths, auth.refersTo keyId = true) ∨
    ∃ auth ∈ data.scannedAuths, auth.isKerberosPreferred = true ∧ auth.refersTo keyId = true

end ConnectionStoreData

/-! ## What the scan counts -/

variable {keyId : List Char}

/-- A reference is seen unless Kerberos is preferred to it. -/
theorem SavedAuth.isManagedKey_iff {auth : SavedAuth} :
    auth.isManagedKey keyId = true ↔
      auth.refersTo keyId = true ∧ auth.isKerberosPreferred = false := by
  cases auth with
  | kerberosPreferred =>
    constructor
    · intro h
      cases h
    · rintro ⟨-, h⟩
      cases h
  | _ => exact (and_iff_left rfl).symm

theorem countP_singleton_add {α : Type*} (p : α → Bool) (a : α) (l : List α) :
    [a].countP p + l.countP p = (a :: l).countP p :=
  List.countP_append.symm

theorem length_usageItem (id name : List Char) (location : String) (auth : SavedAuth) :
    (usageItem keyId id name location auth).length = [auth].countP (·.isManagedKey keyId) := by
  rw [usageItem, List.countP_singleton]
  split <;> rfl

theorem length_hopUsageItems (id name : List Char) (location : Nat → String)
    (proxyChain : List SavedProxyHop) :
    (hopUsageItems keyId id name location proxyChain).length =
      (proxyChain.map (·.auth)).countP (·.isManagedKey keyId) := by
  rw [hopUsageItems]
  -- the loop counts on from any index
  suffices h : ∀ first, ((proxyChain.zipIdx first).flatMap fun entry =>
      usageItem keyId id name (location entry.2) entry.1.auth).length =
        (proxyChain.map (·.auth)).countP (·.isManagedKey keyId) from h 0
  induction proxyChain with
  | nil =>
    intro first
    rfl
  | cons hop rest ih =>
    intro first
    rw [List.zipIdx_cons, List.flatMap_cons, List.length_append, ih, length_usageItem]
    exact countP_singleton_add _ _ _

theorem SavedConnection.length_usageItems (connection : SavedConnection) :
    (connection.usageItems keyId).length = connection.auths.countP (·.isManagedKey keyId) := by
  rw [usageItems, List.length_append, length_usageItem, length_hopUsageItems]
  exact countP_singleton_add _ _ _

theorem StandaloneSftpProfile.length_usageItems (profile : StandaloneSftpProfile) :
    (profile.usageItems keyId).length = profile.auths.countP (·.isManagedKey keyId) := by
  rw [usageItems, List.length_append, List.length_append, length_usageItem, length_hopUsageItems,
    auths, List.countP_append, countP_singleton_add]
  congr 1
  cases profile.secondaryEndpoint with
  | none => rfl
  | some endpoint =>
    rw [List.length_append, length_usageItem, length_hopUsageItems, Option.toList_some,
      List.flatMap_singleton]
    exact countP_singleton_add _ _ _

theorem length_flatMap_eq_countP {α β γ : Type*} {items : α → List β} {parts : α → List γ}
    {p : γ → Bool} (h : ∀ a, (items a).length = (parts a).countP p) (l : List α) :
    (l.flatMap items).length = (l.flatMap parts).countP p := by
  rw [List.length_flatMap, List.countP_flatMap]
  exact congrArg List.sum (List.map_congr_left fun a _ => h a)

/-- The scan counts the places that it visits and that name the key itself. -/
theorem managedKeyUsageFromData_count (data : ConnectionStoreData) :
    (managedKeyUsageFromData data keyId).count =
      data.scannedAuths.countP (·.isManagedKey keyId) := by
  show List.length (_ ++ _) = _
  rw [List.length_append, length_flatMap_eq_countP SavedConnection.length_usageItems,
    length_flatMap_eq_countP StandaloneSftpProfile.length_usageItems,
    ConnectionStoreData.scannedAuths, List.countP_append]

/-- A count of what is in one of two ways splits. -/
theorem countP_eq_add_countP {α : Type*} {p q r : α → Bool}
    (h : ∀ a, p a = true ↔ q a = true ∧ r a = false) (l : List α) :
    l.countP q = l.countP p + l.countP fun a => q a && r a := by
  induction l with
  | nil => rfl
  | cons a rest ih =>
    have ha := h a
    rw [List.countP_cons, List.countP_cons, List.countP_cons, ih]
    cases hp : p a <;> cases hq : q a <;> cases hr : r a <;> simp_all <;> omega

/-- **The scan counts every place just when it overlooks none.** -/
theorem managedKeyUsageFromData_count_iff (data : ConnectionStoreData) :
    (managedKeyUsageFromData data keyId).count = data.savedAuths.countP (·.refersTo keyId) ↔
      ¬ data.Overlooks keyId := by
  have hsplit : ∀ auth : SavedAuth, auth.isManagedKey keyId = true ↔
      auth.refersTo keyId = true ∧ auth.isKerberosPreferred = false :=
    fun _ => SavedAuth.isManagedKey_iff
  have hscanned : data.scannedAuths.countP (·.refersTo keyId) =
      data.scannedAuths.countP (·.isManagedKey keyId) +
        data.scannedAuths.countP fun auth => auth.refersTo keyId && auth.isKerberosPreferred :=
    countP_eq_add_countP hsplit _
  rw [managedKeyUsageFromData_count, ConnectionStoreData.savedAuths, List.countP_append, hscanned,
    ConnectionStoreData.Overlooks, not_or]
  have hmosh : data.moshAuths.countP (·.refersTo keyId) = 0 ↔
      ¬ ∃ auth ∈ data.moshAuths, auth.refersTo keyId = true := by
    rw [List.countP_eq_zero]
    exact ⟨fun h ⟨auth, hauth, href⟩ => h auth hauth href, fun h auth hauth href =>
      h ⟨auth, hauth, href⟩⟩
  have hkerberos : data.scannedAuths.countP
      (fun auth => auth.refersTo keyId && auth.isKerberosPreferred) = 0 ↔
      ¬ ∃ auth ∈ data.scannedAuths,
        auth.isKerberosPreferred = true ∧ auth.refersTo keyId = true := by
    rw [List.countP_eq_zero]
    constructor
    · rintro h ⟨auth, hauth, hkerberos, href⟩
      exact h auth hauth (Bool.and_eq_true_iff.mpr ⟨href, hkerberos⟩)
    · intro h auth hauth hboth
      obtain ⟨href, hkerberos⟩ := Bool.and_eq_true_iff.mp hboth
      exact h ⟨auth, hauth, hkerberos, href⟩
  rw [← hmosh, ← hkerberos]
  omega

/-- If nothing is counted and nothing is overlooked, nothing refers to the key. -/
theorem not_refersTo_of_count_eq_zero {data : ConnectionStoreData}
    (hcount : (managedKeyUsageFromData data keyId).count = 0) (h : ¬ data.Overlooks keyId)
    {auth : SavedAuth} (hauth : auth ∈ data.savedAuths) : auth.refersTo keyId = false := by
  rw [(managedKeyUsageFromData_count_iff data).mpr h, List.countP_eq_zero] at hcount
  exact Bool.eq_false_iff.mpr (hcount auth hauth)

/-! ## Deletion -/

namespace ConnectionStore

variable {store after : ConnectionStore} {outcomes : DeleteOutcomes} {force : Bool}

theorem managedSshKeyUsage_of_mem (h : ∃ key ∈ store.data.managedSshKeys, key.id = keyId) :
    store.managedSshKeyUsage keyId = .ok (managedKeyUsageFromData store.data keyId) := by
  obtain ⟨key, hkey, hid⟩ := h
  have hany : store.data.managedSshKeys.any (fun key => key.id = keyId) = true :=
    List.any_eq_true.mpr ⟨key, hkey, decide_eq_true hid⟩
  rw [managedSshKeyUsage, hany]
  rfl

/-- What a deletion comes to: a refusal, a failed save, or a save and the deletion of a secret. -/
theorem deleteManagedSshKey_cases
    {result : Except String ManagedSshKeyDeleteResult}
    (h : store.deleteManagedSshKey outcomes keyId force = (result, after)) :
    ((∃ error, result = .error error) ∧ after = store) ∨
    ((force = false → (managedKeyUsageFromData store.data keyId).count = 0) ∧
      ∃ index removed, store.data.managedSshKeys[index]? = some removed ∧ removed.id = keyId ∧
        ((∃ error, outcomes.save = .error error ∧ result = .error error ∧
            after = store.setManagedSshKeys
              (store.data.managedSshKeys.eraseIdx index ++ [removed])) ∨
          outcomes.save = .ok ())) := by
  rw [deleteManagedSshKey] at h
  split at h
  · next error _ =>
    obtain ⟨rfl, rfl⟩ := Prod.mk.inj h
    exact .inl ⟨⟨error, rfl⟩, rfl⟩
  · next usage husage =>
    rw [managedSshKeyUsage] at husage
    split at husage
    · cases husage
    · obtain rfl := Except.ok.inj husage
      split at h
      · obtain ⟨rfl, rfl⟩ := Prod.mk.inj h
        exact .inl ⟨⟨_, rfl⟩, rfl⟩
      · next hcount =>
        split at h
        · obtain ⟨rfl, rfl⟩ := Prod.mk.inj h
          exact .inl ⟨⟨_, rfl⟩, rfl⟩
        · next index hindex =>
          split at h
          · obtain ⟨rfl, rfl⟩ := Prod.mk.inj h
            exact .inl ⟨⟨_, rfl⟩, rfl⟩
          · next removed hremoved =>
            refine .inr ⟨?_, index, removed, hremoved, ?_, ?_⟩
            · rintro rfl
              by_contra hne
              exact hcount ⟨Nat.pos_of_ne_zero hne, rfl⟩
            · obtain ⟨hlt, hid, -⟩ := List.findIdx?_eq_some_iff_getElem.mp hindex
              rw [List.getElem?_eq_getElem hlt, Option.some.injEq] at hremoved
              rw [← hremoved]
              exact of_decide_eq_true hid
            · cases hsave : outcomes.save with
              | ok u => exact .inr rfl
              | error error =>
                simp only [save, hsave] at h
                obtain ⟨rfl, rfl⟩ := Prod.mk.inj h
                exact .inl ⟨error, rfl, rfl, rfl⟩

/-- A save that fails leaves the keys, in some order, and everything else. -/
theorem deleteManagedSshKey_of_save_error {error : String} (hsave : outcomes.save = .error error) :
    ∃ keys, keys.Perm store.data.managedSshKeys ∧
      (store.deleteManagedSshKey outcomes keyId force).2 = store.setManagedSshKeys keys := by
  rcases deleteManagedSshKey_cases (rfl : store.deleteManagedSshKey outcomes keyId force = _) with
    ⟨-, hafter⟩ | ⟨-, index, removed, hremoved, -, ⟨-, -, -, hafter⟩ | hok⟩
  · exact ⟨_, List.Perm.refl _, hafter⟩
  · refine ⟨_, ?_, hafter⟩
    obtain ⟨hlt, rfl⟩ := List.getElem?_eq_some_iff.mp hremoved
    exact List.perm_append_comm.trans (List.getElem_cons_eraseIdx_perm hlt)
  · rw [hsave] at hok
    cases hok

/-- What succeeds without force has found the key unused. -/
theorem count_eq_zero_of_deleteManagedSshKey {result : ManagedSshKeyDeleteResult}
    (h : store.deleteManagedSshKey outcomes keyId false = (.ok result, after)) :
    (managedKeyUsageFromData store.data keyId).count = 0 := by
  rcases deleteManagedSshKey_cases h with ⟨⟨error, herror⟩, -⟩ | ⟨hcount, -⟩
  · cases herror
  · exact hcount rfl

/-- **A managed key in use is kept and counted just when the scan overlooks none of its uses.** -/
theorem managedKey_in_use_iff (h : ∃ key ∈ store.data.managedSshKeys, key.id = keyId) :
    ((∃ usage, store.managedSshKeyUsage keyId = .ok usage ∧
        usage.count = store.data.savedAuths.countP (·.refersTo keyId)) ∧
      (∀ outcomes result after,
        store.deleteManagedSshKey outcomes keyId false = (.ok result, after) →
        ∀ auth ∈ store.data.savedAuths, auth.refersTo keyId = false) ∧
      ∀ outcomes force error, outcomes.save = .error error →
        ∃ keys, keys.Perm store.data.managedSshKeys ∧
          (store.deleteManagedSshKey outcomes keyId force).2 = store.setManagedSshKeys keys) ↔
      ¬ store.data.Overlooks keyId := by
  constructor
  · rintro ⟨⟨usage, husage, hcount⟩, -⟩
    rw [managedSshKeyUsage_of_mem h] at husage
    obtain rfl := Except.ok.inj husage
    exact (managedKeyUsageFromData_count_iff store.data).mp hcount
  · intro hnone
    refine ⟨⟨_, managedSshKeyUsage_of_mem h, ?_⟩, ?_, ?_⟩
    · exact (managedKeyUsageFromData_count_iff store.data).mpr hnone
    · intro outcomes result after hdelete auth hauth
      exact not_refersTo_of_count_eq_zero (count_eq_zero_of_deleteManagedSshKey hdelete) hnone hauth
    · intro outcomes force error hsave
      exact deleteManagedSshKey_of_save_error hsave

end ConnectionStore

/-! ## A key that a Mosh profile uses -/

/-- One managed key, and a Mosh profile that authenticates with it. -/
def moshOnlyData : ConnectionStoreData where
  connections := []
  managedSshKeys := [⟨['k'], ['s']⟩]
  moshProfiles := [{
    id := ['m'], name := ['m'], group := none, host := ['h'], sshPort := 22, username := ['u']
    auth := .managedKey ['k'] none none
    proxyChain := [], serverExecutable := ['x'], udpPort := .automatic, locale := none
    sshAlgorithms := .default, updatedAt := 0 }]
  standaloneSftpProfiles := []

/-- Nothing fails. -/
def allSucceed : DeleteOutcomes := ⟨.ok (), .ok (), .ok ()⟩

theorem ConnectionStore.managedKey_in_use_iff_unused :
    let store : ConnectionStore :=
      ⟨{ moshOnlyData with moshProfiles := [] }, moshOnlyData, [['s']], []⟩
    ∃ usage, store.managedSshKeyUsage ['k'] = .ok usage ∧
      usage.count = store.data.savedAuths.countP (·.refersTo ['k']) := by
  intro store
  refine ((@managedKey_in_use_iff ['k'] store ⟨_, List.mem_cons_self, rfl⟩).mpr ?_).1
  rintro (⟨auth, hauth, -⟩ | ⟨auth, hauth, -⟩)
  · cases hauth
  · cases hauth

/-- The key of a working profile is deleted without force. -/
theorem ConnectionStore.mosh_key_deleted :
    let store : ConnectionStore := ⟨moshOnlyData, moshOnlyData, [['s']], []⟩
    (∃ usage, store.managedSshKeyUsage ['k'] = .ok usage ∧ usage.count = 0) ∧
      (∃ result after, store.deleteManagedSshKey allSucceed ['k'] false = (.ok result, after) ∧
        after.data.managedSshKeys = [] ∧ after.managedKeychain = []) ∧
      ∃ auth ∈ store.data.savedAuths, auth.refersTo ['k'] = true :=
  ⟨⟨_, rfl, rfl⟩, ⟨_, _, rfl, rfl, rfl⟩, _, List.mem_cons_self, rfl⟩

end OxideTerm.Connections
