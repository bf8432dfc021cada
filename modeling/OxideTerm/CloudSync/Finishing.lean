import OxideTerm.CloudSync.AccessRules

/-!
# After the commit

Recovery from a journal that is marked as committed deletes the slots that are no longer used, and
changes nothing else but the list of the slots that wait to be deleted.
-/

namespace OxideTerm.CloudSync

open OxideTerm.Lib Procedure Access

/-! ## What is to be deleted -/

namespace RecoveryJournal

def cleanup (j : RecoveryJournal) : ConnectionCleanup :=
  j.connectionCleanup.getD { pendingKeychainIds := [], pendingPrivilegeKeychainIds := [] }

/-- The slots of profiles that are deleted after the commit. -/
def staleCredentials (j : RecoveryJournal) (data : ConnectionData) : List String :=
  j.cleanup.pendingKeychainIds ++ data.pendingKeychainCleanup ++
    (j.credentialCleanup.getD []).filter fun r => r ∉ data.credentialReferenceIds

def stalePrivileges (j : RecoveryJournal) (data : ConnectionData) : List String :=
  (j.privilegeStale ++ (j.cleanup.pendingPrivilegeKeychainIds ++
    data.pendingPrivilegeKeychainCleanup)).filter fun r => r ∉ data.activePrivilegeKeychainIds

def staleManagedKeys (j : RecoveryJournal) (data : ConnectionData) : List String :=
  j.managedStale.filter fun r => r ∉ data.managedSlots

end RecoveryJournal

/-- The connections as they were committed, except for the slots that wait to be deleted. What
waited already still waits, or is gone. -/
structure QueuedFrom (j : RecoveryJournal) (c : ConnectionData)
    (keychain privilegeKeychain : KeyStore) (data : ConnectionData) : Prop where
  same : data = c.queued data.pendingKeychainCleanup data.pendingPrivilegeKeychainCleanup
  credentials : ∀ r ∈ data.pendingKeychainCleanup, r ∈ j.staleCredentials c
  privileges : ∀ r ∈ data.pendingPrivilegeKeychainCleanup,
    r ∈ j.cleanup.pendingPrivilegeKeychainIds ++ c.pendingPrivilegeKeychainCleanup
  credentialsKept : ∀ r ∈ c.pendingKeychainCleanup,
    r ∈ data.pendingKeychainCleanup ∨ keychain r = none
  privilegesKept : ∀ r ∈ c.pendingPrivilegeKeychainCleanup, r ∉ c.activePrivilegeKeychainIds →
    r ∈ data.pendingPrivilegeKeychainCleanup ∨ privilegeKeychain r = none

/-- What was committed is there, and only slots that are to be deleted are gone. -/
structure Finishing (j : RecoveryJournal) (c w : World) : Prop where
  recovery : w.recovery = some j
  replica : w.replica = c.replica
  file : ∃ data, w.stores.connections = some data ∧
    QueuedFrom j c.connections w.stores.keychain w.stores.privilegeKeychain data
  memory : QueuedFrom j c.connections w.stores.keychain w.stores.privilegeKeychain
    w.connections
  forwards : w.stores.forwards = c.stores.forwards
  settings : w.stores.settings = c.stores.settings
  commands : w.stores.commands = c.stores.commands
  plugins : w.stores.plugins = c.stores.plugins
  providerKeys : w.stores.providerKeys = c.stores.providerKeys
  accounts : w.stores.accounts = c.stores.accounts
  keychain : ∀ r, w.stores.keychain r = c.stores.keychain r ∨
    r ∈ j.staleCredentials c.connections ∧ w.stores.keychain r = none
  privilegeKeychain : ∀ r, w.stores.privilegeKeychain r = c.stores.privilegeKeychain r ∨
    r ∈ j.stalePrivileges c.connections ∧ w.stores.privilegeKeychain r = none
  managed : ∀ r, r ∉ j.staleManagedKeys c.connections →
    w.stores.managedSecret r = c.stores.managedSecret r

/-- **Everything is as committed, and what is no longer used is deleted.** Where the key store
refuses to, the slot of a profile waits to be deleted, and that of a managed key is left. -/
structure Settled (j : RecoveryJournal) (c w : World) : Prop where
  replica : w.replica = c.replica
  connections : ∃ queue, w.stores.connections = some (c.connections.queued queue []) ∧
    (∀ r ∈ queue, r ∈ j.staleCredentials c.connections) ∧
    ∀ r ∈ j.staleCredentials c.connections, w.stores.keychain r = none ∨ r ∈ queue
  forwards : w.stores.forwards = c.stores.forwards
  settings : w.stores.settings = c.stores.settings
  commands : w.stores.commands = c.stores.commands
  plugins : w.stores.plugins = c.stores.plugins
  providerKeys : w.stores.providerKeys = c.stores.providerKeys
  accounts : w.stores.accounts = c.stores.accounts
  keychain : ∀ r, w.stores.keychain r = c.stores.keychain r ∨
    r ∈ j.staleCredentials c.connections ∧ w.stores.keychain r = none
  privilegeKeychain : ∀ r, w.stores.privilegeKeychain r =
    if r ∈ j.stalePrivileges c.connections then none else c.stores.privilegeKeychain r
  managed : ∀ r, r ∉ j.staleManagedKeys c.connections →
    w.stores.managedSecret r = c.stores.managedSecret r
  managedDeleted : ∀ r ∈ j.staleManagedKeys c.connections, w.ManagedDeleted r

variable {j : RecoveryJournal} {c : World}

namespace QueuedFrom

variable {data d : ConnectionData} {k k' p p' : KeyStore}

theorem mono (h : QueuedFrom j d k p data) (hkeychain : ∀ r, k r = none → k' r = none)
    (hprivileges : ∀ r, p r = none → p' r = none) : QueuedFrom j d k' p' data :=
  { h with
    credentialsKept := fun r hr => (h.credentialsKept r hr).imp_right (hkeychain r)
    privilegesKept := fun r hr hunused =>
      (h.privilegesKept r hr hunused).imp_right (hprivileges r) }

theorem activePrivilegeKeychainIds (h : QueuedFrom j d k p data) :
    data.activePrivilegeKeychainIds = d.activePrivilegeKeychainIds := by
  rw [h.same]
  rfl

theorem managedSlots (h : QueuedFrom j d k p data) : data.managedSlots = d.managedSlots := by
  rw [h.same]
  rfl

theorem credentialReferenceIds (h : QueuedFrom j d k p data) :
    data.credentialReferenceIds = d.credentialReferenceIds := by
  rw [h.same]
  rfl

end QueuedFrom

namespace Finishing

variable {w : World}

theorem eraseKeychain (h : Finishing j c w) {r : String}
    (hr : r ∈ j.staleCredentials c.connections) : Finishing j c (w.eraseKeychain r) := by
  obtain ⟨data, hfile, hdata⟩ := h.file
  have hgone : ∀ b, w.stores.keychain b = none → (w.stores.keychain.erase r) b = none :=
    fun b hb => KeyStore.erase_of_none hb r
  exact { h with
    file := ⟨data, hfile, hdata.mono hgone fun _ hb => hb⟩
    memory := h.memory.mono hgone fun _ hb => hb
    keychain := fun b => by
      by_cases hb : b = r
      · exact Or.inr ⟨by rwa [hb], by rw [hb]; exact KeyStore.erase_self ..⟩
      · have hkept : (w.eraseKeychain r).stores.keychain b = w.stores.keychain b :=
          KeyStore.erase_of_ne _ hb
        rw [hkept]
        exact h.keychain b }

theorem erasePrivilegeKeychain (h : Finishing j c w) {r : String}
    (hr : r ∈ j.stalePrivileges c.connections) : Finishing j c (w.erasePrivilegeKeychain r) := by
  obtain ⟨data, hfile, hdata⟩ := h.file
  have hgone : ∀ b, w.stores.privilegeKeychain b = none →
      (w.stores.privilegeKeychain.erase r) b = none := fun b hb => KeyStore.erase_of_none hb r
  exact { h with
    file := ⟨data, hfile, hdata.mono (fun _ hb => hb) hgone⟩
    memory := h.memory.mono (fun _ hb => hb) hgone
    privilegeKeychain := fun b => by
      by_cases hb : b = r
      · exact Or.inr ⟨by rwa [hb], by rw [hb]; exact KeyStore.erase_self ..⟩
      · have hkept : (w.erasePrivilegeKeychain r).stores.privilegeKeychain b =
            w.stores.privilegeKeychain b := KeyStore.erase_of_ne _ hb
        rw [hkept]
        exact h.privilegeKeychain b }

theorem keepsManaged (slots : List String) (hslots : ∀ r ∈ slots, r ∈ j.managedStale) :
    KeepsManaged slots (Finishing j c) := by
  have hother {w : World} (h : Finishing j c w) {r b : String} (hr : r ∈ slots)
      (hunused : r ∉ w.connections.managedSlots) (hb : b ∉ j.staleManagedKeys c.connections) :
      b ≠ r := by
    rintro rfl
    refine hb (List.mem_filter.mpr ⟨hslots b hr, ?_⟩)
    rw [h.memory.managedSlots] at hunused
    simpa using hunused
  constructor
  · intro r hr w hunused h
    refine { h with managed := fun b hb => ?_ }
    rw [← h.managed b hb]
    show ((w.stores.managedKeychain.erase r) b).or _ = _
    rw [KeyStore.erase_of_ne _ (hother h hr hunused hb)]
    rfl
  · intro r hr w hunused h
    refine { h with managed := fun b hb => ?_ }
    rw [← h.managed b hb]
    show (w.stores.managedKeychain b).or ((w.stores.managedFiles.erase r) b) = _
    rw [KeyStore.erase_of_ne _ (hother h hr hunused hb)]
    rfl
  · exact fun r hr w _ h => { h with }

/-- Other slots wait to be deleted, in memory. -/
theorem setConnections (h : Finishing j c w) {data : ConnectionData}
    (hdata : QueuedFrom j c.connections w.stores.keychain w.stores.privilegeKeychain data) :
    Finishing j c { w with connections := data } := { h with memory := hdata }

theorem save (h : Finishing j c w) : Finishing j c
    (w.setStores fun s => { s with connections := some w.connections }) :=
  { h with file := ⟨w.connections, rfl, h.memory⟩ }

theorem reload (h : Finishing j c w) : Finishing j c w.reload := by
  obtain ⟨data, hfile, hdata⟩ := h.file
  refine { h with memory := ?_ }
  show QueuedFrom j c.connections _ _ (w.stores.connections.getD .empty)
  rw [hfile]
  exact hdata

end Finishing

/-! ## Deleting -/

/-- The slots deleted first are gone. -/
structure Removed (j : RecoveryJournal) (c w : World) : Prop where
  privileges : ∀ r ∈ j.privilegeStale, r ∉ c.connections.activePrivilegeKeychainIds →
    w.stores.privilegeKeychain r = none
  managed : ∀ r ∈ j.staleManagedKeys c.connections, w.ManagedDeleted r

/-- Nothing waits to be deleted but what is queued from here on, and the file is up to date. -/
structure Flushed (j : RecoveryJournal) (c w : World) : Prop where
  saved : w.stores.connections = some w.connections
  credentials : ∀ r ∈ j.cleanup.pendingKeychainIds ++ c.connections.pendingKeychainCleanup,
    w.stores.keychain r = none
  privileges : ∀ r ∈ j.cleanup.pendingPrivilegeKeychainIds ++
    c.connections.pendingPrivilegeKeychainCleanup,
    r ∉ c.connections.activePrivilegeKeychainIds → w.stores.privilegeKeychain r = none
  empty : w.connections.pendingPrivilegeKeychainCleanup = []

theorem Removed.eraseKeychain {w : World} (h : Removed j c w) (r : String) :
    Removed j c (w.eraseKeychain r) := { h with }

theorem Removed.erasePrivilegeKeychain {w : World} (h : Removed j c w) (r : String) :
    Removed j c (w.erasePrivilegeKeychain r) :=
  { h with privileges := fun b hb hunused => KeyStore.erase_of_none (h.privileges b hb hunused) r }

theorem Removed.setConnections {w : World} (h : Removed j c w) (data : ConnectionData) :
    Removed j c { w with connections := data } := { h with }

theorem Removed.save {w : World} (h : Removed j c w) : Removed j c
    (w.setStores fun s => { s with connections := some w.connections }) := { h with }

theorem Flushed.eraseKeychain {w : World} (h : Flushed j c w) (r : String) :
    Flushed j c (w.eraseKeychain r) :=
  { h with credentials := fun b hb => KeyStore.erase_of_none (h.credentials b hb) r }

/-- What is known once the stale slots of the profiles have had their turn. -/
theorem Settled.of_finishing {w : World} (hfinishing : Finishing j c w) (hremoved : Removed j c w)
    (hflushed : Flushed j c w)
    (hcredentials : ∀ r ∈ j.credentialCleanup.getD [], r ∈ c.connections.credentialReferenceIds ∨
      w.stores.keychain r = none ∨ r ∈ w.connections.pendingKeychainCleanup) : Settled j c w where
  replica := hfinishing.replica
  connections := by
    refine ⟨w.connections.pendingKeychainCleanup, ?_, hfinishing.memory.credentials, ?_⟩
    · rw [hflushed.saved, ← hflushed.empty, ← hfinishing.memory.same]
    · intro r hr
      rcases List.mem_append.mp hr with hr | hr
      · exact .inl (hflushed.credentials r hr)
      · obtain ⟨hstale, hunused⟩ := List.mem_filter.mp hr
        exact (hcredentials r hstale).resolve_left (by simpa using hunused)
  forwards := hfinishing.forwards
  settings := hfinishing.settings
  commands := hfinishing.commands
  plugins := hfinishing.plugins
  providerKeys := hfinishing.providerKeys
  accounts := hfinishing.accounts
  keychain := hfinishing.keychain
  privilegeKeychain r := by
    by_cases hr : r ∈ j.stalePrivileges c.connections
    · rw [if_pos hr]
      obtain ⟨hstale, hunused⟩ := List.mem_filter.mp hr
      have hfree : r ∉ c.connections.activePrivilegeKeychainIds := by simpa using hunused
      rcases List.mem_append.mp hstale with hstale | hstale
      · exact hremoved.privileges r hstale hfree
      · exact hflushed.privileges r hstale hfree
    · rw [if_neg hr]
      exact (hfinishing.privilegeKeychain r).resolve_right fun hgone => hr hgone.1
  managed := hfinishing.managed
  managedDeleted := hremoved.managed

namespace Access

theorem mem_sorted {r : String} {references : List String} :
    r ∈ sorted references ↔ r ∈ references := by
  rw [sorted, List.mem_dedup, List.mem_insertionSort]

/-- The first two deletions. -/
theorem triple_removeStale :
    Triple (Finishing j c) (do
      removeSyncedPrivilegeSlots j.privilegeStale
      removeSyncedManagedKeySlots j.managedStale)
      (fun _ w => Finishing j c w ∧ Removed j c w) (Finishing j c) := by
  refine Triple.bind (triple_removeSyncedPrivilegeSlots (I := Finishing j c) ?_) fun _ => ?_
  · intro r hr w hunused hw
    refine hw.erasePrivilegeKeychain (List.mem_filter.mpr ⟨List.mem_append_left _ hr, ?_⟩)
    rw [hw.memory.activePrivilegeKeychainIds] at hunused
    simpa using hunused
  · have hkeeps := Finishing.keepsManaged (c := c) j.managedStale fun r hr => hr
    refine (triple_removeSyncedManagedKeySlots (I := fun w => Finishing j c w ∧
      ∀ r ∈ j.privilegeStale, r ∈ w.connections.activePrivilegeKeychainIds ∨
        w.stores.privilegeKeychain r = none) ⟨?_, ?_, ?_⟩).weaken ?_ fun w hw => hw.1
    · exact fun r hr w hunused hw => ⟨hkeeps.keychain r hr w hunused hw.1, hw.2⟩
    · exact fun r hr w hunused hw => ⟨hkeeps.file r hr w hunused hw.1, hw.2⟩
    · exact fun r hr w hunused hw => ⟨hkeeps.refused r hr w hunused hw.1, hw.2⟩
    · rintro _ w ⟨⟨hw, hprivileges⟩, hmanaged⟩
      refine ⟨hw, fun r hr hunused => (hprivileges r hr).resolve_left ?_, fun r hr => ?_⟩
      · rwa [hw.memory.activePrivilegeKeychainIds]
      · obtain ⟨hstale, hunused⟩ := List.mem_filter.mp hr
        refine (hmanaged r hstale).resolve_left ?_
        rw [hw.memory.managedSlots]
        simpa using hunused

/-- The deferred deletions. What could not be deleted waits on, and is reported. -/
theorem triple_finalize {cleanup : ConnectionCleanup} (hcleanup : j.connectionCleanup = some cleanup) :
    Triple (fun w => Finishing j c w ∧ Removed j c w) (finalizeSavedConnectionsSyncCleanup cleanup)
      (fun _ w => Finishing j c w ∧ Removed j c w ∧ Flushed j c w) (Finishing j c) := by
  have hj : j.cleanup = cleanup := by rw [RecoveryJournal.cleanup, hcleanup]; rfl
  refine Triple.of_eq fun w₀ hw₀ => ?_
  refine Triple.bind (Triple.gets (Q := fun data w => data = w₀.connections ∧ w = w₀) ?_)
    fun data => Triple.assuming ?_
  · rintro w rfl
    exact ⟨rfl, rfl⟩
  rintro rfl
  have hmemory := hw₀.1.memory
  have hstale : ∀ r ∈ sorted (cleanup.pendingKeychainIds ++ w₀.connections.pendingKeychainCleanup),
      r ∈ j.staleCredentials c.connections := by
    intro r hr
    rcases List.mem_append.mp (mem_sorted.mp hr) with hr | hr
    · rw [RecoveryJournal.staleCredentials, hj, List.append_assoc]
      exact List.mem_append_left _ hr
    · exact hmemory.credentials r hr
  refine Triple.bind (((triple_deleteEach deletion_keychain (I := fun w =>
    w.connections = w₀.connections ∧ Finishing j c w ∧ Removed j c w) ?_).before ?_).weaken
      (fun _ _ hw => hw) fun w hw => hw.2.1) fun failed => ?_
  · exact fun r hr w hw => ⟨hw.1, hw.2.1.eraseKeychain (hstale r hr), hw.2.2.eraseKeychain r⟩
  · rintro w rfl
    exact ⟨rfl, hw₀⟩
  have hunusedStale : ∀ r ∈ (sorted (cleanup.pendingPrivilegeKeychainIds ++
      w₀.connections.pendingPrivilegeKeychainCleanup)).filter
        (fun r => r ∉ w₀.connections.activePrivilegeKeychainIds),
      r ∈ cleanup.pendingPrivilegeKeychainIds ++ c.connections.pendingPrivilegeKeychainCleanup ∧
        r ∉ c.connections.activePrivilegeKeychainIds := by
    intro r hr
    obtain ⟨hpending, hunused⟩ := List.mem_filter.mp hr
    rw [hmemory.activePrivilegeKeychainIds] at hunused
    refine ⟨?_, by simpa using hunused⟩
    rcases List.mem_append.mp (mem_sorted.mp hpending) with hr | hr
    · exact List.mem_append_left _ hr
    · rw [← hj]
      exact hmemory.privileges r hr
  refine Triple.bind (((triple_deleteEach deletion_privilegeKeychain (I := fun w =>
    (w.connections = w₀.connections ∧ Finishing j c w ∧ Removed j c w) ∧
      (∀ b ∈ sorted (cleanup.pendingKeychainIds ++ w₀.connections.pendingKeychainCleanup),
        b ∈ failed ∨ w.stores.keychain b = none) ∧
      ∀ b ∈ failed, b ∈ sorted (cleanup.pendingKeychainIds ++
        w₀.connections.pendingKeychainCleanup)) ?_)).weaken
      (fun _ _ hw => hw) fun w hw => hw.1.2.1) fun failedPrivileges => ?_
  · rintro r hr w ⟨⟨hsame, hw, hremoved⟩, hdeleted⟩
    refine ⟨⟨hsame, hw.erasePrivilegeKeychain ?_, hremoved.erasePrivilegeKeychain r⟩, hdeleted⟩
    obtain ⟨hpending, hunused⟩ := hunusedStale r hr
    refine List.mem_filter.mpr ⟨List.mem_append_right _ ?_, by simpa using hunused⟩
    rwa [hj]
  refine Triple.of_eq fun w hw => ?_
  obtain ⟨⟨⟨hsame, hfinishing, hremoved⟩, hdeleted, hfailed⟩, hdeletedPrivileges,
    hfailedPrivileges⟩ := hw
  -- What waits from here on is what could not be deleted.
  have hqueued : QueuedFrom j c.connections w.stores.keychain w.stores.privilegeKeychain
      (w₀.connections.queued failed failedPrivileges) :=
    { same := by
        rw [hmemory.same]
        rfl
      credentials := fun r hr => hstale r (hfailed r hr)
      privileges := fun r hr => by
        rw [hj]
        exact (hunusedStale r (hfailedPrivileges r hr)).1
      credentialsKept := fun r hr => by
        rcases hfinishing.memory.credentialsKept r hr with hwaits | hgone
        · rw [hsame] at hwaits
          exact hdeleted r (mem_sorted.mpr (List.mem_append_right _ hwaits))
        · exact Or.inr hgone
      privilegesKept := fun r hr hunused => by
        rcases hfinishing.memory.privilegesKept r hr hunused with hwaits | hgone
        · rw [hsame] at hwaits
          refine hdeletedPrivileges r (List.mem_filter.mpr
            ⟨mem_sorted.mpr (List.mem_append_right _ hwaits), ?_⟩)
          rw [hmemory.activePrivilegeKeychainIds]
          simpa using hunused
        · exact Or.inr hgone }
  have hset := hfinishing.setConnections hqueued
  refine Triple.bind (Triple.update (Q := fun _ w' => w' =
    { w with connections := w₀.connections.queued failed failedPrivileges }) ?_) fun _ => ?_
  · rintro w rfl
    rfl
  refine Triple.bind (Triple.write (Q := fun _ w' => w' = World.setStores
    { w with connections := w₀.connections.queued failed failedPrivileges }
    fun s => { s with connections := some (w₀.connections.queued failed failedPrivileges) })
      ?_ ?_ ?_) fun _ => ?_
  · rintro w' rfl
    exact hset
  · rintro w' rfl
    rfl
  · rintro w' rfl
    exact hset.save
  split
  · next hempty =>
    refine Triple.pure ?_
    rintro w' rfl
    obtain ⟨rfl, rfl⟩ := hempty
    have hgone : ∀ r ∈ sorted (cleanup.pendingKeychainIds ++
        w₀.connections.pendingKeychainCleanup), w.stores.keychain r = none :=
      fun r hr => (hdeleted r hr).resolve_left (by simp)
    refine ⟨hset.save, (hremoved.setConnections _).save, rfl, fun r hr => ?_,
      fun r hr hunused => ?_, rfl⟩
    · rcases List.mem_append.mp hr with hr | hr
      · rw [hj] at hr
        exact hgone r (mem_sorted.mpr (List.mem_append_left _ hr))
      · exact (hqueued.credentialsKept r hr).resolve_left (by simp [ConnectionData.queued])
    · rcases List.mem_append.mp hr with hr | hr
      · rw [hj] at hr
        refine (hdeletedPrivileges r (List.mem_filter.mpr
          ⟨mem_sorted.mpr (List.mem_append_left _ hr), ?_⟩)).resolve_left (by simp)
        rw [hmemory.activePrivilegeKeychainIds]
        simpa using hunused
      · exact (hqueued.privilegesKept r hr hunused).resolve_left (by simp [ConnectionData.queued])
  · refine Triple.raise ?_
    rintro w' rfl
    exact hset.save

/-- One stale slot of a profile: it is retained, gone, or waits to be deleted. -/
theorem triple_deleteOrQueue {r : String} {done : List String}
    (hr : r ∈ j.staleCredentials c.connections) :
    Triple (fun w => (Finishing j c w ∧ Removed j c w ∧ Flushed j c w) ∧
        ∀ b ∈ done, b ∈ c.connections.credentialReferenceIds ∨ w.stores.keychain b = none ∨
          b ∈ w.connections.pendingKeychainCleanup)
      (deleteOrQueueConnectionKeychainEntry r)
      (fun _ w => (Finishing j c w ∧ Removed j c w ∧ Flushed j c w) ∧
        ∀ b ∈ r :: done, b ∈ c.connections.credentialReferenceIds ∨ w.stores.keychain b = none ∨
          b ∈ w.connections.pendingKeychainCleanup) (Finishing j c) := by
  have hdelete := triple_fails (deletion_keychain.triple r (fun w =>
    (Finishing j c w ∧ Removed j c w ∧ Flushed j c w) ∧
      ∀ b ∈ done, b ∈ c.connections.credentialReferenceIds ∨ w.stores.keychain b = none ∨
        b ∈ w.connections.pendingKeychainCleanup) ?_)
  · refine Triple.bind (hdelete.weaken (fun _ _ hw => hw) fun w hw => hw.1.1) fun refused => ?_
    refine Triple.of_eq fun w hw => ?_
    refine Triple.bind (Triple.gets (Q := fun data w' => data = w.connections ∧ w' = w) ?_)
      fun data => Triple.assuming ?_
    · rintro w rfl
      exact ⟨rfl, rfl⟩
    rintro rfl
    have hinvariant : (Finishing j c w ∧ Removed j c w ∧ Flushed j c w) ∧
        ∀ b ∈ done, b ∈ c.connections.credentialReferenceIds ∨ w.stores.keychain b = none ∨
          b ∈ w.connections.pendingKeychainCleanup := by
      cases refused with
      | true => simpa using hw
      | false =>
        rw [if_neg Bool.false_ne_true] at hw
        exact hw.1
    obtain ⟨⟨hfinishing, hremoved, hflushed⟩, hdone⟩ := hinvariant
    split
    · -- The slot could not be deleted, and waits from here on.
      have hqueued : QueuedFrom j c.connections w.stores.keychain w.stores.privilegeKeychain
          { w.connections with
            pendingKeychainCleanup := w.connections.pendingKeychainCleanup ++ [r] } :=
        { hfinishing.memory with
          same := by
            conv_lhs => rw [hfinishing.memory.same]
            rfl
          credentials := fun b hb => by
            rcases List.mem_append.mp hb with hb | hb
            · exact hfinishing.memory.credentials b hb
            · rwa [List.mem_singleton.mp hb]
          credentialsKept := fun b hb =>
            (hfinishing.memory.credentialsKept b hb).imp_left (List.mem_append_left _) }
      have hset := hfinishing.setConnections hqueued
      refine Triple.bind (Triple.update (Q := fun _ w' => w' = { w with
        connections := { w.connections with
          pendingKeychainCleanup := w.connections.pendingKeychainCleanup ++ [r] } }) ?_) fun _ => ?_
      · rintro w rfl
        rfl
      refine Triple.write ?_ ?_ ?_
      · rintro w' rfl
        exact hset
      · rintro w' rfl
        refine ⟨⟨hset.save, (hremoved.setConnections _).save,
          { hflushed with saved := rfl }⟩, List.forall_mem_cons.mpr ⟨?_, fun b hb => ?_⟩⟩
        · exact Or.inr (Or.inr (List.mem_append_right _ (List.mem_singleton.mpr rfl)))
        · exact (hdone b hb).imp_right fun h => h.imp_right (List.mem_append_left _)
      · rintro w' rfl
        exact hset.save
    · next hnot =>
      refine Triple.pure ?_
      rintro w' rfl
      refine ⟨⟨hfinishing, hremoved, hflushed⟩, List.forall_mem_cons.mpr ⟨?_, hdone⟩⟩
      cases refused with
      | true => exact Or.inr (Or.inr (by simpa using hnot))
      | false =>
        rw [if_neg Bool.false_ne_true] at hw
        exact Or.inr (Or.inl hw.2)
  · rintro w ⟨⟨hfinishing, hremoved, hflushed⟩, hdone⟩
    refine ⟨⟨hfinishing.eraseKeychain hr, hremoved.eraseKeychain r, hflushed.eraseKeychain r⟩,
      fun b hb => (hdone b hb).imp_right fun h => h.imp_left fun hgone => ?_⟩
    exact KeyStore.erase_of_none hgone r

/-- The slots of the profiles that were replaced. -/
theorem triple_commitProfileCredentials {stale : List String}
    (hstale : j.credentialCleanup = some stale) :
    Triple (fun w => Finishing j c w ∧ Removed j c w ∧ Flushed j c w)
      (commitProfileCredentials stale)
      (fun _ w => (Finishing j c w ∧ Removed j c w ∧ Flushed j c w) ∧
        ∀ b ∈ stale, b ∈ c.connections.credentialReferenceIds ∨ w.stores.keychain b = none ∨
          b ∈ w.connections.pendingKeychainCleanup) (Finishing j c) := by
  refine Triple.bind (Triple.forM_each (D := fun b w => b ∈ c.connections.credentialReferenceIds ∨
    w.stores.keychain b = none ∨ b ∈ w.connections.pendingKeychainCleanup)
      fun r hr done => ?_) fun _ => ?_
  · refine Triple.bind (Triple.gets (Q := fun data w => data.credentialReferenceIds =
      c.connections.credentialReferenceIds ∧ (Finishing j c w ∧ Removed j c w ∧ Flushed j c w) ∧
      ∀ b ∈ done, b ∈ c.connections.credentialReferenceIds ∨ w.stores.keychain b = none ∨
        b ∈ w.connections.pendingKeychainCleanup)
      fun w hw => ⟨hw.1.1.memory.credentialReferenceIds, hw⟩) fun data => Triple.assuming fun hdata => ?_
    rw [hdata]
    split
    · next hused =>
      exact Triple.pure fun w hw =>
        ⟨hw.1, List.forall_mem_cons.mpr ⟨Or.inl hused, hw.2⟩⟩
    · next hunused =>
      refine triple_deleteOrQueue (List.mem_append_right _ (List.mem_filter.mpr ⟨?_, ?_⟩))
      · rw [hstale]
        exact hr
      · simpa using hunused
  · refine Triple.bind (Triple.gets (Q := fun _ w =>
      (Finishing j c w ∧ Removed j c w ∧ Flushed j c w) ∧
      ∀ b ∈ stale, b ∈ c.connections.credentialReferenceIds ∨ w.stores.keychain b = none ∨
        b ∈ w.connections.pendingKeychainCleanup) fun w hw => hw) fun data => ?_
    split
    · exact Triple.pure fun w hw => hw
    · refine Triple.write (fun w hw => hw.1.1) ?_ ?_
      · rintro w ⟨⟨hfinishing, hremoved, hflushed⟩, hdone⟩
        exact ⟨⟨hfinishing.save, hremoved.save, { hflushed with saved := rfl }⟩, hdone⟩
      · exact fun w hw => hw.1.1.save

/-- **Recovery after the commit deletes what is no longer used.** -/
theorem triple_finishCommitted (hcleanup : j.connectionCleanup.isSome) :
    Triple (Finishing j c) j.finishCommitted (fun _ w => Finishing j c w ∧ Settled j c w)
      (Finishing j c) := by
  obtain ⟨cleanup, hcleanup⟩ := Option.isSome_iff_exists.mp hcleanup
  have hfirst : j.finishCommitted = ((do
      removeSyncedPrivilegeSlots j.privilegeStale
      removeSyncedManagedKeySlots j.managedStale) >>= fun _ => do
        j.connectionCleanup.forM finalizeSavedConnectionsSyncCleanup
        j.credentialCleanup.forM commitProfileCredentials) :=
    (bind_assoc _ _ _).symm
  rw [hfirst]
  refine Triple.bind triple_removeStale fun _ => ?_
  rw [hcleanup]
  refine Triple.bind (triple_finalize hcleanup) fun _ => ?_
  cases hstale : j.credentialCleanup with
  | none =>
    refine Triple.pure ?_
    rintro w ⟨hfinishing, hremoved, hflushed⟩
    refine ⟨hfinishing, .of_finishing hfinishing hremoved hflushed ?_⟩
    intro r hr
    rw [hstale] at hr
    cases hr
  | some stale =>
    refine (triple_commitProfileCredentials hstale).weaken ?_ fun w hw => hw
    rintro _ w ⟨⟨hfinishing, hremoved, hflushed⟩, hcredentials⟩
    refine ⟨hfinishing, .of_finishing hfinishing hremoved hflushed ?_⟩
    rw [hstale]
    exact hcredentials

end Access

end OxideTerm.CloudSync
