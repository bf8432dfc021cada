import OxideTerm.CloudSync.AccessRules

/-!
# Before the commit

As long as the journal is not marked as committed, it tells how to get back: whatever differs from
what there was before is in a file that the journal holds a copy of, or in a slot that the journal
lists.
-/

namespace OxideTerm.CloudSync

open OxideTerm.Lib Procedure Access

/-- Nothing has the slot yet, and nothing refers to it. -/
def World.FreshSlot (w : World) : SlotKind → String → Prop
  | .managedKey, r => w.stores.managedKeychain r = none ∧ w.stores.managedFiles r = none ∧
      r ∉ w.connections.managedSlots
  | .privilege, r => w.stores.privilegeKeychain r = none ∧
      r ∉ w.connections.activePrivilegeKeychainIds
  | .credential, r => w.stores.keychain r = none

/-- The slots that the plan creates are new, and no two keys share one. -/
structure ResolvedSync.Fresh (plan : ResolvedSync) (before : World) : Prop where
  distinct : (plan.managed.map ManagedKeySyncRecord.reference).Nodup
  managed : ∀ k ∈ plan.managed, before.FreshSlot .managedKey k.reference
  privilege : ∀ p ∈ plan.privileges, before.FreshSlot .privilege p.reference
  credential : ∀ c ∈ plan.credentials, before.FreshSlot .credential c.reference

/-- The slots of a kind that the journal lists as created. -/
def RecoveryJournal.created (j : RecoveryJournal) : SlotKind → List String
  | .managedKey => j.managedCreated
  | .privilege => j.privilegeCreated
  | .credential => j.createdSlots

/-- The accounts whose keys the journal holds. -/
def RecoveryJournal.providers (j : RecoveryJournal) : List String :=
  j.auxiliaryBefore.secrets.map Prod.fst

/-- **The journal leads back:** to the record, and to the stores as they were. -/
structure RecoveryJournal.Uncommitted (j : RecoveryJournal) (before : World)
    (record : LocalReplica) (s : Stores) : Prop where
  schema : j.schema = 3
  committed : j.committed = false
  connections : j.connections =
    { originalData := before.connections, originalFile := before.stores.connections }
  forwards : j.forwards = if before.forwardStore then some before.stores.forwards else none
  forwardsKept : before.forwardStore = false → s.forwards = before.stores.forwards
  settings : j.settings = before.stores.settings
  commands : j.commands = before.stores.commands
  plugins : j.plugins = before.stores.plugins
  replica : j.replica = record
  keys : ∀ p ∈ j.auxiliaryBefore.secrets, p.2 = before.stores.providerKeys p.1
  inventory : ∀ p ∈ j.auxiliaryBefore.inventory, p.2 = before.stores.accounts p.1
  inventoried : j.auxiliaryBefore.inventory.map Prod.fst = j.providers
  keysKept : ∀ id, id ∉ j.providers → s.providerKeys id = before.stores.providerKeys id
  accountsKept : ∀ id, id ∉ j.providers → s.accounts id = before.stores.accounts id
  fresh : ∀ kind, ∀ r ∈ j.created kind, before.FreshSlot kind r
  keychain : ∀ r, r ∉ j.createdSlots → s.keychain r = before.stores.keychain r
  managedKeychain : ∀ r, r ∉ j.managedCreated →
    s.managedKeychain r = before.stores.managedKeychain r
  managedFiles : ∀ r, r ∉ j.managedCreated → s.managedFiles r = before.stores.managedFiles r
  privilegeKeychain : ∀ r, r ∉ j.privilegeCreated →
    s.privilegeKeychain r = before.stores.privilegeKeychain r

/-- The journal on the disk leads back. -/
def World.Pending (before : World) (record : LocalReplica) (w : World) : Prop :=
  ∃ j, w.recovery = some j ∧ j.Uncommitted before record w.stores

/-- The journal leads back, and the one on the disk differs at most in the slots that are to be
deleted after the commit. -/
structure World.At (before : World) (record : LocalReplica) (j : RecoveryJournal) (w : World) :
    Prop where
  forwardStore : w.forwardStore = before.forwardStore
  recovery : ∃ managedStale privilegeStale, w.recovery = some { j with managedStale, privilegeStale }
  uncommitted : j.Uncommitted before record w.stores

variable {before : World} {record : LocalReplica} {j : RecoveryJournal} {s : Stores}

theorem RecoveryJournal.mem_created_recordCreation {kind kind' : SlotKind} {r other : String} :
    other ∈ (j.recordCreation kind r).created kind' ↔
      other ∈ j.created kind' ∨ kind' = kind ∧ other = r := by
  cases kind <;> cases kind' <;> simp [recordCreation, created]

namespace RecoveryJournal.Uncommitted

/-! ## Writes that the journal covers -/

/-- The files that the journal has copies of may change. -/
theorem files (h : j.Uncommitted before record s) (connections : Option ConnectionData)
    (settings : SettingsData) (commands plugins : String) :
    j.Uncommitted before record { s with connections, settings, commands, plugins } :=
  { h with }

theorem setForwards (h : j.Uncommitted before record s) (hopened : before.forwardStore = true)
    (forwards : List String) : j.Uncommitted before record { s with forwards } :=
  { h with forwardsKept := fun hclosed => by simp [hopened] at hclosed }

theorem setKeychain (h : j.Uncommitted before record s) {r : String} (hr : r ∈ j.createdSlots)
    (value : Option String) :
    j.Uncommitted before record { s with keychain := Function.update s.keychain r value } :=
  { h with
    keychain := fun other hother => by
      rw [← h.keychain other hother]
      exact Function.update_of_ne (ne_of_mem_of_not_mem hr hother).symm _ _ }

theorem setPrivilegeKeychain (h : j.Uncommitted before record s) {r : String}
    (hr : r ∈ j.privilegeCreated) (value : Option String) :
    j.Uncommitted before record
      { s with privilegeKeychain := Function.update s.privilegeKeychain r value } :=
  { h with
    privilegeKeychain := fun other hother => by
      rw [← h.privilegeKeychain other hother]
      exact Function.update_of_ne (ne_of_mem_of_not_mem hr hother).symm _ _ }

theorem setManagedKeychain (h : j.Uncommitted before record s) {r : String}
    (hr : r ∈ j.managedCreated) (value : Option String) :
    j.Uncommitted before record
      { s with managedKeychain := Function.update s.managedKeychain r value } :=
  { h with
    managedKeychain := fun other hother => by
      rw [← h.managedKeychain other hother]
      exact Function.update_of_ne (ne_of_mem_of_not_mem hr hother).symm _ _ }

theorem setManagedFile (h : j.Uncommitted before record s) {r : String}
    (hr : r ∈ j.managedCreated) (value : Option String) :
    j.Uncommitted before record
      { s with managedFiles := Function.update s.managedFiles r value } :=
  { h with
    managedFiles := fun other hother => by
      rw [← h.managedFiles other hother]
      exact Function.update_of_ne (ne_of_mem_of_not_mem hr hother).symm _ _ }

theorem setProviderKey (h : j.Uncommitted before record s) {id : String} (hid : id ∈ j.providers)
    (key : String) :
    j.Uncommitted before record
      { s with providerKeys := Function.update s.providerKeys id key } :=
  { h with
    keysKept := fun other hother => by
      rw [← h.keysKept other hother]
      exact Function.update_of_ne (ne_of_mem_of_not_mem hid hother).symm _ _ }

theorem setAccount (h : j.Uncommitted before record s) {id : String} (hid : id ∈ j.providers)
    (removed : Option Bool) :
    j.Uncommitted before record { s with accounts := Function.update s.accounts id removed } :=
  { h with
    accountsKept := fun other hother => by
      rw [← h.accountsKept other hother]
      exact Function.update_of_ne (ne_of_mem_of_not_mem hid hother).symm _ _ }

/-! ## Changes of the journal -/

/-- What is to be deleted after the commit has no bearing before it. -/
theorem stale (h : j.Uncommitted before record s) (managedStale privilegeStale : List String)
    (connectionCleanup : Option ConnectionCleanup) (credentialCleanup : Option (List String)) :
    ({ j with managedStale, privilegeStale, connectionCleanup, credentialCleanup } :
      RecoveryJournal).Uncommitted before record s :=
  { h with
    inventoried := h.inventoried
    keysKept := h.keysKept
    accountsKept := h.accountsKept
    fresh := fun kind r hr => h.fresh kind r (by cases kind <;> exact hr) }

theorem recordCreation (h : j.Uncommitted before record s) {kind : SlotKind} {r : String}
    (hfresh : before.FreshSlot kind r) :
    (j.recordCreation kind r).Uncommitted before record s := by
  have hall : ∀ kind', ∀ other ∈ (j.recordCreation kind r).created kind',
      before.FreshSlot kind' other := by
    intro kind' other hother
    rcases mem_created_recordCreation.mp hother with hother | ⟨rfl, rfl⟩
    · exact h.fresh kind' other hother
    · exact hfresh
  cases kind with
  | managedKey =>
    exact { h with
      inventoried := h.inventoried
      keysKept := h.keysKept
      accountsKept := h.accountsKept
      fresh := hall
      managedKeychain := fun other hother =>
        h.managedKeychain other fun hmem => hother (List.mem_append_left _ hmem)
      managedFiles := fun other hother =>
        h.managedFiles other fun hmem => hother (List.mem_append_left _ hmem) }
  | privilege =>
    exact { h with
      inventoried := h.inventoried
      keysKept := h.keysKept
      accountsKept := h.accountsKept
      fresh := hall
      privilegeKeychain := fun other hother =>
        h.privilegeKeychain other fun hmem => hother (List.mem_append_left _ hmem) }
  | credential =>
    exact { h with
      inventoried := h.inventoried
      keysKept := h.keysKept
      accountsKept := h.accountsKept
      fresh := hall
      keychain := fun other hother =>
        h.keychain other fun hmem => hother (List.mem_append_left _ hmem) }

end RecoveryJournal.Uncommitted

theorem SlotDecision.providers_elim {α : Type} (d : SlotDecision α) {kind : SlotKind} :
    (d.creates.elim j fun c => j.recordCreation kind c.1).providers = j.providers := by
  cases d.creates with
  | none => rfl
  | some c => cases kind <;> rfl

/-! ## The accesses of an apply -/

/-- The journal on the disk leads back, and lists these slots as created. -/
def World.PendingWith (before : World) (record : LocalReplica) (slots : List String) (w : World) :
    Prop :=
  ∃ j, w.recovery = some j ∧ j.Uncommitted before record w.stores ∧
    ∀ r ∈ slots, r ∈ j.createdSlots

theorem World.PendingWith.pending {slots : List String} {w : World}
    (h : World.PendingWith before record slots w) : World.Pending before record w := by
  obtain ⟨j, hrecovery, huncommitted, -⟩ := h
  exact ⟨j, hrecovery, huncommitted⟩

namespace World.At

variable {w : World}

theorem pendingWith (h : World.At before record j w) {slots : List String}
    (hslots : ∀ r ∈ slots, r ∈ j.createdSlots) : World.PendingWith before record slots w := by
  obtain ⟨managedStale, privilegeStale, hrecovery⟩ := h.recovery
  exact ⟨_, hrecovery, h.uncommitted.stale managedStale privilegeStale _ _, hslots⟩

theorem pending (h : World.At before record j w) : World.Pending before record w :=
  (h.pendingWith (List.forall_mem_nil _)).pending

theorem setStores (h : World.At before record j w) {f : Stores → Stores}
    (hf : j.Uncommitted before record (f w.stores)) : World.At before record j (w.setStores f) :=
  ⟨h.forwardStore, h.recovery, hf⟩

theorem setConnections (h : World.At before record j w) (data : ConnectionData) :
    World.At before record j { w with connections := data } :=
  ⟨h.forwardStore, h.recovery, h.uncommitted⟩

theorem stale (h : World.At before record j w) (managedStale privilegeStale : List String) :
    World.At before record { j with managedStale, privilegeStale } w :=
  ⟨h.forwardStore, h.recovery, h.uncommitted.stale managedStale privilegeStale _ _⟩

end World.At

namespace Access

theorem triple_setConnections {data : ConnectionData} {E : World → Prop} :
    Triple (World.At before record j) (setConnections data)
      (fun _ => World.At before record j) E := Triple.update fun _ hw => hw.setConnections data

/-- A write that the journal covers. -/
theorem triple_covered {error : String} {f : Stores → Stores}
    (hf : ∀ w, World.At before record j w → j.Uncommitted before record (f w.stores)) :
    Triple (World.At before record j) (writeStores error f)
      (fun _ => World.At before record j) (World.At before record j) :=
  triple_writeStores (fun w hw => hw.setStores (hf w hw)) (fun _ hw => hw)
    fun w hw => hw.setStores (hf w hw)

theorem triple_saveConnections :
    Triple (World.At before record j) saveConnections
      (fun _ => World.At before record j) (World.At before record j) := by
  have hsaved : ∀ w, World.At before record j w → World.At before record j
      (w.setStores fun s => { s with connections := some w.connections }) :=
    fun w hw => hw.setStores (hw.uncommitted.files _ _ _ _)
  exact Triple.write (fun w hw => hw) hsaved hsaved

/-- The journal is replaced by one that leads back as well. -/
theorem triple_persist {j' : RecoveryJournal} {slots : List String}
    (hj : ∀ s, j.Uncommitted before record s → j'.Uncommitted before record s)
    (hslots : ∀ r ∈ slots, r ∈ j.createdSlots) (hslots' : ∀ r ∈ slots, r ∈ j'.createdSlots) :
    Triple (World.At before record j) (persist j') (fun _ => World.At before record j')
      (World.PendingWith before record slots) := by
  refine Triple.write (fun w hw => hw.pendingWith hslots) ?_ ?_
  · exact fun w hw => ⟨hw.forwardStore, ⟨_, _, rfl⟩, hj w.stores hw.uncommitted⟩
  · exact fun w hw => ⟨j', rfl, hj w.stores hw.uncommitted, hslots'⟩

/-- The same, where no slot needs watching. -/
theorem triple_persist_pending {k : RecoveryJournal}
    (hj : ∀ s, j.Uncommitted before record s → k.Uncommitted before record s) :
    Triple (World.At before record j) (persist k) (fun _ => World.At before record k)
      (World.Pending before record) :=
  (triple_persist hj (List.forall_mem_nil _) (List.forall_mem_nil _)).weaken
    (fun _ _ hw => hw) fun _ hw => hw.pending

/-- A slot that the journal lists may be written. -/
theorem triple_storeSlot {kind : SlotKind} {reference secret : String}
    (hlisted : reference ∈ j.created kind) :
    Triple (World.At before record j) (storeSlot kind reference secret)
      (fun _ => World.At before record j) (World.At before record j) := by
  cases kind with
  | managedKey =>
    refine (triple_fails (triple_covered fun w hw =>
      hw.uncommitted.setManagedKeychain hlisted (some secret))).bind fun refused => ?_
    cases refused with
    | false => exact Triple.pure fun w hw => hw
    | true =>
      refine ((triple_fails (triple_covered fun w hw =>
        hw.uncommitted.setManagedKeychain hlisted none)).before fun w hw => hw).bind fun _ => ?_
      refine Triple.bind (Triple.attempt (Q := fun _ => World.At before record j) ?_ ?_) fun _ => ?_
      · intro w hw
        split at hw <;> exact hw
      · intro w hw
        split at hw <;> exact hw
      · exact triple_covered fun w hw => hw.uncommitted.setManagedFile hlisted (some secret)
  | privilege =>
    exact triple_covered fun w hw => hw.uncommitted.setPrivilegeKeychain hlisted (some secret)
  | credential => exact triple_covered fun w hw => hw.uncommitted.setKeychain hlisted (some secret)

/-- **A slot is staged under cover of the journal.** -/
theorem triple_stageSlot {α : Type} {kind : SlotKind} {decide : KeyStore → Result (SlotDecision α)}
    {slots : List String} (hslots : ∀ r ∈ slots, r ∈ j.createdSlots)
    (hfresh : ∀ k d reference secret, decide k = .ok d → d.creates = some (reference, secret) →
      before.FreshSlot kind reference) :
    Triple (World.At before record j) (stageSlot kind decide j)
      (fun r w => World.At before record r.2 w ∧ ∃ k d, decide k = .ok d ∧ r.1 = d.next ∧
        r.2 = d.creates.elim j fun c => j.recordCreation kind c.1)
      (World.PendingWith before record slots) := by
  have hcut : ∀ w, World.At before record j w → World.PendingWith before record slots w :=
    fun w hw => hw.pendingWith hslots
  refine Triple.bind (Triple.attempt (Q := fun _ => World.At before record j) hcut fun _ hw => hw)
    fun _ => ?_
  refine Triple.bind (Triple.gets (Q := fun _ => World.At before record j) fun _ hw => hw)
    fun k => ?_
  refine Triple.bind (Triple.ofExcept (Q := fun d w => decide k = .ok d ∧ World.At before record j w)
    (fun d w hd hw => ⟨hd, hw⟩) hcut) fun d => ?_
  rcases hcreates : d.creates with _ | ⟨reference, secret⟩
  · exact Triple.pure fun w hw => ⟨hw.2, k, d, hw.1, rfl, by rw [hcreates]; rfl⟩
  · refine Triple.of_eq fun w₀ hw₀ => ?_
    obtain ⟨hd, hat⟩ := hw₀
    have hnew := hfresh k d reference secret hd hcreates
    have hgrown : ∀ r ∈ slots, r ∈ (j.recordCreation kind reference).createdSlots := fun r hr =>
      show r ∈ (j.recordCreation kind reference).created .credential from
        RecoveryJournal.mem_created_recordCreation.mpr (Or.inl (hslots r hr))
    refine Triple.bind ((triple_persist (fun s hs => hs.recordCreation hnew) hslots
      hgrown).before ?_) fun _ => ?_
    · rintro w rfl
      exact hat
    · refine Triple.bind ((triple_storeSlot ?_).weaken (fun _ _ hw => hw)
        fun w hw => hw.pendingWith hgrown) fun _ => ?_
      · exact RecoveryJournal.mem_created_recordCreation.mpr (Or.inr ⟨rfl, rfl⟩)
      · exact Triple.pure fun w hw => ⟨hw, k, d, hd, rfl, by rw [hcreates]; rfl⟩

/-! ## The stages of an apply -/

theorem triple_persist_first (hj : j.Uncommitted before record before.stores) :
    Triple (fun w => w = before) (persist j) (fun _ => World.At before record j)
      (fun w => w = before ∨ World.Pending before record w) := by
  refine Triple.write (fun w hw => Or.inl hw) ?_ ?_
  · rintro w rfl
    exact ⟨rfl, ⟨j.managedStale, j.privilegeStale, rfl⟩, hj⟩
  · rintro w rfl
    exact Or.inr ⟨j, rfl, hj⟩

/-- Nothing is changed before the journal is on the disk. -/
theorem triple_begin (hnone : before.recovery = none) :
    Triple (fun w => w = before) (RecoveryJournal.begin record)
      (fun j w => j.providers = [] ∧ World.At before record j w)
      (fun w => w = before ∨ World.Pending before record w) := by
  have hattempt (error : String) : Triple (fun w => w = before) (attempt error)
      (fun _ w => w = before) (fun w => w = before ∨ World.Pending before record w) :=
    Triple.attempt (fun w hw => Or.inl hw) fun w hw => hw
  have hgets {α : Type} (f : World → α) : Triple (fun w => w = before) (gets f : Access α)
      (fun a w => a = f before ∧ w = before)
      (fun w => w = before ∨ World.Pending before record w) :=
    Triple.gets fun w hw => ⟨congrArg f hw, hw⟩
  unfold RecoveryJournal.begin readRecovery createCheckpoint
  refine Triple.bind (Triple.bind (hattempt _) fun _ => hgets _) fun pending => ?_
  refine Triple.assuming ?_
  rintro rfl
  rw [hnone]
  refine Triple.bind (Triple.bind (hattempt _) fun _ => hgets _) fun connections => ?_
  refine Triple.assuming ?_
  rintro rfl
  refine Triple.bind (hattempt _) fun _ => Triple.bind (hgets _) fun forwards => ?_
  refine Triple.assuming ?_
  rintro rfl
  refine Triple.bind (hattempt _) fun _ => Triple.bind (hgets _) fun settings => ?_
  refine Triple.assuming ?_
  rintro rfl
  refine Triple.bind (hattempt _) fun _ => Triple.bind (hgets _) fun commands => ?_
  refine Triple.assuming ?_
  rintro rfl
  refine Triple.bind (hattempt _) fun _ => Triple.bind (hgets _) fun plugins => ?_
  refine Triple.assuming ?_
  rintro rfl
  refine Triple.bind (triple_persist_first ?_) fun _ => Triple.pure fun w hw => ⟨rfl, hw⟩
  constructor
  case fresh => intro kind; cases kind <;> simp [RecoveryJournal.created]
  all_goals simp [RecoveryJournal.providers]

theorem triple_checkpointAuxiliary {incoming : List (String × String)} (hj : j.providers = []) :
    Triple (World.At before record j) (j.checkpointAuxiliary incoming)
      (fun j' w => (∀ p ∈ incoming, p.1 ∈ j'.providers) ∧ World.At before record j' w)
      (World.Pending before record) := by
  refine Triple.bind (Triple.bind (Triple.attempt (Q := fun _ => World.At before record j)
    (fun w hw => hw.pending) fun w hw => hw) fun _ => Triple.gets
      (Q := fun (checkpoint : AuxiliarySecretCheckpoint) w => (checkpoint.secrets = incoming.map (fun secret =>
          (secret.1, before.stores.providerKeys secret.1)) ∧
        checkpoint.inventory = incoming.map fun secret =>
          (secret.1, before.stores.accounts secret.1)) ∧ World.At before record j w) ?_)
    fun checkpoint => Triple.assuming ?_
  · intro w hw
    refine ⟨⟨List.map_congr_left fun p _ => ?_, List.map_congr_left fun p _ => ?_⟩, hw⟩
    · rw [hw.uncommitted.keysKept p.1 (by simp [hj])]
    · rw [hw.uncommitted.accountsKept p.1 (by simp [hj])]
  · rintro ⟨hsecrets, hinventory⟩
    have hproviders : checkpoint.secrets.map Prod.fst = incoming.map Prod.fst := by
      rw [hsecrets, List.map_map]
      rfl
    refine Triple.bind (triple_persist_pending (k := { j with auxiliaryBefore := checkpoint }) ?_)
      fun _ => Triple.pure fun w hw => ⟨fun p hp => ?_, hw⟩
    · intro s hs
      exact { hs with
        keys := fun p hp => by
          rw [hsecrets] at hp
          obtain ⟨q, -, rfl⟩ := List.mem_map.mp hp
          rfl
        inventory := fun p hp => by
          rw [hinventory] at hp
          obtain ⟨q, -, rfl⟩ := List.mem_map.mp hp
          rfl
        inventoried := by
          show checkpoint.inventory.map Prod.fst = checkpoint.secrets.map Prod.fst
          rw [hinventory, hproviders, List.map_map]
          rfl
        keysKept := fun id _ => hs.keysKept id (by simp [hj])
        accountsKept := fun id _ => hs.accountsKept id (by simp [hj])
        fresh := fun kind r hr => hs.fresh kind r (by cases kind <;> exact hr) }
    · show p.1 ∈ checkpoint.secrets.map Prod.fst
      rw [hproviders]
      exact List.mem_map_of_mem hp

/-- Which slot a managed key gets. -/
theorem managedKeyDecision_creates {data : ConnectionData} {incoming : ManagedKeySyncRecord}
    {k : KeyStore} {d : SlotDecision (ConnectionData × Option String)} {reference secret : String}
    (h : managedKeyDecision data incoming k = .ok d) (hcreates : d.creates = some (reference, secret)) :
    reference = incoming.reference ∧ secret = incoming.privateKey := by
  unfold managedKeyDecision at h
  split at h
  · simp at h
  split at h
  · simp at h
  split at h
  · obtain rfl := Except.ok.inj h
    simpa [eq_comm] using hcreates
  split at h
  · simp at h
  split at h
  · obtain rfl := Except.ok.inj h
    simp at hcreates
  · obtain rfl := Except.ok.inj h
    simpa [eq_comm] using hcreates

theorem triple_prepareManagedKeySync {incoming : ManagedKeySyncRecord}
    (hfresh : before.FreshSlot .managedKey incoming.reference) :
    Triple (World.At before record j) (prepareManagedKeySync j incoming)
      (fun j' w => j'.providers = j.providers ∧ World.At before record j' w)
      (World.Pending before record) := by
  refine Triple.bind (Triple.gets (Q := fun _ => World.At before record j) fun w hw => hw)
    fun data => ?_
  refine Triple.bind ((triple_stageSlot (List.forall_mem_nil _) ?_).weaken (fun _ _ hw => hw)
    fun w hw => hw.pending) fun r => ?_
  · intro k d reference secret hd hcreates
    rw [(managedKeyDecision_creates hd hcreates).1]
    exact hfresh
  obtain ⟨⟨data, stale⟩, j'⟩ := r
  dsimp only
  refine Triple.of_eq fun w₀ hw₀ => ?_
  obtain ⟨hat, k, d, -, -, hj'⟩ := hw₀
  have hproviders : j'.providers = j.providers := by
    rw [show j' = _ from hj']
    exact d.providers_elim
  refine Triple.bind (Triple.before (P := World.At before record j') triple_setConnections ?_)
    fun _ => ?_
  · rintro w rfl
    exact hat
  · cases stale with
    | none => exact Triple.pure fun w hw => ⟨hproviders, hw⟩
    | some old => exact Triple.pure fun w hw => ⟨hproviders, hw.stale _ _⟩

/-- Which slot a privilege credential gets. -/
theorem privilegeDecision_creates {data : ConnectionData} {r : PrivilegeSyncRecord} {k : KeyStore}
    {d : SlotDecision PrivilegeCredential} {reference secret : String}
    (h : privilegeDecision data r k = .ok d) (hcreates : d.creates = some (reference, secret)) :
    reference = r.reference := by
  unfold privilegeDecision at h
  cases hsecret : r.secret with
  | none =>
    simp only [hsecret] at h
    split at h
    · simp at h
    split at h
    · obtain rfl := Except.ok.inj h
      simp at hcreates
    split at h
    · simp at h
    · simp only [reduceCtorEq, if_false, Except.ok.injEq] at h
      rw [← h] at hcreates
      simp at hcreates
  | some value =>
    simp only [hsecret] at h
    split at h
    · simp at h
    split at h
    · obtain rfl := Except.ok.inj h
      exact (Prod.mk.inj (Option.some.inj hcreates)).1.symm
    split at h
    · simp at h
    split at h
    · obtain rfl := Except.ok.inj h
      simp at hcreates
    · obtain rfl := Except.ok.inj h
      exact (Prod.mk.inj (Option.some.inj hcreates)).1.symm

theorem triple_preparePrivilegeSync {records : List PrivilegeSyncRecord}
    {owners : ConnectionData → List String}
    (hfresh : ∀ r ∈ records, before.FreshSlot .privilege r.reference) :
    Triple (World.At before record j) (preparePrivilegeSync records owners j)
      (fun j' w => j'.providers = j.providers ∧ World.At before record j' w)
      (World.Pending before record) := by
  have hcut : ∀ w, World.At before record j w → World.Pending before record w :=
    fun w hw => hw.pending
  refine Triple.bind (Triple.ofExcept (Q := fun _ => World.At before record j)
    (fun _ w _ hw => hw) hcut) fun _ => ?_
  refine Triple.bind (Triple.gets (Q := fun _ => World.At before record j) fun w hw => hw)
    fun data => ?_
  refine Triple.bind ((Triple.foldlM (P := fun rest (acc : List PrivilegeCredential ×
    RecoveryJournal) w => (acc.2.providers = j.providers ∧ World.At before record acc.2 w) ∧
      ∀ r ∈ rest, before.FreshSlot .privilege r.reference) ?_ records ([], j)).before
    fun w hw => ⟨⟨rfl, hw⟩, hfresh⟩) fun acc => ?_
  · rintro r rest ⟨prepared, j'⟩
    refine Triple.of_eq fun w₀ hw₀ => ?_
    obtain ⟨⟨hproviders, hat⟩, hrest⟩ := hw₀
    dsimp only
    split
    · refine Triple.pure ?_
      rintro w rfl
      exact ⟨⟨hproviders, hat⟩, fun b hb => hrest b (List.mem_cons_of_mem r hb)⟩
    · refine Triple.bind (((triple_stageSlot (List.forall_mem_nil _) ?_).before ?_).weaken
        (fun _ _ hw => hw) fun w hw => hw.pending) fun staged => ?_
      · intro k d reference secret hd hcreates
        rw [privilegeDecision_creates hd hcreates]
        exact hrest r List.mem_cons_self
      · rintro w rfl
        exact hat
      · refine Triple.pure ?_
        rintro w ⟨hw, k, d, -, -, hj'⟩
        refine ⟨⟨?_, hw⟩, fun b hb => hrest b (List.mem_cons_of_mem r hb)⟩
        rw [show staged.2.providers = _ from congrArg RecoveryJournal.providers hj',
          d.providers_elim, hproviders]
  · obtain ⟨prepared, j'⟩ := acc
    dsimp only
    refine Triple.of_eq fun w₀ hw₀ => ?_
    obtain ⟨⟨hproviders, hat⟩, -⟩ := hw₀
    split
    · refine Triple.bind (Triple.before (P := World.At before record j') triple_setConnections ?_)
        fun _ => ?_
      · rintro w rfl
        exact hat
      · exact Triple.bind (triple_saveConnections.weaken (fun _ _ hw => hw) fun w hw => hw.pending)
          fun _ => Triple.pure fun w hw => ⟨hproviders, hw.stale _ _⟩
    · refine Triple.raise ?_
      rintro w rfl
      exact hat.pending

theorem mem_of_selectedCredentials {bound : String → Bool} :
    {credentials : List ProfileCredential} → {seen : List String} →
    {chosen : List ProfileCredential} → selectedCredentials bound credentials seen = .ok chosen →
    ∀ c ∈ chosen, c ∈ credentials
  | [], _, chosen, h, c, hc => by
    rw [← Except.ok.inj h] at hc
    simp at hc
  | credential :: rest, seen, chosen, h, c, hc => by
    unfold selectedCredentials at h
    split at h
    · simp at h
    split at h
    · exact List.mem_cons_of_mem _ (mem_of_selectedCredentials h c hc)
    split at h
    · simp at h
    split at h
    · simp at h
    next selected hrest =>
    rw [← Except.ok.inj h] at hc
    rcases List.mem_cons.mp hc with rfl | hc
    · exact List.mem_cons_self
    · exact List.mem_cons_of_mem _ (mem_of_selectedCredentials hrest c hc)

/-- The slot that a credential gets is the one that is created. -/
theorem credentialDecision_ok {c : ProfileCredential} {k : KeyStore}
    {d : SlotDecision (Option String)} (h : credentialDecision c k = .ok d) :
    d.next = none ∧ d.creates = none ∨
      d.next = some c.reference ∧ d.creates = some (c.reference, c.secret) := by
  unfold credentialDecision at h
  split at h
  · obtain rfl := Except.ok.inj h
    exact Or.inl ⟨rfl, rfl⟩
  split at h
  · simp at h
  · obtain rfl := Except.ok.inj h
    exact Or.inr ⟨rfl, rfl⟩

theorem triple_orRollBack {α : Type} {created : List String} {x : Access α} {P : World → Prop}
    {Q : α → World → Prop} (hx : Triple P x Q (World.PendingWith before record created)) :
    Triple P (orRollBack created x) Q (World.Pending before record) := by
  refine Triple.handle hx (fun e => ?_) fun w hw => hw.pending
  refine Triple.bind ((triple_removeStagedProfileCredentialSlots
    (I := World.PendingWith before record created) ?_).weaken (fun _ _ hw => hw)
      fun w hw => hw.pending) fun _ => Triple.raise fun w hw => hw.1.pending
  rintro r hr w ⟨j, hrecovery, huncommitted, hslots⟩
  exact ⟨j, hrecovery, huncommitted.setKeychain (hslots r hr) none, hslots⟩

/-- What the journal knows of the slots created so far. -/
def CredentialStagingAt (before : World) (record : LocalReplica)
    (providers : List String) (staging : CredentialStaging) (w : World) : Prop :=
  World.At before record staging.journal w ∧ staging.journal.providers = providers ∧
    ∀ r ∈ staging.created, r ∈ staging.journal.createdSlots

theorem triple_stageCredential {bindings : String → Option (Option String)}
    {staging : CredentialStaging} {credential : ProfileCredential} {providers : List String}
    (hfresh : before.FreshSlot .credential credential.reference) :
    Triple (CredentialStagingAt before record providers staging)
      (stageCredential bindings staging credential)
      (CredentialStagingAt before record providers) (World.Pending before record) := by
  refine Triple.of_eq fun w₀ hw₀ => ?_
  obtain ⟨hat, hproviders, hcreated⟩ := hw₀
  refine Triple.bind ((triple_orRollBack (triple_stageSlot hcreated ?_)).before ?_) fun staged => ?_
  · intro k d reference secret hd hcreates
    rcases credentialDecision_ok hd with ⟨-, hnone⟩ | ⟨-, hsome⟩
    · simp [hnone] at hcreates
    · rw [hsome] at hcreates
      rw [← (Prod.mk.inj (Option.some.inj hcreates)).1]
      exact hfresh
  · rintro w rfl
    exact hat
  obtain ⟨reference, j'⟩ := staged
  dsimp only
  refine Triple.of_eq fun w₁ hw₁ => ?_
  obtain ⟨hat', k, d, hd, hreference, hj'⟩ := hw₁
  have hproviders' : j'.providers = providers := by
    rw [show j' = _ from hj', d.providers_elim, hproviders]
  -- The slots created so far are listed in the journal, with the one that was added.
  have hcreated' : ∀ r ∈ staging.created ++ reference.toList, r ∈ j'.createdSlots := by
    intro r hr
    rw [show j' = _ from hj']
    rw [show reference = _ from hreference] at hr
    rcases credentialDecision_ok hd with ⟨hnext, hcreates⟩ | ⟨hnext, hcreates⟩
    · rw [hnext] at hr
      rw [hcreates]
      exact hcreated r (by simpa using hr)
    · rw [hnext] at hr
      rw [hcreates]
      rcases List.mem_append.mp hr with hr | hr
      · exact List.mem_append_left _ (hcreated r hr)
      · exact List.mem_append_right _ (by simpa using hr)
  refine Triple.bind (triple_orRollBack (Triple.ofExcept
    (Q := fun _ w => w = w₁) (fun _ w _ hw => hw) ?_)) fun updated => Triple.pure ?_
  · rintro w rfl
    exact hat'.pendingWith hcreated'
  · rintro w rfl
    exact ⟨hat', hproviders', hcreated'⟩

theorem triple_prepareProfileCredentials {credentials : List ProfileCredential}
    {selected : ConnectionData → String → Bool} {proxy : Option (Option String)}
    (hfresh : ∀ c ∈ credentials, before.FreshSlot .credential c.reference) :
    Triple (World.At before record j) (prepareProfileCredentials credentials selected proxy j)
      (fun staging => CredentialStagingAt before record j.providers staging)
      (World.Pending before record) := by
  refine Triple.bind (Triple.gets (Q := fun _ => World.At before record j) fun w hw => hw)
    fun data => ?_
  refine Triple.bind (Triple.ofExcept (Q := fun chosen w => (∀ c ∈ chosen, c ∈ credentials) ∧
    World.At before record j w) (fun chosen w hchosen hw => ⟨mem_of_selectedCredentials hchosen, hw⟩)
      fun w hw => hw.pending) fun chosen => Triple.assuming fun hchosen => ?_
  refine Triple.bind ((Triple.foldlM (P := fun rest staging w =>
    (∀ c ∈ rest, c ∈ credentials) ∧ CredentialStagingAt before record j.providers staging w)
      ?_ chosen _).before fun w hw => ⟨hchosen, hw, rfl, by simp⟩) fun staging => ?_
  · intro c rest staging
    refine Triple.assuming fun hrest => ?_
    refine (triple_stageCredential (hfresh c (hrest c List.mem_cons_self))).weaken ?_
      fun w hw => hw
    exact fun _ w hw => ⟨fun b hb => hrest b (List.mem_cons_of_mem c hb), hw⟩
  · refine Triple.bind (Triple.update (Q := fun _ =>
      CredentialStagingAt before record j.providers staging) ?_) fun _ => Triple.pure fun w hw => hw
    exact fun w hw => ⟨hw.2.1.setConnections staging.data, hw.2.2⟩

variable {plan : ResolvedSync}

theorem triple_prepareResolvedConfiguration :
    Triple (World.At before record j) plan.prepareResolvedConfiguration
      (fun _ => World.At before record j) (World.Pending before record) := by
  have hcut : ∀ w, World.At before record j w → World.Pending before record w :=
    fun w hw => hw.pending
  refine Triple.bind (Triple.bind (Triple.attempt (Q := fun _ => World.At before record j) hcut
    fun w hw => hw) fun _ => Triple.gets (Q := fun _ => World.At before record j)
      fun w hw => hw) fun checkpoint => ?_
  refine Triple.bind (Triple.gets (Q := fun _ => World.At before record j) fun w hw => hw)
    fun data => ?_
  refine Triple.bind (Triple.ofExcept (Q := fun _ => World.At before record j)
    (fun _ w _ hw => hw) hcut) fun next => ?_
  refine Triple.bind triple_setConnections fun _ => ?_
  refine Triple.bind (Triple.handle triple_saveConnections (fun e => ?_) hcut) fun _ =>
    Triple.pure fun w hw => hw
  refine Triple.bind (Triple.bind ((triple_covered fun w hw =>
    hw.uncommitted.files _ _ _ _).weaken (fun _ _ hw => hw) hcut) fun _ =>
      triple_setConnections) fun _ => Triple.raise hcut

theorem triple_replaceResolvedForwards :
    Triple (World.At before record j) plan.replaceResolvedForwards
      (fun _ => World.At before record j) (World.Pending before record) := by
  refine Triple.bind (Triple.gets (Q := fun opened w => opened = before.forwardStore ∧
    World.At before record j w) fun w hw => ⟨hw.forwardStore, hw⟩) fun opened =>
      Triple.assuming fun hopened => ?_
  split
  · next hopen =>
    exact (triple_covered fun w hw =>
      hw.uncommitted.setForwards (hopened.symm.trans hopen) plan.forwards).weaken
        (fun _ _ hw => hw) fun w hw => hw.pending
  · split
    · exact Triple.pure fun w hw => hw
    · exact Triple.raise fun w hw => hw.pending

theorem triple_prepareCredentials (hfresh : plan.Fresh before) :
    Triple (World.At before record j) (plan.prepareCredentials j)
      (fun r w => r.2.providers = j.providers ∧ World.At before record r.2 w)
      (World.Pending before record) := by
  unfold ResolvedSync.prepareCredentials
  split
  · refine Triple.bind (triple_preparePrivilegeSync hfresh.privilege) fun j' =>
      Triple.assuming fun hproviders => ?_
    refine Triple.bind (Triple.gets (Q := fun _ => World.At before record j') fun w hw => hw)
      fun settings => ?_
    refine Triple.bind (triple_prepareProfileCredentials hfresh.credential) fun staging => ?_
    refine Triple.bind (Triple.before (P := fun w => staging.journal.providers = j.providers ∧
      World.At before record staging.journal w) (Triple.assuming fun hstaged =>
        ((triple_covered fun w hw => hw.uncommitted.files _ _ _ _).weaken
          (fun _ w hw => (⟨hstaged, hw⟩ : staging.journal.providers = j.providers ∧
            World.At before record staging.journal w)) fun w hw => hw.pending))
      fun w hw => ⟨hw.2.1.trans hproviders, hw.1⟩) fun _ => Triple.assuming fun hstaged => ?_
    exact Triple.bind (triple_saveConnections.weaken (fun _ _ hw => hw) fun w hw => hw.pending)
      fun _ => Triple.pure fun w hw => ⟨hstaged, hw⟩
  · exact Triple.pure fun w hw => ⟨rfl, hw⟩

theorem triple_applyAuxiliary_covered {secrets : List (String × String)}
    (hlisted : ∀ p ∈ secrets, p.1 ∈ j.providers) :
    Triple (World.At before record j) (applyAuxiliary secrets)
      (fun _ => World.At before record j) (World.At before record j) := by
  refine (Triple.forM_each (D := fun _ _ => True) fun p hp done => ?_).weaken
    (fun _ w hw => hw.1) fun w hw => hw
  have hkeeps : KeepsProvider p.1 p.2 (World.At before record j) :=
    ⟨fun w hw => hw.setStores (hw.uncommitted.setProviderKey (hlisted p hp) p.2),
      fun w removed hw => hw.setStores (hw.uncommitted.setAccount (hlisted p hp) (some removed))⟩
  exact ((triple_storeProviderKey hkeeps).before fun w hw => hw.1).weaken
    (fun _ w hw => ⟨hw.1, fun _ _ => trivial⟩) fun w hw => hw

variable {Context : Type} {codec : Codec Context}

/-- The journal that is returned differs from one that leads back in the mark of the commit. -/
theorem triple_prepareCommit {next : LocalReplica} {cleanup : ConnectionCleanup}
    {credentialCleanup : Option (List String)} :
    Triple (World.At before record j)
      (j.prepareCommit codec next (some cleanup) credentialCleanup)
      (fun committed w => (committed.committed = true ∧ committed.schema = 3 ∧
        committed.connectionCleanup = some cleanup) ∧ w.replica = some next ∧
          World.Pending before record w)
      (World.Pending before record) := by
  refine Triple.bind (triple_persist_pending
    (k := { j with connectionCleanup := some cleanup, credentialCleanup }) fun s hs => ?_)
      fun _ => ?_
  · exact hs.stale j.managedStale j.privilegeStale _ _
  · refine Triple.bind ((triple_saveReplica (I := World.At before record
      { j with connectionCleanup := some cleanup, credentialCleanup }) ?_).weaken
        (fun _ _ hw => hw) fun w hw => hw.pending) fun _ => Triple.pure ?_
    · exact fun w hw => ⟨hw.forwardStore, hw.recovery, hw.uncommitted⟩
    · exact fun w hw => ⟨⟨rfl, hw.1.uncommitted.schema, rfl⟩, hw.2, hw.1.pending⟩

/-- **Until the journal is marked as committed it leads back, wherever the apply is cut off.** -/
theorem triple_prepareWrites (hfresh : plan.Fresh before) (hj : j.providers = []) :
    Triple (World.At before record j) (plan.prepareWrites codec j)
      (fun committed w => (committed.committed = true ∧ committed.schema = 3 ∧
        committed.connectionCleanup.isSome) ∧ w.replica = some plan.next ∧
          World.Pending before record w)
      (World.Pending before record) := by
  have hcut {j : RecoveryJournal} : ∀ w, World.At before record j w →
      World.Pending before record w := fun w hw => hw.pending
  refine Triple.bind (triple_checkpointAuxiliary hj) fun j₁ => Triple.assuming fun hlisted => ?_
  refine Triple.bind ((Triple.foldlM (P := fun rest j' w => (j'.providers = j₁.providers ∧
    ∀ k ∈ rest, k ∈ plan.managed) ∧ World.At before record j' w) ?_ plan.managed j₁).before
      fun w hw => ⟨⟨rfl, fun k hk => hk⟩, hw⟩) fun j₂ => Triple.assuming fun hj₂ => ?_
  · intro k rest j'
    refine Triple.assuming fun hrest => ?_
    refine (triple_prepareManagedKeySync (hfresh.managed k (hrest.2 k List.mem_cons_self))).weaken
      ?_ fun w hw => hw
    exact fun j'' w hw => ⟨⟨hw.1.trans hrest.1, fun b hb =>
      hrest.2 b (List.mem_cons_of_mem k hb)⟩, hw.2⟩
  refine Triple.bind triple_prepareResolvedConfiguration fun cleanup => ?_
  refine Triple.bind triple_replaceResolvedForwards fun _ => ?_
  have hfiles {error : String} {f : Stores → Stores}
      (hf : ∀ s, j₂.Uncommitted before record s → j₂.Uncommitted before record (f s)) :
      Triple (World.At before record j₂) (writeStores error f)
        (fun _ => World.At before record j₂) (World.Pending before record) :=
    (triple_covered fun w hw => hf w.stores hw.uncommitted).weaken (fun _ _ hw => hw) hcut
  refine Triple.bind (hfiles fun s hs => hs.files _ _ _ _) fun _ => ?_
  refine Triple.bind (hfiles fun s hs => hs.files _ _ _ _) fun _ => ?_
  refine Triple.bind (hfiles fun s hs => hs.files _ _ _ _) fun _ => ?_
  refine Triple.bind (triple_prepareCredentials hfresh) fun r => ?_
  obtain ⟨credentialCleanup, j₃⟩ := r
  refine Triple.assuming fun hj₃ => ?_
  have hstill : ∀ p ∈ plan.auxiliary, p.1 ∈ j₃.providers := fun p hp => by
    rw [show j₃.providers = _ from hj₃, hj₂.1]
    exact hlisted p hp
  refine Triple.bind ((triple_applyAuxiliary_covered hstill).weaken (fun _ _ hw => hw) hcut)
    fun _ => triple_prepareCommit.weaken ?_ fun w hw => hw
  exact fun committed w hw => ⟨⟨hw.1.1, hw.1.2.1, by simp [hw.1.2.2]⟩, hw.2⟩

end Access

end OxideTerm.CloudSync
