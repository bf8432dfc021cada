import OxideTerm.CloudSync.Uncommitted

/-!
# Getting back

Recovery from a journal that is not marked as committed.
-/

namespace OxideTerm.CloudSync

open OxideTerm.Lib Procedure Access

/-- **The stores are as before.** A managed key that the plan created may be left where the key
store refused to delete it. -/
structure World.Restored (before w : World) : Prop where
  connections : w.stores.connections = before.stores.connections
  forwards : w.stores.forwards = before.stores.forwards
  settings : w.stores.settings = before.stores.settings
  commands : w.stores.commands = before.stores.commands
  plugins : w.stores.plugins = before.stores.plugins
  providerKeys : w.stores.providerKeys = before.stores.providerKeys
  accounts : w.stores.accounts = before.stores.accounts
  keychain : w.stores.keychain = before.stores.keychain
  privilegeKeychain : w.stores.privilegeKeychain = before.stores.privilegeKeychain
  managedFiles : w.stores.managedFiles = before.stores.managedFiles
  managedKeychain : ∀ r, w.stores.managedKeychain r = before.stores.managedKeychain r ∨
    before.stores.managedKeychain r = none ∧ r ∈ w.refusals

/-- The files are as before, and so are the connections in memory. -/
structure World.FilesRestored (before w : World) : Prop where
  connections : w.stores.connections = before.stores.connections
  memory : w.connections = before.connections
  forwards : w.stores.forwards = before.stores.forwards
  settings : w.stores.settings = before.stores.settings
  commands : w.stores.commands = before.stores.commands
  plugins : w.stores.plugins = before.stores.plugins
  providerKeys : w.stores.providerKeys = before.stores.providerKeys
  accounts : w.stores.accounts = before.stores.accounts

variable {before : World} {record : LocalReplica} {j : RecoveryJournal}

/-- This journal is on the disk, and leads back. -/
def World.Held (before : World) (record : LocalReplica) (j : RecoveryJournal) (w : World) : Prop :=
  w.recovery = some j ∧ j.Uncommitted before record w.stores

theorem World.Held.pending {w : World} (h : World.Held before record j w) :
    World.Pending before record w := ⟨j, h⟩

theorem World.Held.setStores {w : World} (h : World.Held before record j w) {f : Stores → Stores}
    (hf : j.Uncommitted before record (f w.stores)) : World.Held before record j (w.setStores f) :=
  ⟨h.1, hf⟩

namespace Access

/-- One file is restored, whatever else was. -/
theorem triple_restoreFile {error : String} {f : Stores → Stores} {P Q : World → Prop}
    (hP : ∀ w, P w → World.Held before record j w)
    (hf : ∀ s, j.Uncommitted before record s → j.Uncommitted before record (f s))
    (hQ : ∀ w, P w → World.Held before record j (w.setStores f) → Q (w.setStores f)) :
    Triple P (writeStores error f) (fun _ => Q) (World.Pending before record) := by
  have hheld : ∀ w, P w → World.Held before record j (w.setStores f) := fun w hw =>
    (hP w hw).setStores (hf w.stores (hP w hw).2)
  exact triple_writeStores (fun w hw => hQ w hw (hheld w hw)) (fun w hw => (hP w hw).pending)
    fun w hw => (hheld w hw).pending

theorem triple_restoreAuxiliary :
    Triple (World.Held before record j) (restoreAuxiliary j.auxiliaryBefore)
      (fun _ w => World.Held before record j w ∧
        w.stores.providerKeys = before.stores.providerKeys ∧
        w.stores.accounts = before.stores.accounts) (World.Pending before record) := by
  unfold restoreAuxiliary
  split
  · next hempty =>
    have hproviders : j.providers = [] := by rw [RecoveryJournal.providers, hempty]; rfl
    exact Triple.pure fun w hw => ⟨hw, funext fun id => hw.2.keysKept id (by simp [hproviders]),
      funext fun id => hw.2.accountsKept id (by simp [hproviders])⟩
  · refine Triple.of_eq fun w₀ hw₀ => ?_
    have hlisted : ∀ p ∈ j.auxiliaryBefore.secrets, p.1 ∈ j.providers := fun p hp =>
      List.mem_map_of_mem hp
    refine Triple.bind (((triple_applyAuxiliary (I := World.Held before record j) hw₀.2.keys
      fun p hp => ⟨?_, ?_⟩).before ?_).weaken (fun _ w hw => ?_) fun w hw => hw.pending)
        (R := fun _ w => World.Held before record j w ∧
          w.stores.providerKeys = before.stores.providerKeys ∧
          w.stores.accounts = before.stores.accounts)
        (Q := fun _ w => World.Held before record j w ∧
          w.stores.providerKeys = before.stores.providerKeys) fun _ => ?_
    · exact fun w hw => hw.setStores (hw.2.setProviderKey (hlisted p hp) p.2)
    · exact fun w removed hw => hw.setStores (hw.2.setAccount (hlisted p hp) (some removed))
    · rintro w rfl
      exact hw₀
    · refine ⟨hw.1, funext fun id => ?_⟩
      by_cases hid : id ∈ j.providers
      · obtain ⟨p, hp, rfl⟩ := List.mem_map.mp hid
        exact hw.2 p hp
      · exact hw.1.2.keysKept id hid
    · refine Triple.bind (Triple.attempt (Q := fun _ w => World.Held before record j w ∧
        w.stores.providerKeys = before.stores.providerKeys) (fun w hw => hw.1.pending)
          fun w hw => hw) fun _ => ?_
      refine Triple.of_eq fun w₁ hw₁ => ?_
      have haccounts : restoredAccounts w₁.stores.accounts j.auxiliaryBefore.inventory =
          before.stores.accounts := by
        funext id
        rw [restoredAccounts_eq _ hw₁.1.2.inventory]
        split
        · rfl
        · next hid =>
          exact hw₁.1.2.accountsKept id (by rwa [hw₁.1.2.inventoried] at hid)
      have hheld : World.Held before record j (w₁.setStores fun s =>
          { s with accounts := restoredAccounts s.accounts j.auxiliaryBefore.inventory }) :=
        hw₁.1.setStores { hw₁.1.2 with accountsKept := fun id _ => congrFun haccounts id }
      refine triple_writeStores ?_ ?_ ?_
      · rintro w rfl
        exact ⟨hheld, hw₁.2, haccounts⟩
      · rintro w rfl
        exact hw₁.1.pending
      · rintro w rfl
        exact hheld.pending

/-- The files and the connections in memory are put back. -/
theorem triple_restoreFiles :
    Triple (World.Held before record j) j.restoreFiles
      (fun _ w => World.Held before record j w ∧ World.FilesRestored before w)
      (World.Pending before record) := by
  refine Triple.bind triple_restoreAuxiliary fun _ => ?_
  refine Triple.bind (Triple.bind (triple_restoreFile (Q := fun w => World.Held before record j w ∧
    w.stores.providerKeys = before.stores.providerKeys ∧
    w.stores.accounts = before.stores.accounts ∧ w.stores.connections = before.stores.connections)
      (fun w hw => hw.1) (fun s hs => hs.files _ _ _ _) ?_) fun _ => Triple.update
        (Q := fun _ w => World.Held before record j w ∧
          w.stores.providerKeys = before.stores.providerKeys ∧
          w.stores.accounts = before.stores.accounts ∧
          w.stores.connections = before.stores.connections ∧
          w.connections = before.connections) ?_) fun _ => ?_
  · rintro w ⟨hw, hkeys, haccounts⟩ hheld
    refine ⟨hheld, hkeys, haccounts, ?_⟩
    show j.connections.originalFile = before.stores.connections
    rw [hw.2.connections]
  · rintro w ⟨hw, hkeys, haccounts, hfile⟩
    refine ⟨hw, hkeys, haccounts, hfile, ?_⟩
    show j.connections.originalData = before.connections
    rw [hw.2.connections]
  refine Triple.bind (triple_restoreFile (Q := fun w => World.Held before record j w ∧
    w.stores.providerKeys = before.stores.providerKeys ∧
    w.stores.accounts = before.stores.accounts ∧
    w.stores.connections = before.stores.connections ∧ w.connections = before.connections ∧
    w.stores.settings = before.stores.settings) (fun w hw => hw.1)
      (fun s hs => hs.files _ _ _ _) ?_) fun _ => ?_
  · rintro w ⟨hw, hkeys, haccounts, hfile, hmemory⟩ hheld
    exact ⟨hheld, hkeys, haccounts, hfile, hmemory, hw.2.settings⟩
  -- The forwards are written only if they were when the journal was begun.
  have hforwards : Triple (fun w => World.Held before record j w ∧
      w.stores.providerKeys = before.stores.providerKeys ∧
      w.stores.accounts = before.stores.accounts ∧
      w.stores.connections = before.stores.connections ∧ w.connections = before.connections ∧
      w.stores.settings = before.stores.settings)
      (j.forwards.forM fun forwards =>
        writeStores "failed to restore saved forwards" fun s => { s with forwards })
      (fun _ w => World.Held before record j w ∧
        w.stores.providerKeys = before.stores.providerKeys ∧
        w.stores.accounts = before.stores.accounts ∧
        w.stores.connections = before.stores.connections ∧ w.connections = before.connections ∧
        w.stores.settings = before.stores.settings ∧ w.stores.forwards = before.stores.forwards)
      (World.Pending before record) := by
    refine Triple.of_eq fun w₀ hw₀ => ?_
    obtain ⟨hw, hkeys, haccounts, hfile, hmemory, hsettings⟩ := hw₀
    have hkept := hw.2.forwardsKept
    have hcopy := hw.2.forwards
    cases hopened : before.forwardStore with
    | false =>
      simp only [hopened, Bool.false_eq_true, if_false] at hcopy
      rw [hcopy]
      refine Triple.pure ?_
      rintro w rfl
      exact ⟨hw, hkeys, haccounts, hfile, hmemory, hsettings, hkept hopened⟩
    | true =>
      simp only [hopened, if_true] at hcopy
      rw [hcopy]
      refine @triple_restoreFile before record j _ _ (fun w => w = w₀) _ ?_
        (fun s hs => hs.setForwards hopened _) ?_
      · rintro w rfl
        exact hw
      · rintro w rfl hheld
        exact ⟨hheld, hkeys, haccounts, hfile, hmemory, hsettings, rfl⟩
  refine Triple.bind hforwards fun _ => ?_
  refine Triple.bind (triple_restoreFile (Q := fun w => World.Held before record j w ∧
    w.stores.providerKeys = before.stores.providerKeys ∧
    w.stores.accounts = before.stores.accounts ∧
    w.stores.connections = before.stores.connections ∧ w.connections = before.connections ∧
    w.stores.settings = before.stores.settings ∧ w.stores.forwards = before.stores.forwards ∧
    w.stores.commands = before.stores.commands) (fun w hw => hw.1)
      (fun s hs => hs.files _ _ _ _) ?_) fun _ => ?_
  · rintro w ⟨hw, hkeys, haccounts, hfile, hmemory, hsettings, hforwards⟩ hheld
    exact ⟨hheld, hkeys, haccounts, hfile, hmemory, hsettings, hforwards, hw.2.commands⟩
  · refine triple_restoreFile (fun w hw => hw.1) (fun s hs => hs.files _ _ _ _) ?_
    rintro w ⟨hw, hkeys, haccounts, hfile, hmemory, hsettings, hforwards, hcommands⟩ hheld
    exact ⟨hheld, hfile, hmemory, hforwards, hsettings, hcommands, hw.2.plugins, hkeys, haccounts⟩

/-- **Recovery before the commit puts everything back.** -/
theorem triple_restoreUncommitted {Context : Type} {codec : Codec Context} :
    Triple (World.Held before record j) (j.restoreUncommitted codec)
      (fun _ w => World.Restored before w ∧ w.replica = some record ∧
        World.Pending before record w) (World.Pending before record) := by
  have hcut : ∀ w, World.Held before record j w ∧ World.FilesRestored before w →
      World.Pending before record w := fun w hw => hw.1.pending
  refine Triple.bind triple_restoreFiles fun _ => ?_
  refine Triple.bind ((triple_removeStagedProfileCredentialSlots (I := fun w =>
    World.Held before record j w ∧ World.FilesRestored before w) ?_).weaken (fun _ _ hw => hw) hcut)
      fun _ => ?_
  · exact fun r hr w hw => ⟨hw.1.setStores (hw.1.2.setKeychain hr none), { hw.2 with }⟩
  refine Triple.bind ((triple_removeSyncedManagedKeySlots (I := fun w =>
    (World.Held before record j w ∧ World.FilesRestored before w) ∧
      ∀ r ∈ j.createdSlots, w.stores.keychain r = none) ⟨?_, ?_, ?_⟩).weaken
        (fun _ _ hw => hw) fun w hw => hcut w hw.1) fun _ => ?_
  · exact fun r hr w _ hw => ⟨⟨hw.1.1.setStores (hw.1.1.2.setManagedKeychain hr none),
      { hw.1.2 with }⟩, hw.2⟩
  · exact fun r hr w _ hw => ⟨⟨hw.1.1.setStores (hw.1.1.2.setManagedFile hr none),
      { hw.1.2 with }⟩, hw.2⟩
  · exact fun r hr w _ hw => ⟨⟨hw.1.1, { hw.1.2 with }⟩, hw.2⟩
  refine Triple.bind ((triple_removeSyncedPrivilegeSlots (I := fun w =>
    ((World.Held before record j w ∧ World.FilesRestored before w) ∧
      ∀ r ∈ j.createdSlots, w.stores.keychain r = none) ∧
      ∀ r ∈ j.managedCreated, r ∈ w.connections.managedSlots ∨ w.ManagedDeleted r) ?_).weaken
        (fun _ _ hw => hw) fun w hw => hcut w hw.1.1) fun _ => ?_
  · exact fun r hr w _ hw => ⟨⟨⟨hw.1.1.1.setStores (hw.1.1.1.2.setPrivilegeKeychain hr none),
      { hw.1.1.2 with }⟩, hw.1.2⟩, hw.2⟩
  refine Triple.of_eq fun w₀ hw₀ => ?_
  obtain ⟨⟨⟨⟨hheld, hfiles⟩, hcredentials⟩, hmanaged⟩, hprivileges⟩ := hw₀
  -- Nothing that there was before refers to a slot that the plan created.
  have hrestored : World.Restored before w₀ :=
    { hfiles with
      keychain := by
        funext r
        by_cases hr : r ∈ j.createdSlots
        · rw [hcredentials r hr]
          exact (hheld.2.fresh .credential r hr).symm
        · exact hheld.2.keychain r hr
      privilegeKeychain := by
        funext r
        by_cases hr : r ∈ j.privilegeCreated
        · obtain ⟨hnone, hunused⟩ := hheld.2.fresh .privilege r hr
          rw [hnone]
          exact (hprivileges r hr).resolve_left (by rwa [hfiles.memory])
        · exact hheld.2.privilegeKeychain r hr
      managedFiles := by
        funext r
        by_cases hr : r ∈ j.managedCreated
        · obtain ⟨-, hnone, hunused⟩ := hheld.2.fresh .managedKey r hr
          rw [hnone]
          exact ((hmanaged r hr).resolve_left (by rwa [hfiles.memory])).1
        · exact hheld.2.managedFiles r hr
      managedKeychain := by
        intro r
        by_cases hr : r ∈ j.managedCreated
        · obtain ⟨hnone, -, hunused⟩ := hheld.2.fresh .managedKey r hr
          rcases ((hmanaged r hr).resolve_left (by rwa [hfiles.memory])).2 with hgone | hrefused
          · exact Or.inl (hgone.trans hnone.symm)
          · exact Or.inr ⟨hnone, hrefused⟩
        · exact Or.inl (hheld.2.managedKeychain r hr) }
  have hreplica := hheld.2.replica
  refine (((triple_saveReplica (I := fun w => World.Restored before w ∧
    World.Pending before record w) ?_).before ?_).weaken ?_ fun w hw => hw.2)
  · exact fun w hw => ⟨{ hw.1 with }, hw.2⟩
  · rintro w rfl
    exact ⟨hrestored, hheld.pending⟩
  · exact fun _ w hw => ⟨hw.1.1, by rw [← hreplica]; exact hw.2, hw.1.2⟩

end Access

end OxideTerm.CloudSync
