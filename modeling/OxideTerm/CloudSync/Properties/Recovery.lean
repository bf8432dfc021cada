import OxideTerm.CloudSync.Finishing
import OxideTerm.CloudSync.Reference
import OxideTerm.CloudSync.Restoring

/-!
# All or nothing

However often an apply and its recovery are cut off, once there is nothing left to recover the
stores are as before, or as they were committed and without what is no longer used.
-/

namespace OxideTerm.CloudSync

open OxideTerm.Lib Procedure Access

variable {Context : Type} {codec : Codec Context} {plan : ResolvedSync} {before : World}
  {os : List WriteOutcome} {j : RecoveryJournal} {c : World}

/-! ## The commit -/

/-- The connections are in their file. -/
def World.Saved (w : World) : Prop := w.stores.connections = some w.connections

namespace Access

theorem triple_keepsSaved {error : String} {f : Stores → Stores}
    (hf : ∀ s, (f s).connections = s.connections) :
    Triple World.Saved (writeStores error f) (fun _ => World.Saved) (fun _ => True) := by
  refine triple_writeStores ?_ (fun _ _ => trivial) fun _ _ => trivial
  intro w hw
  exact (hf w.stores).trans hw

theorem triple_savesConnections {P : World → Prop} :
    Triple P saveConnections (fun _ => World.Saved) (fun _ => True) :=
  Triple.write (fun _ _ => trivial) (fun _ _ => rfl) fun _ _ => trivial

theorem triple_prepareCredentials_saved :
    Triple World.Saved (plan.prepareCredentials j) (fun _ => World.Saved) (fun _ => True) := by
  unfold ResolvedSync.prepareCredentials
  split
  · refine Triple.bind Triple.any fun j₁ => ?_
    refine Triple.bind Triple.any fun settings => ?_
    refine Triple.bind Triple.any fun staging => ?_
    refine Triple.bind Triple.any fun _ => ?_
    exact Triple.bind triple_savesConnections fun _ => Triple.pure fun w hw => hw
  · exact Triple.pure fun w hw => hw

theorem triple_prepareCommit_saved {next : LocalReplica} {cleanup : Option ConnectionCleanup}
    {credentialCleanup : Option (List String)} :
    Triple World.Saved (j.prepareCommit codec next cleanup credentialCleanup)
      (fun _ => World.Saved) (fun _ => True) := by
  refine Triple.bind (Triple.write (Q := fun _ => World.Saved) (fun _ _ => trivial)
    (fun w hw => hw) fun _ _ => trivial) fun _ => ?_
  refine Triple.bind ((triple_saveReplica (I := World.Saved) fun w hw => hw).weaken
    (fun _ w hw => hw.1) fun _ _ => trivial) fun _ => ?_
  exact Triple.pure fun w hw => hw

/-- The connections are saved with the configuration, and again after their slots were staged. -/
theorem triple_prepareWrites_saved {P : World → Prop} :
    Triple P (plan.prepareWrites codec j) (fun _ => World.Saved) (fun _ => True) := by
  refine Triple.bind Triple.any fun j₁ => ?_
  refine Triple.bind Triple.any fun j₂ => ?_
  have hconfiguration {P : World → Prop} : Triple P plan.prepareResolvedConfiguration
      (fun _ => World.Saved) (fun _ => True) := by
    refine Triple.bind Triple.any fun checkpoint => ?_
    refine Triple.bind Triple.any fun data => ?_
    refine Triple.bind Triple.any fun next => ?_
    refine Triple.bind Triple.any fun _ => ?_
    refine Triple.bind (Triple.handle triple_savesConnections (fun e => ?_) fun w hw => hw)
      fun _ => Triple.pure fun w hw => hw
    exact Triple.bind Triple.any fun _ => Triple.raise fun w hw => hw
  refine Triple.bind hconfiguration fun cleanup => ?_
  have hforwards : Triple World.Saved plan.replaceResolvedForwards
      (fun _ => World.Saved) (fun _ => True) := by
    refine Triple.bind (Triple.gets (Q := fun _ => World.Saved) fun w hw => hw) fun opened => ?_
    split
    · exact triple_keepsSaved fun s => rfl
    · split
      · exact Triple.pure fun w hw => hw
      · exact Triple.raise fun _ _ => trivial
  refine Triple.bind hforwards fun _ => ?_
  refine Triple.bind (triple_keepsSaved fun s => rfl) fun _ => ?_
  refine Triple.bind (triple_keepsSaved fun s => rfl) fun _ => ?_
  refine Triple.bind (triple_keepsSaved fun s => rfl) fun _ => ?_
  refine Triple.bind triple_prepareCredentials_saved fun staged => ?_
  have hauxiliary : Triple World.Saved (applyAuxiliary plan.auxiliary)
      (fun _ => World.Saved) (fun _ => True) := by
    refine (Triple.forM_each (I := World.Saved) (D := fun _ _ => True) (E := World.Saved)
      fun p hp done => ?_).weaken (fun _ w hw => hw.1) fun _ _ => trivial
    have hkeeps : KeepsProvider p.1 p.2 World.Saved :=
      ⟨fun w hw => hw, fun w removed hw => hw⟩
    exact ((triple_storeProviderKey hkeeps).before fun w hw => hw.1).weaken
      (fun _ w hw => ⟨hw.1, fun _ _ => trivial⟩) fun w hw => hw
  exact Triple.bind hauxiliary fun _ => triple_prepareCommit_saved

end Access

/-- The apply up to the write that commits. -/
def ResolvedSync.written (codec : Codec Context) (plan : ResolvedSync) : Access RecoveryJournal := do
  let journal ← RecoveryJournal.begin plan.localReplica
  plan.prepareWrites codec journal

/-- On this schedule everything is written, and only the write that commits is left. -/
def ResolvedSync.Writes (codec : Codec Context) (plan : ResolvedSync) (before : World)
    (os : List WriteOutcome) (j : RecoveryJournal) (c : World) : Prop :=
  ∃ rest, plan.written codec before os = (.returned j, c, rest)

/-- What is known when everything is written. -/
structure RecoveryJournal.Ready (j : RecoveryJournal) (plan : ResolvedSync) (before c : World) :
    Prop where
  committed : j.committed = true
  schema : j.schema = 3
  cleanup : j.connectionCleanup.isSome
  replica : c.replica = some plan.next
  pending : World.Pending before plan.localReplica c
  saved : c.Saved

theorem Access.triple_written (hfresh : plan.Fresh before) (hnone : before.recovery = none) :
    Triple (fun w => w = before) (plan.written codec) (fun j c => j.Ready plan before c)
      (fun w => w = before ∨ World.Pending before plan.localReplica w) := by
  refine Triple.bind (triple_begin hnone) fun j => Triple.assuming fun hj => ?_
  have hleads := @triple_prepareWrites before plan.localReplica j plan _ codec hfresh hj
  refine ((hleads.and triple_prepareWrites_saved).before fun w hw => ⟨hw, hw⟩).weaken ?_ ?_
  · rintro j w ⟨⟨⟨hcommitted, hschema, hcleanup⟩, hreplica, hpending⟩, hsaved⟩
    exact ⟨hcommitted, hschema, hcleanup, hreplica, hpending, hsaved⟩
  · exact fun w hw => Or.inr hw.1

theorem ResolvedSync.Writes.ready (h : plan.Writes codec before os j c) (hfresh : plan.Fresh before)
    (hnone : before.recovery = none) : j.Ready plan before c := by
  obtain ⟨rest, hrun⟩ := h
  have hwritten := @triple_written _ codec plan before hfresh hnone
  have hready := hwritten.returned rfl (congrArg Prod.fst hrun)
  rwa [Procedure.after, hrun] at hready

/-- Right after the commit nothing is deleted yet. -/
theorem Finishing.of_commit (hsaved : c.Saved) :
    Finishing j c { c with recovery := some j } := by
  have hqueued : QueuedFrom j c.connections c.stores.keychain c.stores.privilegeKeychain
      c.connections :=
    { same := rfl
      credentials := fun r hr => List.mem_append_left _ (List.mem_append_right _ hr)
      privileges := fun r hr => List.mem_append_right _ hr
      credentialsKept := fun r hr => Or.inl hr
      privilegesKept := fun r hr _ => Or.inl hr }
  exact
    { recovery := rfl
      replica := rfl
      file := ⟨c.connections, hsaved, hqueued⟩
      memory := hqueued
      forwards := rfl
      settings := rfl
      commands := rfl
      plugins := rfl
      providerKeys := rfl
      accounts := rfl
      keychain := fun r => Or.inl rfl
      privilegeKeychain := fun r => Or.inl rfl
      managed := fun r _ => rfl }

/-! ## Stages -/

/-- **The stages that an apply goes through,** and recovery after it. -/
inductive ResolvedSync.Stage (codec : Codec Context) (plan : ResolvedSync) (before : World)
    (os : List WriteOutcome) : World → Prop
  | unstarted {w : World} (hrecovery : w.recovery = none) (hstores : w.stores = before.stores)
      (hreplica : w.replica = before.replica) : Stage codec plan before os w
  | uncommitted {w : World} (h : World.Pending before plan.localReplica w) :
      Stage codec plan before os w
  | restored {w : World} (hrecovery : w.recovery = none) (h : World.Restored before w)
      (hreplica : w.replica = some plan.localReplica) : Stage codec plan before os w
  | committed {w : World} {j : RecoveryJournal} {c : World}
      (hwrites : plan.Writes codec before os j c) (h : Finishing j c w) :
      Stage codec plan before os w
  | settled {w : World} {j : RecoveryJournal} {c : World} (hrecovery : w.recovery = none)
      (hwrites : plan.Writes codec before os j c) (h : Settled j c w) :
      Stage codec plan before os w

namespace Access

theorem triple_readRecovery {w₀ : World} :
    Triple (fun w => w = w₀) readRecovery (fun pending w => pending = w₀.recovery ∧ w = w₀)
      (fun w => w = w₀) := by
  refine Triple.bind (Triple.attempt (Q := fun _ w => w = w₀) (fun w hw => hw) fun w hw => hw)
    fun _ => Triple.gets ?_
  rintro w rfl
  exact ⟨rfl, rfl⟩

/-- Without a journal nothing is done. -/
theorem triple_recover_none {w₀ : World} (hnone : w₀.recovery = none) :
    Triple (fun w => w = w₀) (RecoveryJournal.recover codec) (fun _ w => w = w₀)
      (fun w => w = w₀) := by
  refine Triple.bind triple_readRecovery fun pending => Triple.assuming ?_
  rintro rfl
  rw [hnone]
  exact Triple.pure fun w hw => hw

/-- What clearing the journal completes. -/
theorem triple_clearRecovery {P I : World → Prop} (hcut : ∀ w, P w → I w)
    (hclear : ∀ w, P w → I { w with recovery := none }) :
    Triple P (do clearRecovery; pure true) (fun _ w => I w ∧ w.recovery = none) I := by
  refine Triple.bind (Triple.write (Q := fun _ w => I w ∧ w.recovery = none) hcut ?_ hclear)
    fun _ => Triple.pure fun w hw => hw
  exact fun w hw => ⟨hclear w hw, rfl⟩

/-- **Recovery leads from stage to stage,** and where it returns there is no journal any more. -/
theorem triple_recover (hfresh : plan.Fresh before) (hnone : before.recovery = none) :
    Triple (plan.Stage codec before os) (RecoveryJournal.recover codec)
      (fun _ w => plan.Stage codec before os w ∧ w.recovery = none)
      (plan.Stage codec before os) := by
  refine Triple.of_eq fun w₀ hw₀ => ?_
  -- Without a journal the stage is the same afterwards.
  have hdone (hrecovery : w₀.recovery = none) : Triple (fun w => w = w₀)
      (RecoveryJournal.recover codec) (fun _ w => plan.Stage codec before os w ∧ w.recovery = none)
      (plan.Stage codec before os) := by
    refine (triple_recover_none hrecovery).weaken ?_ ?_
    · rintro _ w rfl
      exact ⟨hw₀, hrecovery⟩
    · rintro w rfl
      exact hw₀
  have hread {j : RecoveryJournal} (hrecovery : w₀.recovery = some j) (hschema : j.schema = 3)
      (h : Triple (fun w => w = w₀)
        (if j.committed then do j.finishCommitted; clearRecovery; pure true
          else do j.restoreUncommitted codec; clearRecovery; pure true)
        (fun _ w => plan.Stage codec before os w ∧ w.recovery = none)
        (plan.Stage codec before os)) : Triple (fun w => w = w₀)
      (RecoveryJournal.recover codec) (fun _ w => plan.Stage codec before os w ∧ w.recovery = none)
      (plan.Stage codec before os) := by
    refine Triple.bind (triple_readRecovery.weaken (fun _ _ hw => hw) ?_) fun pending =>
      Triple.assuming ?_
    · rintro w rfl
      exact hw₀
    · rintro rfl
      rw [hrecovery]
      dsimp only
      rw [if_neg (not_not.mpr hschema)]
      exact h
  cases hw₀ with
  | unstarted hrecovery hstores hreplica => exact hdone hrecovery
  | restored hrecovery h hreplica => exact hdone hrecovery
  | settled hrecovery hwrites h => exact hdone hrecovery
  | uncommitted h =>
    obtain ⟨j, hrecovery, hj⟩ := h
    refine hread hrecovery hj.schema ?_
    rw [hj.committed, if_neg Bool.false_ne_true]
    refine Triple.bind ((triple_restoreUncommitted.before ?_).weaken (fun _ _ hw => hw)
      fun w hw => .uncommitted hw) fun _ => triple_clearRecovery ?_ ?_
    · rintro w rfl
      exact ⟨hrecovery, hj⟩
    · exact fun w hw => .uncommitted hw.2.2
    · exact fun w hw => .restored rfl { hw.1 with } hw.2.1
  | committed hwrites h =>
    rename_i j c
    have hready := hwrites.ready hfresh hnone
    refine hread h.recovery hready.schema ?_
    rw [if_pos hready.committed]
    refine Triple.bind (((triple_finishCommitted hready.cleanup).before ?_).weaken
      (fun _ _ hw => hw) fun w hw => .committed hwrites hw) fun _ => triple_clearRecovery ?_ ?_
    · rintro w rfl
      exact h
    · exact fun w hw => .committed hwrites hw.1
    · exact fun w hw => .settled rfl hwrites { hw.2 with }

end Access

namespace ResolvedSync

/-- An apply ends at one of the stages, however it ends. -/
theorem stage_apply (hfresh : plan.Fresh before) (hnone : before.recovery = none) :
    plan.Stage codec before os ((plan.apply codec).after before os) := by
  have hunstarted : ∀ w, w = before ∨ World.Pending before plan.localReplica w →
      plan.Stage codec before os w := by
    rintro w (rfl | hpending)
    · exact .unstarted hnone rfl rfl
    · exact .uncommitted hpending
  have hrecover := @triple_recover _ codec plan before os hfresh hnone
  have hlast : Triple (plan.Stage codec before os)
      (do let _ ← fails (do let _ ← RecoveryJournal.recover codec))
      (fun _ => plan.Stage codec before os) (plan.Stage codec before os) := by
    refine Triple.bind (triple_fails ((Triple.bind hrecover fun _ => Triple.pure
      (Q := fun _ => plan.Stage codec before os) fun w hw => hw.1))) fun refused => Triple.pure ?_
    intro w hw
    split at hw <;> exact hw
  have hhandler (e : String) : Triple (plan.Stage codec before os)
      (do let _ ← RecoveryJournal.recover codec; raise e : Access Unit)
      (fun _ => plan.Stage codec before os) (plan.Stage codec before os) :=
    Triple.bind hrecover fun _ => Triple.raise fun w hw => hw.1
  refine Procedure.after_bind (fun _ => ?_) fun j₀ w₀ os₀ hbegin => ?_
  · exact (triple_begin hnone).after_of (fun _ w hw => hunstarted w (Or.inr hw.2.pending))
      hunstarted rfl
  have hstart := (triple_begin hnone).returned rfl (congrArg Prod.fst hbegin)
  rw [Procedure.after, hbegin] at hstart
  obtain ⟨hproviders, hat⟩ := hstart
  have hwrites := @triple_prepareWrites before plan.localReplica j₀ plan _ codec hfresh hproviders
  refine Procedure.after_handle_bind ?_ ?_ ?_
  · exact hwrites.after_of (fun _ w hw => .uncommitted hw.2.2) (fun w hw => .uncommitted hw) hat
  · -- The handler recovers from where the error was raised.
    intro e w₁ os₁ hrun
    have hpending := hwrites w₀ os₀ hat
    rw [hrun] at hpending
    exact (Triple.bind (hhandler e) fun _ => hlast).after_of (fun _ w hw => hw) (fun w hw => hw)
      (.uncommitted hpending)
  · -- The journal that is marked as committed may be on the disk or not.
    intro j c os₁ hrun
    have hreached : plan.Writes codec before os j c :=
      ⟨os₁, (Procedure.bind_of_returned hbegin).trans hrun⟩
    have hready := hreached.ready hfresh hnone
    have hcommit : Triple (fun w => w = c) (persist j) (fun _ => plan.Stage codec before os)
        (plan.Stage codec before os) := by
      refine Triple.write ?_ ?_ ?_
      · rintro w rfl
        exact .uncommitted hready.pending
      · rintro w rfl
        exact .committed hreached (.of_commit hready.saved)
      · rintro w rfl
        exact .committed hreached (.of_commit hready.saved)
    exact (Triple.bind (Triple.handle hcommit hhandler fun w hw => hw) fun _ => hlast).after_of
      (fun _ w hw => hw) (fun w hw => hw) rfl

theorem Stage.reload {w : World} (h : plan.Stage codec before os w) :
    plan.Stage codec before os w.reload := by
  cases h with
  | unstarted hrecovery hstores hreplica => exact .unstarted hrecovery hstores hreplica
  | uncommitted h => exact .uncommitted h
  | restored hrecovery h hreplica => exact .restored hrecovery { h with } hreplica
  | committed hwrites h => exact .committed hwrites h.reload
  | settled hrecovery hwrites h => exact .settled hrecovery hwrites { h with }

/-- Every attempt to recover ends at one of the stages. -/
theorem Stage.restarted (hfresh : plan.Fresh before) (hnone : before.recovery = none) :
    (restarts : List Restart) → {w : World} → plan.Stage codec before os w →
    plan.Stage codec before os (w.restarted codec restarts)
  | [], _, h => h
  | r :: restarts, w, h => by
    have hattempt : plan.Stage codec before os ((recoverPending codec r.reloads).after w r.outcomes) := by
      refine (Triple.bind (Triple.update (Q := fun _ => plan.Stage codec before os) ?_) fun _ =>
        triple_recover hfresh hnone).after_of (fun _ w hw => hw.1) (fun w hw => hw) h
      intro w hw
      split
      · exact hw.reload
      · exact hw
    exact Stage.restarted hfresh hnone restarts hattempt

/-- What is left of an apply and the attempts to recover. -/
def recovered (codec : Codec Context) (plan : ResolvedSync) (before : World)
    (os : List WriteOutcome) (restarts : List Restart) : World :=
  ((plan.apply codec).after before os).restarted codec restarts

end ResolvedSync

/-! ## A plan that adds a key -/

namespace Reference

/-- A device without any configuration. -/
def untouched : World where
  stores :=
    { connections := none
      forwards := []
      settings := { content := "", proxy := none }
      commands := ""
      plugins := ""
      providerKeys := fun _ => ""
      accounts := fun _ => none
      keychain := fun _ => none
      managedKeychain := fun _ => none
      managedFiles := fun _ => none
      privilegeKeychain := fun _ => none }
  replica := some (.new 1)
  recovery := none
  connections := .empty
  forwardStore := true
  refusals := []

/-- A plan that adds a managed key. -/
def addsKey : ResolvedSync where
  localReplica := .new 1
  next := { LocalReplica.new 1 with nextSequence := 2 }
  auxiliary := []
  managed := [{
    metadata := { id := "key-1", secretId := "", details := "" }
    privateKey := "secret"
    problem := none
    uuid := "0" }]
  configuration := .ok
  connectionIds := []
  forwards := []
  commands := ""
  settings := { content := "", proxy := none }
  plugins := ""
  syncSensitiveCredentials := false
  privileges := []
  privilegeOwners := fun _ => []
  credentials := []
  credentialSelected := fun _ _ => false

theorem addsKey_fresh : addsKey.Fresh untouched where
  distinct := by decide
  managed k hk := by
    obtain rfl := List.mem_singleton.mp hk
    exact ⟨rfl, rfl, by decide⟩
  privilege p hp := by cases hp
  credential c hc := by cases hc

/-- The process is gone once the key is in its slot. -/
def untilKeyStored : List WriteOutcome := List.replicate 12 .written

/-- The key store refuses to delete the key when the apply is taken back. -/
def refusing : List Restart :=
  [{ reloads := true
     outcomes := List.replicate 6 .written ++ [.failed, .written, .written, .written] }]

theorem recovery_refusing :
    (addsKey.recovered Reference.codec untouched untilKeyStored refusing).recovery = none := by
  rw [← Option.isNone_iff_eq_none]
  decide +kernel

end Reference

/-! ## The statement -/

/-- **Once there is nothing left to recover, the apply has left everything or nothing,** however
often it and its recovery were cut off. -/
theorem ResolvedSync.apply_allOrNothing (hfresh : plan.Fresh before) (hnone : before.recovery = none)
    (os : List WriteOutcome) (restarts : List Restart)
    (hcleared : (plan.recovered codec before os restarts).recovery = none) :
    ((plan.recovered codec before os restarts).stores = before.stores ∧
      (plan.recovered codec before os restarts).replica = before.replica) ∨
    (World.Restored before (plan.recovered codec before os restarts) ∧
      (plan.recovered codec before os restarts).replica = some plan.localReplica) ∨
    ∃ j c, plan.Writes codec before os j c ∧ c.replica = some plan.next ∧
      Settled j c (plan.recovered codec before os restarts) := by
  have hstage : plan.Stage codec before os (plan.recovered codec before os restarts) :=
    (plan.stage_apply hfresh hnone).restarted hfresh hnone restarts
  cases hstage with
  | unstarted hrecovery hstores hreplica => exact Or.inl ⟨hstores, hreplica⟩
  | restored hrecovery h hreplica => exact Or.inr (Or.inl ⟨h, hreplica⟩)
  | settled hrecovery hwrites h =>
    exact Or.inr (Or.inr ⟨_, _, hwrites, (hwrites.ready hfresh hnone).replica, h⟩)
  | uncommitted h =>
    obtain ⟨j, hrecovery, -⟩ := h
    rw [hcleared] at hrecovery
    cases hrecovery
  | committed hwrites h =>
    rw [h.recovery] at hcleared
    cases hcleared

/-- The apply of a plan that adds a key, taken back. -/
theorem apply_allOrNothing_addsKey :
    ((Reference.addsKey.recovered Reference.codec Reference.untouched Reference.untilKeyStored
        Reference.refusing).stores = Reference.untouched.stores ∧
      (Reference.addsKey.recovered Reference.codec Reference.untouched Reference.untilKeyStored
        Reference.refusing).replica = Reference.untouched.replica) ∨
    (World.Restored Reference.untouched (Reference.addsKey.recovered Reference.codec
        Reference.untouched Reference.untilKeyStored Reference.refusing) ∧
      (Reference.addsKey.recovered Reference.codec Reference.untouched Reference.untilKeyStored
        Reference.refusing).replica = some Reference.addsKey.localReplica) ∨
    ∃ j c, Reference.addsKey.Writes Reference.codec Reference.untouched
        Reference.untilKeyStored j c ∧ c.replica = some Reference.addsKey.next ∧
      Settled j c (Reference.addsKey.recovered Reference.codec Reference.untouched
        Reference.untilKeyStored Reference.refusing) :=
  ResolvedSync.apply_allOrNothing Reference.addsKey_fresh rfl Reference.untilKeyStored
    Reference.refusing Reference.recovery_refusing

/-- The recovery is complete, and the key that was added is still in its slot; what was committed
is not there either. -/
theorem refused_deletion_leaves_key :
    (Reference.addsKey.recovered Reference.codec Reference.untouched Reference.untilKeyStored
      Reference.refusing).recovery = none ∧
    Reference.untouched.stores.managedKeychain "managed-key-sync-0" = none ∧
    (Reference.addsKey.recovered Reference.codec Reference.untouched Reference.untilKeyStored
      Reference.refusing).stores.managedKeychain "managed-key-sync-0" = some "secret" ∧
    (Reference.addsKey.recovered Reference.codec Reference.untouched Reference.untilKeyStored
      Reference.refusing).replica ≠ some Reference.addsKey.next := by
  refine ⟨Reference.recovery_refusing, rfl, ?_, ?_⟩
  · decide +kernel
  · decide +kernel

end OxideTerm.CloudSync
