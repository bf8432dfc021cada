import OxideTerm.Forwarding.Store
import OxideTerm.Lib.Fallible
import Mathlib.Data.List.Perm.Basic

/-!
# Well-formed data

No two forwards and no two tombstones have one id, and no forward has the id of a tombstone. Each
update keeps this: a forward is found under its id, and tombstones give way to forwards.
-/

namespace OxideTerm.Forwarding

open OxideTerm.Lib Keyed

/-- The ids of the forwards. -/
def SavedForwardData.ids (data : SavedForwardData) : List (List Char) := data.forwards.map (·.id)

/-- The ids of the tombstones. -/
def SavedForwardData.buried (data : SavedForwardData) : List (List Char) :=
  data.tombstones.map (·.id)

structure SavedForwardData.WellFormed (data : SavedForwardData) : Prop where
  forwards : Unique PersistedForward.id data.forwards
  tombstones : Unique DeletedPersistedForwardTombstone.id data.tombstones
  disjoint : ∀ id ∈ data.ids, id ∉ data.buried

namespace SavedForwardData

variable {data : SavedForwardData}

theorem wellFormed_default : SavedForwardData.default.WellFormed :=
  ⟨List.nodup_nil, List.nodup_nil, fun _ h => absurd h List.not_mem_nil⟩

/-- Fewer forwards and fewer tombstones are well formed. -/
theorem WellFormed.filter (h : data.WellFormed) (p : PersistedForward → Bool)
    (q : DeletedPersistedForwardTombstone → Bool) :
    WellFormed { forwards := data.forwards.filter p, tombstones := data.tombstones.filter q } :=
  ⟨h.forwards.filter p, h.tombstones.filter q, fun id hid hburied =>
    h.disjoint id ((List.filter_sublist.map _).subset hid)
      ((List.filter_sublist.map _).subset hburied)⟩

theorem WellFormed.activeTombstones (h : data.WellFormed) (now : Int) :
    WellFormed { data with tombstones := activeTombstones now data.tombstones } := by
  have hfilter := h.filter (fun _ => true) fun tombstone => cutoff now ≤ tombstone.deletedAt
  rwa [List.filter_true] at hfilter

/-- A change that keeps the ids. -/
theorem WellFormed.of_ids_eq {forwards : List PersistedForward} (h : data.WellFormed)
    (hids : forwards.map (·.id) = data.ids) : WellFormed { data with forwards } := by
  refine ⟨?_, h.tombstones, ?_⟩
  · rw [Keyed.Unique, hids]
    exact h.forwards
  · intro id hid
    exact h.disjoint id (hids ▸ hid)

theorem WellFormed.modify {id : List Char} {f : PersistedForward → PersistedForward}
    (h : data.WellFormed) (hf : ∀ forward, forward.id = id → (f forward).id = id) :
    (data.modify id f).WellFormed :=
  h.of_ids_eq (map_key_modifyFirst fun forward _ => hf forward)

/-- Tombstones give way to forwards. -/
theorem wellFormed_retainTombstones (hforwards : Unique PersistedForward.id data.forwards)
    (htombstones : Unique DeletedPersistedForwardTombstone.id data.tombstones) :
    data.retainTombstones.WellFormed := by
  refine ⟨hforwards, htombstones.filter _, fun id hid hburied => ?_⟩
  obtain ⟨tombstone, htombstone, rfl⟩ := List.mem_map.mp hburied
  have hfree := (List.mem_filter.mp htombstone).2
  rw [Bool.not_eq_true', List.contains_eq_mem, decide_eq_false_iff_not] at hfree
  exact hfree hid

/-! ## Tombstones -/

theorem key_upsertTombstone {tombstone existing : DeletedPersistedForwardTombstone}
    (h : existing.id = tombstone.id) :
    (if existing.deletedAt < tombstone.deletedAt then tombstone else existing).id =
      tombstone.id := by
  split
  · rfl
  · exact h

theorem unique_upsertTombstone {tombstones : List DeletedPersistedForwardTombstone}
    (h : Unique DeletedPersistedForwardTombstone.id tombstones)
    (tombstone : DeletedPersistedForwardTombstone) :
    Unique DeletedPersistedForwardTombstone.id (upsertTombstone tombstones tombstone) :=
  h.upsert fun _ _ => key_upsertTombstone

theorem mem_ids_upsertTombstone {tombstones : List DeletedPersistedForwardTombstone}
    {tombstone : DeletedPersistedForwardTombstone} {id : List Char} :
    id ∈ (upsertTombstone tombstones tombstone).map (·.id) ↔
      id = tombstone.id ∨ id ∈ tombstones.map (·.id) :=
  mem_keys_upsert fun _ _ => key_upsertTombstone

theorem bury_cons (id : List Char) (ids : List (List Char)) (now : Int) :
    data.bury (id :: ids) now = SavedForwardData.bury ids now
      { data with tombstones := upsertTombstone data.tombstones ⟨id, now⟩ } := rfl

@[simp] theorem forwards_bury (ids : List (List Char)) (now : Int) :
    (data.bury ids now).forwards = data.forwards := rfl

theorem unique_bury {ids : List (List Char)} {now : Int} :
    ∀ {data : SavedForwardData}, Unique DeletedPersistedForwardTombstone.id data.tombstones →
      Unique DeletedPersistedForwardTombstone.id (data.bury ids now).tombstones := by
  induction ids with
  | nil => exact fun h => h
  | cons id ids ih =>
    intro data h
    rw [bury_cons]
    exact ih (unique_upsertTombstone h _)

theorem mem_buried_bury {ids : List (List Char)} {now : Int} {id : List Char} :
    ∀ {data : SavedForwardData},
      id ∈ (data.bury ids now).buried ↔ id ∈ ids ∨ id ∈ data.buried := by
  induction ids with
  | nil =>
    intro data
    exact ⟨.inr, fun h => h.elim (fun hnil => absurd hnil List.not_mem_nil) fun h => h⟩
  | cons first ids ih =>
    intro data
    rw [bury_cons, ih, List.mem_cons, buried, mem_ids_upsertTombstone, buried]
    tauto

/-- Forwards that are not there can be buried. -/
theorem WellFormed.bury {ids : List (List Char)} {now : Int} (h : data.WellFormed)
    (hids : ∀ id ∈ ids, id ∉ data.ids) : (data.bury ids now).WellFormed := by
  refine ⟨h.forwards, unique_bury h.tombstones, fun id hid hburied => ?_⟩
  rcases mem_buried_bury.mp hburied with hmem | hmem
  · exact hids id hmem hid
  · exact h.disjoint id hid hmem

/-- A deletion of all forwards of an id. -/
theorem WellFormed.delete (h : data.WellFormed) (rid : List Char) (time : Int) :
    WellFormed { forwards := data.forwards.filter fun forward => forward.id ≠ rid
                 tombstones := upsertTombstone data.tombstones ⟨rid, time⟩ } := by
  refine ⟨h.forwards.filter _, unique_upsertTombstone h.tombstones _, fun id hid hburied => ?_⟩
  obtain ⟨forward, hforward, rfl⟩ := List.mem_map.mp hid
  obtain ⟨hforward, hne⟩ := List.mem_filter.mp hforward
  rcases mem_ids_upsertTombstone.mp hburied with heq | hburied
  · exact of_decide_eq_true hne heq
  · exact h.disjoint _ (List.mem_map_of_mem hforward) hburied

/-- An upsert under a record's id, which is the forward's or at least not a buried forward's. -/
theorem WellFormed.upsert (h : data.WellFormed) (forward : PersistedForward) (rid : List Char)
    (hrid : forward.id ≠ rid → forward.id ∉ data.buried) :
    WellFormed { forwards := upsertForward data.forwards forward
                 tombstones := data.tombstones.filter fun tombstone => tombstone.id ≠ rid } := by
  refine ⟨h.forwards.upsert fun _ _ _ => rfl, h.tombstones.filter _, fun id hmem hburied => ?_⟩
  obtain ⟨tombstone, htombstone, rfl⟩ := List.mem_map.mp hburied
  obtain ⟨htombstone, hne⟩ := List.mem_filter.mp htombstone
  have hburied' : tombstone.id ∈ data.buried := List.mem_map_of_mem htombstone
  rcases (mem_keys_upsert fun _ _ _ => rfl).mp hmem with heq | hmem
  · rw [heq] at hburied' hne
    exact hrid (of_decide_eq_true hne) hburied'
  · exact h.disjoint _ hmem hburied'

theorem WellFormed.removeOwned (h : data.WellFormed) (owner : List Char) (now : Int) :
    (data.removeOwned owner now).WellFormed := by
  have hkept := h.filter (fun forward => !decide (forward.ownerConnectionId = some owner))
    fun _ => true
  rw [List.filter_true] at hkept
  refine hkept.bury fun id hid hmem => ?_
  -- a forward that was removed has no other under its id
  obtain ⟨removed, hremoved, rfl⟩ := List.mem_map.mp hid
  obtain ⟨kept, hkept, hkey⟩ := List.mem_map.mp hmem
  rw [List.mem_filter] at hremoved hkept
  obtain rfl := List.inj_on_of_nodup_map h.forwards hkept.1 hremoved.1 hkey
  simp_all

/-! ## Updates by the user -/

theorem WellFormed.persistForward (h : data.WellFormed) (forward : PersistedForward) :
    (persistForward data forward).WellFormed :=
  wellFormed_retainTombstones (h.forwards.upsert fun _ _ _ => rfl) h.tombstones

theorem WellFormed.syncPersistedForwardRule {now : Int} {forwardId sessionId : List Char}
    {owner : Option (List Char)} {rule : ForwardRule} {saved : Option PersistedForward}
    {after : SavedForwardData} (h : data.WellFormed)
    (heq : syncPersistedForwardRule now data forwardId sessionId owner rule = .ok (saved, after)) :
    after.WellFormed := by
  unfold Forwarding.syncPersistedForwardRule at heq
  split at heq
  · next existing hexisting =>
    obtain ⟨-, rfl⟩ := Prod.mk.inj (Except.ok.inj heq)
    have hid : existing.id = forwardId := key_of_lookup hexisting
    exact h.modify fun _ _ => hid
  · next hnone =>
    split at heq
    · obtain ⟨-, rfl⟩ := Prod.mk.inj (Except.ok.inj heq)
      have hnew : forwardId ∉ data.ids := lookup_eq_none.mp hnone
      refine ⟨h.forwards.append_singleton hnew, h.tombstones.filter _, fun id hid hburied => ?_⟩
      obtain ⟨tombstone, htombstone, rfl⟩ := List.mem_map.mp hburied
      obtain ⟨htombstone, hne⟩ := List.mem_filter.mp htombstone
      rw [ids, List.map_append, List.mem_append] at hid
      rcases hid with hid | hid
      · exact h.disjoint _ hid (List.mem_map_of_mem htombstone)
      · rw [List.map_singleton, List.mem_singleton] at hid
        exact of_decide_eq_true hne hid
    · obtain ⟨-, rfl⟩ := Prod.mk.inj (Except.ok.inj heq)
      exact h

theorem WellFormed.deletePersistedForward (h : data.WellFormed) (now : Int)
    (forwardId : List Char) : (deletePersistedForward now data forwardId).1.WellFormed := by
  rw [Forwarding.deletePersistedForward]
  split
  · exact h
  · next index hindex =>
    obtain ⟨hlt, hid, -⟩ := List.findIdx?_eq_some_iff_getElem.mp hindex
    have hsublist : (data.forwards.eraseIdx index).Sublist data.forwards :=
      List.eraseIdx_sublist _ _
    have hremaining : WellFormed { data with forwards := data.forwards.eraseIdx index } :=
      ⟨(hsublist.map _).nodup h.forwards, h.tombstones, fun id hid =>
        h.disjoint id ((hsublist.map _).subset hid)⟩
    dsimp only
    split
    · refine hremaining.bury fun id hmem hkept => ?_
      -- the rest holds no other forward of the id
      rw [List.mem_singleton] at hmem
      subst hmem
      have hperm : data.forwards.Perm (data.forwards[index] :: data.forwards.eraseIdx index) :=
        (List.getElem_cons_eraseIdx_perm hlt).symm
      have hnodup := (hperm.map PersistedForward.id).nodup_iff.mp h.forwards
      rw [List.map_cons, List.nodup_cons, of_decide_eq_true hid] at hnodup
      exact hnodup.1 hkept
    · exact hremaining

theorem WellFormed.updateAutoStart {now : Int} {forwardId : List Char} {autoStart changed : Bool}
    {after : SavedForwardData} (h : data.WellFormed)
    (heq : updateAutoStart now data forwardId autoStart = .ok (after, changed)) :
    after.WellFormed := by
  rw [Forwarding.updateAutoStart] at heq
  split at heq
  · cases heq
  · split at heq
    · obtain ⟨rfl, -⟩ := Prod.mk.inj (Except.ok.inj heq)
      exact h
    · obtain ⟨rfl, -⟩ := Prod.mk.inj (Except.ok.inj heq)
      exact h.modify fun _ hid => hid

theorem WellFormed.updateTunnelProfile {now : Int} {id : List Char} {profile : SshTunnelProfile}
    {saved : PersistedForward} {after : SavedForwardData} (h : data.WellFormed)
    (heq : updateTunnelProfile now data id profile = .ok (saved, after)) : after.WellFormed := by
  rw [Forwarding.updateTunnelProfile] at heq
  split at heq
  · cases heq
  · next existing hexisting =>
    obtain ⟨-, rfl⟩ := Prod.mk.inj (Except.ok.inj heq)
    have hid : existing.id = id := key_of_lookup hexisting
    exact h.modify fun _ _ => hid

theorem WellFormed.updateTunnelGroups {now : Int}
    {groups : List (List Char × Option (List Char))} {after : SavedForwardData} {result : Bool} :
    ∀ {data : SavedForwardData} {changed : Bool}, data.WellFormed →
      updateTunnelGroups now changed data groups = .ok (after, result) → after.WellFormed := by
  induction groups with
  | nil =>
    intro data changed h heq
    obtain ⟨rfl, -⟩ := Prod.mk.inj (Except.ok.inj heq)
    exact h
  | cons entry groups ih =>
    intro data changed h heq
    rw [Forwarding.updateTunnelGroups] at heq
    split at heq
    · cases heq
    · split at heq
      · cases heq
      · split at heq
        · refine ih (h.modify ?_) heq
          intro _ hid
          exact hid
        · exact ih h heq

theorem WellFormed.bindOwnedForwardsToSession (h : data.WellFormed) (now : Int)
    (owner sessionId : List Char) :
    (bindOwnedForwardsToSession now data owner sessionId).2.WellFormed := by
  refine h.of_ids_eq ?_
  rw [List.map_map]
  refine List.map_congr_left fun forward _ => ?_
  rw [Function.comp_apply]
  split <;> rfl

/-! ## Imports -/

section Imports

variable {fresh : FreshIds} {before : List (List Char)} {forwards after : List PersistedForward}
  {next next' : Nat} {now : Int} {records : List OwnedForwardImportRecord}

/-- Fresh ids are not repeated, and no forward has one. -/
structure Fresh (fresh : FreshIds) (before : List (List Char)) : Prop where
  injective : Function.Injective fresh
  unused : ∀ n, fresh n ∉ before

/-- No id is repeated, and each was there before or was drawn. -/
structure Drawn (fresh : FreshIds) (before : List (List Char)) (next : Nat)
    (forwards : List PersistedForward) : Prop where
  unique : Unique PersistedForward.id forwards
  origin : ∀ id ∈ forwards.map (·.id), id ∈ before ∨ ∃ n < next, id = fresh n

theorem id_of_importRecordToPersisted {freshId : List Char} {record : OwnedForwardImportRecord}
    {forward : PersistedForward} (h : importRecordToPersisted freshId record now = .ok forward) :
    forward.id = freshId := by
  obtain ⟨_, -, hforward⟩ := exists_of_bind_ok h
  rw [← Except.ok.inj hforward]

/-- One more forward, under the next fresh id. -/
theorem Drawn.append (hfresh : Fresh fresh before) (h : Drawn fresh before next forwards)
    {forward : PersistedForward} (hid : forward.id = fresh next) :
    Drawn fresh before (next + 1) (forwards ++ [forward]) := by
  constructor
  · refine h.unique.append_singleton fun hmem => ?_
    rw [hid] at hmem
    rcases h.origin _ hmem with hbefore | ⟨n, hlt, heq⟩
    · exact hfresh.unused next hbefore
    · exact hlt.ne' (hfresh.injective heq)
  · intro id hmem
    rw [List.map_append, List.mem_append, List.map_singleton, List.mem_singleton, hid] at hmem
    rcases hmem with hmem | rfl
    · rcases h.origin id hmem with hbefore | ⟨n, hlt, rfl⟩
      · exact .inl hbefore
      · exact .inr ⟨n, by omega, rfl⟩
    · exact .inr ⟨next, by omega, rfl⟩

theorem Drawn.appendImported (hfresh : Fresh fresh before) :
    ∀ {next : Nat} {forwards : List PersistedForward}, Drawn fresh before next forwards →
      appendImported fresh now next forwards records = .ok (next', after) →
      Drawn fresh before next' after := by
  induction records with
  | nil =>
    intro next forwards h heq
    obtain ⟨rfl, rfl⟩ := Prod.mk.inj (Except.ok.inj heq)
    exact h
  | cons record records ih =>
    intro next forwards h heq
    obtain ⟨persisted, hpersisted, hrest⟩ := exists_of_bind_ok heq
    exact ih (h.append hfresh (id_of_importRecordToPersisted hpersisted)) hrest

theorem map_id_modify_mergeImport (owner : List Char) (record : OwnedForwardImportRecord)
    (position : Nat) (forwards : List PersistedForward) :
    (forwards.modify position (mergeImport owner record now)).map (·.id) =
      forwards.map (·.id) := by
  induction forwards generalizing position with
  | nil => rw [List.modify_nil]
  | cons forward rest ih =>
    cases position with
    | zero => rfl
    | succ position =>
      rw [List.modify_succ_cons, List.map_cons, ih, List.map_cons]

theorem Drawn.mergeImportedFrom (hfresh : Fresh fresh before) {owner : List Char} :
    ∀ {next : Nat} {index : IdentityIndex} {forwards : List PersistedForward},
      Drawn fresh before next forwards →
      mergeImportedFrom fresh owner now next index forwards records = .ok (next', after) →
      Drawn fresh before next' after := by
  induction records with
  | nil =>
    intro next index forwards h heq
    obtain ⟨rfl, rfl⟩ := Prod.mk.inj (Except.ok.inj heq)
    exact h
  | cons record records ih =>
    intro next index forwards h heq
    rw [Forwarding.mergeImportedFrom] at heq
    split at heq
    · refine ih ⟨?_, ?_⟩ heq
      · rw [Keyed.Unique, map_id_modify_mergeImport]
        exact h.unique
      · rw [map_id_modify_mergeImport]
        exact h.origin
    · obtain ⟨persisted, hpersisted, hrest⟩ := exists_of_bind_ok heq
      exact ih (h.append hfresh (id_of_importRecordToPersisted hpersisted)) hrest

theorem Drawn.importOwners (hfresh : Fresh fresh before) {replaceOwners mergeOwners : List (List Char)}
    {owners : List (List Char)} :
    ∀ {next : Nat} {forwards : List PersistedForward}, Drawn fresh before next forwards →
      importOwners fresh now replaceOwners mergeOwners records next forwards owners = .ok after →
      Unique PersistedForward.id after := by
  induction owners with
  | nil =>
    intro next forwards h heq
    obtain rfl := Except.ok.inj heq
    exact h.unique
  | cons owner owners ih =>
    intro next forwards h heq
    rw [Forwarding.importOwners] at heq
    split at heq
    · obtain ⟨⟨next', forwards'⟩, howner, hrest⟩ := exists_of_bind_ok heq
      exact ih (h.mergeImportedFrom hfresh howner) hrest
    · obtain ⟨⟨next', forwards'⟩, howner, hrest⟩ := exists_of_bind_ok heq
      exact ih (h.appendImported hfresh howner) hrest

theorem wellFormed_foldl_removeOwned (owners : List (List Char)) :
    ∀ {data : SavedForwardData}, data.WellFormed →
      (owners.foldl (fun data owner => data.removeOwned owner now) data).WellFormed ∧
        ∀ id ∈ (owners.foldl (fun data owner => data.removeOwned owner now) data).ids,
          id ∈ data.ids := by
  induction owners with
  | nil => exact fun h => ⟨h, fun _ hid => hid⟩
  | cons owner owners ih =>
    intro data h
    obtain ⟨hwell, hids⟩ := ih (h.removeOwned owner now)
    exact ⟨hwell, fun id hid => (List.filter_sublist.map _).subset (hids id hid)⟩

theorem WellFormed.applyOwnedForwardImportRecords {replaceOwners mergeOwners : List (List Char)}
    {owners : List (List Char)} {count : Nat} {result : SavedForwardData} (h : data.WellFormed)
    (hfresh : Fresh fresh data.ids)
    (heq : applyOwnedForwardImportRecords fresh now data records replaceOwners mergeOwners owners =
      .ok (count, result)) : result.WellFormed := by
  obtain ⟨hwell, hids⟩ := @wellFormed_foldl_removeOwned now replaceOwners data h
  obtain ⟨forwards, hforwards, hresult⟩ := exists_of_bind_ok heq
  obtain ⟨-, rfl⟩ := Prod.mk.inj (Except.ok.inj hresult)
  have hdrawn : Drawn fresh data.ids 0
      (replaceOwners.foldl (fun data owner => data.removeOwned owner now) data).forwards :=
    ⟨hwell.forwards, fun id hid => .inl (hids id hid)⟩
  exact wellFormed_retainTombstones (hdrawn.importOwners hfresh hforwards) hwell.tombstones

end Imports

/-! ## Snapshots -/

section Snapshots

variable {timestamps : Timestamps}

theorem id_of_persistedForwardFromSyncPayload {payload : PersistedForwardDto} {time : Int}
    {forward : PersistedForward}
    (h : persistedForwardFromSyncPayload timestamps payload time = .ok forward) :
    forward.id = payload.id ∧ forward.ownerConnectionId = payload.ownerConnectionId := by
  obtain ⟨_, -, h⟩ := exists_of_bind_ok h
  obtain ⟨_, -, h⟩ := exists_of_bind_ok h
  rw [← Except.ok.inj h]
  exact ⟨rfl, rfl⟩

/-- What applying a record comes to: nothing, a deletion, or an upsert of its payload. -/
theorem applyRecord_cases {validOwners : List (List Char)} {before : SavedForwardData}
    {state state' : ApplyState} {record : SavedForwardSyncRecord}
    (h : applyRecord timestamps validOwners before state record = .ok state') :
    state' = state.skip ∨
    (record.deleted = true ∧ ∃ time, state' = state.apply {
      forwards := state.data.forwards.filter fun forward => forward.id ≠ record.id
      tombstones := upsertTombstone state.data.tombstones ⟨record.id, time⟩ }) ∨
    (record.deleted = false ∧ ∃ payload forward time, record.payload = some payload ∧
      persistedForwardFromSyncPayload timestamps payload time = .ok forward ∧
      state' = state.apply {
        forwards := upsertForward state.data.forwards forward
        tombstones := state.data.tombstones.filter fun tombstone => tombstone.id ≠ record.id }) := by
  obtain ⟨time, -, h⟩ := exists_of_bind_ok h
  dsimp only at h
  split at h
  · next hdeleted =>
    split at h
    · exact .inl (Except.ok.inj h).symm
    · exact .inr (.inl ⟨hdeleted, time, (Except.ok.inj h).symm⟩)
  · next hlive =>
    split at h
    · exact .inl (Except.ok.inj h).symm
    · next payload hpayload =>
      split at h
      · exact .inl (Except.ok.inj h).symm
      · split at h
        · exact .inl (Except.ok.inj h).symm
        · split at h
          · exact .inl (Except.ok.inj h).symm
          · split at h
            · exact .inl (Except.ok.inj h).symm
            · obtain ⟨forward, hforward, h⟩ := exists_of_bind_ok h
              exact .inr (.inr ⟨by simpa using hlive, payload, forward, time, hpayload, hforward,
                (Except.ok.inj h).symm⟩)

/-- A live record is of the id of its payload, or that id is buried neither before nor on the way. -/
def PayloadsMatch (data : SavedForwardData) (records : List SavedForwardSyncRecord) : Prop :=
  ∀ record ∈ records, record.deleted = false → ∀ payload ∈ record.payload,
    payload.id ≠ record.id → payload.id ∉ data.buried ∧
      ∀ other ∈ records, other.deleted = true → other.id ≠ payload.id

theorem WellFormed.applyRecord {validOwners : List (List Char)} {before : SavedForwardData}
    {state state' : ApplyState} {record : SavedForwardSyncRecord} (h : state.data.WellFormed)
    (hmatch : record.deleted = false → ∀ payload ∈ record.payload, payload.id ≠ record.id →
      payload.id ∉ state.data.buried)
    (heq : applyRecord timestamps validOwners before state record = .ok state') :
    state'.data.WellFormed ∧ ∀ id ∈ state'.data.buried,
      id ∈ state.data.buried ∨ (record.deleted = true ∧ id = record.id) := by
  rcases applyRecord_cases heq with rfl | ⟨hdeleted, time, rfl⟩ |
    ⟨hlive, payload, forward, time, hpayload, hforward, rfl⟩
  · exact ⟨h, fun _ hid => .inl hid⟩
  · refine ⟨h.delete record.id time, fun id hburied => ?_⟩
    rcases mem_ids_upsertTombstone.mp hburied with heq | hburied
    · exact .inr ⟨hdeleted, heq⟩
    · exact .inl hburied
  · obtain ⟨hid, -⟩ := id_of_persistedForwardFromSyncPayload hforward
    refine ⟨h.upsert forward record.id ?_, fun id hburied =>
      .inl ((List.filter_sublist.map _).subset hburied)⟩
    rw [hid]
    exact hmatch hlive payload hpayload

theorem wellFormed_foldlM_applyRecord {validOwners : List (List Char)} {before : SavedForwardData}
    {records : List SavedForwardSyncRecord} {result : ApplyState} :
    ∀ {state : ApplyState}, state.data.WellFormed → PayloadsMatch state.data records →
      records.foldlM (applyRecord timestamps validOwners before) state = .ok result →
      result.data.WellFormed := by
  induction records with
  | nil =>
    intro state h _ heq
    obtain rfl := Except.ok.inj heq
    exact h
  | cons record records ih =>
    intro state h hmatch heq
    rw [List.foldlM_cons] at heq
    obtain ⟨state', hrecord, hrest⟩ := exists_of_bind_ok heq
    obtain ⟨hwell, hburied⟩ := h.applyRecord (fun hlive payload hpayload hne =>
      (hmatch record List.mem_cons_self hlive payload hpayload hne).1) hrecord
    refine ih hwell (fun other hother hlive payload hpayload hne => ?_) hrest
    obtain ⟨hunburied, hdeleted⟩ :=
      hmatch other (List.mem_cons_of_mem _ hother) hlive payload hpayload hne
    refine ⟨fun hmem => ?_, fun third hthird => hdeleted third (List.mem_cons_of_mem _ hthird)⟩
    rcases hburied _ hmem with hmem | ⟨hrecord, heq⟩
    · exact hunburied hmem
    · exact hdeleted record List.mem_cons_self hrecord heq.symm

theorem WellFormed.applySnapshot {records : List SavedForwardSyncRecord}
    {validOwners : List (List Char)} {result : ApplyState} (h : data.WellFormed)
    (hmatch : PayloadsMatch data records)
    (heq : applySnapshot timestamps data records validOwners = .ok result) :
    result.data.WellFormed :=
  wellFormed_foldlM_applyRecord h hmatch heq

/-! ## Resolved sets -/

theorem resolveRecords_ok {owners : List (List Char)} {now : Int}
    {records : List PersistedForwardDto} {resolved : List PersistedForward} :
    ∀ {seen : List (List Char)}, resolveRecords timestamps owners now seen records = .ok resolved →
      resolved.map (·.id) = records.map (·.id) ∧ (records.map (·.id)).Nodup ∧
        ∀ id ∈ records.map (·.id), id ∉ seen := by
  induction records generalizing resolved with
  | nil =>
    intro seen h
    obtain rfl := Except.ok.inj h
    exact ⟨rfl, List.nodup_nil, fun _ h => absurd h List.not_mem_nil⟩
  | cons record records ih =>
    intro seen h
    rw [resolveRecords] at h
    split at h
    · cases h
    · next hnew =>
      rw [Bool.or_eq_true, not_or, List.contains_iff_mem] at hnew
      obtain ⟨forward, hforward, h⟩ := exists_of_bind_ok h
      obtain ⟨forwards, hforwards, h⟩ := exists_of_bind_ok h
      obtain rfl := Except.ok.inj h
      obtain ⟨hids, hnodup, hseen⟩ := ih hforwards
      obtain ⟨hid, -⟩ := id_of_persistedForwardFromSyncPayload hforward
      rw [List.map_cons, List.map_cons, hid, hids]
      refine ⟨rfl, List.nodup_cons.mpr ⟨fun hmem => hseen _ hmem List.mem_cons_self, hnodup⟩,
        List.forall_mem_cons.mpr ⟨hnew.1, fun id hmem hid =>
          hseen id hmem (List.mem_cons_of_mem _ hid)⟩⟩

/-- No record has the id of a forward that belongs to a session alone. -/
def AvoidsSessions (data : SavedForwardData) (records : List PersistedForwardDto) : Prop :=
  ∀ forward ∈ data.forwards, forward.ownerConnectionId = none →
    forward.id ∉ records.map (·.id)

theorem WellFormed.replaceResolved {owners : List (List Char)} {now : Int}
    {records : List PersistedForwardDto} {result : SavedForwardData} (h : data.WellFormed)
    (havoids : AvoidsSessions data records)
    (heq : replaceResolved timestamps now data records owners = .ok result) :
    result.WellFormed := by
  obtain ⟨resolved, hresolved, hresult⟩ := exists_of_bind_ok heq
  obtain rfl := Except.ok.inj hresult
  obtain ⟨hids, hnodup, -⟩ := resolveRecords_ok hresolved
  refine ⟨?_, (unique_bury h.tombstones).filter _, fun id hid hburied => ?_⟩
  · rw [Keyed.Unique, List.map_append]
    refine List.nodup_append.mpr ⟨h.forwards.filter _, hids ▸ hnodup, fun id hid id' hid' heq => ?_⟩
    obtain ⟨forward, hforward, rfl⟩ := List.mem_map.mp hid
    obtain ⟨hforward, howner⟩ := List.mem_filter.mp hforward
    rw [hids, ← heq] at hid'
    exact havoids forward hforward (of_decide_eq_true howner) hid'
  · obtain ⟨tombstone, htombstone, rfl⟩ := List.mem_map.mp hburied
    obtain ⟨htombstone, hnot⟩ := List.mem_filter.mp htombstone
    rw [ids, List.map_append, List.mem_append, hids] at hid
    rcases hid with hid | hid
    · -- a forward of a session keeps its id to itself
      obtain ⟨forward, hforward, hkey⟩ := List.mem_map.mp hid
      obtain ⟨hforward, howner⟩ := List.mem_filter.mp hforward
      rcases mem_buried_bury.mp (List.mem_map_of_mem htombstone) with hmem | hmem
      · obtain ⟨dropped, hdropped, hkey'⟩ := List.mem_map.mp hmem
        obtain ⟨hdropped, hcondition⟩ := List.mem_filter.mp hdropped
        obtain rfl := List.inj_on_of_nodup_map h.forwards hforward hdropped
          (hkey.trans hkey'.symm)
        have howner' := of_decide_eq_true howner
        rw [howner'] at hcondition
        cases hcondition
      · exact h.disjoint _ (hkey ▸ List.mem_map_of_mem hforward) hmem
    · rw [Bool.not_eq_true', List.contains_eq_mem, decide_eq_false_iff_not] at hnot
      exact hnot hid

end Snapshots

end SavedForwardData

end OxideTerm.Forwarding
