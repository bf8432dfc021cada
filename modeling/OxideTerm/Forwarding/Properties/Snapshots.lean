import OxideTerm.Forwarding.Properties.SavedStore
import OxideTerm.Lib.LastWriter
import Mathlib.Data.Prod.Lex

/-!
# Merging snapshots

Under each id the store holds a forward, a tombstone, or nothing. A snapshot that another store
exported brings at most one record for an id, and applying it keeps the later of the two; at one
time, a deletion. So snapshots merge to the same, in any order and however often.
-/

namespace OxideTerm.Forwarding

open OxideTerm.Lib Keyed LastWriter SavedForwardData

/-! ## What is under an id -/

inductive Entry where
  | live (forward : PersistedForward)
  | deleted (time : Int)

namespace Entry

def time : Entry → Int
  | live forward => forward.syncUpdatedAt
  | deleted time => time

def isDeleted : Entry → Bool
  | live _ => false
  | deleted _ => true

/-- Later entries are above earlier ones, and of one time a deletion is. -/
def rank (entry : Entry) : ℤ ×ₗ Bool := toLex (entry.time, entry.isDeleted)

/-- A tombstone lasts for the time of retention. -/
def isActive (now : Int) : Entry → Bool
  | live _ => true
  | deleted time => cutoff now ≤ time

theorem rank_lt_iff {entry entry' : Entry} : entry.rank < entry'.rank ↔
    entry.time < entry'.time ∨ entry.time = entry'.time ∧ entry.isDeleted < entry'.isDeleted :=
  Prod.Lex.toLex_lt_toLex

theorem rank_lt_of_time_lt {entry entry' : Entry} (h : entry.time < entry'.time) :
    entry.rank < entry'.rank := rank_lt_iff.mpr (.inl h)

theorem time_le_of_rank_le {entry entry' : Entry} (h : entry.rank ≤ entry'.rank) :
    entry.time ≤ entry'.time := by
  by_contra hlt
  exact absurd (rank_lt_of_time_lt (not_le.mp hlt)) (not_lt.mpr h)

/-- A live entry gives way to a deletion of its time. -/
theorem rank_live_lt_deleted {forward : PersistedForward} {time : Int} :
    (live forward).rank < (deleted time).rank ↔ forward.syncUpdatedAt ≤ time := by
  rw [rank_lt_iff, le_iff_lt_or_eq]
  exact or_congr_right (and_iff_left (show false < true by decide))

theorem rank_deleted_lt_live {forward : PersistedForward} {time : Int} :
    (deleted time).rank < (live forward).rank ↔ time < forward.syncUpdatedAt := by
  rw [rank_lt_iff]
  exact or_iff_left fun h => absurd h.2 (show ¬ true < false by decide)

theorem rank_live_lt_live {forward forward' : PersistedForward} :
    (live forward).rank < (live forward').rank ↔
      forward.syncUpdatedAt < forward'.syncUpdatedAt := by
  rw [rank_lt_iff]
  exact or_iff_left fun h => absurd h.2 (lt_irrefl false)

theorem rank_deleted_lt_deleted {time time' : Int} :
    (deleted time).rank < (deleted time').rank ↔ time < time' := by
  rw [rank_lt_iff]
  exact or_iff_left fun h => absurd h.2 (lt_irrefl true)

end Entry

namespace SavedForwardData

variable {data : SavedForwardData} {id : List Char}

def buriedAt (data : SavedForwardData) (id : List Char) :
    Option DeletedPersistedForwardTombstone :=
  lookup DeletedPersistedForwardTombstone.id id data.tombstones

def entry (data : SavedForwardData) (id : List Char) : Option Entry :=
  ((data.find id).map .live).or ((data.buriedAt id).map fun tombstone => .deleted tombstone.deletedAt)

/-- The entry, unless its retention is over. -/
def activeEntry (now : Int) (data : SavedForwardData) (id : List Char) : Option Entry :=
  (data.entry id).filter fun entry => entry.isActive now

theorem entry_of_find {forward : PersistedForward} (h : data.find id = some forward) :
    data.entry id = some (.live forward) := by
  rw [entry, h]
  rfl

theorem entry_of_find_eq_none (h : data.find id = none) :
    data.entry id = (data.buriedAt id).map fun tombstone => .deleted tombstone.deletedAt := by
  rw [entry, h]
  rfl

theorem WellFormed.find_eq_none (h : data.WellFormed)
    {tombstone : DeletedPersistedForwardTombstone} (htombstone : data.buriedAt id = some tombstone) :
    data.find id = none := by
  rw [find, lookup_eq_none]
  intro hid
  exact h.disjoint id hid (lookup_isSome.mp (Option.isSome_iff_exists.mpr ⟨tombstone, htombstone⟩))

theorem WellFormed.entry_of_buriedAt (h : data.WellFormed)
    {tombstone : DeletedPersistedForwardTombstone} (htombstone : data.buriedAt id = some tombstone) :
    data.entry id = some (.deleted tombstone.deletedAt) := by
  rw [entry_of_find_eq_none (h.find_eq_none htombstone), htombstone]
  rfl

theorem WellFormed.existingById_eq (h : data.WellFormed) (id : List Char) :
    data.existingById id = data.find id := h.forwards.lookup_reverse

theorem WellFormed.tombstonesById_eq (h : data.WellFormed) (id : List Char) :
    data.tombstonesById id = data.buriedAt id := h.tombstones.lookup_reverse

theorem find_eq_some_iff {forward : PersistedForward} :
    data.find id = some forward ↔ data.entry id = some (.live forward) := by
  constructor
  · exact entry_of_find
  · intro h
    cases hfind : data.find id with
    | some other =>
      rw [entry_of_find hfind] at h
      cases h
      rfl
    | none =>
      rw [entry_of_find_eq_none hfind, Option.map_eq_some_iff] at h
      obtain ⟨_, -, h⟩ := h
      cases h

/-- Where the same is under an id, the same forward is found. -/
theorem find_eq_of_entry_eq {data' : SavedForwardData} (h : data.entry id = data'.entry id) :
    data.find id = data'.find id := by
  ext forward
  rw [find_eq_some_iff, h, ← find_eq_some_iff]

/-- And the same tombstone. -/
theorem WellFormed.buriedAt_eq_of_entry_eq {data' : SavedForwardData} (hwell : data.WellFormed)
    (hwell' : data'.WellFormed) (h : data.entry id = data'.entry id) :
    data.buriedAt id = data'.buriedAt id := by
  have key : ∀ {data data' : SavedForwardData}, data.WellFormed →
      data.entry id = data'.entry id → ∀ tombstone, data.buriedAt id = some tombstone →
        data'.buriedAt id = some tombstone := by
    intro data data' hwell h tombstone htombstone
    have hfind := (find_eq_of_entry_eq h).symm.trans (hwell.find_eq_none htombstone)
    rw [hwell.entry_of_buriedAt htombstone, entry_of_find_eq_none hfind, eq_comm,
      Option.map_eq_some_iff] at h
    obtain ⟨other, hother, hdeleted⟩ := h
    have hid := (key_of_lookup hother).trans (key_of_lookup htombstone).symm
    obtain ⟨otherId, otherTime⟩ := other
    obtain ⟨tombstoneId, tombstoneTime⟩ := tombstone
    cases hdeleted
    cases hid
    exact hother
  ext tombstone
  exact ⟨key hwell h tombstone, key hwell' h.symm tombstone⟩

/-! ## Deletions and upserts -/

/-- Dropping the forwards of an id. -/
theorem find_filter_ne (rid id : List Char) (tombstones : List DeletedPersistedForwardTombstone) :
    find { forwards := data.forwards.filter fun forward => forward.id ≠ rid, tombstones } id =
      if id = rid then none else data.find id := by
  show lookup PersistedForward.id id (data.forwards.filter _) = _
  rw [lookup_filter_key fun id => decide (id ≠ rid)]
  by_cases h : id = rid
  · rw [if_pos h, if_neg (by simp [h])]
  · rw [if_neg h, if_pos (by simpa using h)]
    rfl

theorem buriedAt_filter_ne (rid id : List Char) (forwards : List PersistedForward) :
    buriedAt { forwards, tombstones := data.tombstones.filter fun tombstone =>
      tombstone.id ≠ rid } id = if id = rid then none else data.buriedAt id := by
  show lookup DeletedPersistedForwardTombstone.id id (data.tombstones.filter _) = _
  rw [lookup_filter_key fun id => decide (id ≠ rid)]
  by_cases h : id = rid
  · rw [if_pos h, if_neg (by simp [h])]
  · rw [if_neg h, if_pos (by simpa using h)]
    rfl

/-- What a deletion leaves, where no later forward forbids it. -/
theorem WellFormed.entry_delete (h : data.WellFormed) (rid : List Char) (time : Int)
    (hearlier : ∀ forward, data.find rid = some forward → forward.syncUpdatedAt ≤ time) :
    entry { forwards := data.forwards.filter fun forward => forward.id ≠ rid
            tombstones := upsertTombstone data.tombstones ⟨rid, time⟩ } id =
      if id = rid then keep Entry.rank (data.entry rid) (.deleted time) else data.entry id := by
  have hburied : buriedAt { forwards := data.forwards.filter fun forward => forward.id ≠ rid
                            tombstones := upsertTombstone data.tombstones ⟨rid, time⟩ } id =
      if id = rid then some (((data.buriedAt id).map fun existing =>
        if existing.deletedAt < time then ⟨rid, time⟩ else existing).getD ⟨rid, time⟩)
      else data.buriedAt id := lookup_upsert fun _ _ => key_upsertTombstone
  rw [entry, find_filter_ne, hburied]
  by_cases hid : id = rid
  · subst hid
    rw [if_pos rfl, if_pos rfl, if_pos rfl, Option.map_none, Option.none_or, Option.map_some]
    cases hbefore : data.buriedAt id with
    | some tombstone =>
      -- the later of two tombstones stays
      rw [h.entry_of_buriedAt hbefore, Option.map_some, Option.getD_some]
      by_cases hlt : tombstone.deletedAt < time
      · rw [if_pos hlt, keep_some_of_le
          (not_lt.mp (mt Entry.rank_deleted_lt_deleted.mp (not_lt.mpr hlt.le)))]
      · rw [if_neg hlt]
        rcases (not_lt.mp hlt).lt_or_eq with hlt' | heq
        · rw [keep_some_of_lt (Entry.rank_deleted_lt_deleted.mpr hlt')]
        · rw [heq, keep_some_of_le (le_refl _)]
    | none =>
      rw [Option.map_none, Option.getD_none]
      cases hfind : data.find id with
      | some forward =>
        rw [entry_of_find hfind, keep_some_of_le
          (not_lt.mp (mt Entry.rank_deleted_lt_live.mp (not_lt.mpr (hearlier forward hfind))))]
      | none =>
        rw [entry_of_find_eq_none hfind, hbefore]
        rfl
  · rw [if_neg hid, if_neg hid, if_neg hid]
    rfl

/-- What an upsert leaves, where neither a tombstone nor a later forward forbids it. -/
theorem WellFormed.entry_upsert (h : data.WellFormed) (forward : PersistedForward)
    (hburied : ∀ tombstone, data.buriedAt forward.id = some tombstone →
      tombstone.deletedAt < forward.syncUpdatedAt)
    (hearlier : ∀ existing, data.find forward.id = some existing →
      existing.syncUpdatedAt ≤ forward.syncUpdatedAt) :
    entry { forwards := upsertForward data.forwards forward
            tombstones := data.tombstones.filter fun tombstone => tombstone.id ≠ forward.id } id =
      if id = forward.id then keep Entry.rank (data.entry forward.id) (.live forward)
      else data.entry id := by
  have hfind : find { forwards := upsertForward data.forwards forward
                      tombstones := data.tombstones.filter fun tombstone =>
                        tombstone.id ≠ forward.id } id =
      if id = forward.id then some (((data.find id).map fun _ => forward).getD forward)
      else data.find id := lookup_upsert fun _ _ _ => rfl
  rw [entry, hfind, buriedAt_filter_ne]
  by_cases hid : id = forward.id
  · subst hid
    rw [if_pos rfl, if_pos rfl, if_pos rfl, Option.map_none, Option.or_none, Option.map_some]
    have hupsert : ((data.find forward.id).map fun _ => forward).getD forward = forward := by
      cases data.find forward.id <;> rfl
    rw [hupsert]
    cases hexisting : data.find forward.id with
    | some existing =>
      rw [entry_of_find hexisting, keep_some_of_le
        (not_lt.mp (mt Entry.rank_live_lt_live.mp (not_lt.mpr (hearlier existing hexisting))))]
    | none =>
      cases hbefore : data.buriedAt forward.id with
      | some tombstone =>
        rw [h.entry_of_buriedAt hbefore, keep_some_of_le
          (not_lt.mp (mt Entry.rank_live_lt_deleted.mp (not_le.mpr (hburied tombstone hbefore))))]
      | none =>
        rw [entry_of_find_eq_none hexisting, hbefore]
        rfl
  · rw [if_neg hid, if_neg hid, if_neg hid]
    rfl

end SavedForwardData

/-! ## One record -/

section Records

variable {timestamps : Timestamps} {validOwners : List (List Char)} {before : SavedForwardData}
  {state : ApplyState} {record : SavedForwardSyncRecord} {entry : Entry}

/-- What a record stands for. -/
inductive ReadsAs (timestamps : Timestamps) (record : SavedForwardSyncRecord) : Entry → Prop
  | deleted {time : Int} : timestamps.parseFromRfc3339 record.updatedAt = some time →
      record.deleted = true → ReadsAs timestamps record (.deleted time)
  | live {payload : PersistedForwardDto} {time : Int} {forward : PersistedForward} :
      timestamps.parseFromRfc3339 record.updatedAt = some time → record.deleted = false →
      record.payload = some payload → payload.id = record.id →
      persistedForwardFromSyncPayload timestamps payload time = .ok forward →
      ReadsAs timestamps record (.live forward)

/-- An entry that the receiver takes: a forward is of a connection that it knows. -/
def Entry.IsOwned (validOwners : List (List Char)) : Entry → Prop
  | live forward => ∃ owner ∈ validOwners, forward.ownerConnectionId = some owner
  | deleted _ => True

theorem parseSyncTimestamp_of_parse {value : List Char} {field : String} {time : Int}
    (h : timestamps.parseFromRfc3339 value = some time) :
    parseSyncTimestamp timestamps value field = .ok time := by
  rw [parseSyncTimestamp, h]

theorem syncUpdatedAt_of_payload {payload : PersistedForwardDto} {time : Int}
    {forward : PersistedForward}
    (h : persistedForwardFromSyncPayload timestamps payload time = .ok forward) :
    forward.syncUpdatedAt = time := by
  obtain ⟨_, -, h⟩ := exists_of_bind_ok h
  obtain ⟨_, -, h⟩ := exists_of_bind_ok h
  rw [← Except.ok.inj h]
  rfl

/-- What the loop has done so far, where it is still to come to some records. -/
structure InStep (before : SavedForwardData) (records : List SavedForwardSyncRecord)
    (state : ApplyState) : Prop where
  wellFormed : state.data.WellFormed
  untouched : ∀ record ∈ records, state.data.entry record.id = before.entry record.id
  idle : state.result.applied = 0 → state.data = before

/-- **A record that is read as an entry leaves the later of the two.** -/
theorem applyRecord_entry (hbefore : before.WellFormed) (hstate : state.data.WellFormed)
    (hsame : state.data.entry record.id = before.entry record.id)
    (hreads : ReadsAs timestamps record entry) (howned : entry.IsOwned validOwners) :
    ∃ state', applyRecord timestamps validOwners before state record = .ok state' ∧
      state'.data.WellFormed ∧
      (state' = state.skip ∨ state'.result.applied = state.result.applied + 1) ∧
      ∀ id, state'.data.entry id =
        if id = record.id then keep Entry.rank (state.data.entry record.id) entry
        else state.data.entry id := by
  -- a record below what is there is skipped
  have hskip : ∀ {held : Entry}, before.entry record.id = some held → entry.rank < held.rank →
      ∀ id, state.skip.data.entry id =
        if id = record.id then keep Entry.rank (state.data.entry record.id) entry
        else state.data.entry id := by
    intro held hheld hlt id
    by_cases hid : id = record.id
    · rw [if_pos hid, hsame, hheld, keep_some_of_lt hlt, ← hheld, ← hsame, hid]
      rfl
    · rw [if_neg hid]
      rfl
  have hfind := find_eq_of_entry_eq hsame
  have hburied := hstate.buriedAt_eq_of_entry_eq hbefore hsame
  -- no later forward is there, if the loop sees none
  have hearlier : ∀ {time : Int}, ¬ (before.find record.id).any (fun existing =>
      decide (time < existing.syncUpdatedAt)) = true →
      ∀ existing, state.data.find record.id = some existing → existing.syncUpdatedAt ≤ time := by
    intro time hnewer existing hexisting
    rw [← hfind, hexisting, Option.any_some, decide_eq_true_iff] at hnewer
    exact not_lt.mp hnewer
  cases hreads with
  | @deleted time htime hdeleted =>
    by_cases hnewer : (before.find record.id).any (fun existing =>
        decide (time < existing.syncUpdatedAt)) = true
    · obtain ⟨existing, hexisting, hlt⟩ := (Option.any_eq_true _ _).mp hnewer
      refine ⟨state.skip, ?_, hstate, .inl rfl, hskip (entry_of_find hexisting)
        (Entry.rank_deleted_lt_live.mpr (of_decide_eq_true hlt))⟩
      rw [applyRecord, parseSyncTimestamp_of_parse htime, hbefore.existingById_eq]
      simp only [bind, Except.bind, hdeleted, hnewer, if_true]
      rfl
    · refine ⟨state.apply {
        forwards := state.data.forwards.filter fun forward => forward.id ≠ record.id
        tombstones := upsertTombstone state.data.tombstones ⟨record.id, time⟩ }, ?_,
        (hstate.delete record.id time), .inr rfl, fun id =>
          hstate.entry_delete record.id time (hearlier hnewer)⟩
      rw [applyRecord, parseSyncTimestamp_of_parse htime, hbefore.existingById_eq]
      simp only [bind, Except.bind, hdeleted, hnewer, if_true]
      rfl
  | @live payload time forward htime hlive hpayload hid hforward =>
    obtain ⟨owner, hvalid, howner⟩ := howned
    obtain ⟨hforwardId, hforwardOwner⟩ := id_of_persistedForwardFromSyncPayload hforward
    have hrecordId : forward.id = record.id := hforwardId.trans hid
    have hupdated := syncUpdatedAt_of_payload hforward
    by_cases hisBuried : (before.buriedAt record.id).any (fun tombstone =>
        decide (time ≤ tombstone.deletedAt)) = true
    · obtain ⟨tombstone, htombstone, hle⟩ := (Option.any_eq_true _ _).mp hisBuried
      refine ⟨state.skip, ?_, hstate, .inl rfl, hskip (hbefore.entry_of_buriedAt htombstone)
        (Entry.rank_live_lt_deleted.mpr (hupdated ▸ of_decide_eq_true hle))⟩
      rw [applyRecord, parseSyncTimestamp_of_parse htime, hbefore.existingById_eq,
        hbefore.tombstonesById_eq]
      simp only [bind, Except.bind, hlive, hpayload, hisBuried, if_true]
      rfl
    · by_cases hnewer : (before.find record.id).any (fun existing =>
          decide (time < existing.syncUpdatedAt)) = true
      · obtain ⟨existing, hexisting, hlt⟩ := (Option.any_eq_true _ _).mp hnewer
        refine ⟨state.skip, ?_, hstate, .inl rfl, hskip (entry_of_find hexisting)
          (Entry.rank_live_lt_live.mpr (hupdated ▸ of_decide_eq_true hlt))⟩
        rw [applyRecord, parseSyncTimestamp_of_parse htime, hbefore.existingById_eq,
          hbefore.tombstonesById_eq]
        simp only [bind, Except.bind, hlive, hpayload, hisBuried, hnewer, if_true]
        rfl
      · have hlast : ∀ tombstone, state.data.buriedAt forward.id = some tombstone →
            tombstone.deletedAt < forward.syncUpdatedAt := by
          intro tombstone htombstone
          rw [hrecordId, hburied] at htombstone
          rw [htombstone, Option.any_some, decide_eq_true_iff] at hisBuried
          rw [hupdated]
          exact not_le.mp hisBuried
        refine ⟨state.apply {
          forwards := upsertForward state.data.forwards forward
          tombstones := state.data.tombstones.filter fun tombstone =>
            tombstone.id ≠ record.id }, ?_, ?_, .inr rfl, fun id => ?_⟩
        · rw [applyRecord, parseSyncTimestamp_of_parse htime, hbefore.existingById_eq,
            hbefore.tombstonesById_eq]
          simp only [bind, Except.bind, hlive, hpayload, hisBuried, hnewer, ← hforwardOwner, howner,
            hvalid, hforward]
          rfl
        · rw [← hrecordId]
          exact hstate.upsert forward forward.id fun hne => absurd rfl hne
        · rw [← hrecordId] at hearlier ⊢
          refine hstate.entry_upsert forward hlast ?_
          rw [hupdated]
          exact hearlier (hrecordId ▸ hnewer)

/-! ## One snapshot -/

/-- What a record stands for, if anything. -/
def recordEntry (timestamps : Timestamps) (record : SavedForwardSyncRecord) : Option Entry := do
  let time ← timestamps.parseFromRfc3339 record.updatedAt
  if record.deleted then some (.deleted time)
  else do
    let payload ← record.payload
    let forward ← (persistedForwardFromSyncPayload timestamps payload time).toOption
    some (.live forward)

/-- The entries that records bring for an id. -/
def received (timestamps : Timestamps) (id : List Char) (records : List SavedForwardSyncRecord) :
    List Entry :=
  (records.filter fun record => record.id = id).filterMap (recordEntry timestamps)

theorem ReadsAs.recordEntry_eq (h : ReadsAs timestamps record entry) :
    recordEntry timestamps record = some entry := by
  cases h with
  | deleted htime hdeleted => simp [recordEntry, htime, hdeleted]
  | live htime hlive hpayload _ hforward =>
    simp [recordEntry, htime, hlive, hpayload, hforward, Except.toOption]

theorem received_cons_of_ne {id : List Char} {records : List SavedForwardSyncRecord}
    (h : record.id ≠ id) :
    received timestamps id (record :: records) = received timestamps id records := by
  rw [received, List.filter_cons_of_neg (by simpa using h), received]

theorem received_cons {records : List SavedForwardSyncRecord}
    (h : ReadsAs timestamps record entry) :
    received timestamps record.id (record :: records) =
      entry :: received timestamps record.id records := by
  rw [received, List.filter_cons_of_pos (by simp), List.filterMap_cons_some h.recordEntry_eq,
    received]

theorem received_append (id : List Char) (records records' : List SavedForwardSyncRecord) :
    received timestamps id (records ++ records') =
      received timestamps id records ++ received timestamps id records' := by
  rw [received, List.filter_append, List.filterMap_append, received, received]

/-- Every record stands for something that the receiver takes. -/
def Readable (timestamps : Timestamps) (validOwners : List (List Char))
    (records : List SavedForwardSyncRecord) : Prop :=
  ∀ record ∈ records, ∃ entry, ReadsAs timestamps record entry ∧ entry.IsOwned validOwners

/-- **The loop leaves the latest under each id.** -/
theorem foldlM_applyRecord_entry (hbefore : before.WellFormed)
    {records : List SavedForwardSyncRecord} :
    ∀ {state : ApplyState}, (records.map (·.id)).Nodup → InStep before records state →
      Readable timestamps validOwners records →
      ∃ result, records.foldlM (applyRecord timestamps validOwners before) state = .ok result ∧
        result.data.WellFormed ∧ (result.result.applied = 0 → result.data = before) ∧
        ∀ id, result.data.entry id =
          (received timestamps id records).foldl (keep Entry.rank) (state.data.entry id) := by
  induction records with
  | nil =>
    intro state _ h _
    exact ⟨state, rfl, h.wellFormed, h.idle, fun _ => rfl⟩
  | cons record records ih =>
    intro state hnodup h hreadable
    rw [List.map_cons, List.nodup_cons] at hnodup
    obtain ⟨entry, hreads, howned⟩ := hreadable record List.mem_cons_self
    obtain ⟨state', hrecord, hwell, hcounted, hentry⟩ := applyRecord_entry hbefore h.wellFormed
      (h.untouched record List.mem_cons_self) hreads howned
    have hinStep : InStep before records state' := by
      refine ⟨hwell, fun other hother => ?_, fun hzero => ?_⟩
      · have hne : other.id ≠ record.id := fun heq =>
          hnodup.1 (heq ▸ List.mem_map_of_mem hother)
        rw [hentry, if_neg hne]
        exact h.untouched other (List.mem_cons_of_mem _ hother)
      · rcases hcounted with rfl | hcounted
        · exact h.idle hzero
        · omega
    obtain ⟨result, hresult, hwell', hidle, hall⟩ := ih hnodup.2 hinStep fun other hother =>
      hreadable other (List.mem_cons_of_mem _ hother)
    refine ⟨result, ?_, hwell', hidle, fun id => ?_⟩
    · rw [List.foldlM_cons, hrecord]
      exact hresult
    · rw [hall, hentry]
      by_cases hid : id = record.id
      · subst hid
        rw [if_pos rfl, received_cons hreads, List.foldl_cons]
      · rw [if_neg hid, received_cons_of_ne (Ne.symm hid)]

end Records

/-! ## Retention -/

section Retention

variable {data : SavedForwardData} {now last : Int} {id : List Char}

theorem cutoff_le_cutoff (h : now ≤ last) : cutoff now ≤ cutoff last := by
  rw [cutoff, cutoff]
  omega

/-- What is left under an id when tombstones out of retention go. -/
theorem SavedForwardData.WellFormed.entry_activeTombstones (h : data.WellFormed) (now : Int)
    (id : List Char) :
    entry { data with tombstones := Forwarding.activeTombstones now data.tombstones } id =
      (data.entry id).filter fun entry => entry.isActive now := by
  have hburied : buriedAt { data with tombstones := Forwarding.activeTombstones now data.tombstones } id =
      (data.buriedAt id).filter fun tombstone => cutoff now ≤ tombstone.deletedAt :=
    h.tombstones.lookup_filter _
  have hsame : find { data with tombstones := Forwarding.activeTombstones now data.tombstones } id =
      data.find id := rfl
  cases hfind : data.find id with
  | some forward =>
    rw [entry_of_find hfind, entry_of_find (hsame.trans hfind)]
    rfl
  | none =>
    rw [entry_of_find_eq_none hfind, entry_of_find_eq_none (hsame.trans hfind), hburied]
    cases data.buriedAt id with
    | none => rfl
    | some tombstone =>
      rw [Option.map_some, Option.filter_some, Option.filter_some, Entry.isActive]
      split <;> rfl

/-- Later on, it makes no difference whether tombstones went before. -/
theorem SavedForwardData.WellFormed.activeEntry_activeTombstones (h : data.WellFormed)
    (hle : now ≤ last) :
    activeEntry last { data with tombstones := Forwarding.activeTombstones now data.tombstones } id =
      data.activeEntry last id := by
  rw [activeEntry, h.entry_activeTombstones, activeEntry, Option.filter_filter]
  refine congrArg (fun p => Option.filter p (data.entry id)) (funext fun entry => ?_)
  cases entry with
  | live forward => rfl
  | deleted time =>
    have hcutoff := cutoff_le_cutoff hle
    rw [Entry.isActive, Entry.isActive, Bool.eq_iff_iff, Bool.and_eq_true, decide_eq_true_iff,
      decide_eq_true_iff]
    exact and_iff_right_of_imp hcutoff.trans

theorem Entry.isActive_of_cutoff_le {entry : Entry} (h : cutoff last ≤ entry.time) :
    entry.isActive last = true := by
  cases entry with
  | live => rfl
  | deleted time => exact decide_eq_true h

/-- What is out of retention does not stand against what is in it. -/
theorem keep_filter_isActive {held : Option Entry} {entry : Entry} (h : cutoff last ≤ entry.time) :
    (keep Entry.rank held entry).filter (fun entry => entry.isActive last) =
      keep Entry.rank (held.filter fun entry => entry.isActive last) entry := by
  have hactive := Entry.isActive_of_cutoff_le h
  cases held with
  | none =>
    show Option.filter _ (some entry) = some entry
    rw [Option.filter_some, if_pos hactive]
  | some old =>
    by_cases hold : old.isActive last = true
    · rw [Option.filter_some, if_pos hold]
      by_cases hlt : entry.rank < old.rank
      · rw [keep_some_of_lt hlt, Option.filter_some, if_pos hold]
      · rw [keep_some_of_le (not_lt.mp hlt), Option.filter_some, if_pos hactive]
    · -- a tombstone that is over is earlier than the arrival
      rw [Option.filter_some, if_neg hold]
      have hle : old.rank ≤ entry.rank := by
        by_contra hlt
        have htime := Entry.time_le_of_rank_le (not_le.mp hlt).le
        exact hold (Entry.isActive_of_cutoff_le (h.trans htime))
      rw [keep_some_of_le hle, Option.filter_some, if_pos hactive]
      rfl

theorem foldl_keep_filter_isActive : ∀ {entries : List Entry} {held : Option Entry},
    (∀ entry ∈ entries, cutoff last ≤ entry.time) →
      (entries.foldl (keep Entry.rank) held).filter (fun entry => entry.isActive last) =
        entries.foldl (keep Entry.rank) (held.filter fun entry => entry.isActive last)
  | [], _, _ => rfl
  | entry :: entries, held, h => by
    obtain ⟨hentry, hentries⟩ := List.forall_mem_cons.mp h
    rw [List.foldl_cons, foldl_keep_filter_isActive hentries, keep_filter_isActive hentry,
      List.foldl_cons]

end Retention

/-! ## Exports -/

section Exports

variable {timestamps : Timestamps} {validOwners : List (List Char)} {data : SavedForwardData}
  {now last : Int} {id : List Char}

theorem mem_loadSyncState_forwards {forward : PersistedForward} :
    forward ∈ (loadSyncState now data).1 ↔
      forward ∈ data.forwards ∧ forward.ownerConnectionId.isSome := by
  rw [loadSyncState, List.mem_insertionSort, List.mem_filter]

theorem mem_loadSyncState_tombstones {tombstone : DeletedPersistedForwardTombstone} :
    tombstone ∈ (loadSyncState now data).2 ↔
      tombstone ∈ data.tombstones ∧ cutoff now ≤ tombstone.deletedAt := by
  rw [loadSyncState, List.mem_insertionSort, activeTombstones, List.mem_filter,
    decide_eq_true_iff]

theorem SavedForwardData.WellFormed.nodup_loadSyncState (h : data.WellFormed) (now : Int) :
    (loadSyncState now data).1.Nodup ∧ (loadSyncState now data).2.Nodup :=
  ⟨(List.perm_insertionSort _ _).nodup_iff.mpr (h.forwards.filter _).nodup,
    (List.perm_insertionSort _ _).nodup_iff.mpr (h.tombstones.filter _).nodup⟩

/-- A forward as another store keeps it that received it. -/
def PersistedForward.received (forward : PersistedForward) : PersistedForward :=
  { forward with
    sessionId := []
    rule := { forward.rule with
      id := forward.id
      forwardType := forward.forwardType
      status := .stopped }
    updatedAt := some forward.syncUpdatedAt
    version := persistedForwardVersion }

theorem tryFromTauriStr_asStr (forwardType : ForwardType) :
    ForwardType.tryFromTauriStr forwardType.asStr = .ok forwardType := by
  cases forwardType <;> rfl

/-- What is exported is read back, but for the session and the state of the rule. -/
theorem persistedForwardFromSyncPayload_toDto (forward : PersistedForward)
    (name : Option (List Char)) :
    persistedForwardFromSyncPayload timestamps (persistedForwardToDto timestamps forward name)
      forward.syncUpdatedAt = .ok forward.received := by
  have hdescription : (if forward.rule.description ≠ [] then some forward.rule.description
      else none).getD [] = forward.rule.description := by
    by_cases h : forward.rule.description = []
    · rw [if_neg (not_not.mpr h), h]
      rfl
    · rw [if_pos h]
      rfl
  simp only [persistedForwardFromSyncPayload, persistedForwardToDto, tryFromTauriStr_asStr,
    parseSyncTimestamp_of_parse (timestamps.parse_toRfc3339 _), bind, Except.bind, hdescription]
  rfl

theorem readsAs_forward (forward : PersistedForward) :
    ReadsAs timestamps (buildSavedForwardSyncRecord timestamps forward) (.live forward.received) :=
  .live (timestamps.parse_toRfc3339 _) rfl rfl rfl (persistedForwardFromSyncPayload_toDto forward none)

theorem readsAs_tombstone (tombstone : DeletedPersistedForwardTombstone) :
    ReadsAs timestamps (buildSavedForwardTombstoneRecord timestamps tombstone)
      (.deleted tombstone.deletedAt) :=
  .deleted (timestamps.parse_toRfc3339 _) rfl

/-- Records of forwards go under connections that the receiver knows. -/
def OwnersValid (validOwners : List (List Char)) (records : List SavedForwardSyncRecord) : Prop :=
  ∀ record ∈ records, ∀ payload ∈ record.payload, ∀ owner ∈ payload.ownerConnectionId,
    owner ∈ validOwners

theorem perm_exportSnapshot (timestamps : Timestamps) (now : Int) (data : SavedForwardData) :
    (exportSnapshot timestamps now data).Perm
      ((loadSyncState now data).1.map (buildSavedForwardSyncRecord timestamps) ++
        (loadSyncState now data).2.map (buildSavedForwardTombstoneRecord timestamps)) :=
  List.perm_insertionSort _ _

theorem readable_exportSnapshot
    (howners : OwnersValid validOwners (exportSnapshot timestamps now data)) :
    Readable timestamps validOwners (exportSnapshot timestamps now data) := by
  intro record hrecord
  have hmem := (perm_exportSnapshot timestamps now data).mem_iff.mp hrecord
  rcases List.mem_append.mp hmem with hmem | hmem
  · obtain ⟨forward, hforward, rfl⟩ := List.mem_map.mp hmem
    obtain ⟨owner, howner⟩ :=
      Option.isSome_iff_exists.mp (mem_loadSyncState_forwards.mp hforward).2
    exact ⟨_, readsAs_forward forward, owner, howners _ hrecord _ rfl owner howner, howner⟩
  · obtain ⟨tombstone, -, rfl⟩ := List.mem_map.mp hmem
    exact ⟨_, readsAs_tombstone tombstone, trivial⟩

/-- **An export has one record for an id.** -/
theorem SavedForwardData.WellFormed.nodup_exportSnapshot (h : data.WellFormed) :
    ((exportSnapshot timestamps now data).map (·.id)).Nodup := by
  rw [((perm_exportSnapshot timestamps now data).map _).nodup_iff, List.map_append, List.map_map,
    List.map_map, List.nodup_append]
  refine ⟨?_, ?_, fun id hid id' hid' heq => ?_⟩
  · exact ((List.perm_insertionSort _ _).map PersistedForward.id).nodup_iff.mpr
      (h.forwards.filter _)
  · exact ((List.perm_insertionSort _ _).map DeletedPersistedForwardTombstone.id).nodup_iff.mpr
      (h.tombstones.filter _)
  · obtain ⟨forward, hforward, rfl⟩ := List.mem_map.mp hid
    obtain ⟨tombstone, htombstone, rfl⟩ := List.mem_map.mp hid'
    refine h.disjoint forward.id
      (List.mem_map_of_mem (mem_loadSyncState_forwards.mp hforward).1) ?_
    have hburied := List.mem_map_of_mem (f := DeletedPersistedForwardTombstone.id)
      (mem_loadSyncState_tombstones.mp htombstone).1
    exact (show forward.id = tombstone.id from heq) ▸ hburied

end Exports

/-! ## Runs of snapshots -/

section Runs

variable {φ : Type} {codec : DataCodec φ} {timestamps : Timestamps}
  {validOwners : List (List Char)} {store : SavedForwardStore φ} {now last : Int}
  {records : List SavedForwardSyncRecord} {id : List Char}

/-- All records are in retention. -/
def Retained (timestamps : Timestamps) (last : Int) (records : List SavedForwardSyncRecord) : Prop :=
  ∀ record ∈ records, ∀ time, timestamps.parseFromRfc3339 record.updatedAt = some time →
    cutoff last ≤ time

theorem mem_received {entry : Entry} : entry ∈ received timestamps id records ↔
    ∃ record ∈ records, record.id = id ∧ recordEntry timestamps record = some entry := by
  rw [received, List.mem_filterMap]
  simp [and_assoc]

/-- What a record is read as. -/
theorem recordEntry_cases {record : SavedForwardSyncRecord} {entry : Entry}
    (h : recordEntry timestamps record = some entry) :
    timestamps.parseFromRfc3339 record.updatedAt = some entry.time ∧
      ((record.deleted = true ∧ entry = .deleted entry.time) ∨
        (record.deleted = false ∧ ∃ payload forward, record.payload = some payload ∧
          entry = .live forward ∧
          persistedForwardFromSyncPayload timestamps payload entry.time = .ok forward)) := by
  obtain ⟨time, htime, h⟩ := Option.bind_eq_some_iff.mp h
  split at h
  · next hdeleted =>
    cases h
    exact ⟨htime, .inl ⟨hdeleted, rfl⟩⟩
  · next hlive =>
    obtain ⟨payload, hpayload, h⟩ := Option.bind_eq_some_iff.mp h
    obtain ⟨forward, hforward, h⟩ := Option.bind_eq_some_iff.mp h
    cases h
    cases hresult : persistedForwardFromSyncPayload timestamps payload time with
    | error error =>
      rw [hresult] at hforward
      cases hforward
    | ok other =>
      rw [hresult] at hforward
      cases hforward
      have hupdated : (Entry.live forward).time = time := syncUpdatedAt_of_payload hresult
      rw [hupdated]
      exact ⟨htime, .inr ⟨Bool.eq_false_iff.mpr hlive, payload, forward, hpayload, rfl, hresult⟩⟩

theorem Retained.cutoff_le (h : Retained timestamps last records) :
    ∀ entry ∈ received timestamps id records, cutoff last ≤ entry.time := by
  intro entry hentry
  obtain ⟨record, hrecord, -, hread⟩ := mem_received.mp hentry
  exact h record hrecord entry.time (recordEntry_cases hread).1

/-- **Applying one snapshot.** -/
theorem applySnapshot_activeEntry (hstore : store.data.WellFormed)
    (hnodup : (records.map (·.id)).Nodup) (hreadable : Readable timestamps validOwners records)
    (hretained : Retained timestamps last records) (hnow : now ≤ last) :
    ∃ result after, store.applySnapshot codec timestamps now .replaced records validOwners =
        (.ok result, after) ∧
      after.data.WellFormed ∧
      ∀ id, after.data.activeEntry last id =
        (received timestamps id records).foldl (keep Entry.rank)
          (store.data.activeEntry last id) := by
  obtain ⟨state, hstate, hwell, hidle, hentry⟩ :=
    @foldlM_applyRecord_entry timestamps validOwners store.data hstore records
      ⟨store.data, ⟨0, 0⟩⟩ hnodup ⟨hstore, fun _ _ => rfl, fun _ => rfl⟩ hreadable
  have hactive : ∀ id, state.data.activeEntry last id =
      (received timestamps id records).foldl (keep Entry.rank)
        (store.data.activeEntry last id) := by
    intro id
    rw [activeEntry, hentry, foldl_keep_filter_isActive hretained.cutoff_le]
    rfl
  have hupdate : SavedForwardStore.applySnapshotUpdate timestamps records validOwners store.data =
      .ok (state.result, state.data, decide (0 < state.result.applied)) := by
    rw [SavedForwardStore.applySnapshotUpdate, applySnapshot, hstate]
    rfl
  by_cases happlied : 0 < state.result.applied
  · let data : SavedForwardData :=
      { state.data with tombstones := activeTombstones now state.data.tombstones }
    refine ⟨state.result, { data, file := some (codec.toJson data) }, ?_,
      hwell.activeTombstones now, fun id => ?_⟩
    · rw [SavedForwardStore.applySnapshot, SavedForwardStore.commitUpdateIf, hupdate]
      simp only [happlied, decide_true, if_true]
      rfl
    · exact (hwell.activeEntry_activeTombstones hnow).trans (hactive id)
  · -- nothing was applied, so nothing is stored
    refine ⟨state.result, store, ?_, hstore, fun id => ?_⟩
    · rw [SavedForwardStore.applySnapshot, SavedForwardStore.commitUpdateIf, hupdate]
      simp only [happlied, decide_false]
      rfl
    · rw [← hactive, hidle (Nat.eq_zero_of_not_pos happlied)]

/-- A snapshot, and when it is applied. -/
structure Application where
  records : List SavedForwardSyncRecord
  now : Int

/-- One snapshot after the other; an error ends it. -/
def applyAll (codec : DataCodec φ) (timestamps : Timestamps) (validOwners : List (List Char)) :
    List Application → SavedForwardStore φ → Except SavedForwardError (SavedForwardStore φ)
  | [], store => .ok store
  | application :: run, store =>
    match store.applySnapshot codec timestamps application.now .replaced application.records
      validOwners with
    | (.ok _, store) => applyAll codec timestamps validOwners run store
    | (.error error, _) => .error error

/-- A set of snapshots that other stores exported, and that the receiver can take until `last`. -/
structure Exchange (timestamps : Timestamps) (validOwners : List (List Char)) (last : Int)
    (snapshots : List (List SavedForwardSyncRecord)) : Prop where
  exported : ∀ records ∈ snapshots, ∃ now data, data.WellFormed ∧
    records = exportSnapshot timestamps now data
  owners : OwnersValid validOwners snapshots.flatten
  retained : Retained timestamps last snapshots.flatten
  /-- Live records of one id and one time are the same, but for their sessions. -/
  distinct : ∀ record ∈ snapshots.flatten, ∀ other ∈ snapshots.flatten, record.id = other.id →
    record.deleted = false → other.deleted = false →
    timestamps.parseFromRfc3339 record.updatedAt = timestamps.parseFromRfc3339 other.updatedAt →
    record.payload.map (fun payload => { payload with sessionId := [] }) =
      other.payload.map fun payload => { payload with sessionId := [] }

/-- The run applies just these snapshots, each at least once, until `last`. -/
structure Applies (run : List Application) (last : Int)
    (snapshots : List (List SavedForwardSyncRecord)) : Prop where
  just : ∀ records, records ∈ run.map (·.records) ↔ records ∈ snapshots
  now_le : ∀ application ∈ run, application.now ≤ last

variable {snapshots : List (List SavedForwardSyncRecord)} {run run' : List Application}

theorem Exchange.of_mem (h : Exchange timestamps validOwners last snapshots)
    (hmem : records ∈ snapshots) :
    (records.map (·.id)).Nodup ∧ Readable timestamps validOwners records ∧
      Retained timestamps last records := by
  obtain ⟨now, data, hwell, rfl⟩ := h.exported records hmem
  have hflatten : ∀ record ∈ exportSnapshot timestamps now data, record ∈ snapshots.flatten :=
    fun record hrecord => List.mem_flatten.mpr ⟨_, hmem, hrecord⟩
  exact ⟨hwell.nodup_exportSnapshot,
    readable_exportSnapshot fun record hrecord => h.owners record (hflatten record hrecord),
    fun record hrecord => h.retained record (hflatten record hrecord)⟩

/-- **Applying snapshots one after the other keeps the latest of all under each id.** -/
theorem applyAll_activeEntry :
    ∀ {run : List Application} {store : SavedForwardStore φ}, store.data.WellFormed →
      (∀ application ∈ run, application.now ≤ last ∧
        (application.records.map (·.id)).Nodup ∧
        Readable timestamps validOwners application.records ∧
        Retained timestamps last application.records) →
      ∃ merged, applyAll codec timestamps validOwners run store = .ok merged ∧
        merged.data.WellFormed ∧
        ∀ id, merged.data.activeEntry last id =
          (received timestamps id (run.map (·.records)).flatten).foldl (keep Entry.rank)
            (store.data.activeEntry last id)
  | [], store, hstore, _ => ⟨store, rfl, hstore, fun _ => rfl⟩
  | application :: run, store, hstore, h => by
    obtain ⟨⟨hnow, hnodup, hreadable, hretained⟩, hrun⟩ := List.forall_mem_cons.mp h
    obtain ⟨result, after, happly, hafter, hentry⟩ :=
      @applySnapshot_activeEntry φ codec timestamps validOwners store application.now last
        application.records hstore hnodup hreadable hretained hnow
    obtain ⟨merged, hmerged, hwell, hall⟩ := applyAll_activeEntry hafter hrun
    refine ⟨merged, ?_, hwell, fun id => ?_⟩
    · rw [applyAll, happly]
      exact hmerged
    · rw [hall, hentry, List.map_cons, List.flatten_cons, received_append, List.foldl_append]

/-- Entries of one rank that are received are the same. -/
theorem Exchange.eq_of_rank_eq (h : Exchange timestamps validOwners last snapshots)
    {entry entry' : Entry} (hentry : entry ∈ received timestamps id snapshots.flatten)
    (hentry' : entry' ∈ received timestamps id snapshots.flatten)
    (hrank : entry.rank = entry'.rank) : entry = entry' := by
  have hpair : (entry.time, entry.isDeleted) = (entry'.time, entry'.isDeleted) := hrank
  obtain ⟨htime, hkind⟩ := Prod.mk.inj hpair
  obtain ⟨record, hrecord, hid, hread⟩ := mem_received.mp hentry
  obtain ⟨record', hrecord', hid', hread'⟩ := mem_received.mp hentry'
  obtain ⟨hparse, hcases⟩ := recordEntry_cases hread
  obtain ⟨hparse', hcases'⟩ := recordEntry_cases hread'
  rcases hcases with ⟨-, hdeleted⟩ | ⟨hlive, payload, forward, hpayload, hforward, hfrom⟩
  · rcases hcases' with ⟨-, hdeleted'⟩ | ⟨-, payload', forward', -, hforward', -⟩
    · rw [hdeleted, hdeleted', htime]
    · rw [hdeleted, hforward'] at hkind
      cases hkind
  · rcases hcases' with ⟨-, hdeleted'⟩ | ⟨hlive', payload', forward', hpayload', hforward', hfrom'⟩
    · rw [hforward, hdeleted'] at hkind
      cases hkind
    · -- the payloads agree but for their sessions, which are not read
      have hsame := h.distinct record hrecord record' hrecord' (hid.trans hid'.symm) hlive hlive'
        (hparse.trans ((congrArg some htime).trans hparse'.symm))
      rw [hpayload, hpayload', Option.map_some, Option.map_some, Option.some.injEq] at hsame
      have hread : persistedForwardFromSyncPayload timestamps
          { payload with sessionId := [] } entry.time =
            persistedForwardFromSyncPayload timestamps
              { payload' with sessionId := [] } entry.time := by
        rw [hsame]
      have hsame' := (hfrom.symm.trans hread).trans (htime ▸ hfrom')
      rw [hforward, hforward', Except.ok.inj hsame']

/-- What the receiver shows of its data. -/
theorem SavedForwardData.WellFormed.loadSyncState_iff {data : SavedForwardData}
    (h : data.WellFormed) (last : Int) :
    (∀ forward, forward ∈ (loadSyncState last data).1 ↔
      forward.ownerConnectionId.isSome ∧
        data.activeEntry last forward.id = some (.live forward)) ∧
    ∀ tombstone, tombstone ∈ (loadSyncState last data).2 ↔
      data.activeEntry last tombstone.id = some (.deleted tombstone.deletedAt) := by
  constructor
  · intro forward
    rw [mem_loadSyncState_forwards, and_comm, activeEntry, Option.filter_eq_some_iff,
      ← find_eq_some_iff, find, h.forwards.lookup_eq_some_iff]
    exact and_congr_right fun _ => ⟨fun hmem => ⟨⟨hmem, rfl⟩, rfl⟩, fun hmem => hmem.1.1⟩
  · intro tombstone
    rw [mem_loadSyncState_tombstones, activeEntry, Option.filter_eq_some_iff]
    constructor
    · rintro ⟨hmem, hactive⟩
      exact ⟨h.entry_of_buriedAt (h.tombstones.lookup_eq_some_iff.mpr ⟨hmem, rfl⟩),
        decide_eq_true hactive⟩
    · rintro ⟨hentry, hactive⟩
      refine ⟨?_, of_decide_eq_true hactive⟩
      cases hfind : data.find tombstone.id with
      | some forward =>
        rw [entry_of_find hfind] at hentry
        cases hentry
      | none =>
        rw [entry_of_find_eq_none hfind, Option.map_eq_some_iff] at hentry
        obtain ⟨other, hother, hdeleted⟩ := hentry
        obtain ⟨hmem, hid⟩ := h.tombstones.lookup_eq_some_iff.mp hother
        obtain ⟨otherId, otherTime⟩ := other
        cases hdeleted
        cases hid
        exact hmem

/-- Two stores with the same under each id show the same. -/
theorem loadSyncState_perm {data data' : SavedForwardData} (h : data.WellFormed)
    (h' : data'.WellFormed) (hsame : ∀ id, data.activeEntry last id = data'.activeEntry last id) :
    (loadSyncState last data).1.Perm (loadSyncState last data').1 ∧
      (loadSyncState last data).2.Perm (loadSyncState last data').2 := by
  obtain ⟨hforwards, htombstones⟩ := h.loadSyncState_iff last
  obtain ⟨hforwards', htombstones'⟩ := h'.loadSyncState_iff last
  constructor
  · rw [List.perm_ext_iff_of_nodup (h.nodup_loadSyncState last).1 (h'.nodup_loadSyncState last).1]
    intro forward
    rw [hforwards, hforwards', hsame]
  · rw [List.perm_ext_iff_of_nodup (h.nodup_loadSyncState last).2 (h'.nodup_loadSyncState last).2]
    intro tombstone
    rw [htombstones, htombstones', hsame]

theorem Exchange.applyAll (h : Exchange timestamps validOwners last snapshots)
    (hrun : Applies run last snapshots) (hstore : store.data.WellFormed) :
    ∃ merged, applyAll codec timestamps validOwners run store = .ok merged ∧
      merged.data.WellFormed ∧
      ∀ id, merged.data.activeEntry last id =
        (received timestamps id snapshots.flatten).foldl (keep Entry.rank)
          (store.data.activeEntry last id) := by
  obtain ⟨merged, hmerged, hwell, hentry⟩ := @applyAll_activeEntry φ codec timestamps validOwners
    last run store hstore fun application happlication =>
      ⟨hrun.now_le application happlication,
        h.of_mem ((hrun.just _).mp (List.mem_map_of_mem happlication))⟩
  refine ⟨merged, hmerged, hwell, fun id => ?_⟩
  have hmem : ∀ entry, entry ∈ received timestamps id snapshots.flatten ↔
      entry ∈ received timestamps id (run.map (·.records)).flatten := by
    intro entry
    simp only [mem_received, List.mem_flatten, hrun.just]
  rw [hentry]
  exact (foldl_keep_congr (fun _ ha _ hb => h.eq_of_rank_eq ha hb) hmem).symm

/--
**Snapshots merge by the last writer.** Whatever the order in which they are applied, and however
often, the store ends with the latest entry for each id, of its own and of the received ones.
-/
theorem snapshots_merge (h : Exchange timestamps validOwners last snapshots)
    (hrun : Applies run last snapshots) (hstore : store.data.WellFormed) :
    ∃ merged, applyAll codec timestamps validOwners run store = .ok merged ∧
      -- what is shown is what is under the ids
      (∀ forward, forward ∈ (loadSyncState last merged.data).1 ↔
        forward.ownerConnectionId.isSome ∧
          merged.data.activeEntry last forward.id = some (.live forward)) ∧
      (∀ tombstone, tombstone ∈ (loadSyncState last merged.data).2 ↔
        merged.data.activeEntry last tombstone.id = some (.deleted tombstone.deletedAt)) ∧
      -- and this is the latest
      (∀ id entry, merged.data.activeEntry last id = some entry →
        IsLatest Entry.rank (store.data.activeEntry last id)
          (received timestamps id snapshots.flatten) entry) ∧
      (∀ id, merged.data.activeEntry last id = none →
        store.data.activeEntry last id = none ∧ received timestamps id snapshots.flatten = []) ∧
      -- a deletion stands against older records, a forward against older deletions
      (∀ id entry, store.data.activeEntry last id = some entry →
        (∀ other ∈ received timestamps id snapshots.flatten, other.rank < entry.rank) →
        merged.data.activeEntry last id = some entry) ∧
      -- another run ends in the same
      ∀ run' merged', Applies run' last snapshots →
        applyAll codec timestamps validOwners run' store = .ok merged' →
        (loadSyncState last merged.data).1.Perm (loadSyncState last merged'.data).1 ∧
          (loadSyncState last merged.data).2.Perm (loadSyncState last merged'.data).2 := by
  obtain ⟨merged, hmerged, hwell, hentry⟩ := @Exchange.applyAll φ codec timestamps validOwners store
    last snapshots run h hrun hstore
  obtain ⟨hforwards, htombstones⟩ := hwell.loadSyncState_iff last
  refine ⟨merged, hmerged, hforwards, htombstones, ?_, ?_, ?_, ?_⟩
  · intro id entry hid
    rw [hentry] at hid
    exact isLatest_of_foldl hid
  · intro id hid
    rw [hentry] at hid
    exact foldl_keep_eq_none.mp hid
  · intro id entry hid hlt
    rw [hentry, hid]
    exact foldl_keep_of_forall_lt hlt
  · intro run' merged' hrun' hmerged'
    obtain ⟨other, hother, hwell', hentry'⟩ := @Exchange.applyAll φ codec timestamps validOwners
      store last snapshots run' h hrun' hstore
    cases hmerged'.symm.trans hother
    exact loadSyncState_perm hwell hwell' fun id => (hentry id).trans (hentry' id).symm

end Runs

/-! ## One forward, exported and applied -/

def sampleData : SavedForwardData where
  forwards := [sampleForward ['f'] (some ['c'])]
  tombstones := []

def sampleRecord : SavedForwardSyncRecord :=
  buildSavedForwardSyncRecord epochTimestamps (sampleForward ['f'] (some ['c']))

/-- To an empty store, twice. -/
theorem snapshots_merge_sample :
    ∃ merged, applyAll plainCodec epochTimestamps [['c']]
      [⟨[sampleRecord], 0⟩, ⟨[sampleRecord], 0⟩] ⟨.default, none⟩ = .ok merged ∧
      ∀ id entry, merged.data.activeEntry 0 id = some entry →
        IsLatest Entry.rank none (received epochTimestamps id [sampleRecord]) entry := by
  have hrecord : ∀ {record}, record ∈ [[sampleRecord]].flatten → record = sampleRecord :=
    fun hmem => List.mem_singleton.mp hmem
  have h : Exchange epochTimestamps [['c']] 0 [[sampleRecord]] := by
    refine ⟨fun records hmem => ?_, fun record hmem payload hpayload owner howner => ?_,
      fun record hmem time htime => ?_, fun record hmem other hother _ _ _ _ => ?_⟩
    · exact ⟨0, sampleData, ⟨List.nodup_singleton _, List.nodup_nil, fun _ _ => List.not_mem_nil⟩,
        List.mem_singleton.mp hmem⟩
    · cases hrecord hmem
      cases hpayload
      cases howner
      exact List.mem_cons_self
    · cases hrecord hmem
      obtain rfl : time = 0 := (Option.some.inj htime).symm
      decide
    · cases hrecord hmem
      cases hrecord hother
      rfl
  have hrun : Applies [⟨[sampleRecord], 0⟩, ⟨[sampleRecord], 0⟩] 0 [[sampleRecord]] := by
    refine ⟨fun records => ?_, fun application happlication => ?_⟩
    · simp
    · simp only [List.mem_cons, List.not_mem_nil, or_false, or_self] at happlication
      rw [happlication]
  obtain ⟨merged, hmerged, -, -, hlatest, -⟩ :=
    @snapshots_merge SavedForwardData plainCodec epochTimestamps [['c']] ⟨.default, none⟩ 0
      [[sampleRecord]] _ h hrun wellFormed_default
  exact ⟨merged, hmerged, hlatest⟩

end OxideTerm.Forwarding
