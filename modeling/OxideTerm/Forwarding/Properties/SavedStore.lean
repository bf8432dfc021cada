import OxideTerm.Forwarding.Properties.WellFormed

/-!
# The store over whole runs

Every run keeps the data well formed, and the file as a text of the data, as long as a snapshot's
live records go under the ids of their payloads, a resolved set keeps away from the forwards of
sessions, and no write fails once the file was replaced. What fails changes nothing, and a
checkpoint that is restored is there again.
-/

namespace OxideTerm.Forwarding

open OxideTerm.Lib SavedForwardData SavedForwardStore

variable {φ : Type} {timestamps : Timestamps} {codec : DataCodec φ}

/-! ## Updates -/

/-- What a step asks of the data it finds. Fresh ids are what the generator promises. -/
def Operation.Meets (operation : Operation) (data : SavedForwardData) : Prop :=
  match operation with
  | applyOwnedForwardImportRecords fresh _ _ _ _ => Fresh fresh data.ids
  | applySnapshot records _ => PayloadsMatch data records
  | replaceResolved records _ => AvoidsSessions data records
  | _ => True

/-- Every update keeps the data well formed. -/
theorem Operation.wellFormed_update {operation : Operation} {now : Int}
    {data candidate : SavedForwardData} {persists : Bool} (h : data.WellFormed)
    (hmeets : operation.Meets data)
    (heq : operation.update timestamps now data = .ok ((), candidate, persists)) :
    candidate.WellFormed := by
  cases operation with
  | persistForward forward =>
    cases heq
    exact h.persistForward forward
  | syncPersistedForwardRule forwardId sessionId owner rule =>
    obtain ⟨⟨saved, after⟩, hafter, hresult⟩ := exists_of_bind_ok heq
    cases hresult
    exact h.syncPersistedForwardRule hafter
  | deletePersistedForward forwardId =>
    obtain ⟨hcandidate, -⟩ := Prod.mk.inj (Prod.mk.inj (Except.ok.inj heq)).2
    exact hcandidate ▸ h.deletePersistedForward now forwardId
  | deleteOwnedForwards owner =>
    cases heq
    exact h.removeOwned owner now
  | updateAutoStart forwardId autoStart =>
    obtain ⟨⟨after, changed⟩, hafter, hresult⟩ := exists_of_bind_ok heq
    cases hresult
    exact h.updateAutoStart hafter
  | updateTunnelProfile id profile =>
    obtain ⟨⟨saved, after⟩, hafter, hresult⟩ := exists_of_bind_ok heq
    cases hresult
    exact h.updateTunnelProfile hafter
  | updateTunnelGroups groups =>
    obtain ⟨⟨after, changed⟩, hafter, hresult⟩ := exists_of_bind_ok heq
    cases hresult
    exact WellFormed.updateTunnelGroups h hafter
  | bindOwnedForwardsToSession owner sessionId =>
    cases heq
    exact h.bindOwnedForwardsToSession now owner sessionId
  | applyOwnedForwardImportRecords fresh records replaceOwners mergeOwners owners =>
    obtain ⟨⟨count, after⟩, hafter, hresult⟩ := exists_of_bind_ok heq
    cases hresult
    exact h.applyOwnedForwardImportRecords hmeets hafter
  | applySnapshot records validOwners =>
    obtain ⟨⟨result, after⟩, hafter, hresult⟩ := exists_of_bind_ok heq
    obtain ⟨state, hstate, hafter⟩ := exists_of_bind_ok hafter
    cases hafter
    cases hresult
    exact h.applySnapshot hmeets hstate
  | replaceResolved records owners =>
    obtain ⟨after, hafter, hresult⟩ := exists_of_bind_ok heq
    cases hresult
    exact h.replaceResolved hmeets hafter
  | checkpoint reads =>
    cases heq
    exact h
  | replaceFromCheckpoint number =>
    cases heq
    exact h

/-- A commit stores the candidate, or leaves the store as it was. -/
theorem commitUpdateIf_cases {α : Type} {now : Int} {outcome : WriteOutcome} {update : Update α}
    {store : SavedForwardStore φ} (houtcome : outcome ≠ .failedAfter) :
    (commitUpdateIf codec now outcome update store).2 = store ∨
    ∃ result candidate, update store.data = .ok (result, candidate, true) ∧
      commitUpdateIf codec now outcome update store = (.ok result,
        let data := { candidate with tombstones := activeTombstones now candidate.tombstones }
        { data, file := some (codec.toJson data) }) := by
  rw [commitUpdateIf]
  split
  · exact .inl rfl
  · next result candidate persists hupdate =>
    cases persists with
    | false => exact .inl rfl
    | true =>
      cases outcome with
      | replaced => exact .inr ⟨result, candidate, hupdate, rfl⟩
      | failedBefore => exact .inl rfl
      | failedAfter => exact absurd rfl houtcome

theorem loadData_toJson (data : SavedForwardData) :
    loadData codec (some (codec.toJson data)) = .ok data := by
  rw [loadData, codec.fromJson_toJson]

/-! ## Runs -/

/-- The condition on a step: what it asks of the data, and that no write fails too late. -/
def Step.Meets (system : System φ) (step : Step) : Prop :=
  step.outcome ≠ .failedAfter ∧ step.operation.Meets system.store.data

/-- The data is well formed, and is what loading its file gives. -/
structure Kept (codec : DataCodec φ) (data : SavedForwardData) (file : SavedForwardFileState φ) :
    Prop where
  wellFormed : data.WellFormed
  reloads : loadData codec file = .ok data

/-- So it is in memory, and in every checkpoint that was taken. -/
structure System.Kept (codec : DataCodec φ) (system : System φ) : Prop where
  store : Forwarding.Kept codec system.store.data system.store.file
  checkpoints : ∀ checkpoint ∈ system.checkpoints,
    Forwarding.Kept codec checkpoint.data checkpoint.fileState

/-- What is seen of a step: failures change nothing, checkpoints hold and restore everything. -/
structure Atomic (event : Event (System φ) Step (Except SavedForwardError Unit)) : Prop where
  failed : ∀ error, event.output = .error error → event.post = event.pre
  taken : ∀ reads, event.label.operation = .checkpoint reads → event.output = .ok () →
    event.post.checkpoints =
      event.pre.checkpoints ++ [⟨event.pre.store.data, event.pre.store.file⟩]
  restored : ∀ number checkpoint, event.label.operation = .replaceFromCheckpoint number →
    event.pre.checkpoints[number]? = some checkpoint → event.output = .ok () →
    event.post.store.data = checkpoint.data ∧ event.post.store.file = checkpoint.fileState

/-- A commit keeps the store, and what fails leaves it. -/
theorem kept_commitUpdateIf {operation : Operation} {now : Int} {outcome : WriteOutcome}
    {store : SavedForwardStore φ} (h : Kept codec store.data store.file)
    (houtcome : outcome ≠ .failedAfter) (hmeets : operation.Meets store.data) :
    let committed := commitUpdateIf codec now outcome (operation.update timestamps now) store
    Kept codec committed.2.data committed.2.file ∧
      ∀ error, committed.1 = .error error → committed.2 = store := by
  intro committed
  rcases @commitUpdateIf_cases φ codec Unit now outcome (operation.update timestamps now) store
    houtcome with hsame | ⟨result, candidate, hupdate, hcommit⟩
  · exact ⟨hsame.symm ▸ h, fun _ _ => hsame⟩
  · have hcandidate := operation.wellFormed_update h.wellFormed hmeets hupdate
    refine ⟨?_, ?_⟩
    · show Kept codec (commitUpdateIf codec now outcome _ store).2.data
        (commitUpdateIf codec now outcome _ store).2.file
      rw [hcommit]
      exact ⟨hcandidate.activeTombstones now, loadData_toJson _⟩
    · intro error herror
      have hok : committed.1 = .ok result := congrArg Prod.fst hcommit
      rw [hok] at herror
      cases herror

/-- A restored checkpoint is in memory and in the file; a write that fails leaves both. -/
theorem replaceFromCheckpoint_cases {outcome : WriteOutcome} {store : SavedForwardStore φ}
    {checkpoint : SavedForwardCheckpoint φ} (houtcome : outcome ≠ .failedAfter) :
    store.replaceFromCheckpoint outcome checkpoint =
        (.ok (), { data := checkpoint.data, file := checkpoint.fileState }) ∨
      store.replaceFromCheckpoint outcome checkpoint = (.error .io, store) := by
  cases outcome with
  | replaced => exact .inl rfl
  | failedBefore => exact .inr rfl
  | failedAfter => exact absurd rfl houtcome

/-- **One step.** -/
theorem System.kept_step {system : System φ} {step : Step} (h : system.Kept codec)
    (hmeets : step.Meets system) :
    (system.step timestamps codec step).1.Kept codec ∧
      Atomic ((savedForwards timestamps codec).event system step) := by
  obtain ⟨operation, now, outcome⟩ := step
  obtain ⟨houtcome, hmeets⟩ := hmeets
  cases operation with
  | checkpoint reads =>
    cases reads with
    | false =>
      refine ⟨h, ⟨fun _ _ => rfl, fun _ _ hok => ?_, fun _ _ hoperation => ?_⟩⟩
      · cases hok
      · cases hoperation
    | true =>
      refine ⟨⟨h.store, fun checkpoint hmem => ?_⟩,
        ⟨fun _ herror => ?_, fun _ _ _ => rfl, fun _ _ hoperation => ?_⟩⟩
      · rcases List.mem_append.mp hmem with hmem | hmem
        · exact h.checkpoints checkpoint hmem
        · rw [List.mem_singleton.mp hmem]
          exact h.store
      · cases herror
      · cases hoperation
  | replaceFromCheckpoint number =>
    cases hnumber : system.checkpoints[number]? with
    | none =>
      have hstep : system.step timestamps codec ⟨.replaceFromCheckpoint number, now, outcome⟩ =
          (system, .ok ()) := by simp only [System.step, hnumber]
      refine ⟨hstep.symm ▸ h, ⟨fun _ _ => ?_, fun _ hoperation => ?_, fun _ _ hoperation hmem => ?_⟩⟩
      · exact congrArg Prod.fst hstep
      · cases hoperation
      · cases hoperation
        rw [Machine.event_pre, hnumber] at hmem
        cases hmem
    | some checkpoint =>
      have hkept := h.checkpoints checkpoint (List.mem_of_getElem? hnumber)
      rcases @replaceFromCheckpoint_cases φ outcome system.store checkpoint houtcome with
        hreplace | hreplace
      · have hstep : system.step timestamps codec ⟨.replaceFromCheckpoint number, now, outcome⟩ =
            ({ system with store := { data := checkpoint.data, file := checkpoint.fileState } },
              .ok ()) := by simp only [System.step, hnumber, hreplace]
        refine ⟨hstep.symm ▸ ⟨hkept, h.checkpoints⟩,
          ⟨fun _ herror => ?_, fun _ hoperation => ?_, fun _ _ hoperation hmem _ => ?_⟩⟩
        · have hok := (congrArg Prod.snd hstep).symm.trans herror
          cases hok
        · cases hoperation
        · cases hoperation
          rw [Machine.event_pre, hnumber] at hmem
          cases hmem
          have hpost := congrArg (fun result => result.1.store) hstep
          exact ⟨congrArg SavedForwardStore.data hpost, congrArg SavedForwardStore.file hpost⟩
      · have hstep : system.step timestamps codec ⟨.replaceFromCheckpoint number, now, outcome⟩ =
            (system, .error .io) := by simp only [System.step, hnumber, hreplace]
        refine ⟨hstep.symm ▸ h,
          ⟨fun _ _ => congrArg Prod.fst hstep, fun _ hoperation => ?_, fun _ _ _ _ hok => ?_⟩⟩
        · cases hoperation
        · have herror := (congrArg Prod.snd hstep).symm.trans hok
          cases herror
  | _ =>
    -- the operations that go through a commit
    obtain ⟨hkept, hfailed⟩ :=
      @kept_commitUpdateIf φ timestamps codec _ now outcome system.store h.store houtcome hmeets
    refine ⟨⟨hkept, h.checkpoints⟩,
      ⟨fun error herror => ?_, fun _ hoperation => ?_, fun _ _ hoperation => ?_⟩⟩
    · exact congrArg (fun store => { system with store }) (hfailed error herror)
    · cases hoperation
    · cases hoperation

/-- **The store is well formed and atomic in every run whose steps meet the condition.** -/
theorem savedForwards_wellFormed {steps : List Step}
    (h : (savedForwards timestamps codec).Along Step.Meets steps) :
    ((savedForwards timestamps codec).final steps).Kept codec ∧
      ∀ event ∈ (savedForwards timestamps codec).trace steps, Atomic event := by
  refine Machine.run_invariant_along (P := fun system trace => system.Kept codec ∧
    ∀ event ∈ trace, Atomic event) _ ?_ ?_ h
  · exact ⟨⟨⟨wellFormed_default, rfl⟩, fun _ hmem => absurd hmem List.not_mem_nil⟩,
      fun _ hmem => absurd hmem List.not_mem_nil⟩
  · rintro system trace step ⟨hkept, htrace⟩ hmeets
    obtain ⟨hkept', hatomic⟩ := @System.kept_step φ timestamps codec system step hkept hmeets
    refine ⟨hkept', fun event hmem => ?_⟩
    rcases List.mem_append.mp hmem with hmem | hmem
    · exact htrace event hmem
    · rw [List.mem_singleton.mp hmem]
      exact hatomic

/-! ## Runs on fixed inputs -/

def epochText : List Char :=
  ['1', '9', '7', '0', '-', '0', '1', '-', '0', '1', 'T', '0', '0', ':', '0', '0', ':', '0', '0',
    '+', '0', '0', ':', '0', '0']

def parseUnary : List Char → Option Int
  | '+' :: ones => some ones.length
  | '-' :: ones => some (-ones.length)
  | _ => none

/-- The epoch as it is printed, and other times by strokes. -/
def epochTimestamps : Timestamps where
  toRfc3339 time :=
    if time = 0 then epochText
    else (if 0 < time then '+' else '-') :: List.replicate time.natAbs '1'
  parseFromRfc3339 text := if text = epochText then some 0 else parseUnary text
  parse_toRfc3339 time := by
    by_cases h : time = 0
    · rw [if_pos h, if_pos rfl, h]
    · rw [if_neg h]
      by_cases hpos : 0 < time
      · rw [if_pos hpos, if_neg (by simp [epochText]), parseUnary, List.length_replicate]
        exact congrArg some (by omega)
      · rw [if_neg hpos, if_neg (by simp [epochText]), parseUnary, List.length_replicate]
        exact congrArg some (by omega)

/-- A file whose text is the data. -/
def plainCodec : DataCodec SavedForwardData where
  toJson data := data
  fromJson text := some text
  fromJson_toJson _ := rfl

def sampleRule (id : List Char) : ForwardRule where
  id
  forwardType := .localForward
  bindAddress := ['b']
  bindPort := 8080
  targetHost := ['t']
  targetPort := 80
  status := .stopped
  description := []

def sampleForward (id : List Char) (owner : Option (List Char)) : PersistedForward :=
  .new 0 id [] owner .localForward (sampleRule id) false

def samplePayload (id owner : List Char) : PersistedForwardDto :=
  persistedForwardToDto epochTimestamps (sampleForward id (some owner)) none

/-- A forward is kept, and a snapshot with a record of it is applied. -/
theorem savedForwards_wellFormed_sample :
    ((savedForwards epochTimestamps plainCodec).final
      [⟨.persistForward (sampleForward ['f'] (some ['c'])), 0, .replaced⟩,
        ⟨.applySnapshot [⟨['f'], epochText, false, some (samplePayload ['f'] ['c'])⟩] [['c']], 0,
          .replaced⟩]).Kept plainCodec := by
  refine (savedForwards_wellFormed ?_).1
  rw [← List.singleton_append, ← List.nil_append [(_ : Step)], Machine.along_snoc,
    Machine.along_snoc]
  refine ⟨⟨Machine.along_nil _ _, by decide, trivial⟩, by decide, fun record hrecord _ payload
    hpayload hne => absurd ?_ hne⟩
  obtain rfl := List.mem_singleton.mp hrecord
  cases hpayload
  rfl

/-- A deleted forward comes back beside its tombstone, under a record of another id. -/
theorem tombstone_of_stored_forward :
    let system := (savedForwards epochTimestamps plainCodec).final
      [⟨.persistForward (sampleForward ['f'] (some ['c'])), 0, .replaced⟩,
        ⟨.deletePersistedForward ['f'], 0, .replaced⟩,
        ⟨.applySnapshot [⟨['g'], epochText, false, some (samplePayload ['f'] ['c'])⟩] [['c']], 0,
          .replaced⟩]
    ['f'] ∈ system.store.data.ids ∧ ['f'] ∈ system.store.data.buried := by
  decide +kernel

end OxideTerm.Forwarding
