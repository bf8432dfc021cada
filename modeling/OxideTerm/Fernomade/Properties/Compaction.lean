import OxideTerm.Fernomade.Client
import OxideTerm.Fernomade.Ground
import OxideTerm.Fernomade.Reference

/-!
# Compacted histories

A history that would outgrow its limits is replaced by a snapshot before a batch is applied.
The target then no longer extends the delivered state, and what the host is shown is a screen
diff. That diff is refused when either history has a resize of its own. The snapshot starts at
the current size, so the target has none, but every resize the delivered state has kept is in
the way: the update is accepted and never shown.
-/

namespace OxideTerm.Fernomade

open OxideTerm.Lib

/-- The states that come from `new`, `apply` and `clone`. -/
inductive RemoteTerminalState.Reachable {T : Vt100} (E : Vte) : RemoteTerminalState T → Prop where
  | new {columns rows : UInt16} {s : RemoteTerminalState T} :
    RemoteTerminalState.new columns rows = .ok s → Reachable E s
  | apply {s : RemoteTerminalState T} (batch : InstructionBatch) :
    Reachable E s → Reachable E (s.apply E batch).1
  | clone {s : RemoteTerminalState T} : Reachable E s → Reachable E s.clone

/-- No instruction of the batch changes the viewport. -/
def InstructionBatch.KeepsViewport (batch : InstructionBatch) (viewport : ViewportSize) : Prop :=
  ∀ i ∈ batch.instructions, ∀ next, i.viewport = some next → next = viewport

theorem batch_of_keepsViewport : ∀ {viewport : ViewportSize} {is : List Instruction},
    (∀ i ∈ is, ∀ next, i.viewport = some next → next = viewport) →
    batchViewport viewport is = viewport ∧ ∀ c r, .resize c r ∉ batchOperations viewport is
  | _, [], _ => ⟨rfl, by simp [batchOperations]⟩
  | viewport, i :: rest, h => by
    have hnext : i.viewport.getD viewport = viewport := by
      cases hi : i.viewport with
      | none => rfl
      | some next => exact h i List.mem_cons_self next hi
    have hresize : resizeOperation viewport i.viewport = [] := by
      cases hi : i.viewport with
      | none => rfl
      | some next => rw [resizeOperation, if_pos (h i List.mem_cons_self next hi)]
    obtain ⟨ihv, iho⟩ := @batch_of_keepsViewport viewport rest
      (fun j hj => h j (List.mem_cons_of_mem _ hj))
    refine ⟨by rw [batchViewport, hnext, ihv], fun c r hmem => ?_⟩
    rw [batchOperations, Instruction.operations, hnext, hresize] at hmem
    simp only [List.append_nil, List.mem_append] at hmem
    rcases hmem with (hmem | hmem) | hmem
    · unfold hostBytesOperation at hmem
      split at hmem <;> simp at hmem
    · cases hc : i.sessionControl <;> simp [hc] at hmem
    · exact iho c r hmem

namespace RemoteTerminalState

variable {T : Vt100} {E : Vte}

/-! ## Snapshots -/

/-- **A compacted history is the snapshot.** -/
theorem operations_of_compactedHistory {s : RemoteTerminalState T} {batch : InstructionBatch}
    {history : StateHistory} {columns rows : UInt16}
    (h : s.compactedHistory E batch = .ok (history, columns, rows)) :
    history.operations = hostBytesOperation (T.stateFormatted s.parser) := by
  unfold compactedHistory at h
  split at h
  · simp at h
  · dsimp only at h
    split at h
    · simp at h
    · split at h
      · simp at h
      · split at h
        · simp only [Except.ok.injEq, Prod.mk.injEq] at h
          rw [← h.1, StateHistory.operations]
          unfold hostBytesOperation
          split <;> rfl
        · simp at h

/-- No reachable history holds an empty run of bytes. -/
theorem Reachable.noEmptyBytes {s : RemoteTerminalState T} (h : Reachable E s) :
    NoEmptyBytes s.history.operations := by
  induction h with
  | new h =>
    unfold RemoteTerminalState.new at h
    split at h
    · simp at h
    · simp only [Except.ok.injEq] at h
      subst h
      simp [create, StateHistory.empty, StateHistory.operations, NoEmptyBytes]
  | @apply s batch _ ih =>
    rcases apply_cases E s batch with ⟨e, h⟩ | ⟨s', h, -, -, hgrow⟩ |
      ⟨s', e, history, columns, rows, h, -, -, hcompact, hgrow⟩ <;> rw [h]
    · exact ih
    · rw [hgrow.operations_eq, noEmptyBytes_append]
      exact ⟨ih, noEmptyBytes_batchOperations _ _⟩
    · rw [hgrow.operations_eq, noEmptyBytes_append, operations_of_compactedHistory hcompact]
      exact ⟨noEmptyBytes_hostBytesOperation _, noEmptyBytes_batchOperations _ _⟩
  | clone _ ih => exact ih

/-! ## Diffs -/

/-- **There is a diff when one history extends the other, or when both are safe.** -/
theorem diffFrom_isOk_iff (s delivered : RemoteTerminalState T) :
    (∃ diff, s.diffFrom E delivered = .ok diff) ↔
      (∃ start offset, historySuffixStart s.history.canonicalOperations
        delivered.history.canonicalOperations = .ok (start, offset)) ∨
      (s.viewport = delivered.viewport ∧ divergedHistoriesAreScreenDiffSafe E
        s.history.canonicalOperations delivered.history.canonicalOperations = true) := by
  unfold diffFrom
  dsimp only
  cases hstart : historySuffixStart s.history.canonicalOperations
      delivered.history.canonicalOperations with
  | ok r =>
    obtain ⟨start, offset⟩ := r
    exact ⟨fun _ => Or.inl ⟨start, offset, rfl⟩, fun _ => ⟨_, rfl⟩⟩
  | error e =>
    obtain rfl := historySuffixStartFrom_error hstart
    by_cases hsafe : s.viewport = delivered.viewport ∧ divergedHistoriesAreScreenDiffSafe E
        s.history.canonicalOperations delivered.history.canonicalOperations = true
    · simp [hsafe]
    · simp only [hsafe, if_false]
      simp

/-- A target without resizes cannot be shown over a history with one. -/
theorem diffFrom_of_resize {s delivered : RemoteTerminalState T}
    (hs : ∀ c r, .resize c r ∉ s.history.operations) {c r : UInt16}
    (hd : .resize c r ∈ delivered.history.operations) :
    ¬ ∃ diff, s.diffFrom E delivered = .ok diff := by
  have hs' : ∀ c r, .resize c r ∉ s.history.canonicalOperations := by
    intro c r hmem
    rw [mem_resize_iff, effectsOf_canonicalOperations, ← mem_resize_iff] at hmem
    exact hs c r hmem
  have hd' : .resize c r ∈ delivered.history.canonicalOperations := by
    rwa [mem_resize_iff, effectsOf_canonicalOperations, ← mem_resize_iff]
  rw [diffFrom_isOk_iff]
  rintro (⟨start, offset, hstart⟩ | ⟨-, hsafe⟩)
  · have heff := historySuffixStart_ok hstart
    refine hs' c r (mem_resize_iff.mpr ?_)
    rw [heff, List.mem_append]
    exact Or.inl (mem_resize_iff.mp hd')
  · rw [divergedHistoriesAreScreenDiffSafe_of_resize hs' hd'] at hsafe
    simp at hsafe

/-- A clone of a clone is the clone. -/
@[simp] theorem clone_clone (s : RemoteTerminalState T) : s.clone.clone = s.clone := rfl

/-! ## Showing the outcome of a batch -/

/-- The batch fits behind the history, or the history has no resize that a snapshot drops. -/
def CompactsSafely (s : RemoteTerminalState T) (batch : InstructionBatch) : Prop :=
  s.validateHistoryGrowth batch = .ok () ∨ ∀ c r, .resize c r ∉ s.history.operations

theorem diffFrom_apply_iff (hE : E.Lawful)
    (hsnapshot : ∀ screen, E.EndsAtGround [T.stateFormatted screen])
    {s t : RemoteTerminalState T} (hs : NoEmptyBytes s.history.operations)
    (hground : E.EndsAtGround (hostRuns s.history.operations)) {batch : InstructionBatch}
    (hkeeps : batch.KeepsViewport s.viewport)
    (hbatch : E.EndsAtGround (hostRuns (s.history.operations ++
      batchOperations s.viewport batch.instructions)))
    (happly : s.clone.apply E batch = (t, .ok ())) :
    (∃ diff, t.diffFrom E s = .ok diff) ↔ s.CompactsSafely batch := by
  obtain ⟨hviewport, hresize⟩ := batch_of_keepsViewport hkeeps
  rcases apply_cases E s.clone batch with ⟨e, h⟩ | ⟨s', h, hgrowth, -, hgrow⟩ |
    ⟨s', e, history, columns, rows, h, hgrowth, -, hcompact, hgrow⟩
  · rw [h] at happly
    simp at happly
  · -- nothing was compacted: the target extends the history
    rw [h] at happly
    obtain rfl : s' = t := congrArg Prod.fst happly
    refine ⟨fun _ => Or.inl hgrowth, fun _ => ?_⟩
    have hnonempty : NoEmptyBytes s'.history.operations := by
      rw [hgrow.operations_eq, noEmptyBytes_append]
      exact ⟨hs, noEmptyBytes_batchOperations _ _⟩
    have hextends : effectsOf s.history.operations <+: effectsOf s'.history.operations := by
      rw [hgrow.operations_eq, effectsOf_append]
      exact List.prefix_append _ _
    obtain ⟨diff, hdiff, -⟩ := diffFrom_of_extends E hnonempty hs hextends
    exact ⟨diff, hdiff⟩
  · rw [h] at happly
    obtain rfl : s' = t := congrArg Prod.fst happly
    have hops : s'.history.operations = hostBytesOperation (T.stateFormatted s.clone.parser) ++
        batchOperations s.viewport batch.instructions := by
      rw [hgrow.operations_eq, operations_of_compactedHistory hcompact, clone_viewport]
    have htarget : ∀ c r, .resize c r ∉ s'.history.operations := by
      intro c r hmem
      rw [hops, List.mem_append] at hmem
      refine hmem.elim (fun hmem => ?_) (hresize c r)
      unfold hostBytesOperation at hmem
      split at hmem <;> simp at hmem
    constructor
    · intro hdiff
      refine Or.inr fun c r hmem => ?_
      exact diffFrom_of_resize htarget hmem hdiff
    · rintro (hfits | hnone)
      · have hgrowth' : s.validateHistoryGrowth batch = .error e := hgrowth
        rw [hgrowth'] at hfits
        simp at hfits
      · -- both histories end at ground and neither has a resize
        refine (diffFrom_isOk_iff s' s).mpr (Or.inr ⟨?_, ?_⟩)
        · rw [hgrow.viewport_eq]
          exact hviewport
        · have hafter : E.EndsAtGround [effectBytes (effectsOf
              (batchOperations s.viewport batch.instructions))] := by
            rw [hE.endsAtGround_effects, effectsOf_append, effectBytes_append] at hbatch
            rw [hE.endsAtGround_effects] at hground
            exact (hE.restart _ _ hground).mp hbatch
          have hends : E.EndsAtGround [effectBytes (effectsOf s'.history.operations)] := by
            rw [hops, effectsOf_append, effectBytes_append, effectsOf_hostBytesOperation,
              effectBytes_map_byte]
            exact (hE.restart _ _ (hsnapshot _)).mpr hafter
          have hcanonical : ∀ history : StateHistory, ∀ c r,
              (.resize c r ∈ history.canonicalOperations ↔ .resize c r ∈ history.operations) :=
            fun history c r => by
              rw [mem_resize_iff, effectsOf_canonicalOperations, ← mem_resize_iff]
          refine divergedHistoriesAreScreenDiffSafe_of_no_resize hE
            (fun c r hmem => htarget c r ((hcanonical _ c r).mp hmem))
            (fun c r hmem => hnone c r ((hcanonical _ c r).mp hmem)) ?_ ?_
          · rw [hE.endsAtGround_effects, effectsOf_canonicalOperations]
            exact hends
          · rw [hE.endsAtGround_effects, effectsOf_canonicalOperations, ← hE.endsAtGround_effects]
            exact hground

end RemoteTerminalState

/-! ## The result -/

/--
**A batch that leaves the screen at ground is shown unless a snapshot drops a resize.**

The batch is applied to a clone of the delivered state and accepted there. It can be shown, and
an update that carries it advances the host, exactly when the batch fits behind the history
or the delivered history has no resize; the update also needs room among the retained states.
-/
theorem compaction_shown_iff (X : Externals) (hE : X.vte.Lawful)
    (hsnapshot : ∀ screen, X.vte.EndsAtGround [X.vt100.stateFormatted screen])
    {s t : RemoteTerminalState X.vt100} (hs : RemoteTerminalState.Reachable X.vte s)
    (hground : X.vte.EndsAtGround (hostRuns s.history.operations)) {batch : InstructionBatch}
    (hkeeps : batch.KeepsViewport s.viewport)
    (hbatch : X.vte.EndsAtGround (hostRuns (s.history.operations ++
      batchOperations s.viewport batch.instructions)))
    (happly : s.clone.apply X.vte batch = (t, .ok ())) :
    ((∃ diff, t.diffFrom X.vte s = .ok diff) ↔ s.CompactsSafely batch) ∧
    ∀ (p : ClientProtocol X) (u : StateUpdate) (base : RemoteTerminalState X.vt100),
      p.deliveredRemoteState = s → p.receivedStates[u.baseState]? = some base →
      base.clone = s.clone → p.receivedStates[u.targetState]? = none →
      u.discardBefore ≤ u.baseState → u.baseState < u.targetState →
      p.latestRemoteState < u.targetState → u.decodeInstructions X.prost = .ok batch →
      ((p.acceptRemoteUpdate u).1.latestRemoteState = u.targetState ↔
        p.HasRoom u ∧ s.CompactsSafely batch) := by
  have hdiff := RemoteTerminalState.diffFrom_apply_iff hE hsnapshot hs.noEmptyBytes hground hkeeps
    hbatch happly
  refine ⟨hdiff, ?_⟩
  intro p u base hdelivered hretained hclone hfresh hdiscard hbase hlt hdecode
  have htarget : ClientProtocol.targetStateOf base u = .ok t := by
    simp only [ClientProtocol.targetStateOf, hdecode, hclone, happly]
  have happ : p.Applies u base t := ⟨hfresh, hdiscard, hbase, hretained, htarget⟩
  rw [happ.advances_iff hlt, hdelivered, hdiff]

/-! ## Eight megabytes twice, after a resize -/

namespace Reference

/-- Plain text never leaves the ground. -/
theorem endsAtGround (runs : List Bytes) : vte.EndsAtGround runs := rfl

theorem vte_lawful : vte.Lawful where
  flatten _ := ⟨fun _ => endsAtGround _, fun _ => endsAtGround _⟩
  restart _ _ _ := ⟨fun _ => endsAtGround _, fun _ => endsAtGround _⟩

end Reference

/-- One run of host bytes. -/
def hostBytesBatch (value : Bytes) : InstructionBatch :=
  { instructions := [hostBytesInstruction value] }

theorem keepsViewport_hostBytesBatch (value : Bytes) (viewport : ViewportSize) :
    (hostBytesBatch value).KeepsViewport viewport := by
  simp [InstructionBatch.KeepsViewport, hostBytesBatch, hostBytesInstruction]

theorem historyGrowth_hostBytesBatch {value : Bytes} (hne : value ≠ []) (hlen : value.length < 2 ^ 64)
    (viewport : ViewportSize) : historyGrowth (hostBytesBatch value) viewport = .ok (value.length, 1) := by
  have hadd : checkedAdd 0 value.length = some value.length := by
    rw [checkedAdd, Nat.zero_add, if_pos hlen]
  simp [historyGrowth, historyGrowthFrom, hostBytesBatch, hostBytesInstruction, hadd, hne]

namespace RemoteTerminalState

variable {T : Vt100} {E : Vte}

/-- A run that fits is appended. -/
theorem apply_hostBytesBatch {s : RemoteTerminalState T} {value : Bytes} (hne : value ≠ [])
    (hlen : value.length < 2 ^ 64)
    (hsize : validateHistorySize s.history.retainedBytes s.history.operationCount value.length 1
      = .ok ()) :
    s.apply E (hostBytesBatch value) = (s.applyHostBytes value, .ok ()) := by
  simp [apply, validateHistoryGrowth, historyGrowth_hostBytesBatch hne hlen, hsize]
  simp [hostBytesBatch, hostBytesInstruction, validateViewports, validateMarkers, applyInstructions,
    applyInstruction, applyByteRun, applyViewport, applyMarker, applySessionControl]

end RemoteTerminalState

/-- A screen that was resized once and then filled the history. -/
def resizedState (line : Bytes) : RemoteTerminalState Reference.vt100 :=
  ((((RemoteTerminalState.create 80 24).apply Reference.vte
    { instructions := [viewportInstruction 100 40] }).1.apply Reference.vte
      (hostBytesBatch line)).1.apply Reference.vte (hostBytesBatch line)).1

theorem reachable_resizedState (line : Bytes) :
    RemoteTerminalState.Reachable Reference.vte (resizedState line) :=
  .apply _ (.apply _ (.apply _ (.new (show RemoteTerminalState.new 80 24 = .ok _ from rfl))))

theorem resizedState_eq {line : Bytes} (hlen : line.length = 2 ^ 23) :
    resizedState line = (((RemoteTerminalState.create 80 24).applyResize 100 40).applyHostBytes
      line).applyHostBytes line := by
  have hne : line ≠ [] := by
    rintro rfl
    simp at hlen
  have hresize : ((RemoteTerminalState.create 80 24).apply Reference.vte
      { instructions := [viewportInstruction 100 40] }).1 =
      (RemoteTerminalState.create (T := Reference.vt100) 80 24).applyResize 100 40 := rfl
  have hsize : ∀ {bytes operations : Nat}, bytes ≤ 2 ^ 23 → operations ≤ 2 →
      validateHistorySize bytes operations line.length 1 = .ok () := by
    intro bytes operations hb ho
    rw [validateHistorySize_ok_iff, hlen, maxRetainedHostBytes, maxRetainedOperations]
    omega
  have hfirst := RemoteTerminalState.apply_hostBytesBatch (E := Reference.vte)
    (s := (RemoteTerminalState.create (T := Reference.vt100) 80 24).applyResize 100 40) hne
    (by rw [hlen]; decide) (hsize (Nat.zero_le _) (by decide))
  have hsecond := RemoteTerminalState.apply_hostBytesBatch (E := Reference.vte)
    (s := ((RemoteTerminalState.create (T := Reference.vt100) 80 24).applyResize 100 40).applyHostBytes
      line) hne (by rw [hlen]; decide) (hsize (by
        simp [RemoteTerminalState.applyHostBytes, hne, hlen, RemoteTerminalState.applyResize,
          RemoteTerminalState.create, StateHistory.push, StateHistory.empty]) (by
        simp [RemoteTerminalState.applyHostBytes, hne, RemoteTerminalState.applyResize,
          RemoteTerminalState.create, StateHistory.push, StateHistory.empty]))
  rw [resizedState, hresize, hfirst, hsecond]

/-- What the resized screen has kept. -/
theorem history_resizedState {line : Bytes} (hlen : line.length = 2 ^ 23) :
    (resizedState line).history =
      { nodes := [.hostBytes line, .hostBytes line, .resize 100 40]
        operationCount := 3
        retainedBytes := 2 ^ 24 } ∧
    (resizedState line).viewport = { columns := 100, rows := 40 } := by
  have hne : line ≠ [] := by
    rintro rfl
    simp at hlen
  rw [resizedState_eq hlen]
  simp [RemoteTerminalState.applyHostBytes, hne, hlen, RemoteTerminalState.applyResize,
    RemoteTerminalState.create, StateHistory.push, StateHistory.empty]

/-- The snapshot of its clone is one screen of text. -/
theorem length_snapshot_resizedState {line : Bytes} (hlen : line.length = 2 ^ 23) :
    (Reference.vt100.stateFormatted (resizedState line).clone.parser).length ≤ 4000 := by
  rw [RemoteTerminalState.clone, (history_resizedState hlen).1]
  simp only [StateHistory.operations, List.reverse_cons, List.reverse_nil, List.nil_append,
    List.cons_append, List.foldl_cons, List.foldl_nil, RemoteTerminalState.replay, Reference.vt100]
  rw [Reference.Screen.crop, List.length_drop]
  have hsize : (40 : UInt16).toNat * (100 : UInt16).toNat = 4000 := by decide
  omega

/-- One more byte is applied to a clone of it, and can then not be shown. -/
theorem hidden_of_resizedState {line : Bytes} (hlen : line.length = 2 ^ 23) :
    ∃ t, (resizedState line).clone.apply Reference.vte (hostBytesBatch [0x78]) = (t, .ok ()) ∧
      ¬ ∃ diff, t.diffFrom Reference.vte (resizedState line) = .ok diff := by
  obtain ⟨hhistory, hviewport⟩ := history_resizedState hlen
  have hreach := reachable_resizedState line
  have hsnapshot := length_snapshot_resizedState hlen
  generalize resizedState line = s at hhistory hviewport hreach hsnapshot ⊢
  have hkeeps := keepsViewport_hostBytesBatch [0x78] s.viewport
  have hbatch : historyGrowth (hostBytesBatch [0x78]) s.viewport = .ok (1, 1) :=
    historyGrowth_hostBytesBatch (by simp) (by decide) _
  have hgrowth : s.validateHistoryGrowth (hostBytesBatch [0x78]) = .error .historyLimitExceeded := by
    rw [RemoteTerminalState.validateHistoryGrowth, hbatch, hhistory]
    simp only
    rw [validateHistorySize_error_iff, maxRetainedHostBytes]
    omega
  have hcompact : ∃ r, s.clone.compactedHistory Reference.vte (hostBytesBatch [0x78]) = .ok r := by
    have hground := (historyEndsAtGround_iff Reference.vte s.history.canonicalOperations).mpr
      (Reference.endsAtGround _)
    have hfits : ∀ n, n ≤ 1 → validateHistorySize
        (Reference.vt100.stateFormatted s.clone.parser).length n 1 1 = .ok () := by
      intro n hn
      rw [validateHistorySize_ok_iff, maxRetainedHostBytes, maxRetainedOperations]
      omega
    have hcolumns : u16TryFrom s.viewport.columns = some 100 := by rw [hviewport]; rfl
    have hrows : u16TryFrom s.viewport.rows = some 40 := by rw [hviewport]; rfl
    unfold RemoteTerminalState.compactedHistory
    simp only [RemoteTerminalState.clone_history, hground, RemoteTerminalState.clone_viewport, hbatch,
      hcolumns, hrows, Bool.not_true, Bool.false_eq_true, if_false]
    rw [hfits _ (by split <;> omega)]
    exact ⟨_, rfl⟩
  obtain ⟨⟨history, columns, rows⟩, hcompact⟩ := hcompact
  have happly : s.clone.apply Reference.vte (hostBytesBatch [0x78]) =
      (({ s.clone with history, initialColumns := columns, initialRows := rows } :
        RemoteTerminalState Reference.vt100).applyHostBytes [0x78], .ok ()) := by
    have hgrowth' : s.clone.validateHistoryGrowth (hostBytesBatch [0x78]) =
        .error .historyLimitExceeded := hgrowth
    simp only [RemoteTerminalState.apply, hgrowth', hcompact]
    simp only [hostBytesBatch, hostBytesInstruction, RemoteTerminalState.validateViewports,
      RemoteTerminalState.validateMarkers, RemoteTerminalState.applyInstructions,
      RemoteTerminalState.applyInstruction,
      RemoteTerminalState.applyByteRun, RemoteTerminalState.applyViewport,
      RemoteTerminalState.applyMarker, RemoteTerminalState.applySessionControl]
  refine ⟨_, happly, ?_⟩
  rw [RemoteTerminalState.diffFrom_apply_iff Reference.vte_lawful (fun _ => Reference.endsAtGround _)
    hreach.noEmptyBytes (Reference.endsAtGround _) hkeeps (Reference.endsAtGround _) happly]
  rintro (hfits | hnone)
  · rw [hgrowth] at hfits
    simp at hfits
  · refine hnone 100 40 ?_
    rw [hhistory]
    simp [StateHistory.operations]

/-- Every condition is met by a full history with a resize, and the output stays hidden. -/
theorem full_history_hides_output :
    let s := resizedState (List.replicate (2 ^ 23) 0x78)
    let batch := hostBytesBatch [0x78]
    RemoteTerminalState.Reachable Reference.vte s ∧
    Reference.vte.EndsAtGround (hostRuns s.history.operations) ∧
    batch.KeepsViewport s.viewport ∧
    Reference.vte.EndsAtGround (hostRuns (s.history.operations ++
      batchOperations s.viewport batch.instructions)) ∧
    ∃ t, s.clone.apply Reference.vte batch = (t, .ok ()) ∧
      ¬ ∃ diff, t.diffFrom Reference.vte s = .ok diff :=
  ⟨reachable_resizedState _, Reference.endsAtGround _,
    keepsViewport_hostBytesBatch _ _, Reference.endsAtGround _,
    hidden_of_resizedState List.length_replicate⟩

/-- The equivalence for the first byte on a new screen. -/
theorem compaction_shown_iff_first_byte :
    let s : RemoteTerminalState Reference.vt100 := .create 80 24
    let batch := hostBytesBatch [0x78]
    let t := (s.clone.apply Reference.vte batch).1
    ((∃ diff, t.diffFrom Reference.vte s = .ok diff) ↔ s.CompactsSafely batch) ∧
    ∀ (p : ClientProtocol Reference.externals) (u : StateUpdate)
      (base : RemoteTerminalState Reference.vt100),
      p.deliveredRemoteState = s → p.receivedStates[u.baseState]? = some base →
      base.clone = s.clone → p.receivedStates[u.targetState]? = none →
      u.discardBefore ≤ u.baseState → u.baseState < u.targetState →
      p.latestRemoteState < u.targetState → u.decodeInstructions Reference.prost = .ok batch →
      ((p.acceptRemoteUpdate u).1.latestRemoteState = u.targetState ↔
        p.HasRoom u ∧ s.CompactsSafely batch) :=
  compaction_shown_iff Reference.externals Reference.vte_lawful (fun _ => Reference.endsAtGround _)
    (.new (show RemoteTerminalState.new 80 24 = .ok _ from rfl)) (Reference.endsAtGround _)
    (keepsViewport_hostBytesBatch _ _)
    (Reference.endsAtGround _) rfl

end OxideTerm.Fernomade
