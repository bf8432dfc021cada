import OxideTerm.Fernomade.Properties.Compaction

/-!
# Applying a batch

A batch is checked, its growth is estimated and only then it is applied. Whatever the batch holds,
a refused one leaves no trace. An accepted one keeps the counters equal to what the history holds
and within the limits, and the history is enough to rebuild the state.
-/

namespace OxideTerm.Fernomade

open OxideTerm.Lib

/-! ## What a history counts and replays -/

def StateOperation.byteCount : StateOperation → Nat
  | .hostBytes bytes => bytes.length
  | _ => 0

def hostByteCount (operations : List StateOperation) : Nat :=
  (operations.map StateOperation.byteCount).sum

@[simp] theorem hostByteCount_nil : hostByteCount [] = 0 := rfl

@[simp] theorem hostByteCount_append (xs ys : List StateOperation) :
    hostByteCount (xs ++ ys) = hostByteCount xs + hostByteCount ys := by
  unfold hostByteCount
  rw [List.map_append, List.sum_append]

theorem hostByteCount_reverse (operations : List StateOperation) :
    hostByteCount operations.reverse = hostByteCount operations := by
  unfold hostByteCount
  rw [List.map_reverse, List.sum_reverse]

@[simp] theorem hostByteCount_hostBytesOperation (bytes : Bytes) :
    hostByteCount (hostBytesOperation bytes) = bytes.length := by
  unfold hostBytesOperation
  split
  · next h => rw [h]; rfl
  · exact Nat.add_zero _

theorem length_hostBytesOperation (bytes : Bytes) :
    (hostBytesOperation bytes).length = if bytes = [] then 0 else 1 := by
  unfold hostBytesOperation
  split <;> rfl

@[simp] theorem hostByteCount_resizeOperation (viewport : ViewportSize)
    (next : Option ViewportSize) : hostByteCount (resizeOperation viewport next) = 0 := by
  unfold resizeOperation
  split
  · rfl
  · split <;> rfl

@[simp] theorem hostByteCount_sessionControl (control : Option SessionControl) :
    hostByteCount (control.map StateOperation.sessionControl).toList = 0 := by
  cases control <;> rfl

/-- The viewport after an operation. -/
def resized (viewport : ViewportSize) : StateOperation → ViewportSize
  | .resize columns rows => { columns := columns.toUInt64, rows := rows.toUInt64 }
  | _ => viewport

/-- The viewport that a replay of the operations ends with. -/
def replayedViewport (viewport : ViewportSize) (operations : List StateOperation) : ViewportSize :=
  operations.foldl resized viewport

theorem replayedViewport_append (viewport : ViewportSize) (xs ys : List StateOperation) :
    replayedViewport viewport (xs ++ ys) = replayedViewport (replayedViewport viewport xs) ys :=
  List.foldl_append

theorem replayedViewport_hostBytesOperation (viewport : ViewportSize) (bytes : Bytes) :
    replayedViewport viewport (hostBytesOperation bytes) = viewport := by
  unfold hostBytesOperation
  split <;> rfl

/-! ## The estimate -/

theorem length_resizeOperation (viewport : ViewportSize) (next : Option ViewportSize) :
    (resizeOperation viewport next).length = if viewport ≠ next.getD viewport then 1 else 0 := by
  cases next with
  | none => simp [resizeOperation]
  | some next =>
    by_cases h : next = viewport
    · simp [resizeOperation, h]
    · simp [resizeOperation, h, Ne.symm h]

theorem length_sessionControl (control : Option SessionControl) :
    (control.map StateOperation.sessionControl).toList.length =
      if control.isSome then 1 else 0 := by
  cases control <;> rfl

/-- What an instruction counts for. -/
theorem hostByteCount_instruction (viewport : ViewportSize) (i : Instruction) :
    hostByteCount (i.operations viewport) =
      (i.bytes.map fun bytes => bytes.value.length).getD 0 := by
  unfold Instruction.operations
  rw [hostByteCount_append, hostByteCount_append, hostByteCount_hostBytesOperation,
    hostByteCount_resizeOperation, hostByteCount_sessionControl]
  cases i.bytes <;> rfl

theorem length_instruction (viewport : ViewportSize) (i : Instruction) :
    (i.operations viewport).length =
      (if (i.bytes.map fun bytes => bytes.value.length).getD 0 = 0 then 0 else 1) +
        (if viewport ≠ i.viewport.getD viewport then 1 else 0) +
        (if i.sessionControl.isSome then 1 else 0) := by
  unfold Instruction.operations
  rw [List.length_append, List.length_append, length_hostBytesOperation, length_resizeOperation,
    length_sessionControl]
  cases i.bytes with
  | none => rfl
  | some bytes => simp [List.length_eq_zero_iff]

/-- **The estimate counts the operations that are applied.** -/
theorem historyGrowthFrom_ok {is : List Instruction} {bytes operations bytes' operations' : Nat}
    {viewport : ViewportSize}
    (h : historyGrowthFrom bytes operations viewport is = .ok (bytes', operations')) :
    bytes' = bytes + hostByteCount (batchOperations viewport is) ∧
      operations' = operations + (batchOperations viewport is).length := by
  induction is generalizing bytes operations viewport with
  | nil =>
    simp only [historyGrowthFrom, Except.ok.injEq, Prod.mk.injEq] at h
    exact ⟨h.1.symm, h.2.symm⟩
  | cons i rest ih =>
    simp only [historyGrowthFrom] at h
    cases hsum : checkedAdd bytes ((i.bytes.map fun bytes => bytes.value.length).getD 0) with
    | none =>
      rw [hsum] at h
      cases h
    | some sum =>
      rw [hsum] at h
      obtain ⟨ihb, iho⟩ := ih h
      have hadd : sum = bytes + (i.bytes.map fun bytes => bytes.value.length).getD 0 := by
        unfold checkedAdd at hsum
        split at hsum
        · exact (Option.some.inj hsum).symm
        · cases hsum
      rw [batchOperations, hostByteCount_append, hostByteCount_instruction, List.length_append,
        length_instruction]
      omega

namespace RemoteTerminalState

variable {T : Vt100} {E : Vte}

/-! ## What a state keeps of its history -/

/-- An empty run of bytes is not kept. -/
def isKept (operation : StateOperation) : Bool := operation ≠ .hostBytes []

/-- A parser that processes these operations, and empty runs of bytes between them. -/
def Fed (parser parser' : T.Parser) (operations : List StateOperation) : Prop :=
  ∃ inputs : List StateOperation,
    parser' = inputs.foldl replay parser ∧ inputs.filter isKept = operations

theorem Fed.refl (parser : T.Parser) : Fed parser parser [] := ⟨[], rfl, rfl⟩

theorem Fed.trans {p₁ p₂ p₃ : T.Parser} {xs ys : List StateOperation} (h₁ : Fed p₁ p₂ xs)
    (h₂ : Fed p₂ p₃ ys) : Fed p₁ p₃ (xs ++ ys) := by
  obtain ⟨is, rfl, rfl⟩ := h₁
  obtain ⟨js, rfl, rfl⟩ := h₂
  exact ⟨is ++ js, List.foldl_append.symm, List.filter_append is js⟩

theorem Fed.one (parser : T.Parser) (operation : StateOperation) :
    Fed parser (replay parser operation) ([operation].filter isKept) := ⟨[operation], rfl, rfl⟩

theorem filter_hostBytes (bytes : Bytes) :
    [StateOperation.hostBytes bytes].filter isKept = hostBytesOperation bytes := by
  unfold hostBytesOperation isKept
  by_cases h : bytes = []
  · simp [h]
  · simp [h]

/-- An emulator that does nothing on no bytes has the same state when these are left out. -/
theorem Fed.eq (hT : ∀ parser : T.Parser, T.process parser [] = parser) {parser parser' : T.Parser}
    {operations : List StateOperation} (h : Fed parser parser' operations) :
    parser' = operations.foldl replay parser := by
  obtain ⟨inputs, rfl, rfl⟩ := h
  induction inputs generalizing parser with
  | nil => rfl
  | cons input rest ih =>
    by_cases hkept : isKept input = true
    · rw [List.filter_cons_of_pos hkept]
      exact ih
    · obtain rfl : input = .hostBytes [] := by simpa [isKept] using hkept
      rw [List.filter_cons_of_neg hkept, List.foldl_cons, ← ih]
      show rest.foldl replay (T.process parser []) = _
      rw [hT]

/-- How the counters and the parser follow the history. -/
structure Tracks (s s' : RemoteTerminalState T) (operations : List StateOperation) : Prop where
  operationCount_eq : s'.history.operationCount = s.history.operationCount + operations.length
  retainedBytes_eq : s'.history.retainedBytes = s.history.retainedBytes + hostByteCount operations
  fed : Fed s.parser s'.parser operations

theorem Tracks.refl (s : RemoteTerminalState T) : Tracks s s [] := ⟨rfl, rfl, .refl _⟩

theorem Tracks.trans {s₁ s₂ s₃ : RemoteTerminalState T} {xs ys : List StateOperation}
    (h₁ : Tracks s₁ s₂ xs) (h₂ : Tracks s₂ s₃ ys) : Tracks s₁ s₃ (xs ++ ys) where
  operationCount_eq := by
    rw [h₂.operationCount_eq, h₁.operationCount_eq, List.length_append, Nat.add_assoc]
  retainedBytes_eq := by
    rw [h₂.retainedBytes_eq, h₁.retainedBytes_eq, hostByteCount_append, Nat.add_assoc]
  fed := h₁.fed.trans h₂.fed

theorem tracks_applyHostBytes (s : RemoteTerminalState T) (bytes : Bytes) :
    Tracks s (s.applyHostBytes bytes) (hostBytesOperation bytes) := by
  have hfed := Fed.one s.parser (.hostBytes bytes)
  rw [filter_hostBytes] at hfed
  unfold applyHostBytes
  by_cases h : bytes = []
  · subst h
    exact ⟨rfl, rfl, hfed⟩
  · simp only [if_neg h]
    refine ⟨?_, ?_, hfed⟩
    · rw [length_hostBytesOperation, if_neg h]
      rfl
    · rw [hostByteCount_hostBytesOperation]
      rfl

theorem tracks_applyResize (s : RemoteTerminalState T) {viewport : ViewportSize} {c r : UInt16}
    (hc : u16TryFrom viewport.columns = some c) (hr : u16TryFrom viewport.rows = some r) :
    Tracks s (s.applyResize c r) (resizeOperation s.viewport (some viewport)) := by
  obtain ⟨hc', hcv⟩ := u16TryFrom_eq_some hc
  obtain ⟨hr', hrv⟩ := u16TryFrom_eq_some hr
  have hoperation : resizeOperation s.viewport (some viewport) =
      if viewport = s.viewport then [] else [.resize c r] := by
    rw [hc', hr']
    rfl
  rw [applyResize, hcv, hrv, hoperation]
  by_cases h : viewport = s.viewport
  · rw [if_pos ⟨by rw [h], by rw [h]⟩, if_pos h]
    exact .refl s
  · have hother : ¬ (s.viewport.columns = viewport.columns ∧ s.viewport.rows = viewport.rows) := by
      rintro ⟨hcolumns, hrows⟩
      refine h ?_
      cases viewport
      cases hs : s.viewport
      rw [hs] at hcolumns hrows
      rw [ViewportSize.mk.injEq]
      exact ⟨hcolumns.symm, hrows.symm⟩
    rw [if_neg hother, if_neg h]
    exact ⟨rfl, rfl, Fed.one s.parser (.resize c r)⟩

theorem tracks_applyByteRun (s : RemoteTerminalState T) (bytes : Option ByteRun) :
    Tracks s (s.applyByteRun bytes) (hostBytesOperation ((bytes.map ByteRun.value).getD [])) := by
  cases bytes with
  | none => exact .refl s
  | some bytes => exact tracks_applyHostBytes s bytes.value

theorem tracks_applyViewport {s s' : RemoteTerminalState T} {next : Option ViewportSize}
    (h : s.applyViewport next = (s', .ok ())) :
    Tracks s s' (resizeOperation s.viewport next) := by
  unfold applyViewport at h
  split at h
  · cases h
    exact .refl s
  · split at h
    · next hc hr =>
      cases h
      exact tracks_applyResize s hc hr
    · exact nomatch h

theorem tracks_applySessionControl (s : RemoteTerminalState T) (control : Option SessionControl) :
    Tracks s (s.applySessionControl control)
      (control.map StateOperation.sessionControl).toList := by
  cases control with
  | none => exact .refl s
  | some control => exact ⟨rfl, rfl, Fed.one s.parser (.sessionControl control)⟩

theorem tracks_applyMarker (s : RemoteTerminalState T) (marker : Option Marker) :
    Tracks s (s.applyMarker marker) [] := by
  cases marker with
  | none => exact .refl s
  | some marker => exact ⟨rfl, rfl, .refl _⟩

theorem tracks_applyInstruction {s s' : RemoteTerminalState T} {i : Instruction}
    (h : s.applyInstruction i = (s', .ok ())) : Tracks s s' (i.operations s.viewport) := by
  unfold applyInstruction at h
  split at h
  · exact nomatch h
  · next s₂ hview =>
    cases h
    have hbytes := tracks_applyByteRun s i.bytes
    have hviewport := tracks_applyViewport hview
    rw [(growsBy_applyByteRun s i.bytes).viewport_eq] at hviewport
    have hmarker := (hbytes.trans hviewport).trans (tracks_applyMarker s₂ i.marker)
    rw [List.append_nil] at hmarker
    exact hmarker.trans (tracks_applySessionControl _ i.sessionControl)

/-- **The counters and the parser follow the operations of the batch.** -/
theorem tracks_applyInstructions : ∀ {is : List Instruction} {s s' : RemoteTerminalState T},
    s.applyInstructions is = (s', .ok ()) →
    (∀ i ∈ is, ∀ viewport, i.viewport = some viewport →
      validateViewport viewport.columns viewport.rows = .ok ()) →
    Tracks s s' (batchOperations s.viewport is)
  | [], s, s', h, _ => by
    cases h
    exact .refl s
  | i :: rest, s, s', h, hvalid => by
    obtain ⟨s₁, hs₁, hgrows⟩ := growsBy_applyInstruction s (hvalid i List.mem_cons_self)
    unfold applyInstructions at h
    rw [hs₁] at h
    have hrest := tracks_applyInstructions h fun j hj => hvalid j (List.mem_cons_of_mem _ hj)
    rw [hgrows.viewport_eq] at hrest
    exact (tracks_applyInstruction hs₁).trans hrest

/-! ## Reachable states -/

theorem replayedViewport_resizeOperation (viewport : ViewportSize) {next : Option ViewportSize}
    (h : ∀ size, next = some size → validateViewport size.columns size.rows = .ok ()) :
    replayedViewport viewport (resizeOperation viewport next) = next.getD viewport := by
  cases next with
  | none => rfl
  | some next =>
    obtain ⟨c, r, hc, hr, -⟩ := validateViewport_ok (h next rfl)
    obtain ⟨hc', hcv⟩ := u16TryFrom_eq_some hc
    obtain ⟨hr', hrv⟩ := u16TryFrom_eq_some hr
    have hoperation : resizeOperation viewport (some next) =
        if next = viewport then [] else [.resize c r] := by
      rw [hc', hr']
      rfl
    rw [hoperation]
    split
    · next heq => exact heq.symm
    · show ({ columns := c.toUInt64, rows := r.toUInt64 } : ViewportSize) = next
      rw [hcv, hrv]

theorem replayedViewport_instruction (viewport : ViewportSize) {i : Instruction}
    (h : ∀ size, i.viewport = some size → validateViewport size.columns size.rows = .ok ()) :
    replayedViewport viewport (i.operations viewport) = i.viewport.getD viewport := by
  have hcontrol (control : Option SessionControl) (viewport : ViewportSize) :
      replayedViewport viewport (control.map StateOperation.sessionControl).toList = viewport := by
    cases control <;> rfl
  rw [Instruction.operations, replayedViewport_append, replayedViewport_append,
    replayedViewport_hostBytesOperation, replayedViewport_resizeOperation viewport h, hcontrol]

theorem replayedViewport_batch : ∀ {is : List Instruction} (viewport : ViewportSize),
    (∀ i ∈ is, ∀ size, i.viewport = some size →
      validateViewport size.columns size.rows = .ok ()) →
    replayedViewport viewport (batchOperations viewport is) = batchViewport viewport is
  | [], _, _ => rfl
  | i :: rest, viewport, h => by
    rw [batchOperations, replayedViewport_append,
      replayedViewport_instruction viewport (h i List.mem_cons_self)]
    exact replayedViewport_batch _ fun j hj => h j (List.mem_cons_of_mem _ hj)

/-- The viewport of a new parser. -/
def initialViewport (s : RemoteTerminalState T) : ViewportSize where
  columns := s.initialColumns.toUInt64
  rows := s.initialRows.toUInt64

/-- What every reachable state keeps. -/
structure Sound (s : RemoteTerminalState T) : Prop where
  operationCount_eq : s.history.operationCount = s.history.nodes.length
  retainedBytes_eq : s.history.retainedBytes = hostByteCount s.history.nodes
  operationCount_le : s.history.operationCount ≤ maxRetainedOperations
  retainedBytes_le : s.history.retainedBytes ≤ maxRetainedHostBytes
  viewport_eq : replayedViewport s.initialViewport s.history.operations = s.viewport

theorem length_operations (history : StateHistory) :
    history.operations.length = history.nodes.length := List.length_reverse

theorem hostByteCount_operations (history : StateHistory) :
    hostByteCount history.operations = hostByteCount history.nodes :=
  hostByteCount_reverse history.nodes

/-- A state whose growth was found to fit. -/
theorem Sound.of_grows {s s' : RemoteTerminalState T} {batch : InstructionBatch}
    {bytes operations : Nat} (hs : Sound s)
    (hvalid : ∀ i ∈ batch.instructions, ∀ size, i.viewport = some size →
      validateViewport size.columns size.rows = .ok ())
    (hgrowth : historyGrowth batch s.viewport = .ok (bytes, operations))
    (hfits : validateHistorySize s.history.retainedBytes s.history.operationCount bytes operations =
      .ok ())
    (hgrows : GrowsBy s s' (batchOperations s.viewport batch.instructions)
      (batchViewport s.viewport batch.instructions))
    (htracks : Tracks s s' (batchOperations s.viewport batch.instructions)) : Sound s' := by
  obtain ⟨hbytes, hoperations⟩ := historyGrowthFrom_ok hgrowth
  obtain ⟨hbytesFit, hoperationsFit⟩ := validateHistorySize_ok_iff.mp hfits
  rw [Nat.zero_add] at hbytes hoperations
  refine ⟨?_, ?_, ?_, ?_, ?_⟩
  · rw [htracks.operationCount_eq, hs.operationCount_eq, ← length_operations,
      ← length_operations, hgrows.operations_eq, List.length_append]
  · rw [htracks.retainedBytes_eq, hs.retainedBytes_eq, ← hostByteCount_operations,
      ← hostByteCount_operations, hgrows.operations_eq, hostByteCount_append]
  · rw [htracks.operationCount_eq, ← hoperations]
    exact hoperationsFit
  · rw [htracks.retainedBytes_eq, ← hbytes]
    exact hbytesFit
  · have hinitial : s'.initialViewport = s.initialViewport := by
      unfold initialViewport
      rw [hgrows.initialColumns_eq, hgrows.initialRows_eq]
    rw [hinitial, hgrows.operations_eq, replayedViewport_append, hs.viewport_eq,
      replayedViewport_batch _ hvalid, hgrows.viewport_eq]

/-- A state whose history is replaced by a snapshot, with the estimate that was checked for it. -/
theorem sound_of_compactedHistory {s : RemoteTerminalState T} {batch : InstructionBatch}
    {history : StateHistory} {columns rows : UInt16}
    (h : s.compactedHistory E batch = .ok (history, columns, rows)) :
    Sound { s with history, initialColumns := columns, initialRows := rows } ∧
      ∃ bytes operations, historyGrowth batch s.viewport = .ok (bytes, operations) ∧
        validateHistorySize history.retainedBytes history.operationCount bytes operations = .ok () := by
  have hoperations := operations_of_compactedHistory h
  unfold compactedHistory at h
  split at h
  · exact nomatch h
  · dsimp only at h
    split at h
    · exact nomatch h
    · next bytes operations hgrowth =>
      split at h
      · exact nomatch h
      · next hfits =>
        split at h
        · next c r hc hr =>
          simp only [Except.ok.injEq, Prod.mk.injEq] at h
          obtain ⟨rfl, rfl, rfl⟩ := h
          obtain ⟨hbytesFit, hoperationsFit⟩ := validateHistorySize_ok_iff.mp hfits
          refine ⟨⟨?_, ?_, ?_, ?_, ?_⟩, bytes, operations, hgrowth, hfits⟩
          · exact (length_hostBytesOperation _).symm
          · exact (hostByteCount_hostBytesOperation _).symm
          · exact (Nat.le_add_right _ _).trans hoperationsFit
          · exact (Nat.le_add_right _ _).trans hbytesFit
          · rw [hoperations, replayedViewport_hostBytesOperation]
            obtain ⟨-, hcv⟩ := u16TryFrom_eq_some hc
            obtain ⟨-, hrv⟩ := u16TryFrom_eq_some hr
            show ({ columns := c.toUInt64, rows := r.toUInt64 } : ViewportSize) = s.viewport
            rw [hcv, hrv]
        · exact nomatch h

theorem apply_eq_of_fits {s s' : RemoteTerminalState T} {batch : InstructionBatch}
    (h : s.apply E batch = (s', .ok ())) (hfits : s.validateHistoryGrowth batch = .ok ()) :
    s.applyInstructions batch.instructions = (s', .ok ()) := by
  unfold apply at h
  split at h
  · exact nomatch h
  · split at h
    · exact nomatch h
    · rwa [hfits] at h

theorem apply_eq_of_compacted {s s' : RemoteTerminalState T} {batch : InstructionBatch}
    {e : StateError} {history : StateHistory} {columns rows : UInt16}
    (h : s.apply E batch = (s', .ok ())) (hfull : s.validateHistoryGrowth batch = .error e)
    (hcompact : s.compactedHistory E batch = .ok (history, columns, rows)) :
    ({ s with history, initialColumns := columns, initialRows := rows } :
      RemoteTerminalState T).applyInstructions batch.instructions = (s', .ok ()) := by
  unfold apply at h
  split at h
  · exact nomatch h
  · split at h
    · exact nomatch h
    · rwa [hfull, hcompact] at h

/-- **A batch is applied as a whole or not at all.** -/
theorem sound_apply {s : RemoteTerminalState T} (hs : Sound s) (batch : InstructionBatch) :
    (∃ e, s.apply E batch = (s, .error e)) ∨
      (s.apply E batch).2 = .ok () ∧ Sound (s.apply E batch).1 := by
  rcases apply_cases E s batch with ⟨e, h⟩ | ⟨s', h, hfits, hview, hgrow⟩ |
    ⟨s', e, history, columns, rows, h, hfull, hview, hcompact, hgrow⟩
  · exact .inl ⟨e, h⟩
  · right
    rw [h]
    have hvalid := validateViewports_ok hview
    have htracks := tracks_applyInstructions (apply_eq_of_fits h hfits) hvalid
    unfold validateHistoryGrowth at hfits
    split at hfits
    · exact nomatch hfits
    · next bytes operations hgrowth =>
      exact ⟨rfl, hs.of_grows hvalid hgrowth hfits hgrow htracks⟩
  · right
    rw [h]
    have hvalid := validateViewports_ok hview
    have htracks := tracks_applyInstructions (apply_eq_of_compacted h hfull hcompact) hvalid
    obtain ⟨hcompacted, bytes, operations, hgrowth, hfits⟩ := sound_of_compactedHistory hcompact
    exact ⟨rfl, hcompacted.of_grows hvalid hgrowth hfits hgrow htracks⟩

theorem sound_new {columns rows : UInt16} {s : RemoteTerminalState T}
    (h : RemoteTerminalState.new columns rows = .ok s) : Sound s := by
  unfold RemoteTerminalState.new at h
  split at h
  · exact nomatch h
  · cases h
    exact ⟨rfl, rfl, Nat.zero_le _, Nat.zero_le _, rfl⟩

theorem Reachable.sound {s : RemoteTerminalState T} (h : Reachable E s) : Sound s := by
  induction h with
  | new h => exact sound_new h
  | apply batch _ ih =>
    rcases sound_apply ih batch with ⟨e, h⟩ | ⟨-, h⟩
    · rwa [h]
    · exact h
  | clone _ ih => exact ⟨ih.operationCount_eq, ih.retainedBytes_eq, ih.operationCount_le,
      ih.retainedBytes_le, ih.viewport_eq⟩

/-! ## Rebuilding a state -/

/-- The states whose history has never been replaced by a snapshot. -/
inductive KeptWhole (E : Vte) : RemoteTerminalState T → Prop where
  | new {columns rows : UInt16} {s : RemoteTerminalState T} :
    RemoteTerminalState.new columns rows = .ok s → KeptWhole E s
  | apply {s : RemoteTerminalState T} (batch : InstructionBatch) :
    KeptWhole E s → s.validateHistoryGrowth batch = .ok () → KeptWhole E (s.apply E batch).1
  | clone {s : RemoteTerminalState T} : KeptWhole E s → KeptWhole E s.clone

theorem KeptWhole.reachable {s : RemoteTerminalState T} (h : KeptWhole E s) : Reachable E s := by
  induction h with
  | new h => exact .new h
  | apply batch _ _ ih => exact .apply batch ih
  | clone _ ih => exact .clone ih

/-- The parser of a state has processed what the history holds. -/
theorem KeptWhole.fed {s : RemoteTerminalState T} (h : KeptWhole E s) :
    Fed (T.new s.initialRows s.initialColumns) s.parser s.history.operations := by
  induction h with
  | new h =>
    unfold RemoteTerminalState.new at h
    split at h
    · exact nomatch h
    · cases h
      exact .refl _
  | @apply s batch _ hfits ih =>
    rcases apply_cases E s batch with ⟨e, h⟩ | ⟨s', h, -, hview, hgrow⟩ |
      ⟨s', e, history, columns, rows, h, hfull, -, -, -⟩
    · rwa [h]
    · rw [h]
      have htracks := tracks_applyInstructions (apply_eq_of_fits h hfits) (validateViewports_ok hview)
      rw [hgrow.operations_eq, hgrow.initialColumns_eq, hgrow.initialRows_eq]
      exact ih.trans htracks.fed
    · exact nomatch hfits.symm.trans hfull
  | @clone s h _ =>
    refine ⟨s.history.operations, rfl, List.filter_eq_self.mpr ?_⟩
    intro operation hmem
    have hne : operation ≠ .hostBytes [] := by
      rintro rfl
      exact h.reachable.noEmptyBytes hmem
    exact decide_eq_true hne

end RemoteTerminalState

/-- The size of a screen can be read off the emulator. It changes in no other way. -/
structure Vt100.Sized (T : Vt100) (size : T.Parser → UInt16 × UInt16) : Prop where
  new : ∀ rows columns, size (T.new rows columns) = (rows, columns)
  process : ∀ parser bytes, size (T.process parser bytes) = size parser
  setSize : ∀ parser rows columns, size (T.setSize parser rows columns) = (rows, columns)

/-- Rows and columns as a viewport. -/
def viewportOf (size : UInt16 × UInt16) : ViewportSize where
  columns := size.2.toUInt64
  rows := size.1.toUInt64

namespace RemoteTerminalState

variable {T : Vt100} {E : Vte}

theorem viewportOf_replay {size : T.Parser → UInt16 × UInt16} (hsize : T.Sized size) :
    ∀ (operations : List StateOperation) (parser : T.Parser),
    viewportOf (size (operations.foldl replay parser)) =
      replayedViewport (viewportOf (size parser)) operations
  | [], _ => rfl
  | operation :: rest, parser => by
    rw [List.foldl_cons, viewportOf_replay hsize rest]
    cases operation with
    | hostBytes bytes =>
      show replayedViewport (viewportOf (size (T.process parser bytes))) rest = _
      rw [hsize.process]
      rfl
    | resize columns rows =>
      show replayedViewport (viewportOf (size (T.setSize parser rows columns))) rest = _
      rw [hsize.setSize]
      rfl
    | sessionControl control => rfl

/-- What a clone has in common with the state. -/
structure Rebuilds (E : Vte) (s : RemoteTerminalState T) : Prop where
  viewport_eq : ∀ size, T.Sized size → viewportOf (size s.clone.parser) = s.viewport
  /-- The parser has processed what a clone processes, with empty runs of bytes between. -/
  fed : KeptWhole E s → Fed (T.new s.initialRows s.initialColumns) s.parser s.history.operations
  parser_eq : KeptWhole E s → (∀ parser : T.Parser, T.process parser [] = parser) →
    s.clone.parser = s.parser

theorem Sound.rebuilds {s : RemoteTerminalState T} (h : Sound s) : Rebuilds E s where
  viewport_eq := by
    intro size hsize
    rw [clone, viewportOf_replay hsize, hsize.new]
    exact h.viewport_eq
  fed := KeptWhole.fed
  parser_eq := by
    intro hwhole hT
    exact (hwhole.fed.eq hT).symm

/--
**Application is atomic and bounded.**

A refused batch leaves the state as it was. After an accepted one the counters are those of the
history and within the limits, and a replay of the history rebuilds the state.
-/
theorem apply_atomic_and_bounded {s : RemoteTerminalState T} (h : Reachable E s)
    (batch : InstructionBatch) :
    (∀ e, (s.apply E batch).2 = .error e → (s.apply E batch).1 = s) ∧
      ((s.apply E batch).2 = .ok () →
        Sound (s.apply E batch).1 ∧ Rebuilds E (s.apply E batch).1) := by
  rcases sound_apply h.sound batch with ⟨e, herror⟩ | ⟨hok, hsound⟩
  · rw [herror]
    exact ⟨fun _ _ => rfl, nofun⟩
  · rw [hok]
    exact ⟨nofun, fun _ => ⟨hsound, hsound.rebuilds⟩⟩

def greeting : InstructionBatch where
  instructions := [hostBytesInstruction [104, 105], viewportInstruction 100 40]

theorem apply_atomic_and_bounded_greeting :
    Sound ((create 80 24 : RemoteTerminalState Reference.vt100).apply Reference.vte greeting).1 ∧
      Rebuilds Reference.vte
        ((create 80 24 : RemoteTerminalState Reference.vt100).apply Reference.vte greeting).1 :=
  (apply_atomic_and_bounded (.new (show RemoteTerminalState.new 80 24 = .ok _ from rfl))
    greeting).2 rfl

end RemoteTerminalState

end OxideTerm.Fernomade
