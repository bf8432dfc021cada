import OxideTerm.Fernomade.Reference
import OxideTerm.Fernomade.Remote

/-!
# Remote output is shown exactly once

Every state that is kept has a log: the log of its base, followed by the delta. While logs stay
below the history limits, the history of a state has the effects of its log. If each new state
extends the one the host was shown last, then all that the host was ever shown is the log of
that state.
-/

namespace OxideTerm.Fernomade

open OxideTerm.Lib

/-! ## Logs -/

/-- Single bytes, effective resizes and session controls, and the viewport they end with. -/
structure RemoteLog where
  effects : List HostEffect
  viewport : ViewportSize

/-- A log followed by a delta. -/
def RemoteLog.extend (log : RemoteLog) (batch : InstructionBatch) : RemoteLog where
  effects := log.effects ++ effectsOf (batchOperations log.viewport batch.instructions)
  viewport := batchViewport log.viewport batch.instructions

def RemoteLog.blank (viewport : ViewportSize) : RemoteLog := { effects := [], viewport }

/-- The logs of the states that were ever kept. -/
abbrev RemoteLogs := UInt64 → Option RemoteLog

variable {X : Externals}

/-- The log of the base of an update, followed by its delta. -/
def logAfter (X : Externals) (logs : RemoteLogs) (u : StateUpdate) : Option RemoteLog :=
  match logs u.baseState, u.decodeInstructions X.prost with
  | some log, .ok batch => some (log.extend batch)
  | _, _ => none

def initialLogs : RemoteLogs := fun t =>
  if t = 0 then
    some (.blank { columns := defaultRemoteColumns.toUInt64, rows := defaultRemoteRows.toUInt64 })
  else none

/-- An inserted update adds the log of its target; state zero can be given another size. -/
def logStep (logs : RemoteLogs) (e : Event (ClientProtocol X) ClientCall ClientReply) :
    RemoteLogs :=
  match insertedBy e, blankedBy e with
  | some u, _ => Function.update logs u.targetState (logAfter X logs u)
  | none, some viewport => Function.update logs 0 (some (.blank viewport))
  | none, none => logs

def logsOf (trace : List (Event (ClientProtocol X) ClientCall ClientReply)) : RemoteLogs :=
  trace.foldl logStep initialLogs

/-- The updates whose targets were inserted, in order. -/
def insertedOf (trace : List (Event (ClientProtocol X) ClientCall ClientReply)) :
    List StateUpdate := trace.filterMap insertedBy

/-- The states the host was shown, in order. -/
def deliveredOf (trace : List (Event (ClientProtocol X) ClientCall ClientReply)) :
    List ReceivedState := trace.filterMap deliveredBy

/-- What the instructions of a delivered update show. -/
def shownBy (X : Externals) (r : ReceivedState) : List HostEffect :=
  ((X.prost.decodeBatch r.update.delta).map fun batch => instructionEffects batch.instructions).getD []

/-- An accepted update stays within the limits of its base, and extends what was shown last. -/
structure Regular (p : ClientProtocol X)
    (trace : List (Event (ClientProtocol X) ClientCall ClientReply)) (i : ClientCall) : Prop where
  fits : ∀ u, insertedBy ((clientMachine X).event p i) = some u → ∀ base batch,
    p.receivedStates[u.baseState]? = some base → u.decodeInstructions X.prost = .ok batch →
    base.validateHistoryGrowth batch = .ok ()
  extending : ∀ u, insertedBy ((clientMachine X).event p i) = some u →
    p.latestRemoteState < u.targetState → ∀ last log, logsOf trace p.latestRemoteState = some last →
    logAfter X (logsOf trace) u = some log → last.effects <+: log.effects

/-! ## States and their logs -/

/-- The history of the state has the effects of the log. -/
structure Represents {T : Vt100} (s : RemoteTerminalState T) (log : RemoteLog) : Prop where
  effects : effectsOf s.history.operations = log.effects
  viewport : s.viewport = log.viewport
  noEmptyBytes : NoEmptyBytes s.history.operations

theorem Represents.clone {T : Vt100} {s : RemoteTerminalState T} {log : RemoteLog}
    (h : Represents s log) : Represents s.clone log := ⟨h.effects, h.viewport, h.noEmptyBytes⟩

theorem represents_create {T : Vt100} (columns rows : UInt16) :
    Represents (.create columns rows : RemoteTerminalState T)
      (.blank { columns := columns.toUInt64, rows := rows.toUInt64 }) :=
  ⟨rfl, rfl, by simp [NoEmptyBytes, RemoteTerminalState.create, StateHistory.operations,
    StateHistory.empty]⟩

/-- **A delta that fits is applied to a state as to its log.** -/
theorem Represents.apply {base target : RemoteTerminalState X.vt100} {log : RemoteLog}
    (h : Represents base log) {u : StateUpdate} {batch : InstructionBatch}
    (hdecode : u.decodeInstructions X.prost = .ok batch)
    (hfits : base.validateHistoryGrowth batch = .ok ())
    (happly : ClientProtocol.targetStateOf base u = .ok target) :
    Represents target (log.extend batch) := by
  have hclone := h.clone
  have hfits' : base.clone.validateHistoryGrowth batch = .ok () := hfits
  simp only [ClientProtocol.targetStateOf, hdecode] at happly
  rcases RemoteTerminalState.apply_cases X.vte base.clone batch with
    ⟨e, heq⟩ | ⟨s', heq, -, -, hgrow⟩ | ⟨s', e, history, columns, rows, -, hgrowth, -⟩
  · rw [heq] at happly
    simp at happly
  · rw [heq] at happly
    simp only [Except.ok.injEq] at happly
    subst happly
    refine ⟨?_, ?_, ?_⟩
    · rw [hgrow.operations_eq, effectsOf_append, hclone.effects, hclone.viewport]
      rfl
    · rw [hgrow.viewport_eq, hclone.viewport]
      rfl
    · rw [hgrow.operations_eq, noEmptyBytes_append]
      exact ⟨hclone.noEmptyBytes, noEmptyBytes_batchOperations _ _⟩
  · rw [hgrowth] at hfits'
    simp at hfits'

/-! ## What holds along a run -/

structure OutputInvariant (p : ClientProtocol X)
    (trace : List (Event (ClientProtocol X) ClientCall ClientReply)) : Prop where
  /-- Every kept state has a log. -/
  retained : ∀ t s, p.receivedStates[t]? = some s →
    ∃ log, logsOf trace t = some log ∧ Represents s log
  /-- The delivered state has the log of its number. -/
  delivered : ∃ log, logsOf trace p.latestRemoteState = some log ∧
    Represents p.deliveredRemoteState log
  /-- What was shown is what the delivered state has. -/
  shown : (deliveredOf trace).flatMap (shownBy X) =
    effectsOf p.deliveredRemoteState.history.operations
  /-- Nothing is kept below the floor. -/
  floor : ∀ t s, p.receivedStates[t]? = some s → p.remoteThrowawayFloor ≤ t
  /-- What was kept once is still kept or below the floor. -/
  known : ∀ t, t = 0 ∨ t ∈ (insertedOf trace).map StateUpdate.targetState →
    p.receivedStates[t]?.isSome ∨ t < p.remoteThrowawayFloor
  nodup : ((insertedOf trace).map StateUpdate.targetState).Nodup
  nonzero : 0 ∉ (insertedOf trace).map StateUpdate.targetState
  increasing : ((deliveredOf trace).map fun r => r.update.targetState).Pairwise (· < ·)
  bounded : ∀ r ∈ deliveredOf trace, r.update.targetState ≤ p.latestRemoteState
  origin : ∀ t s, p.receivedStates[t]? = some s →
    t = 0 ∨ t ∈ (insertedOf trace).map StateUpdate.targetState
  latest : p.latestRemoteState = 0 ∨
    p.latestRemoteState ∈ (insertedOf trace).map StateUpdate.targetState
  /-- Before anything is kept, nothing was discarded or shown. -/
  untouched : p.latestRemoteState = 0 →
    p.remoteThrowawayFloor = 0 ∧ insertedOf trace = [] ∧ deliveredOf trace = []

theorem logsOf_snoc (trace : List (Event (ClientProtocol X) ClientCall ClientReply))
    (e : Event (ClientProtocol X) ClientCall ClientReply) :
    logsOf (trace ++ [e]) = logStep (logsOf trace) e := by
  simp [logsOf]

theorem insertedOf_snoc (trace : List (Event (ClientProtocol X) ClientCall ClientReply))
    (e : Event (ClientProtocol X) ClientCall ClientReply) :
    insertedOf (trace ++ [e]) = insertedOf trace ++ (insertedBy e).toList := by
  simp only [insertedOf, List.filterMap_append]
  cases h : insertedBy e <;> simp [h]

theorem deliveredOf_snoc (trace : List (Event (ClientProtocol X) ClientCall ClientReply))
    (e : Event (ClientProtocol X) ClientCall ClientReply) :
    deliveredOf (trace ++ [e]) = deliveredOf trace ++ (deliveredBy e).toList := by
  simp only [deliveredOf, List.filterMap_append]
  cases h : deliveredBy e <;> simp [h]

theorem outputInvariant_init : OutputInvariant (clientMachine X).init [] where
  retained t s hs := by
    have hs' : ((∅ : Std.ExtTreeMap UInt64 _).insert 0
        (ClientProtocol.initialRemoteState (X := X)).clone)[t]? = some s := hs
    rw [Std.ExtTreeMap.getElem?_insert] at hs'
    split at hs'
    · next heq =>
      obtain rfl : (0 : UInt64) = t := Std.LawfulEqCmp.eq_of_compare heq
      obtain rfl := Option.some.inj hs'
      exact ⟨_, rfl, (represents_create _ _).clone⟩
    · simp at hs'
  delivered := ⟨_, rfl, represents_create _ _⟩
  shown := rfl
  floor t s _ := UInt64.zero_le
  known t ht := by
    obtain rfl : t = 0 := by simpa [insertedOf] using ht
    exact Or.inl (by simp [clientMachine, ClientProtocol.new])
  nodup := List.nodup_nil
  nonzero := by simp [insertedOf]
  increasing := List.Pairwise.nil
  bounded r hr := by simp [deliveredOf] at hr
  origin t s hs := by
    have hs' : ((∅ : Std.ExtTreeMap UInt64 _).insert 0
        (ClientProtocol.initialRemoteState (X := X)).clone)[t]? = some s := hs
    rw [Std.ExtTreeMap.getElem?_insert] at hs'
    split at hs'
    · next heq => exact Or.inl (Std.LawfulEqCmp.eq_of_compare heq).symm
    · simp at hs'
  latest := Or.inl rfl
  untouched _ := ⟨rfl, rfl, rfl⟩

namespace OutputInvariant

variable {p q : ClientProtocol X} {trace : List (Event (ClientProtocol X) ClientCall ClientReply)}
  {e : Event (ClientProtocol X) ClientCall ClientReply} {u : StateUpdate}
  {base target : RemoteTerminalState X.vt100}

theorem of_same (h : OutputInvariant p trace) (hsame : ClientProtocol.SameRemote p q) :
    OutputInvariant q trace where
  retained := by rw [hsame.receivedStates]; exact h.retained
  delivered := by rw [hsame.latestRemoteState, hsame.deliveredRemoteState]; exact h.delivered
  shown := by rw [hsame.deliveredRemoteState]; exact h.shown
  floor := by rw [hsame.receivedStates, hsame.remoteThrowawayFloor]; exact h.floor
  known := by rw [hsame.receivedStates, hsame.remoteThrowawayFloor]; exact h.known
  nodup := h.nodup
  nonzero := h.nonzero
  increasing := h.increasing
  bounded := by rw [hsame.latestRemoteState]; exact h.bounded
  origin := by rw [hsame.receivedStates]; exact h.origin
  latest := by rw [hsame.latestRemoteState]; exact h.latest
  untouched := by rw [hsame.latestRemoteState, hsame.remoteThrowawayFloor]; exact h.untouched

/-- An event without an effect on logs or on the host adds nothing. -/
theorem quiet (h : OutputInvariant p trace) (hinserted : insertedBy e = none)
    (hdelivered : deliveredBy e = none) (hblanked : blankedBy e = none) :
    OutputInvariant p (trace ++ [e]) := by
  have hlogs : logsOf (trace ++ [e]) = logsOf trace := by
    rw [logsOf_snoc, logStep, hinserted, hblanked]
  have hins : insertedOf (trace ++ [e]) = insertedOf trace := by
    rw [insertedOf_snoc, hinserted]
    simp
  have hdel : deliveredOf (trace ++ [e]) = deliveredOf trace := by
    rw [deliveredOf_snoc, hdelivered]
    simp
  refine ⟨?_, ?_, ?_, h.floor, ?_, ?_, ?_, ?_, ?_, ?_, ?_, ?_⟩
  · rw [hlogs]; exact h.retained
  · rw [hlogs]; exact h.delivered
  · rw [hdel]; exact h.shown
  · rw [hins]; exact h.known
  · rw [hins]; exact h.nodup
  · rw [hins]; exact h.nonzero
  · rw [hdel]; exact h.increasing
  · rw [hdel]; exact h.bounded
  · rw [hins]; exact h.origin
  · rw [hins]; exact h.latest
  · rw [hins, hdel]; exact h.untouched

/-- A state that can be based on is not below the floor, nor is what is built on it. -/
theorem floor_le (h : OutputInvariant p trace) (happ : p.Applies u base target) :
    max p.remoteThrowawayFloor u.discardBefore ≤ u.baseState :=
  u64Max_le_iff.mpr ⟨h.floor _ _ happ.retained, happ.discardBefore_le⟩

theorem discard (h : OutputInvariant p trace) (happ : p.Applies u base target) :
    OutputInvariant (p.discardBelow (max p.remoteThrowawayFloor u.discardBefore)) trace where
  retained t s hs := h.retained t s (ClientProtocol.retained_discardBelow.mp hs).1
  delivered := h.delivered
  shown := h.shown
  floor t s hs := (ClientProtocol.retained_discardBelow.mp hs).2
  known t ht := by
    by_cases hle : max p.remoteThrowawayFloor u.discardBefore ≤ t
    · rcases h.known t ht with hkept | hlow
      · obtain ⟨s, hs⟩ := Option.isSome_iff_exists.mp hkept
        refine Or.inl (Option.isSome_of_eq_some (ClientProtocol.retained_discardBelow.mpr ⟨hs, hle⟩))
      · exact absurd (u64Max_le_iff.mp hle).1 (UInt64.not_le.mpr hlow)
    · exact Or.inr (UInt64.not_le.mp hle)
  nodup := h.nodup
  nonzero := h.nonzero
  increasing := h.increasing
  bounded := h.bounded
  origin t s hs := h.origin t s (ClientProtocol.retained_discardBelow.mp hs).1
  latest := h.latest
  untouched hzero := by
    obtain ⟨hfloor, hinserted, hdelivered⟩ := h.untouched hzero
    refine ⟨?_, hinserted, hdelivered⟩
    have hbase : u.baseState = 0 := by
      rcases h.origin _ _ happ.retained with hb | hb
      · exact hb
      · simp [hinserted] at hb
    have hle := h.floor_le happ
    rw [hbase] at hle
    exact UInt64.le_antisymm hle UInt64.zero_le

/-- The target of an update that applies was never kept before. -/
theorem target_new (h : OutputInvariant p trace) (happ : p.Applies u base target) :
    u.targetState ≠ 0 ∧ u.targetState ∉ (insertedOf trace).map StateUpdate.targetState := by
  have hnot : ¬ (u.targetState = 0 ∨
      u.targetState ∈ (insertedOf trace).map StateUpdate.targetState) := by
    intro hknown
    rcases h.known _ hknown with hkept | hlow
    · rw [happ.fresh] at hkept
      simp at hkept
    · exact absurd (h.floor _ _ happ.retained) (UInt64.not_le.mpr (UInt64.lt_trans happ.base_lt hlow))
  exact not_or.mp hnot

/-- The log of the target of an update that applies. -/
theorem targetLog (h : OutputInvariant p trace) (happ : p.Applies u base target)
    (hfits : ∀ batch, u.decodeInstructions X.prost = .ok batch →
      base.validateHistoryGrowth batch = .ok ()) :
    ∃ log, logAfter X (logsOf trace) u = some log ∧ Represents target log := by
  obtain ⟨log, hlog, hrep⟩ := h.retained _ _ happ.retained
  cases hdecode : u.decodeInstructions X.prost with
  | error err =>
    have happlied := happ.applied
    simp [ClientProtocol.targetStateOf, hdecode] at happlied
  | ok batch =>
    exact ⟨log.extend batch, by simp [logAfter, hlog, hdecode],
      hrep.apply hdecode (hfits batch hdecode) happ.applied⟩

theorem logsOf_inserted (hinserted : insertedBy e = some u) {log : RemoteLog}
    (hlog : logAfter X (logsOf trace) u = some log) :
    logsOf (trace ++ [e]) = Function.update (logsOf trace) u.targetState (some log) := by
  simp only [logsOf_snoc, logStep, hinserted, hlog]

/-- What a stored target comes to, whether or not it is delivered. -/
theorem insert (h : OutputInvariant p trace) (happ : p.Applies u base target)
    (hinserted : insertedBy e = some u) {log : RemoteLog}
    (hlog : logAfter X (logsOf trace) u = some log) (hrep : Represents target log)
    (hreceived : q.receivedStates = (p.stored u target).receivedStates)
    (hfloor : q.remoteThrowawayFloor = (p.stored u target).remoteThrowawayFloor)
    (hdelivered : ∃ log, logsOf (trace ++ [e]) q.latestRemoteState = some log ∧
      Represents q.deliveredRemoteState log)
    (hshown : (deliveredOf (trace ++ [e])).flatMap (shownBy X) =
      effectsOf q.deliveredRemoteState.history.operations)
    (hincreasing : ((deliveredOf (trace ++ [e])).map fun r => r.update.targetState).Pairwise (· < ·))
    (hbounded : ∀ r ∈ deliveredOf (trace ++ [e]), r.update.targetState ≤ q.latestRemoteState)
    (hlatest : q.latestRemoteState ∈ (insertedOf (trace ++ [e])).map StateUpdate.targetState)
    (hnonzero : q.latestRemoteState ≠ 0) : OutputInvariant q (trace ++ [e]) := by
  obtain ⟨htarget, hnew⟩ := h.target_new happ
  have hins : (insertedOf (trace ++ [e])).map StateUpdate.targetState =
      (insertedOf trace).map StateUpdate.targetState ++ [u.targetState] := by
    rw [insertedOf_snoc, hinserted]
    simp
  have hfloor' : q.remoteThrowawayFloor = max p.remoteThrowawayFloor u.discardBefore := hfloor
  refine ⟨?_, hdelivered, hshown, ?_, ?_, ?_, ?_, hincreasing, hbounded, ?_, Or.inr hlatest,
    fun hzero => absurd hzero hnonzero⟩
  · intro t s hs
    rw [hreceived, ClientProtocol.retained_stored] at hs
    rw [logsOf_inserted hinserted hlog]
    rcases hs with ⟨rfl, rfl⟩ | ⟨hne, hs, -⟩
    · exact ⟨log, by rw [Function.update_self], hrep.clone⟩
    · rw [Function.update_of_ne hne]
      exact h.retained t s hs
  · intro t s hs
    rw [hreceived, ClientProtocol.retained_stored] at hs
    rw [hfloor']
    rcases hs with ⟨rfl, -⟩ | ⟨-, -, hle⟩
    · exact UInt64.le_trans (h.floor_le happ) (UInt64.le_of_lt happ.base_lt)
    · exact hle
  · intro t ht
    rw [hins, List.mem_append, ← or_assoc, List.mem_singleton] at ht
    rw [hreceived, hfloor']
    by_cases heq : t = u.targetState
    · exact Or.inl (Option.isSome_of_eq_some
        (ClientProtocol.retained_stored.mpr (Or.inl ⟨heq, rfl⟩)))
    · rcases (h.discard happ).known t (ht.resolve_right heq) with hkept | hlow
      · obtain ⟨s, hs⟩ := Option.isSome_iff_exists.mp hkept
        obtain ⟨hs, hle⟩ := ClientProtocol.retained_discardBelow.mp hs
        exact Or.inl (Option.isSome_of_eq_some
          (ClientProtocol.retained_stored.mpr (Or.inr ⟨heq, hs, hle⟩)))
      · exact Or.inr hlow
  · rw [hins]
    refine List.nodup_append.mpr ⟨h.nodup, List.nodup_singleton _, ?_⟩
    rintro a ha b hb rfl
    rw [List.mem_singleton] at hb
    exact hnew (hb ▸ ha)
  · rw [hins, List.mem_append, List.mem_singleton]
    exact fun hmem => hmem.elim h.nonzero (fun heq => htarget heq.symm)
  · intro t s hs
    rw [hreceived, ClientProtocol.retained_stored] at hs
    rw [hins, List.mem_append, List.mem_singleton]
    rcases hs with ⟨rfl, -⟩ | ⟨-, hs, -⟩
    · exact Or.inr (Or.inr rfl)
    · rcases h.origin t s hs with hzero | hmem
      · exact Or.inl hzero
      · exact Or.inr (Or.inl hmem)

/-- A target whose number is not new to the host is kept for later. -/
theorem stored (h : OutputInvariant p trace) (happ : p.Applies u base target)
    (hinserted : insertedBy e = some u) (hdelivered : deliveredBy e = none) {log : RemoteLog}
    (hlog : logAfter X (logsOf trace) u = some log) (hrep : Represents target log)
    (hle : u.targetState ≤ p.latestRemoteState) :
    OutputInvariant (p.stored u target) (trace ++ [e]) := by
  obtain ⟨hnonzero, hnew⟩ := h.target_new happ
  have hdel : deliveredOf (trace ++ [e]) = deliveredOf trace := by
    rw [deliveredOf_snoc, hdelivered]
    simp
  have hlatest : p.latestRemoteState ≠ 0 := by
    intro hzero
    rw [hzero] at hle
    exact hnonzero (UInt64.le_antisymm hle UInt64.zero_le)
  have hmem := h.latest.resolve_left hlatest
  refine h.insert happ hinserted hlog hrep rfl rfl ?_ ?_ ?_ ?_ ?_ hlatest
  · obtain ⟨last, hlast, hrep'⟩ := h.delivered
    refine ⟨last, ?_, hrep'⟩
    have hne : p.latestRemoteState ≠ u.targetState := fun heq => hnew (heq ▸ hmem)
    rw [logsOf_inserted hinserted hlog]
    exact (Function.update_of_ne hne _ _).trans hlast
  · rw [hdel]
    exact h.shown
  · rw [hdel]
    exact h.increasing
  · rw [hdel]
    exact h.bounded
  · rw [insertedOf_snoc, List.map_append, List.mem_append]
    exact Or.inl hmem

/-- **A target that extends what was shown last is shown by what it adds.** -/
theorem deliver (hP : X.prost.Lawful) (h : OutputInvariant p trace)
    (happ : p.Applies u base target) {r : ReceivedState}
    (hinserted : insertedBy e = some u) (hdelivered : deliveredBy e = some r) {log : RemoteLog}
    (hlog : logAfter X (logsOf trace) u = some log) (hrep : Represents target log)
    (hlt : p.latestRemoteState < u.targetState)
    (hextends : ∀ last, logsOf trace p.latestRemoteState = some last → last.effects <+: log.effects)
    {diff : InstructionBatch} (hdiff : target.diffFrom X.vte p.deliveredRemoteState = .ok diff)
    (hupdate : r.update = { u with delta := diff.encodeBytes }) :
    OutputInvariant { p.stored u target with
      latestRemoteState := u.targetState, deliveredRemoteState := target } (trace ++ [e]) := by
  obtain ⟨hnonzero, hnew⟩ := h.target_new happ
  obtain ⟨last, hlast, hrep'⟩ := h.delivered
  have hdel : deliveredOf (trace ++ [e]) = deliveredOf trace ++ [r] := by
    rw [deliveredOf_snoc, hdelivered]
    rfl
  have htarget : r.update.targetState = u.targetState := by rw [hupdate]
  refine h.insert happ hinserted hlog hrep rfl rfl ?_ ?_ ?_ ?_ ?_ hnonzero
  · refine ⟨log, ?_, hrep⟩
    rw [logsOf_inserted hinserted hlog]
    exact Function.update_self _ _ _
  · have hstarts : effectsOf p.deliveredRemoteState.history.operations <+:
        effectsOf target.history.operations := by
      rw [hrep'.effects, hrep.effects]
      exact hextends last hlast
    obtain ⟨diff', hdiff', heffects⟩ := RemoteTerminalState.diffFrom_of_extends X.vte
      hrep.noEmptyBytes hrep'.noEmptyBytes hstarts
    obtain rfl : diff = diff' := by
      rw [hdiff] at hdiff'
      exact Except.ok.inj hdiff'
    have hshown : shownBy X r = instructionEffects diff.instructions := by
      rw [shownBy, hupdate, hP.decodeBatch_encode]
      rfl
    rw [hdel, List.flatMap_append, h.shown]
    simp [hshown, heffects]
  · rw [hdel, List.map_append]
    refine List.pairwise_append.mpr ⟨h.increasing, List.pairwise_singleton _ _, ?_⟩
    intro a ha b hb
    obtain ⟨r', hr', rfl⟩ := List.mem_map.mp ha
    obtain rfl : b = u.targetState := by simpa [htarget] using hb
    exact UInt64.lt_of_le_of_lt (h.bounded r' hr') hlt
  · rw [hdel]
    intro r' hr'
    rcases List.mem_append.mp hr' with hr' | hr'
    · exact UInt64.le_of_lt (UInt64.lt_of_le_of_lt (h.bounded r' hr') hlt)
    · rw [List.mem_singleton.mp hr', htarget]
      exact UInt64.le_refl _
  · rw [insertedOf_snoc, hinserted]
    simp

/-- Giving the blank state another size shows nothing. -/
theorem blank (h : OutputInvariant p trace) {columns rows : UInt16}
    (hzero : p.latestRemoteState = 0) (hinserted : insertedBy e = none)
    (hdelivered : deliveredBy e = none)
    (hblanked : blankedBy e = some { columns := columns.toUInt64, rows := rows.toUInt64 }) :
    OutputInvariant { p with
      receivedStates := p.receivedStates.insert 0 (RemoteTerminalState.create columns rows).clone
      deliveredRemoteState := .create columns rows } (trace ++ [e]) := by
  obtain ⟨hfloor, hnone, hsilent⟩ := h.untouched hzero
  have hlogs : logsOf (trace ++ [e]) = Function.update (logsOf trace) 0
      (some (.blank { columns := columns.toUInt64, rows := rows.toUInt64 })) := by
    simp only [logsOf_snoc, logStep, hinserted, hblanked]
  have hins : insertedOf (trace ++ [e]) = [] := by
    rw [insertedOf_snoc, hinserted, hnone]
    rfl
  have hdel : deliveredOf (trace ++ [e]) = [] := by
    rw [deliveredOf_snoc, hdelivered, hsilent]
    rfl
  have hretained : ∀ (t : UInt64) s, (p.receivedStates.insert 0
      (RemoteTerminalState.create (T := X.vt100) columns rows).clone)[t]? = some s →
      t = 0 ∧ s = (RemoteTerminalState.create columns rows).clone := by
    intro t s hs
    rw [Std.ExtTreeMap.getElem?_insert] at hs
    split at hs
    · next heq =>
      exact ⟨(Std.LawfulEqCmp.eq_of_compare heq).symm, (Option.some.inj hs).symm⟩
    · next hne =>
      rcases h.origin t s hs with rfl | hmem
      · exact absurd Std.ReflCmp.compare_self hne
      · simp [hnone] at hmem
  refine ⟨?_, ?_, ?_, ?_, ?_, ?_, ?_, ?_, ?_, ?_, ?_, ?_⟩
  · intro t s hs
    obtain ⟨rfl, rfl⟩ := hretained t s hs
    exact ⟨_, by rw [hlogs, Function.update_self], (represents_create _ _).clone⟩
  · refine ⟨_, ?_, represents_create columns rows⟩
    rw [hlogs]
    dsimp only
    rw [hzero, Function.update_self]
  · rw [hdel]
    rfl
  · intro t s hs
    show p.remoteThrowawayFloor ≤ t
    rw [hfloor]
    exact UInt64.zero_le
  · intro t ht
    obtain rfl : t = 0 := by simpa [hins] using ht
    exact Or.inl (by simp)
  · rw [hins]
    exact List.nodup_nil
  · simp [hins]
  · rw [hdel]
    exact List.Pairwise.nil
  · simp [hdel]
  · intro t s hs
    exact Or.inl (hretained t s hs).1
  · exact Or.inl hzero
  · exact fun _ => ⟨hfloor, hins, hdel⟩

/-- **Every call keeps the invariant.** -/
theorem step (hP : X.prost.Lawful) (h : OutputInvariant p trace) {i : ClientCall}
    (hregular : Regular p trace i) :
    OutputInvariant (p.call i).1 (trace ++ [(clientMachine X).event p i]) := by
  have hstep := p.call_remote i
  obtain ⟨hfits, hextending⟩ := hregular
  generalize (clientMachine X).event p i = e at hstep hfits hextending ⊢
  generalize (p.call i).1 = q at hstep ⊢
  generalize hins : insertedBy e = inserted at hstep hfits hextending
  generalize hdel : deliveredBy e = delivered at hstep
  generalize hblank : blankedBy e = blanked at hstep
  cases hstep with
  | same hsame => exact (h.of_same hsame).quiet hins hdel hblank
  | discarded happ hsame => exact ((h.discard happ).of_same hsame).quiet hins hdel hblank
  | @stored u base target happ hsame hnot =>
    obtain ⟨log, hlog, hrep⟩ := h.targetLog happ
      (fun batch hdecode => hfits u rfl base batch happ.retained hdecode)
    refine OutputInvariant.of_same (h.stored happ hins hdel hlog hrep ?_) hsame
    -- a new number would have been shown
    refine UInt64.not_lt.mp fun hlt => ?_
    obtain ⟨last, hlast, hrep'⟩ := h.delivered
    have hstarts : effectsOf p.deliveredRemoteState.history.operations <+:
        effectsOf target.history.operations := by
      rw [hrep'.effects, hrep.effects]
      exact hextending u rfl hlt last log hlast hlog
    obtain ⟨diff, hdiff, -⟩ := RemoteTerminalState.diffFrom_of_extends X.vte
      hrep.noEmptyBytes hrep'.noEmptyBytes hstarts
    rcases hnot with hle | ⟨err, herr⟩
    · exact absurd hlt (UInt64.not_lt.mpr hle)
    · rw [hdiff] at herr
      simp at herr
  | @delivered u base target diff r happ hlt hdiff hsame hupdate =>
    obtain ⟨log, hlog, hrep⟩ := h.targetLog happ
      (fun batch hdecode => hfits u rfl base batch happ.retained hdecode)
    exact OutputInvariant.of_same (h.deliver hP happ hins hdel hlog hrep hlt
      (fun last hlast => hextending u rfl hlt last log hlast hlog) hdiff hupdate) hsame
  | blanked hzero _ hsame =>
    exact OutputInvariant.of_same (h.blank hzero hins hdel hblank) hsame

end OutputInvariant

/-- **Along a regular run the invariant holds.** -/
theorem outputInvariant (X : Externals) (hP : X.prost.Lawful) {calls : List ClientCall}
    (hregular : (clientMachine X).AlongTrace Regular calls) :
    OutputInvariant ((clientMachine X).final calls) ((clientMachine X).trace calls) :=
  (clientMachine X).run_invariant_alongTrace outputInvariant_init
    (fun _ _ _ h hregular => h.step hP hregular) hregular

/-! ## The result -/

/--
**Remote output is shown exactly once.**

In every regular run: what the delivered updates show, one after the other, is the log of the
latest remote state; each delivery moves that state up to its own target; the numbers delivered
increase; and no state is inserted twice, nor is state zero.
-/
theorem remote_output_exactly_once (X : Externals) (hP : X.prost.Lawful) (calls : List ClientCall)
    (hregular : (clientMachine X).AlongTrace Regular calls) :
    let trace := (clientMachine X).trace calls
    let final := (clientMachine X).final calls
    (∃ log, logsOf trace final.latestRemoteState = some log ∧
      (deliveredOf trace).flatMap (shownBy X) = log.effects) ∧
    (∀ e ∈ trace, ∀ r, deliveredBy e = some r →
      e.pre.latestRemoteState < e.post.latestRemoteState ∧
        e.post.latestRemoteState = r.update.targetState) ∧
    ((deliveredOf trace).map fun r => r.update.targetState).Pairwise (· < ·) ∧
    ((insertedOf trace).map StateUpdate.targetState).Nodup ∧
    0 ∉ (insertedOf trace).map StateUpdate.targetState := by
  intro trace final
  have h : OutputInvariant final trace := outputInvariant X hP hregular
  refine ⟨?_, ?_, h.increasing, h.nodup, h.nonzero⟩
  · obtain ⟨log, hlog, hrep⟩ := h.delivered
    exact ⟨log, hlog, by rw [h.shown, hrep.effects]⟩
  · intro e he r hr
    obtain ⟨pre, i, post, -, rfl⟩ := (clientMachine X).mem_trace he
    have hstep := ((clientMachine X).final pre).call_remote i
    rw [hr] at hstep
    generalize insertedBy _ = inserted at hstep
    generalize blankedBy _ = blanked at hstep
    cases hstep with
    | delivered happ hlt hdiff hsame hupdate =>
      have hlatest : (((clientMachine X).final pre).call i).1.latestRemoteState = _ :=
        hsame.latestRemoteState
      rw [Machine.event_pre, Machine.event_post]
      refine ⟨?_, ?_⟩
      · exact lt_of_lt_of_eq hlt hlatest.symm
      · rw [hupdate]
        exact hlatest

/-! ## One update -/

/-- The instructions of a server that prints one byte. -/
def oneByteBatch : InstructionBatch := { instructions := [hostBytesInstruction [0x61]] }

/-- The first update of a server that prints one byte. -/
def oneByteUpdate : StateUpdate :=
  { StateUpdate.new 0 1 0 with delta := oneByteBatch.encodeBytes }

/-- A run that receives the update. -/
def oneByteCalls : List ClientCall := [.ingestPacket (Reference.updatePacket 0 1 oneByteUpdate)]

theorem length_oneByteUpdate : oneByteUpdate.encode.length ≤ maxFragmentBodyBytes := by
  simp [oneByteUpdate, oneByteBatch, StateUpdate.new, InstructionBatch.encodeBytes,
    InstructionBatch.fields, Protobuf.messageField, hostBytesInstruction, Instruction.fields,
    ByteRun.fields, Protobuf.bytesField, Protobuf.Field.encode, Protobuf.Field.key,
    Protobuf.WireValue.encode, Protobuf.WireValue.wireType, Protobuf.varint_of_lt,
    StateUpdate.encode, StateUpdate.fields, Protobuf.uintField, protocolVersion,
    maxFragmentBodyBytes]

theorem decodeInstructions_oneByteUpdate {batch : InstructionBatch}
    (h : oneByteUpdate.decodeInstructions Reference.prost = .ok batch) : batch = oneByteBatch := by
  have hbatch : Reference.prost.decodeBatch oneByteUpdate.delta = some oneByteBatch :=
    Reference.prost_lawful.decodeBatch_encode oneByteBatch
  rw [StateUpdate.decodeInstructions, hbatch] at h
  split at h
  · simp at h
  · exact (Except.ok.inj h).symm

/-- The packet can only insert the update it carries. -/
theorem insertedBy_oneByteCall {u : StateUpdate}
    (h : insertedBy ((clientMachine Reference.externals).event ClientProtocol.new
      (.ingestPacket (Reference.updatePacket 0 1 oneByteUpdate))) = some u) :
    u = oneByteUpdate := by
  obtain ⟨window, hwindow⟩ : ∃ window,
    (ClientProtocol.new : ClientProtocol Reference.externals).replayWindow.accept 0 =
      (window, true) := ⟨_, rfl⟩
  obtain ⟨timestamp, receipt, header, compressed, hdecode, heq⟩ :=
    Reference.ingestPacket_updatePacket (p := ClientProtocol.new) rfl (by decide) hwindow
      (show (∅ : Std.ExtTreeMap UInt64 FragmentAccumulator)[(1 : UInt64)]? = none by simp)
      (show (∅ : Std.ExtTreeMap UInt64 FragmentAccumulator).size < _ by
        rw [Std.ExtTreeMap.size_empty]
        decide)
      (show oneByteUpdate.protocolVersion = protocolVersion from rfl)
      (show oneByteUpdate.delta = oneByteBatch.encodeBytes from rfl) length_oneByteUpdate
  obtain ⟨r, hr, rfl⟩ := received_of_insertedBy h
  have hreceived : (ClientReply.receipt (ClientProtocol.ingestPacket ClientProtocol.new
    (Reference.updatePacket 0 1 oneByteUpdate)).2).received = some r := hr
  rw [heq] at hreceived
  generalize hresult : (ClientProtocol.ingestMessage _ 0 header compressed).2 = result at hreceived
  cases result with
  | error e => simp [Except.map, ClientReply.received] at hreceived
  | ok r' =>
    obtain rfl : r' = r := Option.some.inj hreceived
    exact ClientProtocol.ingestMessage_received hdecode hresult

theorem regular_oneByteCalls :
    (clientMachine Reference.externals).AlongTrace Regular oneByteCalls := by
  refine (clientMachine Reference.externals).alongTrace_snoc.mpr
    ⟨(clientMachine Reference.externals).alongTrace_nil _, ?_, ?_⟩
  · intro u hu base batch hbase hdecode
    obtain rfl := insertedBy_oneByteCall hu
    obtain rfl := decodeInstructions_oneByteUpdate hdecode
    have hblank : (ClientProtocol.new : ClientProtocol Reference.externals).receivedStates[
      (0 : UInt64)]? = some base := hbase
    simp only [ClientProtocol.new, Std.ExtTreeMap.getElem?_insert_self, Option.some.injEq] at hblank
    subst hblank
    have hgrowth : ∀ viewport, historyGrowth oneByteBatch viewport = .ok (1, 1) := by
      intro viewport
      simp [historyGrowth, oneByteBatch, historyGrowthFrom, hostBytesInstruction, checkedAdd]
    rw [RemoteTerminalState.validateHistoryGrowth, hgrowth]
    exact validateHistorySize_ok_iff.mpr
      (show 0 + 1 ≤ maxRetainedHostBytes ∧ 0 + 1 ≤ maxRetainedOperations by decide)
  · intro u _ _ last log hlast _
    obtain rfl : RemoteLog.blank _ = last := Option.some.inj hlast
    exact List.nil_prefix

/-- The guarantees for a run with one update. -/
theorem remote_output_exactly_once_one_byte :
    let trace := (clientMachine Reference.externals).trace oneByteCalls
    let final := (clientMachine Reference.externals).final oneByteCalls
    (∃ log, logsOf trace final.latestRemoteState = some log ∧
      (deliveredOf trace).flatMap (shownBy Reference.externals) = log.effects) ∧
    (∀ e ∈ trace, ∀ r, deliveredBy e = some r →
      e.pre.latestRemoteState < e.post.latestRemoteState ∧
        e.post.latestRemoteState = r.update.targetState) ∧
    ((deliveredOf trace).map fun r => r.update.targetState).Pairwise (· < ·) ∧
    ((insertedOf trace).map StateUpdate.targetState).Nodup ∧
    0 ∉ (insertedOf trace).map StateUpdate.targetState :=
  remote_output_exactly_once Reference.externals Reference.prost_lawful oneByteCalls
    regular_oneByteCalls

end OxideTerm.Fernomade
