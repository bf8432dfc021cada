import OxideTerm.Modem.Stream

/-!
# What becomes of the writes of a transfer

Two counters follow the queue and the write in flight, whatever the order of the calls. No write is
lost, doubled or overtaken before the transfer is stopped. After that only the bytes that cancel the
transfer are left to be written, unless the host puts back a write that it had taken before.
-/

namespace OxideTerm.Modem

open OxideTerm.Lib

namespace ModemHost

open ModemTransferState

/-- The writes in flight that were taken before the transfer was stopped, or after. -/
def inFlightWrites (s : ModemHost) (late : Bool) : List ByteVec :=
  s.inFlight.toList.filterMap fun write => if write.late = late then some write.bytes else none

/-- The two counters. -/
structure Accounted (s : ModemHost) : Prop where
  total : s.transfer.serverWriteBytes =
    queuedBytes s.transfer.serverWrites + queuedBytes (s.inFlight.toList.map TakenWrite.bytes)
  in_flight : s.transfer.serverWriteInFlightBytes =
    queuedBytes (s.inFlight.toList.map TakenWrite.bytes)
  drained_iff : s.transfer.serverWritesDrained = true ↔
    s.transfer.serverWrites = [] ∧ s.inFlight = none

/-! ## What a call can do -/

/-- What a call can do to the writes. -/
inductive Change (s : ModemHost) : ModemCall → ModemHost → ModemOutcome → Prop
  | idle (call : ModemCall) (s' : ModemHost)
      (hwrites : s'.transfer.serverWrites = s.transfer.serverWrites)
      (hbytes : s'.transfer.serverWriteBytes = s.transfer.serverWriteBytes)
      (hinFlight : s'.transfer.serverWriteInFlightBytes = s.transfer.serverWriteInFlightBytes)
      (hcancel : s'.transfer.cancellationBytes = s.transfer.cancellationBytes)
      (hstopped : s'.transfer.stopped = s.transfer.stopped) (htaken : s'.inFlight = s.inFlight) :
      Change s call s' .other
  | accepted (bytes : ByteVec) (hrunning : s.transfer.stopped = false) (hbytes : bytes.bytes ≠ []) :
      Change s (.writeAll bytes)
        { s with transfer := { s.transfer with
            serverWriteBytes := s.transfer.serverWriteBytes + bytes.len
            serverWrites := s.transfer.serverWrites ++ [bytes] } } (.accepted bytes)
  | handedOut (bytes : ByteVec) (rest : List ByteVec) (hnone : s.inFlight = none)
      (hwrites : s.transfer.serverWrites = bytes :: rest) :
      Change s .takeServerWrite
        { transfer := { s.transfer with
            serverWrites := rest
            serverWriteInFlightBytes := bytes.len }
          inFlight := some { bytes, late := s.transfer.stopped } }
        (.handedOut { bytes, late := s.transfer.stopped })
  | completed (write : TakenWrite) (hsome : s.inFlight = some write) :
      Change s .completeServerWrite
        { transfer := s.transfer.completeServerWrite write.bytes.len, inFlight := none }
        (.completed write)
  | restored (write : TakenWrite) (hsome : s.inFlight = some write) :
      Change s .restoreServerWrite
        { transfer := s.transfer.restoreServerWrite write.bytes, inFlight := none }
        (.restored write)
  | cancelled (call : ModemCall) (s' : ModemHost) (hrunning : s.transfer.stopped = false)
      (hstopped : s'.transfer.stopped = true)
      (hwrites : s'.transfer.serverWrites =
        if s.transfer.cancellationBytes.bytes = [] then [] else [s.transfer.cancellationBytes])
      (hbytes : s'.transfer.serverWriteBytes =
        queuedBytes s'.transfer.serverWrites + queuedBytes (s.inFlight.toList.map TakenWrite.bytes))
      (hinFlight : s'.transfer.serverWriteInFlightBytes = s.transfer.serverWriteInFlightBytes)
      (hcancel : s'.transfer.cancellationBytes = s.transfer.cancellationBytes)
      (htaken : s'.inFlight = s.inFlight) : Change s call s' .other

theorem queuedBytes_append (writes more : List ByteVec) :
    queuedBytes (writes ++ more) = queuedBytes writes + queuedBytes more := by
  unfold queuedBytes
  rw [List.map_append, List.sum_append]

theorem queuedBytes_cons (bytes : ByteVec) (writes : List ByteVec) :
    queuedBytes (bytes :: writes) = bytes.len + queuedBytes writes := List.sum_cons

theorem queuedBytes_singleton (bytes : ByteVec) : queuedBytes [bytes] = bytes.len :=
  Nat.add_zero _

/-- What the counters rest on. -/
structure Counted (s : ModemHost) : Prop where
  total : s.transfer.serverWriteBytes =
    queuedBytes s.transfer.serverWrites + queuedBytes (s.inFlight.toList.map TakenWrite.bytes)
  in_flight : s.transfer.serverWriteInFlightBytes =
    queuedBytes (s.inFlight.toList.map TakenWrite.bytes)
  queued_ne_nil : ∀ bytes ∈ s.transfer.serverWrites, bytes.bytes ≠ []
  taken_ne_nil : ∀ write, s.inFlight = some write → write.bytes.bytes ≠ []

variable {s : ModemHost}

theorem length_inFlight_le (s : ModemHost) :
    queuedBytes (s.inFlight.toList.map TakenWrite.bytes) ≤ isizeMax := by
  cases s.inFlight with
  | none => exact Nat.zero_le _
  | some write => exact (queuedBytes_singleton write.bytes).trans_le write.bytes.length_le

/-- Stopping. -/
theorem change_cancelLocked (h : Counted s) (call : ModemCall) :
    Change s call { s with transfer := s.transfer.cancelLocked } .other := by
  unfold cancelLocked
  split
  · exact .idle call _ rfl rfl rfl rfl rfl rfl
  · next hrunning =>
    have hremaining : s.transfer.serverWriteBytes - queuedBytes s.transfer.serverWrites =
        queuedBytes (s.inFlight.toList.map TakenWrite.bytes) := by
      rw [h.total, Nat.add_sub_cancel_left]
    simp only [hremaining]
    split
    · next hempty =>
      refine .cancelled call _ (Bool.eq_false_iff.mpr hrunning) rfl ?_ ?_ rfl rfl rfl
      · rw [if_pos hempty]
      · exact (Nat.zero_add _).symm
    · next hsome =>
      refine .cancelled call _ (Bool.eq_false_iff.mpr hrunning) rfl ?_ ?_ rfl rfl rfl
      · rw [if_neg hsome]
      · have hfits : queuedBytes (s.inFlight.toList.map TakenWrite.bytes) +
            s.transfer.cancellationBytes.len ≤ usizeMax := by
          have htaken := length_inFlight_le s
          have hcancel : s.transfer.cancellationBytes.len ≤ isizeMax :=
            s.transfer.cancellationBytes.length_le
          rw [isizeMax] at htaken hcancel
          rw [usizeMax]
          omega
        show saturatingAdd _ _ = queuedBytes [s.transfer.cancellationBytes] + _
        rw [saturatingAdd_eq hfits, queuedBytes_singleton, Nat.add_comm]

theorem change_pushRemoteOutput (h : Counted s) (bytes : ByteVec) :
    Change s (.pushRemoteOutput bytes) { s with transfer := s.transfer.pushRemoteOutput bytes }
      .other := by
  unfold pushRemoteOutput
  split
  · exact .idle _ _ rfl rfl rfl rfl rfl rfl
  · split
    · exact .idle _ _ rfl rfl rfl rfl rfl rfl
    · split
      · -- The input overflows, which stops the transfer like `stop` does.
        have hcleared : Counted { s with transfer := { s.transfer with
            remoteOutput := [], inputOverflow := true } } :=
          ⟨h.total, h.in_flight, h.queued_ne_nil, h.taken_ne_nil⟩
        cases change_cancelLocked hcleared (.pushRemoteOutput bytes) with
        | idle _ _ hwrites hbytes hinFlight hcancel hstopped htaken =>
          exact .idle _ _ hwrites hbytes hinFlight hcancel hstopped htaken
        | cancelled _ _ hrunning hstopped hwrites hbytes hinFlight hcancel htaken =>
          exact .cancelled _ _ hrunning hstopped hwrites hbytes hinFlight hcancel htaken
      · exact .idle _ _ rfl rfl rfl rfl rfl rfl

theorem change_writeAll (s : ModemHost) (bytes : ByteVec) :
    Change s (.writeAll bytes) (s.step (.writeAll bytes)).1 (s.step (.writeAll bytes)).2 := by
  show Change s _ { s with transfer := (s.transfer.writeAll bytes).2 }
    (if (s.transfer.writeAll bytes).1 = some (.ok ()) ∧ bytes.bytes ≠ [] then .accepted bytes
      else .other)
  unfold ModemTransferState.writeAll
  by_cases hempty : bytes.bytes = []
  · rw [if_pos hempty, if_neg fun h => h.2 hempty]
    exact .idle _ _ rfl rfl rfl rfl rfl rfl
  rw [if_neg hempty]
  by_cases hstopped : s.transfer.stopped = true
  · rw [if_pos hstopped, if_neg (by simp)]
    exact .idle _ _ rfl rfl rfl rfl rfl rfl
  rw [if_neg hstopped]
  dsimp only
  by_cases hroom : saturatingAdd s.transfer.serverWriteBytes bytes.len ≤
      modemServerWriteBufferBytes ∨
      s.transfer.serverWriteBytes = 0 ∧ s.transfer.serverWriteInFlightBytes = 0
  · have hfits : s.transfer.serverWriteBytes + bytes.len ≤ usizeMax := by
      have hlength : bytes.len ≤ isizeMax := bytes.length_le
      rw [isizeMax] at hlength
      rw [saturatingAdd, modemServerWriteBufferBytes, usizeMax] at hroom
      rw [usizeMax]
      omega
    rw [if_pos hroom, if_pos ⟨rfl, hempty⟩, saturatingAdd_eq hfits]
    exact .accepted bytes (Bool.eq_false_iff.mpr hstopped) hempty
  · rw [if_neg hroom, if_neg (by simp)]
    exact .idle _ _ rfl rfl rfl rfl rfl rfl

/-- **What a call does.** -/
theorem change_step (h : Counted s) (call : ModemCall) :
    Change s call (s.step call).1 (s.step call).2 := by
  cases call with
  | writeAll bytes => exact change_writeAll s bytes
  | takeServerWrite =>
    unfold step takeServerWrite
    cases hsome : s.inFlight with
    | some write => exact .idle _ _ rfl rfl rfl rfl rfl rfl
    | none =>
      cases hwrites : s.transfer.serverWrites with
      | nil => exact .idle _ _ rfl rfl rfl rfl rfl hsome.symm
      | cons bytes rest =>
        have hzero : s.transfer.serverWriteInFlightBytes = 0 := by
          rw [h.in_flight, hsome]
          rfl
        have hfits : 0 + bytes.len ≤ usizeMax := by
          have hlength : bytes.len ≤ isizeMax := bytes.length_le
          rw [isizeMax] at hlength
          rw [usizeMax]
          omega
        simp only [hzero, saturatingAdd_eq hfits, Nat.zero_add]
        exact .handedOut bytes rest hsome hwrites
  | completeServerWrite =>
    unfold step
    cases hsome : s.inFlight with
    | none => exact .idle _ _ rfl rfl rfl rfl rfl rfl
    | some write => exact .completed write hsome
  | restoreServerWrite =>
    unfold step
    cases hsome : s.inFlight with
    | none => exact .idle _ _ rfl rfl rfl rfl rfl rfl
    | some write => exact .restored write hsome
  | pushRemoteOutput bytes => exact change_pushRemoteOutput h bytes
  | readByte =>
    show Change s _ { s with transfer := s.transfer.readByte.2 } .other
    unfold ModemTransferState.readByte
    split
    · exact .idle _ _ rfl rfl rfl rfl rfl rfl
    · split
      · exact .idle _ _ rfl rfl rfl rfl rfl rfl
      · split
        · exact .idle _ _ rfl rfl rfl rfl rfl rfl
        · exact .idle _ _ rfl rfl rfl rfl rfl rfl
  | drainRemoteOutput => exact .idle _ _ rfl rfl rfl rfl rfl rfl
  | stop => exact change_cancelLocked h .stop

/-! ## The counters -/

theorem Counted.change {call : ModemCall} {s' : ModemHost} {outcome : ModemOutcome}
    (h : Counted s) (hchange : Change s call s' outcome) : Counted s' := by
  cases hchange with
  | idle _ _ hwrites hbytes hinFlight hcancel hstopped htaken =>
    refine ⟨?_, ?_, ?_, ?_⟩
    · rw [hwrites, hbytes, htaken, h.total]
    · rw [hinFlight, htaken, h.in_flight]
    · rw [hwrites]
      exact h.queued_ne_nil
    · rw [htaken]
      exact h.taken_ne_nil
  | accepted bytes hrunning hbytes =>
    refine ⟨?_, h.in_flight, ?_, h.taken_ne_nil⟩
    · show s.transfer.serverWriteBytes + bytes.len = queuedBytes (_ ++ [bytes]) + _
      rw [queuedBytes_append, queuedBytes_singleton, h.total, Nat.add_right_comm]
    · intro other hother
      rcases List.mem_append.mp hother with hother | hother
      · exact h.queued_ne_nil other hother
      · rwa [List.mem_singleton.mp hother]
  | handedOut bytes rest hnone hwrites =>
    have htotal := h.total
    rw [hnone, hwrites] at htotal
    refine ⟨?_, (queuedBytes_singleton bytes).symm, ?_, ?_⟩
    · show s.transfer.serverWriteBytes = queuedBytes rest + queuedBytes [bytes]
      rw [htotal, queuedBytes_singleton, Nat.add_comm (queuedBytes rest)]
      exact queuedBytes_cons bytes rest
    · intro other hother
      exact h.queued_ne_nil other (hwrites ▸ List.mem_cons_of_mem _ hother)
    · intro write hwrite
      obtain rfl := Option.some.inj hwrite
      exact h.queued_ne_nil bytes (hwrites ▸ List.mem_cons_self)
  | completed write hsome =>
    have htotal := h.total
    have hinFlight := h.in_flight
    rw [hsome] at htotal hinFlight
    refine ⟨?_, ?_, h.queued_ne_nil, fun _ h => nomatch h⟩
    · show s.transfer.serverWriteBytes - write.bytes.len = queuedBytes s.transfer.serverWrites
      rw [htotal]
      exact Nat.add_sub_cancel (queuedBytes s.transfer.serverWrites) write.bytes.len
    · show s.transfer.serverWriteInFlightBytes - write.bytes.len = 0
      rw [hinFlight]
      exact Nat.sub_self _
  | restored write hsome =>
    have htotal := h.total
    have hinFlight := h.in_flight
    rw [hsome] at htotal hinFlight
    refine ⟨?_, ?_, ?_, fun _ h => nomatch h⟩
    · show s.transfer.serverWriteBytes = (write.bytes.len + queuedBytes s.transfer.serverWrites) + 0
      rw [htotal]
      exact Nat.add_comm _ _
    · show s.transfer.serverWriteInFlightBytes - write.bytes.len = 0
      rw [hinFlight]
      exact Nat.sub_self _
    · intro other hother
      rcases List.mem_cons.mp hother with rfl | hother
      · exact h.taken_ne_nil write hsome
      · exact h.queued_ne_nil other hother
  | cancelled _ _ hrunning hstopped hwrites hbytes hinFlight hcancel htaken =>
    refine ⟨?_, ?_, ?_, ?_⟩
    · rw [hbytes, htaken]
    · rw [hinFlight, htaken, h.in_flight]
    · rw [hwrites]
      intro other hother
      split at hother
      · exact absurd hother List.not_mem_nil
      · next hsome => rwa [List.mem_singleton.mp hother]
    · rw [htaken]
      exact h.taken_ne_nil

theorem queuedBytes_eq_zero {writes : List ByteVec} (h : ∀ bytes ∈ writes, bytes.bytes ≠ []) :
    queuedBytes writes = 0 ↔ writes = [] := by
  constructor
  · intro hzero
    cases writes with
    | nil => rfl
    | cons bytes rest =>
      have hlength : bytes.len = 0 := Nat.eq_zero_of_add_eq_zero_right hzero
      exact absurd (List.length_eq_zero_iff.mp hlength) (h bytes List.mem_cons_self)
  · rintro rfl
    rfl

theorem Counted.accounted (h : Counted s) : Accounted s := by
  have htaken : queuedBytes (s.inFlight.toList.map TakenWrite.bytes) = 0 ↔ s.inFlight = none := by
    rw [queuedBytes_eq_zero, List.map_eq_nil_iff, Option.toList_eq_nil_iff]
    intro bytes hbytes
    obtain ⟨write, hwrite, rfl⟩ := List.mem_map.mp hbytes
    exact h.taken_ne_nil write (Option.mem_toList.mp hwrite)
  refine ⟨h.total, h.in_flight, ?_⟩
  rw [serverWritesDrained, Bool.and_eq_true, decide_eq_true_eq, decide_eq_true_eq, h.total,
    h.in_flight, Nat.add_eq_zero_iff, queuedBytes_eq_zero h.queued_ne_nil, htaken, and_assoc,
    and_self]

/-! ## The order of the writes -/

def acceptedBytes : ModemOutcome → Option ByteVec
  | .accepted bytes => some bytes
  | _ => none

def completedBytes (late : Bool) : ModemOutcome → Option ByteVec
  | .completed write => if write.late = late then some write.bytes else none
  | _ => none

/-- The writes that were queued. -/
def acceptedWrites (tr : List (Event ModemHost ModemCall ModemOutcome)) : List ByteVec :=
  tr.filterMap fun e => acceptedBytes e.output

/-- The writes that reached the transport, taken before the transfer was stopped or after. -/
def completedWrites (late : Bool) (tr : List (Event ModemHost ModemCall ModemOutcome)) :
    List ByteVec :=
  tr.filterMap fun e => completedBytes late e.output

/-- The bytes that cancel a transfer are queued once, if there are any. -/
def cancellationWrites (cancellationBytes : ByteVec) : List ByteVec :=
  if cancellationBytes.bytes = [] then [] else [cancellationBytes]

/-- Where every write has gone. -/
structure Exact (cancellationBytes : ByteVec) (s : ModemHost)
    (tr : List (Event ModemHost ModemCall ModemOutcome)) : Prop where
  /-- What was accepted is completed, in flight or queued, in this order. -/
  running : s.transfer.stopped = false →
    completedWrites false tr ++ s.inFlightWrites false ++ s.transfer.serverWrites =
      acceptedWrites tr
  /-- What was completed is the beginning of what was accepted. -/
  early : completedWrites false tr ++ s.inFlightWrites false <+: acceptedWrites tr
  /-- After the transfer is stopped, only the bytes that cancel it are left to be completed. -/
  cancelled : s.transfer.stopped = true →
    completedWrites true tr ++ s.inFlightWrites true ++ s.transfer.serverWrites =
      cancellationWrites cancellationBytes
  /-- No other write is handed out. -/
  handed_out : ∀ e ∈ tr, ∀ write, e.pre.transfer.stopped = true → e.output = .handedOut write →
    write.bytes = cancellationBytes

/-- A write that was taken before the transfer was stopped is not put back after. -/
def RestoresInTime (s : ModemHost) (call : ModemCall) : Prop :=
  call = .restoreServerWrite → s.transfer.stopped = true →
    ∀ write, s.inFlight = some write → write.late = true

variable {tr : List (Event ModemHost ModemCall ModemOutcome)} {cancellationBytes : ByteVec}

@[simp] theorem acceptedWrites_snoc (e : Event ModemHost ModemCall ModemOutcome) :
    acceptedWrites (tr ++ [e]) = acceptedWrites tr ++ (acceptedBytes e.output).toList := by
  unfold acceptedWrites
  rw [List.filterMap_append]
  cases h : acceptedBytes e.output <;> simp [h]

@[simp] theorem completedWrites_snoc (late : Bool) (e : Event ModemHost ModemCall ModemOutcome) :
    completedWrites late (tr ++ [e]) =
      completedWrites late tr ++ (completedBytes late e.output).toList := by
  unfold completedWrites
  rw [List.filterMap_append]
  cases h : completedBytes late e.output <;> simp [h]

theorem completedBytes_completed (write : TakenWrite) (late : Bool) :
    (completedBytes late (.completed write)).toList =
      if write.late = late then [write.bytes] else [] := by
  show (if write.late = late then some write.bytes else none).toList = _
  split <;> rfl

theorem inFlightWrites_none (h : s.inFlight = none) (late : Bool) : s.inFlightWrites late = [] := by
  unfold inFlightWrites
  rw [h]
  rfl

theorem inFlightWrites_some {write : TakenWrite} (h : s.inFlight = some write) (late : Bool) :
    s.inFlightWrites late = if write.late = late then [write.bytes] else [] := by
  unfold inFlightWrites
  rw [h]
  by_cases hlate : write.late = late
  · simp [hlate]
  · simp [hlate]

theorem inFlightWrites_congr {s' : ModemHost} (h : s'.inFlight = s.inFlight) (late : Bool) :
    s'.inFlightWrites late = s.inFlightWrites late := by
  unfold inFlightWrites
  rw [h]

theorem mem_cancellationWrites {bytes : ByteVec}
    (h : bytes ∈ cancellationWrites cancellationBytes) : bytes = cancellationBytes := by
  unfold cancellationWrites at h
  split at h
  · exact absurd h List.not_mem_nil
  · exact List.mem_singleton.mp h

/-- What a run keeps as long as writes are put back in time. -/
structure Ordered (cancellationBytes : ByteVec) (s : ModemHost)
    (tr : List (Event ModemHost ModemCall ModemOutcome)) : Prop where
  counted : Counted s
  exact : Exact cancellationBytes s tr
  cancellation : s.transfer.cancellationBytes = cancellationBytes
  none_late : s.transfer.stopped = false →
    completedWrites true tr = [] ∧ s.inFlightWrites true = []

/-- What is handed out after the transfer is stopped, with one more event. -/
theorem handed_out_snoc {e : Event ModemHost ModemCall ModemOutcome}
    (h : Exact cancellationBytes s tr)
    (he : ∀ write, e.pre.transfer.stopped = true → e.output = .handedOut write →
      write.bytes = cancellationBytes) :
    ∀ e' ∈ tr ++ [e], ∀ write, e'.pre.transfer.stopped = true → e'.output = .handedOut write →
      write.bytes = cancellationBytes := by
  intro e' he'
  rcases List.mem_append.mp he' with he' | he'
  · exact h.handed_out e' he'
  · rw [List.mem_singleton.mp he']
    exact he

theorem Ordered.change {call : ModemCall} {s' : ModemHost} {outcome : ModemOutcome}
    (h : Ordered cancellationBytes s tr) (htime : RestoresInTime s call)
    (hchange : Change s call s' outcome) :
    Ordered cancellationBytes s'
      (tr ++ [{ pre := s, label := call, output := outcome, post := s' }]) := by
  have hcounted := h.counted.change hchange
  cases hchange with
  | idle _ _ hwrites hbytes hinFlight hcancel hstopped htaken =>
    refine ⟨hcounted, ⟨?_, ?_, ?_, ?_⟩, hcancel.trans h.cancellation, ?_⟩
    · rw [hstopped, hwrites, inFlightWrites_congr htaken]
      simpa [acceptedBytes, completedBytes] using h.exact.running
    · rw [inFlightWrites_congr htaken]
      simpa [acceptedBytes, completedBytes] using h.exact.early
    · rw [hstopped, hwrites, inFlightWrites_congr htaken]
      simpa [completedBytes] using h.exact.cancelled
    · exact handed_out_snoc h.exact fun _ _ h => nomatch h
    · rw [hstopped, inFlightWrites_congr htaken]
      simpa [completedBytes] using h.none_late
  | accepted bytes hrunning hbytes =>
    have hrun := h.exact.running hrunning
    refine ⟨hcounted, ⟨?_, ?_, ?_, ?_⟩, h.cancellation, ?_⟩
    · intro _
      rw [completedWrites_snoc, acceptedWrites_snoc, ← hrun]
      simp [completedBytes, acceptedBytes, inFlightWrites]
    · rw [completedWrites_snoc, acceptedWrites_snoc]
      simpa [completedBytes, acceptedBytes, inFlightWrites] using
        h.exact.early.trans (List.prefix_append _ _)
    · intro hstopped
      exact absurd (hrunning.symm.trans hstopped) Bool.false_ne_true
    · exact handed_out_snoc h.exact fun _ _ h => nomatch h
    · simpa [completedBytes, inFlightWrites] using h.none_late
  | handedOut bytes rest hnone hwrites =>
    have htaken : ∀ late, s.inFlightWrites late = [] := inFlightWrites_none hnone
    have hearly := h.exact.early
    have hrun := h.exact.running
    have hcancelled := h.exact.cancelled
    have hlate := h.none_late
    simp only [htaken, hwrites, List.append_nil] at hearly hrun hcancelled hlate
    refine ⟨hcounted, ⟨?_, ?_, ?_, ?_⟩, h.cancellation, ?_⟩
    · intro hrunning
      have hrunning : s.transfer.stopped = false := hrunning
      rw [inFlightWrites_some rfl, completedWrites_snoc, acceptedWrites_snoc]
      simpa [completedBytes, acceptedBytes, hrunning] using hrun hrunning
    · rw [inFlightWrites_some rfl, completedWrites_snoc, acceptedWrites_snoc]
      cases hstopped : s.transfer.stopped with
      | true => simpa [completedBytes, acceptedBytes, hstopped] using hearly
      | false =>
        simp only [completedBytes, acceptedBytes, Option.toList_none, List.append_nil, if_true]
        rw [← hrun hstopped]
        exact ⟨rest, by simp⟩
    · intro hstopped
      have hstopped : s.transfer.stopped = true := hstopped
      rw [inFlightWrites_some rfl, completedWrites_snoc]
      simpa [completedBytes, hstopped] using hcancelled hstopped
    · refine handed_out_snoc h.exact fun write hstopped hwrite => ?_
      obtain rfl := ModemOutcome.handedOut.inj hwrite
      have hmem : bytes ∈ cancellationWrites cancellationBytes := by
        rw [← hcancelled hstopped]
        exact List.mem_append_right _ List.mem_cons_self
      exact mem_cancellationWrites hmem
    · intro hrunning
      have hrunning : s.transfer.stopped = false := hrunning
      rw [inFlightWrites_some rfl, completedWrites_snoc]
      simpa [completedBytes, hrunning] using (hlate hrunning).1
  | completed write hsome =>
    have htaken := inFlightWrites_some hsome
    have hearly := h.exact.early
    have hrun := h.exact.running
    have hcancelled := h.exact.cancelled
    have hlate := h.none_late
    simp only [htaken] at hearly hrun hcancelled hlate
    have hcompleted := completedBytes_completed write
    refine ⟨hcounted, ⟨?_, ?_, ?_, ?_⟩, h.cancellation, ?_⟩
    · rw [inFlightWrites_none rfl, completedWrites_snoc, acceptedWrites_snoc, hcompleted]
      simpa [acceptedBytes, completeServerWrite] using hrun
    · rw [inFlightWrites_none rfl, completedWrites_snoc, acceptedWrites_snoc, hcompleted]
      simpa [acceptedBytes] using hearly
    · rw [inFlightWrites_none rfl, completedWrites_snoc, hcompleted]
      simpa [completeServerWrite] using hcancelled
    · exact handed_out_snoc h.exact fun _ _ h => nomatch h
    · rw [inFlightWrites_none rfl, completedWrites_snoc, hcompleted]
      simpa [completeServerWrite] using hlate
  | restored write hsome =>
    have htaken := inFlightWrites_some hsome
    have hearly := h.exact.early
    have hrun := h.exact.running
    have hcancelled := h.exact.cancelled
    have hlate := h.none_late
    simp only [htaken] at hearly hrun hcancelled hlate
    refine ⟨hcounted, ⟨?_, ?_, ?_, ?_⟩, h.cancellation, ?_⟩
    · intro hrunning
      have hrunning : s.transfer.stopped = false := hrunning
      have hwrite : write.late = false := by
        cases hwrite : write.late with
        | false => rfl
        | true => simpa [hwrite] using (hlate hrunning).2
      rw [inFlightWrites_none rfl, completedWrites_snoc, acceptedWrites_snoc]
      simpa [completedBytes, acceptedBytes, restoreServerWrite, hwrite] using hrun hrunning
    · rw [inFlightWrites_none rfl, completedWrites_snoc, acceptedWrites_snoc]
      simpa [completedBytes, acceptedBytes] using (List.prefix_append _ _).trans hearly
    · intro hstopped
      have hstopped : s.transfer.stopped = true := hstopped
      have hwrite : write.late = true := htime rfl hstopped write hsome
      rw [inFlightWrites_none rfl, completedWrites_snoc]
      simpa [completedBytes, restoreServerWrite, hwrite] using hcancelled hstopped
    · exact handed_out_snoc h.exact fun _ _ h => nomatch h
    · intro hrunning
      rw [inFlightWrites_none rfl, completedWrites_snoc]
      simpa [completedBytes] using (hlate hrunning).1
  | cancelled _ _ hrunning hstopped hwrites hbytes hinFlight hcancel htaken =>
    obtain ⟨hcompleted, hinFlightWrites⟩ := h.none_late hrunning
    refine ⟨hcounted, ⟨?_, ?_, ?_, ?_⟩, hcancel.trans h.cancellation, ?_⟩
    · intro hrunning'
      exact absurd (hrunning'.symm.trans hstopped) Bool.false_ne_true
    · rw [inFlightWrites_congr htaken]
      simpa [acceptedBytes, completedBytes] using h.exact.early
    · intro _
      rw [completedWrites_snoc, hcompleted, inFlightWrites_congr htaken, hinFlightWrites, hwrites,
        h.cancellation]
      rfl
    · exact handed_out_snoc h.exact fun _ _ h => nomatch h
    · intro hrunning'
      exact absurd (hrunning'.symm.trans hstopped) Bool.false_ne_true

/-- A write that is put back too late is queued next to the bytes that cancel the transfer. -/
theorem restoresInTime_of_exact {e : Event ModemHost ModemCall ModemOutcome}
    (h : Exact cancellationBytes s tr)
    (h' : Exact cancellationBytes (s.step e.label).1 (tr ++ [e]))
    (he : e.output = (s.step e.label).2) : RestoresInTime s e.label := by
  intro hcall hstopped write hsome
  by_contra hearly
  have hstep : s.step .restoreServerWrite =
      ({ transfer := s.transfer.restoreServerWrite write.bytes, inFlight := none },
        .restored write) := by
    unfold step
    rw [hsome]
  rw [hcall, hstep] at he h'
  have hbefore := h.cancelled hstopped
  have hafter := h'.cancelled hstopped
  rw [inFlightWrites_some hsome, if_neg hearly] at hbefore
  rw [inFlightWrites_none rfl, completedWrites_snoc, he, ← hbefore] at hafter
  have hlength := congrArg List.length hafter
  simp [completedBytes, restoreServerWrite] at hlength

theorem ordered_init (initialRemoteOutput : Bytes) (cancellationBytes : ByteVec) :
    Ordered cancellationBytes (machine initialRemoteOutput cancellationBytes).init [] where
  counted := ⟨rfl, rfl, fun _ h => absurd h List.not_mem_nil, fun _ h => nomatch h⟩
  exact := {
    running := fun _ => rfl
    early := List.prefix_rfl
    cancelled := fun h => nomatch h
    handed_out := fun _ h => absurd h List.not_mem_nil }
  cancellation := rfl
  none_late := fun _ => ⟨rfl, rfl⟩

theorem counted_final (initialRemoteOutput : Bytes) (cancellationBytes : ByteVec)
    (calls : List ModemCall) :
    Counted ((machine initialRemoteOutput cancellationBytes).final calls) := by
  refine Machine.final_invariant _ (ordered_init initialRemoteOutput cancellationBytes).counted ?_ calls
  intro s call hs
  exact hs.change (change_step hs call)

theorem ordered_final {initialRemoteOutput : Bytes} {calls : List ModemCall}
    (h : (machine initialRemoteOutput cancellationBytes).Along RestoresInTime calls) :
    Ordered cancellationBytes ((machine initialRemoteOutput cancellationBytes).final calls)
      ((machine initialRemoteOutput cancellationBytes).trace calls) := by
  refine Machine.run_invariant_along _ (ordered_init _ _) ?_ h
  intro s tr call hs htime
  exact hs.change htime (change_step hs.counted call)

/--
**The counters are right after every run, and the writes go where they should as long as no write
that was taken before the transfer was stopped is put back after.**
-/
theorem writes_are_exact_iff_restored_in_time (initialRemoteOutput : Bytes)
    (cancellationBytes : ByteVec) (calls : List ModemCall) :
    Accounted ((machine initialRemoteOutput cancellationBytes).final calls) ∧
      ((∀ past, past <+: calls →
          Exact cancellationBytes ((machine initialRemoteOutput cancellationBytes).final past)
            ((machine initialRemoteOutput cancellationBytes).trace past)) ↔
        (machine initialRemoteOutput cancellationBytes).Along RestoresInTime calls) := by
  refine ⟨(counted_final _ _ _).accounted, ?_, ?_⟩
  · rintro h past call future rfl
    refine restoresInTime_of_exact
      (e := (machine initialRemoteOutput cancellationBytes).event _ call) (h past ⟨_, rfl⟩) ?_ rfl
    have hafter := h (past ++ [call]) ⟨future, by simp⟩
    rwa [Machine.final_snoc, Machine.trace_snoc] at hafter
  · rintro h past ⟨future, rfl⟩
    exact (ordered_final (Machine.along_append _ h)).exact

def payload : ByteVec := ⟨[112], by decide⟩
def abortSequence : ByteVec := ⟨[24], by decide⟩

/-- A payload that is put back after the transfer was stopped is handed out before the abort. -/
theorem payload_handed_out_after_stop :
    ∃ past call, ((machine [] abortSequence).final past).transfer.stopped = true ∧
      ((machine [] abortSequence).step ((machine [] abortSequence).final past) call).2 =
        .handedOut { bytes := payload, late := true } ∧ payload ≠ abortSequence :=
  ⟨[.writeAll payload, .takeServerWrite, .stop, .restoreServerWrite], .takeServerWrite,
    by decide +kernel, by decide +kernel, by decide⟩

end ModemHost

end OxideTerm.Modem
