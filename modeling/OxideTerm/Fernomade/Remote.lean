import OxideTerm.Fernomade.Client
import OxideTerm.Fernomade.History

/-!
# The remote side of the client

Of all that a call changes, only four fields concern what the host is shown: the retained
states, the delivered one with its number, and the throwaway floor. `call_remote` says once
what a call can do to them, and what of it can be read off the call's reply.
-/

namespace OxideTerm.Fernomade

open OxideTerm.Lib

/-- The state a packet completed. -/
def ClientReply.received : ClientReply → Option ReceivedState
  | .receipt (.ok r) => r.state
  | _ => none

variable {X : Externals}

/-- The update, as it arrived, whose target a call added to the retained states. -/
def insertedBy (e : Event (ClientProtocol X) ClientCall ClientReply) : Option StateUpdate :=
  e.output.received.bind fun r =>
    if e.pre.receivedStates[r.update.targetState]?.isNone ∧
        e.post.receivedStates[r.update.targetState]?.isSome then
      some { r.update with delta := r.rawDelta }
    else none

/-- The state whose update a call has the host show. -/
def deliveredBy (e : Event (ClientProtocol X) ClientCall ClientReply) : Option ReceivedState :=
  e.output.received.filter ReceivedState.advancesRemoteState

/-- The viewport a call gives the blank state that nothing is based on yet. -/
def blankedBy (e : Event (ClientProtocol X) ClientCall ClientReply) : Option ViewportSize :=
  match e.label with
  | .setInitialRemoteViewport columns rows =>
    if e.pre.latestRemoteState = 0 ∧ e.pre.receivedStates.size = 1 then
      some { columns := (max columns 1).toUInt64, rows := (max rows 1).toUInt64 }
    else none
  | _ => none

namespace ClientProtocol

/-- Two states with the same remote side. -/
structure SameRemote (p q : ClientProtocol X) : Prop where
  receivedStates : q.receivedStates = p.receivedStates
  latestRemoteState : q.latestRemoteState = p.latestRemoteState
  deliveredRemoteState : q.deliveredRemoteState = p.deliveredRemoteState
  remoteThrowawayFloor : q.remoteThrowawayFloor = p.remoteThrowawayFloor

theorem SameRemote.refl (p : ClientProtocol X) : SameRemote p p := ⟨rfl, rfl, rfl, rfl⟩

theorem SameRemote.trans {p q r : ClientProtocol X} (h : SameRemote p q) (h' : SameRemote q r) :
    SameRemote p r :=
  ⟨h'.receivedStates.trans h.receivedStates, h'.latestRemoteState.trans h.latestRemoteState,
    h'.deliveredRemoteState.trans h.deliveredRemoteState,
    h'.remoteThrowawayFloor.trans h.remoteThrowawayFloor⟩

theorem sameRemote_processAcknowledgement (p : ClientProtocol X) (a : UInt64) :
    SameRemote p (p.processAcknowledgement a) := by
  unfold processAcknowledgement
  split
  · exact SameRemote.refl p
  · dsimp only
    split <;> exact ⟨rfl, rfl, rfl, rfl⟩

theorem sameRemote_sealBuilt (p : ClientProtocol X) (t : UInt16)
    (u : Except SessionError StateUpdate) : SameRemote p (p.sealBuilt t u).1 := by
  cases u with
  | error e => exact SameRemote.refl p
  | ok u =>
    obtain ⟨channel, h⟩ := p.sealUpdate_fst t u
    rw [sealBuilt, h]
    exact ⟨rfl, rfl, rfl, rfl⟩

theorem sameRemote_buildStateUpdate (p : ClientProtocol X) (t : UInt16) (is : InstructionBatch)
    (target : UInt64) : SameRemote p (p.buildStateUpdate t is target).1 := by
  rcases p.buildStateUpdate_cases t is target with
    ⟨channel, e, h⟩ | ⟨channel, packets, u, n, -, -, h⟩ <;> rw [h] <;> exact ⟨rfl, rfl, rfl, rfl⟩

/-- A call that builds something leaves the remote side alone. -/
theorem sameRemote_call (p : ClientProtocol X) {i : ClientCall}
    (hpacket : ∀ packet, i ≠ .ingestPacket packet)
    (hviewport : ∀ columns rows, i ≠ .setInitialRemoteViewport columns rows) :
    SameRemote p (p.call i).1 := by
  cases i with
  | buildUpdate t is =>
    simp only [call, Prod.map_fst, id_eq, buildUpdate]
    split
    · exact SameRemote.refl p
    · have h := p.sameRemote_buildStateUpdate t is p.nextLocalState
      generalize p.buildStateUpdate t is p.nextLocalState = r at h ⊢
      obtain ⟨q, result⟩ := r
      cases result with
      | error e => exact h
      | ok packets => exact ⟨h.receivedStates, h.latestRemoteState, h.deliveredRemoteState,
          h.remoteThrowawayFloor⟩
  | buildShutdown t is =>
    simp only [call, Prod.map_fst, id_eq, buildShutdown]
    split
    · exact SameRemote.refl p
    · exact p.sameRemote_buildStateUpdate t is shutdownState
  | retransmitPending t => exact p.sameRemote_sealBuilt t _
  | buildAcknowledgement t => exact p.sameRemote_sealBuilt t _
  | buildAssociation t => exact p.sameRemote_sealBuilt t _
  | buildShutdownAck t => exact p.sameRemote_sealBuilt t _
  | ingestPacket packet => exact absurd rfl (hpacket packet)
  | setLocalCapabilities capabilities => exact ⟨rfl, rfl, rfl, rfl⟩
  | setInitialRemoteViewport columns rows => exact absurd rfl (hviewport columns rows)

/-- An update that applies is applied in the same way to the same remote side. -/
theorem Applies.of_same {p q : ClientProtocol X} (h : SameRemote p q) {u : StateUpdate}
    {base target : RemoteTerminalState X.vt100} (happ : q.Applies u base target) :
    p.Applies u base target where
  fresh := by rw [← h.receivedStates]; exact happ.fresh
  discardBefore_le := happ.discardBefore_le
  base_lt := happ.base_lt
  retained := by rw [← h.receivedStates]; exact happ.retained
  applied := happ.applied

theorem SameRemote.discardBelow {p q : ClientProtocol X} (h : SameRemote p q) (floor : UInt64) :
    SameRemote (p.discardBelow floor) (q.discardBelow floor) :=
  ⟨by simp only [ClientProtocol.discardBelow, h.receivedStates], h.latestRemoteState,
    h.deliveredRemoteState, rfl⟩

theorem SameRemote.stored {p q : ClientProtocol X} (h : SameRemote p q) (u : StateUpdate)
    (target : RemoteTerminalState X.vt100) : SameRemote (p.stored u target) (q.stored u target) := by
  have hdiscard := h.discardBelow (max p.remoteThrowawayFloor u.discardBefore)
  unfold ClientProtocol.stored
  rw [h.remoteThrowawayFloor]
  exact ⟨by simp only [insertReceived, hdiscard.receivedStates], h.latestRemoteState,
    h.deliveredRemoteState, rfl⟩

/-- **What a message does to the remote side.** -/
theorem ingestMessage_remote (p : ClientProtocol X) (c : UInt64) (header : FragmentHeader)
    (compressed : Bytes) :
    (SameRemote p (p.ingestMessage c header compressed).1 ∧
      ∀ r, (p.ingestMessage c header compressed).2 = .ok r →
        r.advancesRemoteState = false ∧ (p.receivedStates[r.update.targetState]?.isSome ∨
          p.receivedStates[r.update.baseState]? = none)) ∨
    (∃ u base target, p.Applies u base target ∧
      SameRemote (p.discardBelow (max p.remoteThrowawayFloor u.discardBefore))
        (p.ingestMessage c header compressed).1 ∧
      ∃ e, (p.ingestMessage c header compressed).2 = .error e) ∨
    (∃ u base target r, p.Applies u base target ∧ (p.ingestMessage c header compressed).2 = .ok r ∧
      r.rawDelta = u.delta ∧
      ((SameRemote (p.stored u target) (p.ingestMessage c header compressed).1 ∧
        r.advancesRemoteState = false ∧ r.update = u ∧ (u.targetState ≤ p.latestRemoteState ∨
          ∃ e, target.diffFrom X.vte p.deliveredRemoteState = .error e)) ∨
      (∃ diff, p.latestRemoteState < u.targetState ∧
        target.diffFrom X.vte p.deliveredRemoteState = .ok diff ∧
        SameRemote { p.stored u target with
          latestRemoteState := u.targetState, deliveredRemoteState := target }
          (p.ingestMessage c header compressed).1 ∧
        r.advancesRemoteState = true ∧ r.update = { u with delta := diff.encodeBytes }))) := by
  unfold ingestMessage
  split
  · exact Or.inl ⟨SameRemote.refl p, by simp⟩
  · next u _ =>
    have hsame := p.sameRemote_processAcknowledgement u.acknowledgedState
    generalize p.processAcknowledgement u.acknowledgedState = q at hsame ⊢
    dsimp only
    rcases q.acceptRemoteUpdate_cases u with
      ⟨h, hwhy⟩ | ⟨e, h⟩ | ⟨base, target, happ, h⟩ | ⟨base, target, happ, -, h⟩ <;> rw [h]
    · refine Or.inl ⟨?_, ?_⟩
      · dsimp only
        split <;> exact ⟨hsame.receivedStates, hsame.latestRemoteState,
          hsame.deliveredRemoteState, hsame.remoteThrowawayFloor⟩
      · intro r hr
        simp only [Except.ok.injEq] at hr
        subst hr
        rw [← hsame.receivedStates]
        exact ⟨rfl, hwhy⟩
    · exact Or.inl ⟨hsame, by simp⟩
    · refine Or.inr (Or.inl ⟨u, base, target, happ.of_same hsame, ?_, _, rfl⟩)
      rw [← hsame.remoteThrowawayFloor]
      exact hsame.discardBelow _
    · have hstored := hsame.stored u target
      refine Or.inr (Or.inr ⟨u, base, target, _, happ.of_same hsame, rfl, rfl, ?_⟩)
      rcases (q.stored u target).deliver_cases u target with ⟨hd, hnot⟩ | ⟨diff, hlt, hdiff, hd⟩
      · refine Or.inl ⟨?_, by rw [hd], by rw [hd], ?_⟩
        · dsimp only
          rw [hd]
          split <;> exact ⟨hstored.receivedStates, hstored.latestRemoteState,
            hstored.deliveredRemoteState, hstored.remoteThrowawayFloor⟩
        · rw [← hsame.latestRemoteState, ← hsame.deliveredRemoteState]
          exact hnot
      · refine Or.inr ⟨diff, ?_, ?_, ?_, by rw [hd], by rw [hd]⟩
        · rw [← hsame.latestRemoteState]
          exact hlt
        · rw [← hsame.deliveredRemoteState]
          exact hdiff
        · dsimp only
          rw [hd]
          split <;> exact ⟨hstored.receivedStates, rfl, rfl, hstored.remoteThrowawayFloor⟩

/-- A message that completes an update reports it with the delta that arrived. -/
theorem ingestMessage_received {p : ClientProtocol X} {c : UInt64} {header : FragmentHeader}
    {compressed : Bytes} {u : StateUpdate} {r : ReceivedState}
    (hdecode : decodeCompressedUpdate X.prost X.zlib compressed = .ok u)
    (h : (p.ingestMessage c header compressed).2 = .ok r) :
    { r.update with delta := r.rawDelta } = u := by
  unfold ingestMessage at h
  rw [hdecode] at h
  dsimp only at h
  generalize p.processAcknowledgement u.acknowledgedState = q at h
  rcases q.acceptRemoteUpdate_cases u with
    ⟨heq, -⟩ | ⟨e, heq⟩ | ⟨base, target, -, heq⟩ | ⟨base, target, -, -, heq⟩ <;> rw [heq] at h
  · simp only [Except.ok.injEq] at h
    subst h
    rfl
  · simp at h
  · simp at h
  · simp only [Except.ok.injEq] at h
    subst h
    rcases (q.stored u target).deliver_cases u target with ⟨hd, -⟩ | ⟨diff, -, -, hd⟩ <;> rw [hd]

/-- The ways in which a call changes the remote side, with what can be seen of it: the update
that was inserted, the state that was delivered, the viewport that was given to the blank. -/
inductive RemoteStep (p q : ClientProtocol X) :
    Option StateUpdate → Option ReceivedState → Option ViewportSize → Prop where
  | same : SameRemote p q → RemoteStep p q none none none
  | discarded {u : StateUpdate} {base target : RemoteTerminalState X.vt100} :
    p.Applies u base target →
    SameRemote (p.discardBelow (max p.remoteThrowawayFloor u.discardBefore)) q →
    RemoteStep p q none none none
  | stored {u : StateUpdate} {base target : RemoteTerminalState X.vt100} :
    p.Applies u base target → SameRemote (p.stored u target) q →
    (u.targetState ≤ p.latestRemoteState ∨
      ∃ e, target.diffFrom X.vte p.deliveredRemoteState = .error e) →
    RemoteStep p q (some u) none none
  | delivered {u : StateUpdate} {base target : RemoteTerminalState X.vt100}
    {diff : InstructionBatch} {r : ReceivedState} :
    p.Applies u base target → p.latestRemoteState < u.targetState →
    target.diffFrom X.vte p.deliveredRemoteState = .ok diff →
    SameRemote { p.stored u target with
      latestRemoteState := u.targetState, deliveredRemoteState := target } q →
    r.update = { u with delta := diff.encodeBytes } →
    RemoteStep p q (some u) (some r) none
  | blanked {columns rows : UInt16} : p.latestRemoteState = 0 → p.receivedStates.size = 1 →
    SameRemote { p with
      receivedStates := p.receivedStates.insert 0 (RemoteTerminalState.create columns rows).clone
      deliveredRemoteState := .create columns rows } q →
    RemoteStep p q none none (some { columns := columns.toUInt64, rows := rows.toUInt64 })

/-- A viewport of at least one column and one row is valid. -/
theorem new_max_one (T : Vt100) (columns rows : UInt16) :
    RemoteTerminalState.new (T := T) (max columns 1) (max rows 1) =
      .ok (.create (max columns 1) (max rows 1)) := by
  have hvalid : ∀ v : UInt16, (max v 1).toUInt64 ≠ 0 ∧ (u16TryFrom (max v 1).toUInt64).isNone = false := by
    intro v
    have hpos : 0 < (max v 1).toNat := by
      show 0 < (if v ≤ 1 then 1 else v).toNat
      split
      · decide
      · next h =>
        rw [UInt16.not_le, UInt16.lt_iff_toNat_lt] at h
        omega
    have hlt : (max v 1).toNat < 2 ^ 16 := (max v 1).toNat_lt
    constructor
    · intro hzero
      have htoNat := congrArg UInt64.toNat hzero
      simp only [UInt16.toNat_toUInt64, UInt64.toNat_zero] at htoNat
      omega
    · rw [u16TryFrom, if_pos (by simpa using hlt)]
      rfl
  unfold RemoteTerminalState.new validateViewport
  rw [if_neg]
  simp [hvalid columns, hvalid rows]

theorem retained_discardBelow {p : ClientProtocol X} {floor k : UInt64}
    {s : RemoteTerminalState X.vt100} :
    (p.discardBelow floor).receivedStates[k]? = some s ↔
      p.receivedStates[k]? = some s ∧ floor ≤ k := by
  simp only [ClientProtocol.discardBelow]
  rw [Std.ExtTreeMap.getElem?_filter']
  cases p.receivedStates[k]? <;> simp

theorem retained_stored {p : ClientProtocol X} {u : StateUpdate}
    {target s : RemoteTerminalState X.vt100} {k : UInt64} :
    (p.stored u target).receivedStates[k]? = some s ↔
      (k = u.targetState ∧ s = target.clone) ∨ (k ≠ u.targetState ∧ p.receivedStates[k]? = some s ∧
        max p.remoteThrowawayFloor u.discardBefore ≤ k) := by
  simp only [ClientProtocol.stored, insertReceived]
  rw [Std.ExtTreeMap.getElem?_insert]
  split
  · next heq =>
    obtain rfl : u.targetState = k := Std.LawfulEqCmp.eq_of_compare heq
    simp [eq_comm]
  · next hne =>
    have hk : k ≠ u.targetState := by
      rintro rfl
      exact hne Std.ReflCmp.compare_self
    rw [retained_discardBelow]
    simp [hk]

end ClientProtocol

/-! ## What can be seen of a call -/

theorem insertedBy_of_same {e : Event (ClientProtocol X) ClientCall ClientReply}
    (h : ClientProtocol.SameRemote e.pre e.post) : insertedBy e = none := by
  unfold insertedBy
  rw [h.receivedStates]
  cases e.output.received with
  | none => rfl
  | some r =>
    rw [Option.bind_some, if_neg]
    rintro ⟨hnone, hsome⟩
    rw [Option.isNone_iff_eq_none] at hnone
    rw [hnone] at hsome
    simp at hsome

theorem insertedBy_of_received_none {e : Event (ClientProtocol X) ClientCall ClientReply}
    (h : e.output.received = none) : insertedBy e = none ∧ deliveredBy e = none := by
  rw [insertedBy, deliveredBy, h]
  exact ⟨rfl, rfl⟩

/-- What a call inserts is what it reports, with the delta that arrived. -/
theorem received_of_insertedBy {e : Event (ClientProtocol X) ClientCall ClientReply}
    {u : StateUpdate} (h : insertedBy e = some u) :
    ∃ r, e.output.received = some r ∧ { r.update with delta := r.rawDelta } = u := by
  rw [insertedBy, Option.bind_eq_some_iff] at h
  obtain ⟨r, hr, hu⟩ := h
  rw [Option.ite_none_right_eq_some] at hu
  exact ⟨r, hr, Option.some.inj hu.2⟩

/-- The inserted update is the received one with the delta it arrived with. -/
theorem insertedBy_of_inserted {e : Event (ClientProtocol X) ClientCall ClientReply}
    {r : ReceivedState} {u : StateUpdate} (hreceived : e.output.received = some r)
    (hraw : r.rawDelta = u.delta) {delta : Bytes} (hupdate : r.update = { u with delta })
    (hpre : e.pre.receivedStates[u.targetState]? = none)
    (hpost : e.post.receivedStates[u.targetState]?.isSome) : insertedBy e = some u := by
  rw [insertedBy, hreceived, Option.bind_some, hupdate, if_pos ⟨by simp [hpre], hpost⟩, hraw]

namespace ClientProtocol

/-- A message is seen by its reply. -/
theorem ingestMessage_remoteStep (p : ClientProtocol X) (c : UInt64) (header : FragmentHeader)
    (compressed : Bytes) {e : Event (ClientProtocol X) ClientCall ClientReply}
    (hpre : SameRemote e.pre p) (hpost : e.post = (p.ingestMessage c header compressed).1)
    (hreceived : e.output.received = (p.ingestMessage c header compressed).2.toOption) :
    RemoteStep e.pre e.post (insertedBy e) (deliveredBy e) none := by
  rcases p.ingestMessage_remote c header compressed with
    ⟨hsame, hr⟩ | ⟨u, base, target, happ, hsame, err, herr⟩ | ⟨u, base, target, r, happ, hr, hraw, h⟩
  · rw [← hpost] at hsame
    have hinserted := insertedBy_of_same (hpre.trans hsame)
    have hdelivered : deliveredBy e = none := by
      rw [deliveredBy, hreceived]
      cases hresult : (p.ingestMessage c header compressed).2 with
      | error err => rfl
      | ok r => simp [Except.toOption, (hr r hresult).1]
    rw [hinserted, hdelivered]
    exact .same (hpre.trans hsame)
  · rw [← hpost] at hsame
    obtain ⟨hinserted, hdelivered⟩ := insertedBy_of_received_none (e := e) (by rw [hreceived, herr]; rfl)
    rw [hinserted, hdelivered]
    refine .discarded (happ.of_same hpre) ?_
    rw [← hpre.remoteThrowawayFloor]
    exact (hpre.discardBelow _).trans hsame
  · rw [hr] at hreceived
    have hfresh := (happ.of_same hpre).fresh
    rcases h with ⟨hsame, hquiet, hupdate, hnot⟩ | ⟨diff, hlt, hdiff, hsame, hadvances, hupdate⟩
    · rw [← hpost] at hsame
      have hretained : e.post.receivedStates[u.targetState]?.isSome := by
        rw [hsame.receivedStates, retained_stored.mpr (Or.inl ⟨rfl, rfl⟩)]
        rfl
      have hinserted := insertedBy_of_inserted hreceived hraw (show r.update = { u with delta := u.delta } from hupdate)
        hfresh hretained
      have hdelivered : deliveredBy e = none := by
        rw [deliveredBy, hreceived]
        simp [Except.toOption, hquiet]
      rw [hinserted, hdelivered]
      refine .stored (happ.of_same hpre) ((hpre.stored u target).trans hsame) ?_
      rw [← hpre.latestRemoteState, ← hpre.deliveredRemoteState]
      exact hnot
    · rw [← hpost] at hsame
      have hretained : e.post.receivedStates[u.targetState]?.isSome := by
        have hstored : (p.stored u target).receivedStates[u.targetState]? = some target.clone :=
          retained_stored.mpr (Or.inl ⟨rfl, rfl⟩)
        rw [hsame.receivedStates]
        exact Option.isSome_of_eq_some hstored
      have hinserted := insertedBy_of_inserted hreceived hraw hupdate hfresh hretained
      have hdelivered : deliveredBy e = some r := by
        rw [deliveredBy, hreceived]
        simp [Except.toOption, hadvances]
      rw [hinserted, hdelivered]
      have hstored := hpre.stored u target
      refine .delivered (happ.of_same hpre) ?_ ?_ ?_ hupdate
      · rw [← hpre.latestRemoteState]
        exact hlt
      · rw [← hpre.deliveredRemoteState]
        exact hdiff
      · exact ⟨hsame.receivedStates.trans hstored.receivedStates, hsame.latestRemoteState,
          hsame.deliveredRemoteState, hsame.remoteThrowawayFloor.trans hstored.remoteThrowawayFloor⟩

/-- **What a call does to the remote side, and what its reply tells of it.** -/
theorem call_remote (p : ClientProtocol X) (i : ClientCall) :
    RemoteStep p (p.call i).1 (insertedBy ((clientMachine X).event p i))
      (deliveredBy ((clientMachine X).event p i)) (blankedBy ((clientMachine X).event p i)) := by
  by_cases hpacket : ∃ packet, i = .ingestPacket packet
  · obtain ⟨packet, rfl⟩ := hpacket
    have hcall : p.call (.ingestPacket packet) =
        ((p.ingestPacket packet).1, .receipt (p.ingestPacket packet).2) := rfl
    rcases p.ingestPacket_cases packet with
      ⟨w, t, as, hstate, hnone⟩ | ⟨w, t, as, c, header, compressed, receipt, heq⟩
    · have hreceived : ((clientMachine X).event p (.ingestPacket packet)).output.received = none := by
        simp only [clientMachine, Machine.event_output, hcall]
        cases hr : (p.ingestPacket packet).2 with
        | error e => rfl
        | ok r => exact hnone r hr
      obtain ⟨hinserted, hdelivered⟩ := insertedBy_of_received_none hreceived
      rw [hinserted, hdelivered, hcall, hstate]
      exact .same ⟨rfl, rfl, rfl, rfl⟩
    · exact ingestMessage_remoteStep (p.rebook w t as) c header compressed
        (e := (clientMachine X).event p (.ingestPacket packet)) ⟨rfl, rfl, rfl, rfl⟩
        (by simp only [clientMachine, Machine.event_post, hcall, heq])
        (by
          simp only [clientMachine, Machine.event_output, hcall, heq]
          cases ((p.rebook w t as).ingestMessage c header compressed).2 <;> rfl)
  · by_cases hviewport : ∃ columns rows, i = .setInitialRemoteViewport columns rows
    · obtain ⟨columns, rows, rfl⟩ := hviewport
      have hcall : p.call (.setInitialRemoteViewport columns rows) =
          (p.setInitialRemoteViewport columns rows, .done) := rfl
      have hreceived : ((clientMachine X).event p
          (.setInitialRemoteViewport columns rows)).output.received = none := rfl
      obtain ⟨hinserted, hdelivered⟩ := insertedBy_of_received_none hreceived
      rw [hinserted, hdelivered, hcall]
      by_cases hblank : p.latestRemoteState = 0 ∧ p.receivedStates.size = 1
      · have hblanked : blankedBy ((clientMachine X).event p (.setInitialRemoteViewport columns rows))
            = some { columns := (max columns 1).toUInt64, rows := (max rows 1).toUInt64 } :=
          if_pos hblank
        rw [hblanked, setInitialRemoteViewport, if_neg (by simp [hblank]), new_max_one]
        exact .blanked hblank.1 hblank.2 ⟨rfl, rfl, rfl, rfl⟩
      · have hblanked : blankedBy ((clientMachine X).event p (.setInitialRemoteViewport columns rows))
            = none := if_neg hblank
        rw [hblanked, setInitialRemoteViewport, if_pos (by rwa [not_and_or] at hblank)]
        exact .same (SameRemote.refl p)
    · have hsame := p.sameRemote_call (fun packet h => hpacket ⟨packet, h⟩)
        (fun columns rows h => hviewport ⟨columns, rows, h⟩)
      have hblank : blankedBy ((clientMachine X).event p i) = none := by
        unfold blankedBy
        split
        · next columns rows hlabel => exact absurd ⟨columns, rows, hlabel⟩ hviewport
        · rfl
      have hreceived : ((clientMachine X).event p i).output.received = none := by
        simp only [clientMachine, Machine.event_output]
        cases i with
        | ingestPacket packet => exact absurd ⟨packet, rfl⟩ hpacket
        | _ => rfl
      obtain ⟨hinserted, hdelivered⟩ := insertedBy_of_received_none hreceived
      rw [hinserted, hdelivered, hblank]
      exact .same hsame

end ClientProtocol

end OxideTerm.Fernomade
