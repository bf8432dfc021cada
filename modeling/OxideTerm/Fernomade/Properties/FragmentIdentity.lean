import OxideTerm.Fernomade.Accumulator
import OxideTerm.Fernomade.Client
import OxideTerm.Fernomade.Reference

/-!
# Fragment identifiers and messages

Fragments carry the target state of their update as the identifier of the message they belong
to. An update says more than its target: the base, the confirmed state, the acknowledgement,
the capabilities and the instructions are those of the moment of sealing (`SealInputs`). The
fragments sent under one identifier fit together exactly when all of these were the same each
time.
-/

namespace OxideTerm.Fernomade

open OxideTerm.Lib

/-! ## What is sealed, and from what -/

/-- What goes into an update besides its target. -/
structure SealInputs where
  baseState : UInt64
  confirmedState : UInt64
  acknowledgedState : UInt64
  capabilities : Bytes
  instructions : List Instruction
deriving DecidableEq

namespace ClientProtocol

variable {X : Externals}

/-- The newest acknowledged state. -/
def confirmedState (p : ClientProtocol X) : UInt64 :=
  (p.sentStates.head?.map SentState.stateId).getD 0

/-- The instructions after the confirmed state. -/
def pendingInstructions (p : ClientProtocol X) : List Instruction :=
  let first := (p.sentStates.head?.map SentState.instructionEnd).getD 0
  let last := (p.sentStates.getLast?.map SentState.instructionEnd).getD 0
  (p.localInstructions.drop first).take (last - first)

/-- The target of the update a call would seal. -/
def sealTarget (p : ClientProtocol X) : ClientCall → UInt64
  | .buildUpdate _ _ => p.nextLocalState
  | .buildShutdown _ _ => shutdownState
  | .buildShutdownAck _ => shutdownState
  | _ => p.latestLocalState

/-- The inputs of the update a call would seal. -/
def sealInputs (p : ClientProtocol X) : ClientCall → SealInputs
  | .buildUpdate _ is | .buildShutdown _ is =>
    { baseState := p.latestLocalState, confirmedState := p.confirmedState
      acknowledgedState := p.latestRemoteState, capabilities := p.localCapabilities
      instructions := is.instructions }
  | .retransmitPending _ =>
    { baseState := p.confirmedState, confirmedState := p.confirmedState
      acknowledgedState := p.latestRemoteState, capabilities := p.localCapabilities
      instructions := p.pendingInstructions }
  | .buildShutdownAck _ =>
    { baseState := shutdownState, confirmedState := shutdownState
      acknowledgedState := p.latestRemoteState, capabilities := p.localCapabilities
      instructions := [] }
  | _ =>
    { baseState := p.latestLocalState, confirmedState := p.confirmedState
      acknowledgedState := p.latestRemoteState, capabilities := p.localCapabilities
      instructions := [] }

end ClientProtocol

/-- The update made of these inputs. -/
def SealInputs.update (inputs : SealInputs) (targetState : UInt64) : StateUpdate where
  protocolVersion := Fernomade.protocolVersion
  baseState := inputs.baseState
  targetState
  acknowledgedState := inputs.acknowledgedState
  discardBefore := inputs.confirmedState
  delta := InstructionBatch.encodeBytes { instructions := inputs.instructions }
  padding := []
  capabilities := inputs.capabilities

theorem SealInputs.update_inj {a b : SealInputs} {t : UInt64} (h : a.update t = b.update t) :
    a = b := by
  cases a; cases b
  simp only [SealInputs.update, StateUpdate.mk.injEq, true_and] at h
  obtain ⟨hbase, hack, hconfirmed, hdelta, hcap⟩ := h
  have hinstr := InstructionBatch.encodeBytes_inj hdelta
  simp_all

/-- **The update a call seals is made of its inputs.** -/
theorem ClientProtocol.outgoing_eq {X : Externals} {p : ClientProtocol X} {i : ClientCall}
    {u : StateUpdate} (h : p.outgoing i = some u) : u = (p.sealInputs i).update (p.sealTarget i) := by
  have hstate : ∀ {is target v}, (p.stateUpdate is target).toOption.map Prod.fst = some v →
      v = SealInputs.update
        { baseState := p.latestLocalState, confirmedState := p.confirmedState
          acknowledgedState := p.latestRemoteState, capabilities := p.localCapabilities
          instructions := is.instructions } target := by
    intro is target v hv
    cases hs : p.stateUpdate is target with
    | error e => rw [hs] at hv; simp [Except.toOption] at hv
    | ok r =>
      obtain ⟨w, n⟩ := r
      rw [hs] at hv
      simp only [Except.toOption, Option.map_some, Option.some.injEq] at hv
      subst hv
      obtain ⟨front, back, hf, hb, rfl, -⟩ := ClientProtocol.stateUpdate_ok hs
      simp [SealInputs.update, StateUpdate.new, latestLocalState, confirmedState, hf, hb]
  have hack : p.acknowledgementUpdate.toOption = some u →
      u = SealInputs.update
        { baseState := p.latestLocalState, confirmedState := p.confirmedState
          acknowledgedState := p.latestRemoteState, capabilities := p.localCapabilities
          instructions := [] } p.latestLocalState := by
    intro hu
    unfold acknowledgementUpdate at hu
    split at hu
    · next front back hf hb =>
      simp only [Except.toOption, Option.some.injEq] at hu
      subst hu
      simp [SealInputs.update, StateUpdate.new, latestLocalState, confirmedState, hf, hb,
        InstructionBatch.encodeBytes, InstructionBatch.fields]
    · simp [Except.toOption] at hu
  cases i with
  | buildUpdate t is =>
    simp only [outgoing] at h
    split at h
    · simp at h
    · exact hstate h
  | buildShutdown t is =>
    simp only [outgoing] at h
    split at h
    · simp at h
    · exact hstate h
  | retransmitPending t =>
    simp only [outgoing, pendingUpdate] at h
    split at h
    · simp [Except.toOption] at h
    · split at h
      · next front back hf hb =>
        simp only [Except.toOption, Option.some.injEq] at h
        subst h
        simp [SealInputs.update, StateUpdate.new, sealInputs, sealTarget, latestLocalState,
          confirmedState, pendingInstructions, hf, hb]
      · simp [Except.toOption] at h
  | buildAcknowledgement t => exact hack h
  | buildAssociation t => exact hack h
  | buildShutdownAck t =>
    simp only [outgoing, shutdownAckUpdate] at h
    split at h
    · simp [Except.toOption] at h
    · simp only [Except.toOption, Option.some.injEq] at h
      subst h
      rfl
  | ingestPacket packet => simp [outgoing] at h
  | setLocalCapabilities capabilities => simp [outgoing] at h
  | setInitialRemoteViewport columns rows => simp [outgoing] at h

/-! ## The fragments of a run -/

section run

variable {X : Externals}

/-- The compressed message that a call passed to `Fragment::split`. -/
def splitMessage (e : Event (ClientProtocol X) ClientCall ClientReply) : Option Bytes :=
  (emitted e).bind fun u => (encodeCompressedUpdate X.zlib u).toOption

/-- The fragments that a call sent. -/
def sentFragments (e : Event (ClientProtocol X) ClientCall ClientReply) : List Fragment :=
  match emitted e, splitMessage e with
  | some u, some compressed =>
    (Fragment.split compressed e.label.sentTimestamp
      (e.pre.latestPeerTimestamp.getD noEchoTimestamp) u.targetState).toOption.getD []
  | _, _ => []

/-- The call sent datagrams under this identifier. -/
def SendsUnder (k : UInt64) (e : Event (ClientProtocol X) ClientCall ClientReply) : Prop :=
  e.output.sent.isSome = true ∧ e.pre.sealTarget e.label = k

/-- What a call under an identifier sent: all fragments of one message. -/
theorem sendsUnder_fragments {calls : List ClientCall}
    {e : Event (ClientProtocol X) ClientCall ClientReply} (he : e ∈ (clientMachine X).trace calls)
    {k : UInt64} (h : SendsUnder k e) :
    ∃ message, encodeCompressedUpdate X.zlib ((e.pre.sealInputs e.label).update k) = .ok message ∧
      splitMessage e = some message ∧
      ∀ f, f ∈ sentFragments e ↔ ∃ i < Fragment.chunkCount message,
        f = Fragment.fragmentAt message e.label.sentTimestamp
          (e.pre.latestPeerTimestamp.getD noEchoTimestamp) k i := by
  obtain ⟨hsent, rfl⟩ := h
  obtain ⟨packets, hpackets⟩ := Option.isSome_iff_exists.mp hsent
  obtain ⟨u, hemit, hseal⟩ := emitted_of_sent he hpackets
  have hu : u = (e.pre.sealInputs e.label).update (e.pre.sealTarget e.label) := by
    refine ClientProtocol.outgoing_eq ?_
    rw [emitted, hpackets] at hemit
    exact hemit
  obtain ⟨compressed, fs, hcompressed, hfs, -⟩ := ClientProtocol.sealUpdate_ok hseal
  have hsplit : splitMessage e = some compressed := by
    simp [splitMessage, hemit, hcompressed, Except.toOption]
  have hfragments : sentFragments e = fs := by
    simp [sentFragments, hemit, hsplit, hfs, Except.toOption]
  refine ⟨compressed, by rw [← hu]; exact hcompressed, hsplit, ?_⟩
  intro f
  rw [hfragments, Fragment.mem_split hfs, hu]
  rfl

/-- Fragments come from calls that sent under their identifier. -/
theorem sendsUnder_of_mem {calls : List ClientCall}
    {e : Event (ClientProtocol X) ClientCall ClientReply} (he : e ∈ (clientMachine X).trace calls)
    {f : Fragment} (hf : f ∈ sentFragments e) : SendsUnder f.header.stateId e := by
  unfold sentFragments at hf
  split at hf
  · next u compressed hemit hsplit =>
    have hsent : e.output.sent.isSome = true := by
      unfold emitted at hemit
      split at hemit
      · assumption
      · simp at hemit
    refine ⟨hsent, ?_⟩
    obtain ⟨message, -, -, hmem⟩ := sendsUnder_fragments he ⟨hsent, rfl⟩
    have hf' : f ∈ sentFragments e := by
      unfold sentFragments
      rw [hemit, hsplit]
      exact hf
    obtain ⟨i, -, rfl⟩ := (hmem f).mp hf'
    rfl
  · simp at hf

/-- However fragments sent under `k` are fed to an accumulator: no conflict is reported, and a
completed message is one that was split under `k`. -/
def OneMessage (trace : List (Event (ClientProtocol X) ClientCall ClientReply)) (k : UInt64) :
    Prop :=
  ∀ fs : List Fragment, (∀ f ∈ fs, f.header.stateId = k ∧ ∃ e ∈ trace, f ∈ sentFragments e) →
    ∀ r ∈ (FragmentAccumulator.new k maximumReassembledBytes).pushAll fs,
      (∀ err, r = .error err → ¬ err.IsConflict) ∧
      (∀ message, r = .ok (some message) →
        ∃ e ∈ trace, SendsUnder k e ∧ splitMessage e = some message)

/-- Two calls that sealed different inputs under one identifier give conflicting fragments. -/
theorem not_oneMessage {calls : List ClientCall} {k : UInt64} (hZ : X.zlib.Lawful)
    {e₁ e₂ : Event (ClientProtocol X) ClientCall ClientReply}
    (he₁ : e₁ ∈ (clientMachine X).trace calls) (he₂ : e₂ ∈ (clientMachine X).trace calls)
    (hs₁ : SendsUnder k e₁) (hs₂ : SendsUnder k e₂)
    (hne : e₁.pre.sealInputs e₁.label ≠ e₂.pre.sealInputs e₂.label) :
    ¬ OneMessage ((clientMachine X).trace calls) k := by
  intro hone
  obtain ⟨m₁, hm₁, -, hf₁⟩ := sendsUnder_fragments he₁ hs₁
  obtain ⟨m₂, hm₂, -, hf₂⟩ := sendsUnder_fragments he₂ hs₂
  have hmessages : m₁ ≠ m₂ := by
    rintro rfl
    exact hne (SealInputs.update_inj (encodeCompressedUpdate_inj hZ hm₁ hm₂))
  obtain ⟨i, j, fs, hi, hj, hfs, err, hconflict, herr⟩ :=
    FragmentAccumulator.exists_conflict hmessages k maximumReassembledBytes
      e₁.label.sentTimestamp
      (e₁.pre.latestPeerTimestamp.getD noEchoTimestamp) e₂.label.sentTimestamp
      (e₂.pre.latestPeerTimestamp.getD noEchoTimestamp) (by decide) (by decide)
  refine (hone fs ?_ _ herr).1 err rfl hconflict
  intro f hf
  rcases hfs f hf with rfl | rfl
  · exact ⟨rfl, e₁, he₁, (hf₁ _).mpr ⟨i, hi, rfl⟩⟩
  · exact ⟨rfl, e₂, he₂, (hf₂ _).mpr ⟨j, hj, rfl⟩⟩

/-- Calls that sealed the same inputs under an identifier sent one message under it. -/
theorem oneMessage_of_same {calls : List ClientCall} {k : UInt64}
    (hsame : ∀ e₁ ∈ (clientMachine X).trace calls, ∀ e₂ ∈ (clientMachine X).trace calls,
      SendsUnder k e₁ → SendsUnder k e₂ →
        e₁.pre.sealInputs e₁.label = e₂.pre.sealInputs e₂.label) :
    OneMessage ((clientMachine X).trace calls) k := by
  intro fs hfs r hr
  -- some call sent under `k`, or there is nothing to push
  obtain ⟨f₀, hf₀⟩ : ∃ f, f ∈ fs := by
    cases fs with
    | nil => simp [FragmentAccumulator.pushAll] at hr
    | cons f fs => exact ⟨f, List.mem_cons_self⟩
  obtain ⟨hid₀, e₀, he₀, hsent₀⟩ := hfs f₀ hf₀
  have hs₀ : SendsUnder k e₀ := hid₀ ▸ sendsUnder_of_mem he₀ hsent₀
  obtain ⟨message, hm₀, hsplit₀, -⟩ := sendsUnder_fragments he₀ hs₀
  have hall : ∀ f ∈ fs, ∃ i < Fragment.chunkCount message, ∃ sent echoed,
      f = Fragment.fragmentAt message sent echoed k i := by
    intro f hf
    obtain ⟨hid, e, he, hsent⟩ := hfs f hf
    have hs : SendsUnder k e := hid ▸ sendsUnder_of_mem he hsent
    obtain ⟨m, hm, -, hmem⟩ := sendsUnder_fragments he hs
    rw [hsame e he e₀ he₀ hs hs₀, hm₀] at hm
    obtain rfl : message = m := by simpa using hm
    obtain ⟨i, hi, rfl⟩ := (hmem f).mp hsent
    exact ⟨i, hi, _, _, rfl⟩
  obtain ⟨hconflict, hcomplete⟩ := FragmentAccumulator.pushAll_of_holds
    (FragmentAccumulator.holds_new message k maximumReassembledBytes) hall r hr
  refine ⟨hconflict, ?_⟩
  intro result hresult
  obtain rfl := hcomplete result hresult
  exact ⟨e₀, he₀, hs₀, hsplit₀⟩

end run

/-! ## A key press and its heartbeat -/

/-- The input of one key. -/
def keyPress : InstructionBatch := { instructions := [hostBytesInstruction [0x61]] }

/-- The state after the key press has been sent. -/
theorem call_keyPress : ∃ packet channel,
    (ClientProtocol.new (X := Reference.externals)).call (.buildUpdate 0 keyPress) =
      ({ ClientProtocol.new with
          secureChannel := channel
          localInstructions := keyPress.instructions
          sentStates := [{ stateId := 0, instructionEnd := 0 }, { stateId := 1, instructionEnd := 1 }]
          nextLocalState := 2 },
        .datagrams (.ok [packet])) ∧ channel.nextCounter = some 1 := by
  have hlen : ((SealInputs.mk 0 0 0 [] keyPress.instructions).update 1).encode.length
      ≤ maxFragmentBodyBytes := by
    simp [SealInputs.update, keyPress, InstructionBatch.encodeBytes, InstructionBatch.fields,
      Protobuf.messageField, hostBytesInstruction, Instruction.fields, ByteRun.fields,
      Protobuf.bytesField, Protobuf.Field.encode, Protobuf.Field.key, Protobuf.WireValue.encode,
      Protobuf.WireValue.wireType, Protobuf.varint_of_lt, StateUpdate.encode, StateUpdate.fields,
      Protobuf.uintField, protocolVersion, maxFragmentBodyBytes]
  obtain ⟨packet, hseal⟩ := Reference.sealUpdate_ok (ClientProtocol.new (X := Reference.externals))
    (c := 0) rfl 0 (u := (SealInputs.mk 0 0 0 [] keyPress.instructions).update 1) rfl hlen
  have hupdate : (ClientProtocol.new (X := Reference.externals)).stateUpdate keyPress 1 =
      .ok ((SealInputs.mk 0 0 0 [] keyPress.instructions).update 1, 1) := rfl
  have hlimit : ∀ s t : SentState, limitSentStates [s, t] = [s, t] := by
    intro s t
    rw [limitSentStates, if_neg (by simp [maximumSentStates])]
  refine ⟨packet, { SecureChannel.new .client with nextCounter := followingCounter 0 }, ?_,
    by decide⟩
  simp only [ClientProtocol.call, ClientProtocol.buildUpdate, ClientProtocol.buildStateUpdate]
  rw [if_neg (by decide)]
  simp only [show (ClientProtocol.new (X := Reference.externals)).nextLocalState = 1 from rfl,
    hupdate, hseal]
  simp [ClientProtocol.new, hlimit]

/-! ## When an identifier is a message -/

/--
**One identifier is one message exactly when the inputs of sealing did not change.**

In every run, the fragments sent under an identifier fit together if and only if any two calls
that sent under it had the same base, confirmed state, acknowledgement, capabilities and
instructions to seal.
-/
theorem oneMessage_iff (X : Externals) (hZ : X.zlib.Lawful) (calls : List ClientCall) (k : UInt64) :
    OneMessage ((clientMachine X).trace calls) k ↔
      ∀ e₁ ∈ (clientMachine X).trace calls, ∀ e₂ ∈ (clientMachine X).trace calls,
        SendsUnder k e₁ → SendsUnder k e₂ →
          e₁.pre.sealInputs e₁.label = e₂.pre.sealInputs e₂.label := by
  refine ⟨?_, oneMessage_of_same⟩
  intro hone e₁ he₁ e₂ he₂ hs₁ hs₂
  by_contra hne
  exact not_oneMessage hZ he₁ he₂ hs₁ hs₂ hne hone

/-- The heartbeat after a key press goes out under the same identifier with another message. -/
theorem oneMessage_fails_on_heartbeat :
    ¬ OneMessage ((clientMachine Reference.externals).trace
      [.buildUpdate 0 keyPress, .buildAcknowledgement 0]) 1 := by
  obtain ⟨packet, channel, hcall, hchannel⟩ := call_keyPress
  generalize hp : ({ ClientProtocol.new (X := Reference.externals) with
    secureChannel := channel
    localInstructions := keyPress.instructions
    sentStates := [{ stateId := 0, instructionEnd := 0 }, { stateId := 1, instructionEnd := 1 }]
    nextLocalState := 2 } : ClientProtocol Reference.externals) = p at hcall
  have hlen : ((SealInputs.mk 1 0 0 [] []).update 1).encode.length ≤ maxFragmentBodyBytes := by
    simp [SealInputs.update, InstructionBatch.encodeBytes, InstructionBatch.fields,
      Protobuf.bytesField, Protobuf.Field.encode, Protobuf.Field.key, Protobuf.WireValue.encode,
      Protobuf.WireValue.wireType, Protobuf.varint_of_lt, StateUpdate.encode, StateUpdate.fields,
      Protobuf.uintField, protocolVersion, maxFragmentBodyBytes]
  have hack : p.acknowledgementUpdate = .ok ((SealInputs.mk 1 0 0 [] []).update 1) := by
    subst hp
    rfl
  obtain ⟨packet', hseal⟩ := Reference.sealUpdate_ok p (c := 1) (by subst hp; exact hchannel) 0
    rfl hlen
  -- the two events of the run
  have htrace : (clientMachine Reference.externals).trace
      [.buildUpdate 0 keyPress, .buildAcknowledgement 0] =
      [(clientMachine Reference.externals).event ClientProtocol.new (.buildUpdate 0 keyPress),
        (clientMachine Reference.externals).event p (.buildAcknowledgement 0)] := by
    have hfinal : (clientMachine Reference.externals).final [.buildUpdate 0 keyPress] = p :=
      ((clientMachine Reference.externals).final_snoc [] _).trans (congrArg Prod.fst hcall)
    have hfirst := (clientMachine Reference.externals).trace_snoc [] (.buildUpdate 0 keyPress)
    have hboth := (clientMachine Reference.externals).trace_snoc [.buildUpdate 0 keyPress]
      (.buildAcknowledgement 0)
    rw [hfinal] at hboth
    rw [List.nil_append] at hfirst
    rw [hfirst] at hboth
    exact hboth
  refine not_oneMessage Reference.zlib_lawful (by rw [htrace]; exact List.mem_cons_self)
    (by rw [htrace]; exact List.mem_cons_of_mem _ List.mem_cons_self) ⟨?_, rfl⟩ ⟨?_, ?_⟩ ?_
  · simp [clientMachine, hcall, ClientReply.sent]
  · simp [clientMachine, ClientProtocol.call, ClientProtocol.buildAcknowledgement, hack,
      ClientProtocol.sealBuilt, hseal, ClientReply.sent]
  · subst hp
    rfl
  · subst hp
    intro h
    exact absurd (show (0 : UInt64) = 1 from congrArg SealInputs.baseState h) (by decide)

/-- The equivalence at the run of a key press and its heartbeat. -/
theorem oneMessage_iff_heartbeat :
    let trace := (clientMachine Reference.externals).trace
      [.buildUpdate 0 keyPress, .buildAcknowledgement 0]
    OneMessage trace 1 ↔ ∀ e₁ ∈ trace, ∀ e₂ ∈ trace, SendsUnder 1 e₁ → SendsUnder 1 e₂ →
      e₁.pre.sealInputs e₁.label = e₂.pre.sealInputs e₂.label :=
  oneMessage_iff Reference.externals Reference.zlib_lawful _ 1

end OxideTerm.Fernomade
