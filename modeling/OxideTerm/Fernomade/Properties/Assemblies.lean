import OxideTerm.Fernomade.Accumulator
import OxideTerm.Fernomade.Client
import OxideTerm.Fernomade.Reference

/-!
# Incomplete messages

An assembly is opened by the first fragment of a message and closed by the last missing one.
There are at most 64 of them (`assemblies_size_le`), and nothing but completion closes one. So
an update that comes in one piece is refused exactly while 64 messages are incomplete.
-/

namespace OxideTerm.Fernomade

open OxideTerm.Lib

/-! ## The bound -/

namespace ClientProtocol

variable {X : Externals}

/-- At the bound a packet with a whole new message is refused. -/
theorem ingestPacket_full {p : ClientProtocol X} {packet : Bytes}
    {authenticated : AuthenticatedPacket} {window : ReplayWindow} {f : Fragment}
    (hopen : p.secureChannel.open X.aead packet = .ok authenticated)
    (hfresh : p.replayWindow.accept authenticated.counter = (window, true))
    (hparse : Fragment.parse authenticated.plaintext = .ok f)
    (hindex : f.header.index = 0) (hfinal : f.header.isFinal = true)
    (hnew : p.assemblies[f.header.stateId]? = none)
    (hfull : maximumActiveAssemblies ≤ p.assemblies.size) :
    (p.ingestPacket packet).2 = .error .tooManyActiveAssemblies ∧
      (p.ingestPacket packet).1.assemblies = p.assemblies := by
  obtain ⟨timestamp, receipt, heq⟩ := ingestPacket_fragment hopen hfresh hparse
  have hsingle := ingestFragment_single (p := p.rebook window timestamp p.assemblies)
    (c := authenticated.counter) hindex hfinal (Fragment.length_of_parse hparse).2 hnew
  have hsame : (p.rebook window timestamp p.assemblies).assemblies = p.assemblies := rfl
  rw [hsame, if_pos hfull] at hsingle
  rw [heq, hsingle]
  exact ⟨rfl, rfl⟩

theorem ingestFragment_size {p : ClientProtocol X} (h : p.assemblies.size ≤ maximumActiveAssemblies)
    (c : UInt64) (f : Fragment) :
    (p.ingestFragment c f).1.assemblies.size ≤ maximumActiveAssemblies := by
  have hinsert : ¬ (!p.assemblies.contains f.header.stateId &&
      decide (p.assemblies.size ≥ maximumActiveAssemblies)) = true → ∀ a,
      (p.assemblies.insert f.header.stateId a).size ≤ maximumActiveAssemblies := by
    intro hroom a
    rw [Std.ExtTreeMap.size_insert]
    split
    · exact h
    · next hnot =>
      simp only [Bool.and_eq_true, Bool.not_eq_true', decide_eq_true_eq, not_and, Nat.not_le] at hroom
      have := hroom (Bool.eq_false_iff.mpr hnot)
      omega
  unfold ingestFragment
  dsimp only
  split
  · exact h
  · next hroom =>
    split
    · exact hinsert hroom _
    · exact hinsert hroom _
    · next compressed _ =>
      have hframe := (samePackets_ingestMessage
        ({ p with assemblies := p.assemblies.erase f.header.stateId } : ClientProtocol X) c f.header
        compressed).assemblies
      generalize ingestMessage _ c f.header compressed = r at hframe ⊢
      obtain ⟨q, result⟩ := r
      have hsize : q.assemblies.size ≤ maximumActiveAssemblies := by
        simp only at hframe
        rw [hframe]
        exact Std.ExtTreeMap.size_erase_le.trans h
      cases result <;> exact hsize

theorem ingestPacket_size {p : ClientProtocol X} (h : p.assemblies.size ≤ maximumActiveAssemblies)
    (packet : Bytes) : (p.ingestPacket packet).1.assemblies.size ≤ maximumActiveAssemblies := by
  cases hopen : p.secureChannel.open X.aead packet with
  | error e => simpa [ingestPacket, hopen] using h
  | ok authenticated =>
    cases haccept : p.replayWindow.accept authenticated.counter with
    | mk window fresh =>
      cases fresh with
      | false => simpa [ingestPacket, hopen, haccept] using h
      | true =>
        cases hparse : Fragment.parse authenticated.plaintext with
        | error e =>
          simp only [ingestPacket, hopen, haccept, ingestPlaintext, hparse]
          split
          · exact h
          · split <;> exact h
        | ok f =>
          obtain ⟨timestamp, receipt, heq⟩ := ingestPacket_fragment hopen haccept hparse
          rw [heq]
          exact ingestFragment_size (p := p.rebook window timestamp p.assemblies) h _ _

end ClientProtocol

/-- **There are never more than 64 assemblies.** -/
theorem assemblies_size_le (X : Externals) (calls : List ClientCall) :
    ((clientMachine X).final calls).assemblies.size ≤ maximumActiveAssemblies := by
  refine (clientMachine X).final_invariant (P := fun p => p.assemblies.size ≤ maximumActiveAssemblies)
    ?_ ?_ calls
  · show (∅ : Std.ExtTreeMap UInt64 FragmentAccumulator).size ≤ maximumActiveAssemblies
    simp
  · intro p i h
    show (p.call i).1.assemblies.size ≤ maximumActiveAssemblies
    cases i with
    | ingestPacket packet => exact ClientProtocol.ingestPacket_size h packet
    | _ => rw [(p.call_samePackets (by simp)).1]; exact h

/-! ## A network that loses every last fragment -/

/-- A message that takes two fragments. -/
def longMessage : Bytes := List.replicate 2000 0

def firstFragment (stateId : UInt64) : Fragment := Fragment.fragmentAt longMessage 0 0 stateId 0

/-- The server sends messages under the identifiers from 1 on, and each loses its second half. -/
def lossyCalls (n : Nat) : List ClientCall :=
  (List.range n).map fun i =>
    .ingestPacket (Reference.serverPacket (UInt64.ofNat i) (firstFragment (UInt64.ofNat (i + 1))).encode)

theorem length_longMessage : longMessage.length = 2000 := List.length_replicate

theorem chunkCount_longMessage : Fragment.chunkCount longMessage = 2 := by
  rw [Fragment.chunkCount, divCeil_maxFragmentBodyBytes, length_longMessage]
  decide

theorem parse_firstFragment (stateId : UInt64) :
    Fragment.parse (firstFragment stateId).encode = .ok (firstFragment stateId) :=
  Fragment.parse_encode_fragmentAt (by rw [chunkCount_longMessage]; decide) (by rw [chunkCount_longMessage]; decide)

theorem push_firstFragment (stateId : UInt64) :
    ((FragmentAccumulator.new stateId maximumReassembledBytes).push (firstFragment stateId)).2 =
      .ok none := by
  have hlen : (chunkAt maxFragmentBodyBytes longMessage 0).length = 1214 := by
    rw [chunkAt, List.length_take, List.length_drop, length_longMessage]
    decide
  have hadd : checkedAdd 0 1214 = some 1214 := by decide
  unfold FragmentAccumulator.push firstFragment Fragment.fragmentAt
  simp [FragmentAccumulator.new, chunkCount_longMessage, FragmentAccumulator.store, hlen, hadd,
    maximumReassembledBytes, FragmentAccumulator.tryComplete]

/-- What such a run comes to: one assembly for every message. -/
structure Clogged (n : Nat) (p : ClientProtocol Reference.externals) : Prop where
  channel : p.secureChannel = .new .client
  size : p.assemblies.size = n
  ids : ∀ k : UInt64, n < k.toNat → p.assemblies[k]? = none
  highest : ∀ h, p.replayWindow.highest = some h → h.toNat < n

/-- A counter above everything accepted so far is fresh. -/
theorem Clogged.accept {n : Nat} {p : ClientProtocol Reference.externals} (h : Clogged n p)
    (hn : n < 2 ^ 64) : ∃ window, p.replayWindow.accept (UInt64.ofNat n) = (window, true) ∧
      window.highest = some (UInt64.ofNat n) := by
  have hval : (UInt64.ofNat n).toNat = n := UInt64.toNat_ofNat_of_lt' hn
  unfold ReplayWindow.accept
  cases hh : p.replayWindow.highest with
  | none => exact ⟨_, rfl, rfl⟩
  | some highest =>
    have hlt : UInt64.ofNat n > highest := by
      show highest < UInt64.ofNat n
      rw [UInt64.lt_iff_toNat_lt, hval]
      exact h.highest highest hh
    simp only [if_pos hlt]
    exact ⟨_, rfl, rfl⟩

theorem Clogged.step {n : Nat} {p : ClientProtocol Reference.externals} (h : Clogged n p)
    (hn : n < maximumActiveAssemblies) :
    Clogged (n + 1) (p.ingestPacket (Reference.serverPacket (UInt64.ofNat n)
      (firstFragment (UInt64.ofNat (n + 1))).encode)).1 := by
  rw [maximumActiveAssemblies] at hn
  have hval : (UInt64.ofNat n).toNat = n := UInt64.toNat_ofNat_of_lt' (by rw [UInt64.size]; omega)
  have hval' : (UInt64.ofNat (n + 1)).toNat = n + 1 :=
    UInt64.toNat_ofNat_of_lt' (by rw [UInt64.size]; omega)
  have hle : UInt64.ofNat n ≤ maxCounter := by
    rw [UInt64.le_iff_toNat_le, hval, toNat_maxCounter]
    omega
  have hopen := Reference.open_serverPacket p.secureChannel (by rw [h.channel]; rfl) hle
    (firstFragment (UInt64.ofNat (n + 1))).encode
  obtain ⟨window, haccept, hhighest⟩ := h.accept (by omega)
  obtain ⟨timestamp, receipt, heq⟩ := ClientProtocol.ingestPacket_fragment hopen haccept
    (parse_firstFragment _)
  have hnone : p.assemblies[UInt64.ofNat (n + 1)]? = none := h.ids _ (by omega)
  have hcontains : p.assemblies.contains (UInt64.ofNat (n + 1)) = false := by
    rw [Std.ExtTreeMap.contains_eq_isSome_getElem?, hnone]
    rfl
  have hpush := push_firstFragment (UInt64.ofNat (n + 1))
  rw [heq]
  simp only [ClientProtocol.ingestFragment, ClientProtocol.rebook]
  simp only [show (firstFragment (UInt64.ofNat (n + 1))).header.stateId = UInt64.ofNat (n + 1) from rfl,
    hcontains, hnone, h.size, Option.getD_none, maximumActiveAssemblies, Bool.not_false,
    Bool.true_and, decide_eq_true_eq, ge_iff_le, Nat.not_le.mpr hn, if_false]
  generalize (FragmentAccumulator.new (UInt64.ofNat (n + 1)) maximumReassembledBytes).push
    (firstFragment (UInt64.ofNat (n + 1))) = r at hpush ⊢
  obtain ⟨assembly, result⟩ := r
  simp only at hpush
  subst hpush
  refine ⟨h.channel, ?_, ?_, ?_⟩
  · rw [Std.ExtTreeMap.size_insert, if_neg (Bool.eq_false_iff.mp hcontains), h.size]
  · intro k hk
    rw [Std.ExtTreeMap.getElem?_insert, if_neg, h.ids k (by omega)]
    intro hcmp
    rw [← Std.LawfulEqCmp.eq_of_compare hcmp, hval'] at hk
    omega
  · intro highest hh
    rw [hhighest] at hh
    obtain rfl := Option.some.inj hh
    rw [hval]
    omega

theorem clogged_lossyCalls : ∀ {n : Nat}, n ≤ maximumActiveAssemblies →
    Clogged n ((clientMachine Reference.externals).final (lossyCalls n))
  | 0, _ => ⟨rfl, by simp [lossyCalls, clientMachine, ClientProtocol.new],
      by simp [lossyCalls, clientMachine, ClientProtocol.new],
      by simp [lossyCalls, clientMachine, ClientProtocol.new, ReplayWindow.default]⟩
  | n + 1, hn => by
    have ih := clogged_lossyCalls (n := n) (by omega)
    rw [lossyCalls, List.range_succ, List.map_append, List.map_singleton, final_ingestPacket]
    exact ih.step (by omega)

/-! ## The result -/

/--
**Whole updates are refused exactly while 64 messages are incomplete.**

In every reachable state there are at most 64 assemblies. A fresh authentic packet whose single
fragment is a whole message, under an identifier that is not being assembled, is refused if
and only if there are 64; otherwise the message is handled. Either way the assemblies stay as
they are.
-/
theorem refused_iff_assemblies_full (X : Externals) (calls : List ClientCall) {packet : Bytes}
    {authenticated : AuthenticatedPacket} {window : ReplayWindow} {f : Fragment}
    (hopen : ((clientMachine X).final calls).secureChannel.open X.aead packet = .ok authenticated)
    (hfresh : ((clientMachine X).final calls).replayWindow.accept authenticated.counter
      = (window, true))
    (hparse : Fragment.parse authenticated.plaintext = .ok f)
    (hsingle : f.header.index = 0 ∧ f.header.isFinal = true)
    (hnew : ((clientMachine X).final calls).assemblies[f.header.stateId]? = none) :
    let p := (clientMachine X).final calls
    p.assemblies.size ≤ maximumActiveAssemblies ∧
    ((p.ingestPacket packet).2 = .error .tooManyActiveAssemblies ↔
      p.assemblies.size = maximumActiveAssemblies) ∧
    (p.assemblies.size < maximumActiveAssemblies →
      ∃ timestamp, ∃ receipt : PacketReceipt, p.ingestPacket packet =
        (((p.rebook window timestamp p.assemblies).ingestMessage authenticated.counter f.header
            f.body).1,
          ((p.rebook window timestamp p.assemblies).ingestMessage authenticated.counter f.header
            f.body).2.map fun state => { receipt with state := some state })) ∧
    (p.ingestPacket packet).1.assemblies = p.assemblies := by
  intro p
  have hbound : p.assemblies.size ≤ maximumActiveAssemblies := assemblies_size_le X calls
  by_cases hfull : maximumActiveAssemblies ≤ p.assemblies.size
  · obtain ⟨hrefused, hassemblies⟩ :=
      ClientProtocol.ingestPacket_full hopen hfresh hparse hsingle.1 hsingle.2 hnew hfull
    exact ⟨hbound, ⟨fun _ => by omega, fun _ => hrefused⟩, fun hlt => by omega, hassemblies⟩
  · obtain ⟨timestamp, receipt, heq⟩ := ClientProtocol.ingestPacket_fragment hopen hfresh hparse
    have hsame : (p.rebook window timestamp p.assemblies).assemblies = p.assemblies := rfl
    have hfragment := ClientProtocol.ingestFragment_single
      (p := p.rebook window timestamp p.assemblies) (c := authenticated.counter) hsingle.1 hsingle.2
      (Fragment.length_of_parse hparse).2 hnew
    rw [hsame, if_neg hfull] at hfragment
    rw [heq, hfragment]
    have hframe := (ClientProtocol.samePackets_ingestMessage
      (p.rebook window timestamp p.assemblies) authenticated.counter f.header f.body).assemblies
    refine ⟨hbound, ⟨?_, fun h => by omega⟩, fun _ => ⟨timestamp, receipt, ?_⟩, hframe⟩
    · intro h
      cases hr : ((p.rebook window timestamp p.assemblies).ingestMessage authenticated.counter
          f.header f.body).2 with
      | error e =>
        simp only [hr, Except.map, Except.error.injEq] at h
        exact absurd h (ClientProtocol.ingestMessage_error hr).1
      | ok state => simp [hr, Except.map] at h
    · show (_, _) = (_, _)
      generalize ClientProtocol.ingestMessage _ authenticated.counter f.header f.body = r
      obtain ⟨q, result⟩ := r
      cases result <;> rfl

/-- After 64 such losses a complete update to state one is refused. -/
theorem update_refused_after_losses :
    let p := (clientMachine Reference.externals).final (lossyCalls 64)
    let f := Fragment.fragmentAt (StateUpdate.new 0 1 0).encode 0 0 65 0
    p.secureChannel.open Reference.aead (Reference.serverPacket 64 f.encode)
      = .ok { counter := 64, plaintext := f.encode } ∧
    (∃ window, p.replayWindow.accept 64 = (window, true)) ∧
    Fragment.parse f.encode = .ok f ∧ f.header.index = 0 ∧ f.header.isFinal = true ∧
    decodeCompressedUpdate Reference.prost Reference.zlib f.body = .ok (StateUpdate.new 0 1 0) ∧
    p.assemblies[f.header.stateId]? = none ∧
    (p.ingestPacket (Reference.serverPacket 64 f.encode)).2 = .error .tooManyActiveAssemblies := by
  intro p f
  have hclogged : Clogged 64 p := clogged_lossyCalls (by decide)
  clear_value p
  have hencode : (StateUpdate.new 0 1 0).encode.length = 4 := by
    simp [StateUpdate.encode, StateUpdate.fields, StateUpdate.new, Protobuf.uintField,
      Protobuf.bytesField, Protobuf.Field.encode, Protobuf.Field.key, Protobuf.WireValue.encode,
      Protobuf.WireValue.wireType, Protobuf.varint_of_lt, protocolVersion]
  have hcount : Fragment.chunkCount (StateUpdate.new 0 1 0).encode = 1 :=
    (Reference.split_single (by rw [hencode]; decide) 0 0 65).1
  have hbody : f.body = (StateUpdate.new 0 1 0).encode := by
    show ((StateUpdate.new 0 1 0).encode.drop (0 * maxFragmentBodyBytes)).take maxFragmentBodyBytes = _
    rw [Nat.zero_mul, List.drop_zero, List.take_of_length_le (by rw [hencode]; decide)]
  have hfinal : f.header.isFinal = true := by
    rw [Fragment.isFinal_fragmentAt, hcount]
    rfl
  have hopen := Reference.open_serverPacket p.secureChannel
    (by rw [hclogged.channel]; rfl) (show (64 : UInt64) ≤ maxCounter by decide) f.encode
  obtain ⟨window, haccept, -⟩ := hclogged.accept (by decide)
  have hparse : Fragment.parse f.encode = .ok f :=
    Fragment.parse_encode_fragmentAt (by rw [hcount]; decide) (by rw [hcount]; decide)
  have hindex : f.header.index = 0 := rfl
  have hnew : p.assemblies[f.header.stateId]? = none := hclogged.ids 65 (by decide)
  refine ⟨hopen, ⟨window, haccept⟩, hparse, hindex, hfinal, ?_, hnew, ?_⟩
  · rw [hbody]
    exact decodeCompressedUpdate_encode Reference.prost_lawful Reference.zlib_lawful
      (by simp [encodeCompressedUpdate, Reference.zlib, StateUpdate.new])
      (show _ = InstructionBatch.encodeBytes { instructions := [] } from rfl) (by rw [hencode]; decide)
  · exact (ClientProtocol.ingestPacket_full hopen haccept hparse hindex hfinal hnew
      hclogged.size.ge).1

/-- The equivalence for a first update from the server. -/
theorem refused_iff_assemblies_full_first :
    let p := (clientMachine Reference.externals).final []
    let f : Fragment :=
      { header := { sentTimestamp := 0, echoedTimestamp := 0, stateId := 1, index := 0,
                    isFinal := true }
        body := [] }
    let packet := Reference.serverPacket 0 f.encode
    p.assemblies.size ≤ maximumActiveAssemblies ∧
    ((p.ingestPacket packet).2 = .error .tooManyActiveAssemblies ↔
      p.assemblies.size = maximumActiveAssemblies) ∧
    (p.assemblies.size < maximumActiveAssemblies →
      ∃ timestamp, ∃ receipt : PacketReceipt, p.ingestPacket packet =
        (((p.rebook { highest := some 0, seen := 1 } timestamp p.assemblies).ingestMessage 0 f.header
            f.body).1,
          ((p.rebook { highest := some 0, seen := 1 } timestamp p.assemblies).ingestMessage 0 f.header
            f.body).2.map fun state => { receipt with state := some state })) ∧
    (p.ingestPacket packet).1.assemblies = p.assemblies :=
  refused_iff_assemblies_full Reference.externals []
    (Reference.open_serverPacket _ rfl (by decide) _) rfl
    (Fragment.parse_encode (by decide) (by decide)) ⟨rfl, rfl⟩
    (by simp [clientMachine, ClientProtocol.new])

end OxideTerm.Fernomade
