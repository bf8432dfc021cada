import OxideTerm.Fernomade.Client

/-!
# What a channel has sealed

The nonce of a packet is its direction and its position among the packets of that direction.
`sealings` follows a channel through a list of plaintexts and notes every packet that is sealed,
also those that a later failure keeps from being sent.
-/

namespace OxideTerm.Fernomade

open OxideTerm.Lib

/-- A packet that was sealed, and what went into it. -/
structure Sealing where
  direction : PacketDirection
  plaintext : Bytes
  packet : Bytes

/-- The bytes the nonce is made of. -/
def Sealing.prefixBytes (s : Sealing) : Bytes := s.packet.take packetPrefixBytes

/-- Seals plaintexts one by one up to the first failure, and notes the packets. -/
def sealings (A : Aead) : SecureChannel → List Bytes → SecureChannel × List Sealing
  | channel, [] => (channel, [])
  | channel, plaintext :: rest =>
    match channel.sealNext A plaintext with
    | (channel', .error _) => (channel', [])
    | (channel', .ok packet) =>
      ((sealings A channel' rest).1,
        { direction := channel.outboundDirection, plaintext, packet } ::
          (sealings A channel' rest).2)

/-- **Sealing fragments seals their encodings, and returns all or none of the packets.** -/
theorem sealEach_eq_sealings (A : Aead) : ∀ (fs : List Fragment) (channel : SecureChannel),
    (sealEach A channel fs).1 = (sealings A channel (fs.map Fragment.encode)).1 ∧
    ∀ packets, (sealEach A channel fs).2 = .ok packets →
      packets = (sealings A channel (fs.map Fragment.encode)).2.map Sealing.packet
  | [], channel => ⟨rfl, fun packets h => by simpa [sealEach, sealings] using h.symm⟩
  | f :: rest, channel => by
    rcases hseal : channel.sealNext A f.encode with ⟨channel', e | packet⟩
    · simp only [List.map_cons, sealings, sealEach, hseal]
      exact ⟨trivial, fun packets h => by simp at h⟩
    · obtain ⟨ihc, ihp⟩ := sealEach_eq_sealings A rest channel'
      simp only [List.map_cons, sealings, sealEach, hseal]
      rcases hrest : sealEach A channel' rest with ⟨channel'', e | packets'⟩
      · rw [hrest] at ihc
        exact ⟨ihc, fun packets h => by simp at h⟩
      · rw [hrest] at ihc ihp
        refine ⟨ihc, fun packets h => ?_⟩
        simp only [Except.ok.injEq] at h
        rw [← h, ihp packets' rfl]

/-! ## Positions -/

/-- The channel has sealed this many packets. -/
structure AtPosition (channel : SecureChannel) (n : Nat) : Prop where
  le : n ≤ 2 ^ 63
  next : channel.nextCounter = if n < 2 ^ 63 then some (UInt64.ofNat n) else none

/-- The prefix of the packet at a position. -/
def prefixAt (direction : PacketDirection) (n : Nat) : Bytes :=
  u64ToBeBytes (direction.encode (UInt64.ofNat n))

theorem atPosition_new (role : PeerRole) : AtPosition (.new role) 0 := ⟨by decide, rfl⟩

theorem ofNat_le_maxCounter {n : Nat} (h : n < 2 ^ 63) : UInt64.ofNat n ≤ maxCounter := by
  rw [UInt64.le_iff_toNat_le, toNat_maxCounter,
    UInt64.toNat_ofNat_of_lt' (by rw [UInt64.size]; omega)]
  omega

theorem ofNat_inj {n m : Nat} (hn : n < 2 ^ 63) (hm : m < 2 ^ 63)
    (h : UInt64.ofNat n = UInt64.ofNat m) : n = m := by
  have htoNat := congrArg UInt64.toNat h
  rwa [UInt64.toNat_ofNat_of_lt' (by rw [UInt64.size]; omega),
    UInt64.toNat_ofNat_of_lt' (by rw [UInt64.size]; omega)] at htoNat

/-- **The prefix tells the direction and the position.** -/
theorem prefixAt_inj {d d' : PacketDirection} {n m : Nat} (hn : n < 2 ^ 63) (hm : m < 2 ^ 63)
    (h : prefixAt d n = prefixAt d' m) : d = d' ∧ n = m := by
  obtain ⟨hd, hc⟩ := PacketDirection.encode_inj (ofNat_le_maxCounter hn) (ofNat_le_maxCounter hm)
    (u64ToBeBytes_inj h)
  exact ⟨hd, ofNat_inj hn hm hc⟩

/-- One attempt to seal: refused without a trace, or one packet at the current position. -/
theorem AtPosition.sealNext {channel : SecureChannel} {n : Nat} (h : AtPosition channel n)
    (A : Aead) (plaintext : Bytes) :
    (∃ e, channel.sealNext A plaintext = (channel, .error e) ∧
      (e = .counterExhausted ↔ n = 2 ^ 63)) ∨
    (∃ channel' packet, channel.sealNext A plaintext = (channel', .ok packet) ∧ n < 2 ^ 63 ∧
      AtPosition channel' (n + 1) ∧
      channel'.outboundDirection = channel.outboundDirection ∧
      channel'.inboundDirection = channel.inboundDirection ∧
      packet.take packetPrefixBytes = prefixAt channel.outboundDirection n) := by
  have hnone : channel.nextCounter = none ↔ n = 2 ^ 63 := by
    rw [h.next]
    have hle := h.le
    split
    · exact ⟨fun h => by simp at h, fun h => by omega⟩
    · exact ⟨fun _ => by omega, fun _ => rfl⟩
  rcases channel.sealNext_cases A plaintext with ⟨e, he, hexhausted⟩ | ⟨c, packed, hc, -, he⟩
  · exact Or.inl ⟨e, he, hexhausted.trans hnone⟩
  · have hlt : n < 2 ^ 63 := by
      rcases Nat.lt_or_eq_of_le h.le with hlt | heq
      · exact hlt
      · rw [hnone.mpr heq] at hc
        simp at hc
    have hcn : c = UInt64.ofNat n := by
      rw [h.next, if_pos hlt] at hc
      exact (Option.some.inj hc).symm
    have hval : (UInt64.ofNat n).toNat = n :=
      UInt64.toNat_ofNat_of_lt' (by rw [UInt64.size]; omega)
    refine Or.inr ⟨_, _, he, hlt, ⟨hlt, ?_⟩, rfl, rfl, ?_⟩
    · dsimp only
      rw [hcn]
      split
      · next hlt' =>
        rw [followingCounter_eq_some, hval,
          UInt64.toNat_ofNat_of_lt' (by rw [UInt64.size]; omega)]
        exact ⟨hlt', rfl⟩
      · next hge =>
        rw [followingCounter_eq_none, hval]
        omega
    · rw [hcn]
      exact List.take_left' (by simp [packetPrefixBytes])

/-- **A run of packets takes up consecutive positions.** -/
theorem AtPosition.sealings (A : Aead) : ∀ (plaintexts : List Bytes) {channel : SecureChannel}
    {n : Nat}, AtPosition channel n →
    AtPosition (sealings A channel plaintexts).1 (n + (sealings A channel plaintexts).2.length) ∧
    (Fernomade.sealings A channel plaintexts).1.outboundDirection = channel.outboundDirection ∧
    (Fernomade.sealings A channel plaintexts).1.inboundDirection = channel.inboundDirection ∧
    (∀ s ∈ (Fernomade.sealings A channel plaintexts).2, s.direction = channel.outboundDirection) ∧
    (Fernomade.sealings A channel plaintexts).2.map Sealing.prefixBytes =
      (List.range' n (Fernomade.sealings A channel plaintexts).2.length).map
        (prefixAt channel.outboundDirection)
  | [], channel, n, h => ⟨h, rfl, rfl, by simp [Fernomade.sealings], rfl⟩
  | plaintext :: rest, channel, n, h => by
    rw [Fernomade.sealings]
    rcases h.sealNext A plaintext with
      ⟨e, he, -⟩ | ⟨channel', packet, he, hlt, hnext, hout, hin, hpacket⟩ <;> rw [he]
    · exact ⟨h, rfl, rfl, by simp, rfl⟩
    · obtain ⟨ihp, iho, ihi, ihd, ihm⟩ := AtPosition.sealings A rest hnext
      dsimp only
      refine ⟨?_, iho.trans hout, ihi.trans hin, ?_, ?_⟩
      · rw [List.length_cons, Nat.add_comm _ 1, ← Nat.add_assoc]
        exact ihp
      · intro s hs
        rcases List.mem_cons.mp hs with rfl | hs
        · rfl
        · exact (ihd s hs).trans hout
      · rw [List.map_cons, ihm, hout, List.length_cons, List.range'_succ, List.map_cons]
        exact congrArg (· :: _) hpacket

/-! ## What a client call seals -/

namespace ClientProtocol

variable {X : Externals}

/-- The plaintexts of an update: its fragments, if it can be compressed and split. -/
def updatePlaintexts (p : ClientProtocol X) (t : UInt16) (u : StateUpdate) : List Bytes :=
  match encodeCompressedUpdate X.zlib u with
  | .error _ => []
  | .ok compressed =>
    match Fragment.split compressed t (p.latestPeerTimestamp.getD noEchoTimestamp) u.targetState with
    | .error _ => []
    | .ok fs => fs.map Fragment.encode

/-- The plaintexts a call has to seal. -/
def plaintexts (p : ClientProtocol X) (i : ClientCall) : List Bytes :=
  ((p.outgoing i).map (p.updatePlaintexts i.sentTimestamp)).getD []

theorem sealUpdate_channel (p : ClientProtocol X) (t : UInt16) (u : StateUpdate) :
    (p.sealUpdate t u).1.secureChannel =
      (sealings X.aead p.secureChannel (p.updatePlaintexts t u)).1 := by
  unfold sealUpdate updatePlaintexts sealFragments
  cases hcompressed : encodeCompressedUpdate X.zlib u with
  | error e => rfl
  | ok compressed =>
    dsimp only
    cases hsplit : Fragment.split compressed t (p.latestPeerTimestamp.getD noEchoTimestamp)
        u.targetState with
    | error e => rfl
    | ok fs => exact (sealEach_eq_sealings X.aead fs p.secureChannel).1

theorem sealBuilt_channel (p : ClientProtocol X) (t : UInt16) (u : Except SessionError StateUpdate) :
    (p.sealBuilt t u).1.secureChannel = (sealings X.aead p.secureChannel
      ((u.toOption.map (p.updatePlaintexts t)).getD [])).1 := by
  cases u with
  | error e => rfl
  | ok u => exact p.sealUpdate_channel t u

theorem buildStateUpdate_channel (p : ClientProtocol X) (t : UInt16) (is : InstructionBatch)
    (target : UInt64) :
    (p.buildStateUpdate t is target).1.secureChannel = (sealings X.aead p.secureChannel
      ((((p.stateUpdate is target).toOption.map Prod.fst).map (p.updatePlaintexts t)).getD [])).1 := by
  unfold buildStateUpdate
  cases hu : p.stateUpdate is target with
  | error e => rfl
  | ok r =>
    obtain ⟨u, n⟩ := r
    have hseal := p.sealUpdate_channel t u
    dsimp only [Except.toOption, Option.map_some, Option.getD_some]
    rw [← hseal]
    cases hs : p.sealUpdate t u with
    | mk q result => cases result <;> rfl

theorem buildUpdate_channel (p : ClientProtocol X) (t : UInt16) (is : InstructionBatch) :
    (p.buildUpdate t is).1.secureChannel =
      (sealings X.aead p.secureChannel (p.plaintexts (.buildUpdate t is))).1 := by
  unfold buildUpdate plaintexts outgoing
  dsimp only
  split
  · rfl
  · have hbuild := p.buildStateUpdate_channel t is p.nextLocalState
    rw [ClientCall.sentTimestamp, ← hbuild]
    cases hs : p.buildStateUpdate t is p.nextLocalState with
    | mk q result => cases result <;> rfl

/-- Handling a packet seals nothing. -/
theorem ingestPacket_channel (p : ClientProtocol X) (packet : Bytes) :
    (p.ingestPacket packet).1.secureChannel = p.secureChannel := by
  rcases p.ingestPacket_cases packet with ⟨w, t, as, h, -⟩ | ⟨w, t, as, c, header, compressed, r, h⟩
  · rw [h]
    rfl
  · rw [h]
    exact (samePackets_ingestMessage (p.rebook w t as) c header compressed).secureChannel

/-- **A call moves the channel past its sealings.** -/
theorem call_channel (p : ClientProtocol X) (i : ClientCall) :
    (p.call i).1.secureChannel = (sealings X.aead p.secureChannel (p.plaintexts i)).1 := by
  cases i with
  | buildUpdate t is => exact p.buildUpdate_channel t is
  | buildShutdown t is =>
    simp only [call, Prod.map_fst, id_eq, buildShutdown, plaintexts, outgoing]
    split
    · rfl
    · exact p.buildStateUpdate_channel t is shutdownState
  | retransmitPending t => exact p.sealBuilt_channel t _
  | buildAcknowledgement t => exact p.sealBuilt_channel t _
  | buildAssociation t => exact p.sealBuilt_channel t _
  | buildShutdownAck t => exact p.sealBuilt_channel t _
  | ingestPacket packet => exact p.ingestPacket_channel packet
  | setLocalCapabilities capabilities => rfl
  | setInitialRemoteViewport columns rows =>
    simp only [call, setInitialRemoteViewport]
    split
    · rfl
    · split <;> rfl

end ClientProtocol

end OxideTerm.Fernomade
