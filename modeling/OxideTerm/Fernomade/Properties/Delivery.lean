import OxideTerm.Lib.SlidingWindow
import OxideTerm.Fernomade.Reference
import OxideTerm.Fernomade.Sealing

/-!
# At-most-once delivery of authenticated packets

A client and a server share one key. The network may drop, repeat, delay, reorder and reflect
their packets, so the client is handed arbitrary bytes. What is assumed is that the cipher opens
nothing under a prefix but what one of the two has sealed under it (`OpensOnlySealed`).
-/

namespace OxideTerm.Fernomade

open OxideTerm.Lib

/-! ## The replay window -/

namespace ReplayWindow

/-- The window as a set of numbers. -/
def toSlidingWindow (window : ReplayWindow) : SlidingWindow 128 where
  highest := window.highest.map UInt64.toNat
  seen := window.seen

/-- **The replay window is a sliding window of 128 numbers.** -/
theorem accept_toSlidingWindow (window : ReplayWindow) (c : UInt64) :
    window.toSlidingWindow.accept c.toNat =
      ((window.accept c).1.toSlidingWindow, (window.accept c).2) := by
  unfold accept SlidingWindow.accept toSlidingWindow
  cases hhigh : window.highest with
  | none => rfl
  | some highest =>
    simp only [Option.map_some, gt_iff_lt, UInt64.lt_iff_toNat_lt]
    by_cases hlt : highest.toNat < c.toNat
    · have hadvance : (c - highest).toNat = c.toNat - highest.toNat :=
        UInt64.toNat_sub_of_le c highest (UInt64.le_iff_toNat_le.mpr (by omega))
      simp only [if_pos hlt, hadvance, ge_iff_le, UInt64.le_iff_toNat_le]
      by_cases hfar : replayWindowBits.toNat ≤ c.toNat - highest.toNat
      · have hzero : window.seen <<< (c.toNat - highest.toNat) = 0#128 :=
          BitVec.shiftLeft_eq_zero hfar
        simp only [if_pos hfar, hzero, Option.map_some]
        rfl
      · simp only [if_neg hfar, Option.map_some]
        rfl
    · have hage : (highest - c).toNat = highest.toNat - c.toNat :=
        UInt64.toNat_sub_of_le highest c (UInt64.le_iff_toNat_le.mpr (by omega))
      simp only [if_neg hlt, hage, ge_iff_le, UInt64.le_iff_toNat_le]
      by_cases hfar : replayWindowBits.toNat ≤ highest.toNat - c.toNat
      · have hfar' : 128 ≤ highest.toNat - c.toNat := hfar
        rw [if_pos hfar, if_pos hfar', hhigh]
        rfl
      · have hnear : ¬ 128 ≤ highest.toNat - c.toNat := hfar
        have hbit : window.seen &&& (1 : BitVec 128) <<< (highest.toNat - c.toNat) ≠ 0 ↔
            window.seen.getLsbD (highest.toNat - c.toNat) = true :=
          SlidingWindow.and_twoPow_ne_zero window.seen (Nat.not_le.mp hnear)
        rw [if_neg hfar, if_neg hnear]
        by_cases hseen : window.seen.getLsbD (highest.toNat - c.toNat) = true
        · rw [if_pos hseen, if_pos (hbit.mpr hseen), hhigh]
          rfl
        · rw [if_neg hseen, if_neg (fun h => hseen (hbit.mp h))]
          rfl

end ReplayWindow

/-! ## Runs of a client and a server -/

structure Conversation (X : Externals) where
  client : ClientProtocol X
  server : SecureChannel

inductive ConversationStep where
  | client (call : ClientCall)
  | server (plaintext : Bytes)

inductive ConversationReply where
  | client (reply : ClientReply)
  | server (result : Except SealError Bytes)

/-- A client that is called, and a server that seals. -/
def conversation (X : Externals) :
    Machine (Conversation X) ConversationStep ConversationReply where
  init := { client := .new, server := .new .server }
  step s
    | .client i => ({ s with client := (s.client.call i).1 }, .client (s.client.call i).2)
    | .server plaintext => ({ s with server := (s.server.sealNext X.aead plaintext).1 },
        .server (s.server.sealNext X.aead plaintext).2)

variable {X : Externals}

/-- The packets a step seals. -/
def sealedBy (e : Event (Conversation X) ConversationStep ConversationReply) : List Sealing :=
  match e.label with
  | .client i => (sealings X.aead e.pre.client.secureChannel (e.pre.client.plaintexts i)).2
  | .server plaintext => (sealings X.aead e.pre.server [plaintext]).2

/-- The packet that a step takes past the replay check. -/
def acceptedBy (e : Event (Conversation X) ConversationStep ConversationReply) :
    Option AuthenticatedPacket :=
  match e.label, e.output with
  | .client (.ingestPacket packet), .client (.receipt result) =>
    match e.pre.client.secureChannel.open X.aead packet with
    | .error _ => none
    | .ok authenticated =>
      match result with
      | .error .replayDetected => none
      | _ => some authenticated
  | _, _ => none

/-- Every packet that was sealed, by either side. -/
def sealedOf (trace : List (Event (Conversation X) ConversationStep ConversationReply)) :
    List Sealing := trace.flatMap sealedBy

/-- Every packet the client took past the replay check. -/
def acceptedOf (trace : List (Event (Conversation X) ConversationStep ConversationReply)) :
    List AuthenticatedPacket := trace.filterMap acceptedBy

/-- How many packets of a direction there are. -/
def sealedCount (log : List Sealing) (direction : PacketDirection) : Nat :=
  log.countP fun s => s.direction = direction

/-! ## Nonces -/

/-- The packets so far have the prefixes of their positions, all different. -/
structure WellNumbered (log : List Sealing) : Prop where
  nodup : (log.map Sealing.prefixBytes).Nodup
  positions : ∀ s ∈ log, ∃ n < sealedCount log s.direction, s.prefixBytes = prefixAt s.direction n

theorem sealedCount_append_of_direction (log : List Sealing) {new : List Sealing} {d : PacketDirection}
    (h : ∀ s ∈ new, s.direction = d) (d' : PacketDirection) :
    sealedCount (log ++ new) d' = sealedCount log d' + if d' = d then new.length else 0 := by
  rw [sealedCount, List.countP_append, ← sealedCount]
  split
  · next heq =>
    have hall : new.countP (fun s => s.direction = d') = new.length := by
      rw [List.countP_eq_length]
      intro s hs
      simp [h s hs, heq]
    rw [hall]
  · next hne =>
    have hnone : new.countP (fun s => s.direction = d') = 0 := by
      rw [List.countP_eq_zero]
      intro s hs
      simp [h s hs, Ne.symm hne]
    rw [hnone]

/-- **Sealing keeps the packets well numbered.** -/
theorem WellNumbered.append {log : List Sealing} (h : WellNumbered log)
    {channel : SecureChannel} (hat : AtPosition channel (sealedCount log channel.outboundDirection))
    (hother : ∀ d, sealedCount log d ≤ 2 ^ 63) (A : Aead) (plaintexts : List Bytes) :
    WellNumbered (log ++ (sealings A channel plaintexts).2) ∧
    AtPosition (sealings A channel plaintexts).1
      (sealedCount (log ++ (sealings A channel plaintexts).2) channel.outboundDirection) ∧
    (∀ d, d ≠ channel.outboundDirection →
      sealedCount (log ++ (sealings A channel plaintexts).2) d = sealedCount log d) := by
  obtain ⟨hpos, -, -, hdirection, hprefixes⟩ := hat.sealings A plaintexts
  generalize (sealings A channel plaintexts).2 = new at hpos hdirection hprefixes ⊢
  generalize hd : channel.outboundDirection = d at hat hpos hdirection hprefixes ⊢
  have hcount := sealedCount_append_of_direction log hdirection
  have hnew : ∀ s ∈ new, ∃ i, sealedCount log d ≤ i ∧ i < sealedCount log d + new.length ∧
      s.prefixBytes = prefixAt d i := by
    intro s hs
    have hmem : s.prefixBytes ∈ new.map Sealing.prefixBytes := List.mem_map_of_mem hs
    rw [hprefixes] at hmem
    obtain ⟨i, hi, heq⟩ := List.mem_map.mp hmem
    obtain ⟨hlo, hhi⟩ := List.mem_range'_1.mp hi
    exact ⟨i, hlo, hhi, heq.symm⟩
  refine ⟨⟨?_, ?_⟩, ?_, fun d' hne => by rw [hcount, if_neg hne, Nat.add_zero]⟩
  · rw [List.map_append]
    refine List.nodup_append.mpr ⟨h.nodup, ?_, ?_⟩
    · rw [hprefixes]
      refine List.Nodup.map_on ?_ List.nodup_range'
      intro i hi j hj heq
      have hle := hpos.le
      rw [List.mem_range'_1] at hi hj
      exact (prefixAt_inj (by omega) (by omega) heq).2
    · -- a new position is not one that was used, and the other direction is told by its bit
      intro a ha b hb hab
      obtain ⟨s, hs, rfl⟩ := List.mem_map.mp ha
      obtain ⟨s', hs', rfl⟩ := List.mem_map.mp hb
      obtain ⟨n, hn, hsn⟩ := h.positions s hs
      obtain ⟨i, hlo, hhi, hsi⟩ := hnew s' hs'
      rw [hsn, hsi] at hab
      have hle := hpos.le
      have hle' := hother s.direction
      obtain ⟨hdir, heq⟩ := prefixAt_inj (by omega) (by omega) hab
      rw [hdir] at hn
      omega
  · intro s hs
    rcases List.mem_append.mp hs with hs | hs
    · obtain ⟨n, hn, heq⟩ := h.positions s hs
      refine ⟨n, ?_, heq⟩
      rw [hcount]
      omega
    · obtain ⟨i, hlo, hhi, heq⟩ := hnew s hs
      have hdir := hdirection s hs
      refine ⟨i, ?_, by rw [hdir]; exact heq⟩
      rw [hdir, hcount, if_pos rfl]
      exact hhi
  · rw [hcount, if_pos rfl]
    exact hpos

/-! ## What holds along a conversation -/

structure ConversationInvariant (s : Conversation X)
    (trace : List (Event (Conversation X) ConversationStep ConversationReply)) : Prop where
  wellNumbered : WellNumbered (sealedOf trace)
  clientOutbound : s.client.secureChannel.outboundDirection = .clientToServer
  clientInbound : s.client.secureChannel.inboundDirection = .serverToClient
  serverOutbound : s.server.outboundDirection = .serverToClient
  clientAt : AtPosition s.client.secureChannel (sealedCount (sealedOf trace) .clientToServer)
  serverAt : AtPosition s.server (sealedCount (sealedOf trace) .serverToClient)
  window : s.client.replayWindow.toSlidingWindow.Tracks
    ((acceptedOf trace).map fun a => a.counter.toNat)

theorem conversationInvariant_init : ConversationInvariant (conversation X).init [] where
  wellNumbered := ⟨List.nodup_nil, by simp [sealedOf]⟩
  clientOutbound := rfl
  clientInbound := rfl
  serverOutbound := rfl
  clientAt := atPosition_new .client
  serverAt := atPosition_new .server
  window := SlidingWindow.tracks_empty

theorem ConversationInvariant.count_le {s : Conversation X}
    {trace : List (Event (Conversation X) ConversationStep ConversationReply)}
    (h : ConversationInvariant s trace) : ∀ d, sealedCount (sealedOf trace) d ≤ 2 ^ 63
  | .clientToServer => h.clientAt.le
  | .serverToClient => h.serverAt.le

theorem sealedOf_snoc (trace : List (Event (Conversation X) ConversationStep ConversationReply))
    (e : Event (Conversation X) ConversationStep ConversationReply) :
    sealedOf (trace ++ [e]) = sealedOf trace ++ sealedBy e := by
  simp [sealedOf]

theorem acceptedOf_snoc (trace : List (Event (Conversation X) ConversationStep ConversationReply))
    (e : Event (Conversation X) ConversationStep ConversationReply) :
    acceptedOf (trace ++ [e]) = acceptedOf trace ++ (acceptedBy e).toList := by
  simp only [acceptedOf, List.filterMap_append]
  cases h : acceptedBy e <;> simp [h]

/-- **What a call does to the replay window is what it accepts.** -/
theorem window_step {s : Conversation X} {taken : List AuthenticatedPacket}
    (h : s.client.replayWindow.toSlidingWindow.Tracks (taken.map fun a => a.counter.toNat))
    (i : ClientCall) :
    (s.client.call i).1.replayWindow.toSlidingWindow.Tracks
      ((taken ++ (acceptedBy ((conversation X).event s (.client i))).toList).map
        fun a => a.counter.toNat) := by
  by_cases hpacket : ∃ packet, i = .ingestPacket packet
  · obtain ⟨packet, rfl⟩ := hpacket
    have hcall : s.client.call (.ingestPacket packet) =
        ((s.client.ingestPacket packet).1, .receipt (s.client.ingestPacket packet).2) := rfl
    rw [hcall]
    cases hopen : s.client.secureChannel.open X.aead packet with
    | error e =>
      have hnone : acceptedBy ((conversation X).event s (.client (.ingestPacket packet))) = none := by
        simp [acceptedBy, conversation, hcall, hopen]
      rw [hnone]
      simpa [ClientProtocol.ingestPacket, hopen] using h
    | ok authenticated =>
      obtain ⟨hwindow, hreplay⟩ := ClientProtocol.ingestPacket_replay hopen
      have hrefines := s.client.replayWindow.accept_toSlidingWindow authenticated.counter
      dsimp only
      rw [hwindow]
      rcases h.accept (by decide) authenticated.counter.toNat with ⟨-, hfresh, htracks⟩ | ⟨-, hstale⟩
      · rw [hrefines] at hfresh htracks
        have hsome : acceptedBy ((conversation X).event s (.client (.ingestPacket packet))) =
            some authenticated := by
          have hne : (s.client.ingestPacket packet).2 ≠ .error .replayDetected := by
            rw [ne_eq, hreplay, Bool.not_eq_false]
            exact hfresh
          simp [acceptedBy, conversation, hcall, hopen]
        rw [hsome]
        simpa using htracks
      · rw [hrefines, Prod.mk.injEq] at hstale
        have hnone : acceptedBy ((conversation X).event s (.client (.ingestPacket packet))) = none := by
          have heq : (s.client.ingestPacket packet).2 = .error .replayDetected := hreplay.mpr hstale.2
          simp [acceptedBy, conversation, hcall, hopen, heq]
        rw [hnone, hstale.1]
        simpa using h
  · have hwindow := (s.client.call_samePackets (i := i) (fun packet heq => hpacket ⟨packet, heq⟩)).2.1
    have hnone : acceptedBy ((conversation X).event s (.client i)) = none := by
      unfold acceptedBy
      split
      · next packet _ hlabel _ =>
        simp only [Machine.event_label, ConversationStep.client.injEq] at hlabel
        exact absurd ⟨packet, hlabel⟩ hpacket
      · rfl
    rw [hwindow, hnone]
    simpa using h

theorem ConversationInvariant.step {s : Conversation X}
    {trace : List (Event (Conversation X) ConversationStep ConversationReply)}
    (h : ConversationInvariant s trace) (i : ConversationStep) :
    ConversationInvariant ((conversation X).step s i).1 (trace ++ [(conversation X).event s i]) := by
  cases i with
  | client call =>
    have hat : AtPosition s.client.secureChannel
        (sealedCount (sealedOf trace) s.client.secureChannel.outboundDirection) := by
      rw [h.clientOutbound]
      exact h.clientAt
    obtain ⟨hnumbered, hclient, hserver⟩ :=
      h.wellNumbered.append hat h.count_le X.aead (s.client.plaintexts call)
    obtain ⟨-, hout, hin, -, -⟩ := hat.sealings X.aead (s.client.plaintexts call)
    have hchannel := s.client.call_channel call
    rw [h.clientOutbound] at hclient hserver hout
    refine ⟨?_, ?_, ?_, h.serverOutbound, ?_, ?_, ?_⟩
    · rw [sealedOf_snoc]
      exact hnumbered
    · exact (congrArg SecureChannel.outboundDirection hchannel).trans hout
    · exact (congrArg SecureChannel.inboundDirection hchannel).trans (hin.trans h.clientInbound)
    · rw [sealedOf_snoc]
      have hclient' := hclient
      rw [← hchannel] at hclient'
      exact hclient'
    · rw [sealedOf_snoc]
      have hcount := hserver .serverToClient (by decide)
      have hserverAt := h.serverAt
      rw [← hcount] at hserverAt
      exact hserverAt
    · rw [acceptedOf_snoc]
      exact window_step h.window call
  | server plaintext =>
    have hat : AtPosition s.server (sealedCount (sealedOf trace) s.server.outboundDirection) := by
      rw [h.serverOutbound]
      exact h.serverAt
    obtain ⟨hnumbered, hserver, hclient⟩ :=
      h.wellNumbered.append hat h.count_le X.aead [plaintext]
    obtain ⟨-, hout, -, -, -⟩ := hat.sealings X.aead [plaintext]
    have hchannel : (s.server.sealNext X.aead plaintext).1 =
        (sealings X.aead s.server [plaintext]).1 := by
      rw [sealings]
      generalize s.server.sealNext X.aead plaintext = r
      obtain ⟨channel, result⟩ := r
      cases result <;> rfl
    rw [h.serverOutbound] at hclient hserver hout
    refine ⟨?_, h.clientOutbound, h.clientInbound, ?_, ?_, ?_, ?_⟩
    · rw [sealedOf_snoc]
      exact hnumbered
    · exact (congrArg SecureChannel.outboundDirection hchannel).trans hout
    · rw [sealedOf_snoc]
      have hcount := hclient .clientToServer (by decide)
      have hclientAt := h.clientAt
      rw [← hcount] at hclientAt
      exact hclientAt
    · rw [sealedOf_snoc]
      rw [← hchannel] at hserver
      exact hserver
    · rw [acceptedOf_snoc]
      simpa [acceptedBy, conversation] using h.window

theorem conversationInvariant (X : Externals) (steps : List ConversationStep) :
    ConversationInvariant ((conversation X).final steps) ((conversation X).trace steps) :=
  (conversation X).run_invariant conversationInvariant_init (fun _ _ i h => h.step i) steps

/-! ## The result -/

/-- The cipher opens a packet only if its plaintext was sealed under its prefix before. -/
def OpensOnlySealed (X : Externals) (steps : List ConversationStep) : Prop :=
  ∀ pre packet post, steps = pre ++ .client (.ingestPacket packet) :: post → ∀ plaintext,
    X.aead.decrypt (makeNonce (packet.take packetPrefixBytes)) (packet.drop packetPrefixBytes)
      = some plaintext →
    ∃ s ∈ sealedOf ((conversation X).trace pre), s.prefixBytes = packet.take packetPrefixBytes ∧
      s.plaintext = plaintext

/-- What it takes for a packet to be opened. -/
theorem SecureChannel.open_ok {A : Aead} {channel : SecureChannel} {packet : Bytes}
    {authenticated : AuthenticatedPacket} (h : channel.open A packet = .ok authenticated) :
    PacketDirection.decode (u64FromBeBytes (packet.take packetPrefixBytes)) =
      (channel.inboundDirection, authenticated.counter) ∧
    A.decrypt (makeNonce (packet.take packetPrefixBytes)) (packet.drop packetPrefixBytes) =
      some authenticated.plaintext := by
  unfold SecureChannel.open at h
  split at h
  · simp at h
  · dsimp only at h
    split at h
    · simp at h
    · next plaintext hdecrypt =>
      split at h
      · simp at h
      · next hdirection =>
        rw [ne_eq, Decidable.not_not] at hdirection
        simp only [Except.ok.injEq] at h
        rw [← h]
        exact ⟨Prod.ext hdirection rfl, hdecrypt⟩

theorem decode_prefixAt (d : PacketDirection) {n : Nat} (h : n < 2 ^ 63) :
    PacketDirection.decode (u64FromBeBytes (prefixAt d n)) = (d, UInt64.ofNat n) := by
  rw [prefixAt, u64FromBeBytes_toBeBytes, PacketDirection.decode_encode d (ofNat_le_maxCounter h)]

/-- A channel at its limit, and no other one, is exhausted. -/
theorem AtPosition.exhausted_iff {channel : SecureChannel} {n : Nat} (h : AtPosition channel n)
    (A : Aead) (plaintext : Bytes) :
    (channel.sealNext A plaintext).2 = .error .counterExhausted ↔ n = 2 ^ 63 := by
  rcases h.sealNext A plaintext with ⟨e, he, hexhausted⟩ | ⟨channel', packet, he, hlt, -⟩ <;> rw [he]
  · simpa using hexhausted
  · exact ⟨fun h => by simp at h, fun h => by omega⟩

/-- **Whatever passes the replay check was sealed by the server under its counter.** -/
theorem accepted_sealed {steps : List ConversationStep} (hideal : OpensOnlySealed X steps)
    {a : AuthenticatedPacket} (ha : a ∈ acceptedOf ((conversation X).trace steps)) :
    ∃ s ∈ sealedOf ((conversation X).trace steps), s.direction = .serverToClient ∧
      s.plaintext = a.plaintext ∧ s.prefixBytes = prefixAt .serverToClient a.counter.toNat := by
  obtain ⟨e, he, haccepted⟩ := List.mem_filterMap.mp ha
  obtain ⟨pre, i, post, rfl, rfl⟩ := (conversation X).mem_trace he
  unfold acceptedBy at haccepted
  split at haccepted
  · next packet result hlabel hresult =>
    rw [Machine.event_label] at hlabel
    subst hlabel
    split at haccepted
    · simp at haccepted
    · next authenticated hopen =>
      obtain rfl : authenticated = a := by
        split at haccepted
        · simp at haccepted
        · simpa using haccepted
      obtain ⟨hdecode, hdecrypt⟩ := SecureChannel.open_ok hopen
      obtain ⟨s, hs, hwire, hplaintext⟩ := hideal pre packet post rfl _ hdecrypt
      have hinv := conversationInvariant X pre
      obtain ⟨n, hn, hposition⟩ := hinv.wellNumbered.positions s hs
      have hlt : n < 2 ^ 63 := lt_of_lt_of_le hn (hinv.count_le _)
      rw [← hwire, hposition, decode_prefixAt _ hlt, Machine.event_pre, hinv.clientInbound,
        Prod.mk.injEq] at hdecode
      have hval : (UInt64.ofNat n).toNat = n :=
        UInt64.toNat_ofNat_of_lt' (by rw [UInt64.size]; omega)
      refine ⟨s, ?_, hdecode.1, hplaintext, ?_⟩
      · obtain ⟨e, he, hs⟩ := List.mem_flatMap.mp hs
        exact List.mem_flatMap.mpr ⟨e, (conversation X).mem_trace_append he _, hs⟩
      · rw [hposition, hdecode.1, ← hdecode.2, hval]
  · simp at haccepted

/--
**Authenticated packets are delivered at most once.**

In every conversation over one key: the prefixes of the packets that were ever sealed all
differ; each side seals at most 2^63 packets and reports exhaustion exactly from then on; what
passes the client's replay check are packets of the server, no counter twice; a packet under a
prefix of the client is not opened; and an opened packet is rejected as a replay exactly when
its counter was accepted before or lies at least 128 below an accepted one.
-/
theorem at_most_once_delivery (X : Externals) (steps : List ConversationStep)
    (hideal : OpensOnlySealed X steps) :
    let trace := (conversation X).trace steps
    let final := (conversation X).final steps
    ((sealedOf trace).map Sealing.prefixBytes).Nodup ∧
    (∀ d, sealedCount (sealedOf trace) d ≤ 2 ^ 63) ∧
    (∀ plaintext,
      ((final.client.secureChannel.sealNext X.aead plaintext).2 = .error .counterExhausted ↔
        sealedCount (sealedOf trace) .clientToServer = 2 ^ 63) ∧
      ((final.server.sealNext X.aead plaintext).2 = .error .counterExhausted ↔
        sealedCount (sealedOf trace) .serverToClient = 2 ^ 63)) ∧
    ((acceptedOf trace).map AuthenticatedPacket.counter).Nodup ∧
    (∀ a ∈ acceptedOf trace, ∃ s ∈ sealedOf trace, s.direction = .serverToClient ∧
      s.plaintext = a.plaintext ∧ s.prefixBytes = prefixAt .serverToClient a.counter.toNat) ∧
    (∀ s ∈ sealedOf trace, s.direction = .clientToServer → ∀ packet,
      packet.take packetPrefixBytes = s.prefixBytes →
        ∃ e, (final.client.ingestPacket packet).2 = .error (.opening e)) ∧
    (∀ packet authenticated,
      final.client.secureChannel.open X.aead packet = .ok authenticated →
        ((final.client.ingestPacket packet).2 = .error .replayDetected ↔
          authenticated.counter ∈ (acceptedOf trace).map AuthenticatedPacket.counter ∨
          ∃ a ∈ acceptedOf trace, authenticated.counter.toNat + 128 ≤ a.counter.toNat)) := by
  intro trace final
  have hinv : ConversationInvariant final trace := conversationInvariant X steps
  refine ⟨hinv.wellNumbered.nodup, hinv.count_le,
    fun plaintext => ⟨hinv.clientAt.exhausted_iff X.aead plaintext,
      hinv.serverAt.exhausted_iff X.aead plaintext⟩, ?_, fun a ha => accepted_sealed hideal ha,
    ?_, ?_⟩
  · have hnodup := hinv.window.nodup
    rw [show (fun a : AuthenticatedPacket => a.counter.toNat) =
      UInt64.toNat ∘ AuthenticatedPacket.counter from rfl, ← List.map_map] at hnodup
    exact List.Nodup.of_map _ hnodup
  · intro s hs hdirection packet hwire
    obtain ⟨n, hn, hposition⟩ := hinv.wellNumbered.positions s hs
    have hlt : n < 2 ^ 63 := lt_of_lt_of_le hn (hinv.count_le _)
    cases hopen : final.client.secureChannel.open X.aead packet with
    | error e => exact ⟨e, by simp [ClientProtocol.ingestPacket, hopen]⟩
    | ok authenticated =>
      have hdecode := (SecureChannel.open_ok hopen).1
      rw [hwire, hposition, decode_prefixAt _ hlt, hdirection, hinv.clientInbound] at hdecode
      simp at hdecode
  · intro packet authenticated hopen
    rw [(ClientProtocol.ingestPacket_replay hopen).2]
    have hrefines := final.client.replayWindow.accept_toSlidingWindow authenticated.counter
    have hstale : SlidingWindow.Stale 128 ((acceptedOf trace).map fun a => a.counter.toNat)
        authenticated.counter.toNat ↔
        authenticated.counter ∈ (acceptedOf trace).map AuthenticatedPacket.counter ∨
        ∃ a ∈ acceptedOf trace, authenticated.counter.toNat + 128 ≤ a.counter.toNat := by
      simp [SlidingWindow.Stale, UInt64.toNat_inj]
    rw [← hstale]
    rcases hinv.window.accept (by decide) authenticated.counter.toNat with
      ⟨hnot, hfresh, -⟩ | ⟨hyes, heq⟩
    · rw [hrefines] at hfresh
      exact ⟨fun h => by rw [h] at hfresh; simp at hfresh, fun h => absurd h hnot⟩
    · rw [hrefines, Prod.mk.injEq] at heq
      exact ⟨fun _ => hyes, fun _ => heq.2⟩

/-! ## One heartbeat -/

/-- A heartbeat of the server, and its delivery. -/
def heartbeatSteps : List ConversationStep :=
  [.server [0, 0, 0, 0], .client (.ingestPacket (Reference.serverPacket 0 [0, 0, 0, 0]))]

theorem opensOnlySealed_heartbeat : OpensOnlySealed Reference.externals heartbeatSteps := by
  have htrace : sealedOf ((conversation Reference.externals).trace [.server [0, 0, 0, 0]]) =
      [{ direction := .serverToClient
         plaintext := [0, 0, 0, 0]
         packet := Reference.serverPacket 0 [0, 0, 0, 0] }] := rfl
  intro pre packet post hsteps plaintext hdecrypt
  obtain ⟨rfl, rfl⟩ : pre = [.server [0, 0, 0, 0]] ∧
      packet = Reference.serverPacket 0 [0, 0, 0, 0] := by
    rw [heartbeatSteps] at hsteps
    match pre with
    | [] => simp at hsteps
    | [first] =>
      simp only [List.cons_append, List.nil_append, List.cons.injEq, ConversationStep.client.injEq,
        ClientCall.ingestPacket.injEq] at hsteps
      exact ⟨by rw [← hsteps.1], hsteps.2.1.symm⟩
    | first :: second :: rest => simp at hsteps
  refine ⟨_, by rw [htrace]; exact List.mem_singleton.mpr rfl, rfl, ?_⟩
  have hopened : Reference.externals.aead.decrypt
      (makeNonce ((Reference.serverPacket 0 [0, 0, 0, 0]).take packetPrefixBytes))
      ((Reference.serverPacket 0 [0, 0, 0, 0]).drop packetPrefixBytes) = some [0, 0, 0, 0] := by
    decide
  rw [hopened] at hdecrypt
  exact Option.some.inj hdecrypt

/-- The guarantees for a heartbeat. -/
theorem at_most_once_delivery_heartbeat :
    let trace := (conversation Reference.externals).trace heartbeatSteps
    let final := (conversation Reference.externals).final heartbeatSteps
    ((sealedOf trace).map Sealing.prefixBytes).Nodup ∧
    (∀ d, sealedCount (sealedOf trace) d ≤ 2 ^ 63) ∧
    (∀ plaintext,
      ((final.client.secureChannel.sealNext Reference.aead plaintext).2
          = .error .counterExhausted ↔ sealedCount (sealedOf trace) .clientToServer = 2 ^ 63) ∧
      ((final.server.sealNext Reference.aead plaintext).2 = .error .counterExhausted ↔
        sealedCount (sealedOf trace) .serverToClient = 2 ^ 63)) ∧
    ((acceptedOf trace).map AuthenticatedPacket.counter).Nodup ∧
    (∀ a ∈ acceptedOf trace, ∃ s ∈ sealedOf trace, s.direction = .serverToClient ∧
      s.plaintext = a.plaintext ∧ s.prefixBytes = prefixAt .serverToClient a.counter.toNat) ∧
    (∀ s ∈ sealedOf trace, s.direction = .clientToServer → ∀ packet,
      packet.take packetPrefixBytes = s.prefixBytes →
        ∃ e, (final.client.ingestPacket packet).2 = .error (.opening e)) ∧
    (∀ packet authenticated,
      final.client.secureChannel.open Reference.aead packet = .ok authenticated →
        ((final.client.ingestPacket packet).2 = .error .replayDetected ↔
          authenticated.counter ∈ (acceptedOf trace).map AuthenticatedPacket.counter ∨
          ∃ a ∈ acceptedOf trace, authenticated.counter.toNat + 128 ≤ a.counter.toNat)) :=
  at_most_once_delivery Reference.externals heartbeatSteps opensOnlySealed_heartbeat

end OxideTerm.Fernomade
