import OxideTerm.Fernomade.Client
import OxideTerm.Fernomade.WireFormat

/-!
# Reference externals

The simplest components with the properties the protocol relies on: a cipher that appends the
nonce as its tag, a compressor that stores, decoders that invert the encoders, and a terminal
without escape sequences whose screen is the text that fits on it. They show that the
assumptions made about the real components can be met together.
-/

namespace OxideTerm.Fernomade.Reference

open OxideTerm.Lib

/-- The nonce, filled up to the length of a tag. -/
def tag (nonce : Bytes) : Bytes := (nonce ++ List.replicate ocbTagBytes 0).take ocbTagBytes

def aead : Aead where
  encrypt nonce plaintext := some (plaintext ++ tag nonce)
  decrypt nonce packed :=
    let length := packed.length - ocbTagBytes
    if packed.drop length = tag nonce then some (packed.take length) else none

theorem length_tag (nonce : Bytes) : (tag nonce).length = ocbTagBytes := by
  simp [tag, ocbTagBytes]

theorem aead_lawful : aead.Lawful where
  decrypt_encrypt nonce plaintext packed h := by
    simp only [aead, Option.some.injEq] at h ⊢
    subst h
    rw [List.length_append, length_tag, Nat.add_sub_cancel, List.drop_left, List.take_left,
      if_pos rfl]
  length_encrypt nonce plaintext packed h := by
    simp only [aead, Option.some.injEq] at h
    subst h
    rw [List.length_append, length_tag, ocbTagBytes]

def zlib : Zlib where
  compress encoded := some encoded
  readTake limit compressed := some (compressed.take limit)

theorem zlib_lawful : zlib.Lawful where
  readTake_compress encoded compressed h limit := by
    simp only [zlib, Option.some.injEq] at h ⊢
    rw [h]

open Classical in
noncomputable def prost : Prost where
  decodeUpdate bytes := if h : ∃ u : StateUpdate, u.encode = bytes then some h.choose else none
  decodeBatch bytes :=
    if h : ∃ b : InstructionBatch, b.encodeBytes = bytes then some h.choose else none

theorem prost_lawful : prost.Lawful where
  decodeUpdate_encode u := by
    have h : ∃ v : StateUpdate, v.encode = u.encode := ⟨u, rfl⟩
    rw [prost]
    dsimp only
    rw [dif_pos h, StateUpdate.encode_inj h.choose_spec]
  decodeBatch_encode b := by
    have h : ∃ c : InstructionBatch, c.encodeBytes = b.encodeBytes := ⟨b, rfl⟩
    rw [prost]
    dsimp only
    rw [dif_pos h, InstructionBatch.encodeBytes_inj h.choose_spec]

/-- A screen that shows the end of its text. -/
structure Screen where
  rows : UInt16
  columns : UInt16
  text : Bytes
deriving DecidableEq

/-- The bytes that are still on a screen of this size. -/
def Screen.crop (rows columns : UInt16) (text : Bytes) : Bytes :=
  text.drop (text.length - rows.toNat * columns.toNat)

def vt100 : Vt100 where
  Parser := Screen
  new rows columns := { rows, columns, text := [] }
  process screen bytes :=
    { screen with text := Screen.crop screen.rows screen.columns (screen.text ++ bytes) }
  setSize screen rows columns := { rows, columns, text := Screen.crop rows columns screen.text }
  stateFormatted screen := screen.text
  stateDiff screen previous := if screen = previous then [] else screen.text

/-- A byte below the space or the delete byte is a control, any other one is printed. -/
def action (b : UInt8) : VteAction :=
  if b.toNat < 32 ∨ b.toNat = 127 then .execute b else .print (Char.ofNat b.toNat)

def vte : Vte where
  Parser := Unit
  new := ()
  advance _ bytes := ((), bytes.map action)

noncomputable def externals : Externals where
  aead := aead
  zlib := zlib
  prost := prost
  vt100 := vt100
  vte := vte

/-- A decoder for the updates in a table, none of which carries instructions. -/
def tableProst (updates : List StateUpdate) : Prost where
  decodeUpdate bytes := updates.find? fun update => update.encode = bytes
  decodeBatch bytes := if bytes = [] then some { instructions := [] } else none

/-- Components that can be evaluated where no other updates arrive. -/
def tableExternals (updates : List StateUpdate) : Externals where
  aead := aead
  zlib := zlib
  prost := tableProst updates
  vt100 := vt100
  vte := vte

/-- A message that fits one fragment is one fragment. -/
theorem split_single {message : Bytes} (h : message.length ≤ maxFragmentBodyBytes)
    (sent echoed : UInt16) (stateId : UInt64) :
    Fragment.chunkCount message = 1 ∧
    Fragment.split message sent echoed stateId =
      .ok [Fragment.fragmentAt message sent echoed stateId 0] := by
  have hcount : Fragment.chunkCount message = 1 := by
    rw [Fragment.chunkCount, divCeil_maxFragmentBodyBytes]
    rw [maxFragmentBodyBytes] at h
    omega
  refine ⟨hcount, ?_⟩
  rw [Fragment.split_eq, hcount, if_pos (by decide)]
  rfl

/-- **With these externals a short update is always sealed.** -/
theorem sealUpdate_ok (p : ClientProtocol externals) {c : UInt64}
    (hc : p.secureChannel.nextCounter = some c) (t : UInt16) {u : StateUpdate}
    (hversion : u.protocolVersion = protocolVersion)
    (hlen : u.encode.length ≤ maxFragmentBodyBytes) :
    ∃ packet, p.sealUpdate t u = ({ p with secureChannel :=
      { p.secureChannel with nextCounter := followingCounter c } }, .ok [packet]) := by
  have hcompress : encodeCompressedUpdate externals.zlib u = .ok u.encode := by
    simp [encodeCompressedUpdate, hversion, externals, zlib]
  have hencrypt : ∀ nonce plaintext,
      externals.aead.encrypt nonce plaintext = some (plaintext ++ tag nonce) := fun _ _ => rfl
  refine ⟨u64ToBeBytes (p.secureChannel.outboundDirection.encode c) ++
    ((Fragment.fragmentAt u.encode t (p.latestPeerTimestamp.getD noEchoTimestamp)
      u.targetState 0).encode ++ tag (makeNonce
        (u64ToBeBytes (p.secureChannel.outboundDirection.encode c)))), ?_⟩
  simp only [ClientProtocol.sealUpdate, hcompress, sealFragments,
    (split_single hlen t (p.latestPeerTimestamp.getD noEchoTimestamp) u.targetState).2, sealEach,
    SecureChannel.sealNext, hc, hencrypt]

/-! ## A server at the other end -/

/-- The channel of a server that has sealed so many packets. -/
def serverChannel (counter : UInt64) : SecureChannel :=
  { SecureChannel.new .server with nextCounter := some counter }

/-- What the server seals a plaintext to under this counter. -/
def serverPacket (counter : UInt64) (plaintext : Bytes) : Bytes :=
  u64ToBeBytes (PacketDirection.serverToClient.encode counter) ++
    (plaintext ++ tag (makeNonce (u64ToBeBytes (PacketDirection.serverToClient.encode counter))))

theorem sealNext_serverChannel (counter : UInt64) (plaintext : Bytes) :
    (serverChannel counter).sealNext aead plaintext =
      ({ serverChannel counter with nextCounter := followingCounter counter },
        .ok (serverPacket counter plaintext)) := rfl

/-- **A client opens what the server sealed.** -/
theorem open_serverPacket (channel : SecureChannel) (h : channel.inboundDirection = .serverToClient)
    {counter : UInt64} (hcounter : counter ≤ maxCounter) (plaintext : Bytes) :
    channel.open externals.aead (serverPacket counter plaintext) = .ok { counter, plaintext } :=
  SecureChannel.open_sealNext aead_lawful
    (show (serverChannel counter).nextCounter = some counter from rfl) hcounter h
    (sealNext_serverChannel counter plaintext)

/-- The server's packet with a short update, as one fragment. -/
def updatePacket (counter stateId : UInt64) (u : StateUpdate) : Bytes :=
  serverPacket counter (Fragment.fragmentAt u.encode 0 0 stateId 0).encode

/-- A shutdown that is based on a state a new client does not hold. -/
def unbasedShutdown : StateUpdate := .new 5 shutdownState 0

/-- A shutdown that is based on the blank state. -/
def blankShutdown : StateUpdate := .new 0 shutdownState 0

/-- **A fresh packet with a short update is handled as that update.** -/
theorem ingestPacket_updatePacket {p : ClientProtocol externals}
    (hinbound : p.secureChannel.inboundDirection = .serverToClient) {counter : UInt64}
    (hcounter : counter ≤ maxCounter) {window : ReplayWindow}
    (hfresh : p.replayWindow.accept counter = (window, true)) {stateId : UInt64}
    (hnew : p.assemblies[stateId]? = none) (hroom : p.assemblies.size < maximumActiveAssemblies)
    {u : StateUpdate} {batch : InstructionBatch} (hversion : u.protocolVersion = protocolVersion)
    (hdelta : u.delta = batch.encodeBytes) (hlen : u.encode.length ≤ maxFragmentBodyBytes) :
    ∃ timestamp, ∃ receipt : PacketReceipt, ∃ header compressed,
      decodeCompressedUpdate prost zlib compressed = .ok u ∧
      p.ingestPacket (updatePacket counter stateId u) =
        (((p.rebook window timestamp p.assemblies).ingestMessage counter header compressed).1,
          ((p.rebook window timestamp p.assemblies).ingestMessage counter header compressed).2.map
            fun state => { receipt with state := some state }) := by
  have hcount : Fragment.chunkCount u.encode = 1 := (split_single hlen 0 0 stateId).1
  have hopen := open_serverPacket p.secureChannel hinbound hcounter
    (Fragment.fragmentAt u.encode 0 0 stateId 0).encode
  have hparse : Fragment.parse (Fragment.fragmentAt u.encode 0 0 stateId 0).encode =
      .ok (Fragment.fragmentAt u.encode 0 0 stateId 0) :=
    Fragment.parse_encode_fragmentAt (by rw [hcount]; decide) (by rw [hcount]; decide)
  have hfinal : (Fragment.fragmentAt u.encode 0 0 stateId 0).header.isFinal = true := by
    rw [Fragment.isFinal_fragmentAt, hcount]
    rfl
  have hbody : (Fragment.fragmentAt u.encode 0 0 stateId 0).body = u.encode := by
    show (u.encode.drop (0 * maxFragmentBodyBytes)).take maxFragmentBodyBytes = u.encode
    rw [Nat.zero_mul, List.drop_zero, List.take_of_length_le hlen]
  have hindex : (Fragment.fragmentAt u.encode 0 0 stateId 0).header.index = 0 := rfl
  have hid : (Fragment.fragmentAt u.encode 0 0 stateId 0).header.stateId = stateId := rfl
  have hdecode : decodeCompressedUpdate prost zlib u.encode = .ok u :=
    decodeCompressedUpdate_encode prost_lawful zlib_lawful
      (by simp [encodeCompressedUpdate, hversion, zlib]) hdelta
      (by rw [maxFragmentBodyBytes] at hlen; rw [maximumDecompressedBytes]; omega)
  have hpacket : updatePacket counter stateId u =
    serverPacket counter (Fragment.fragmentAt u.encode 0 0 stateId 0).encode := rfl
  generalize Fragment.fragmentAt u.encode 0 0 stateId 0 = f at *
  obtain ⟨timestamp, receipt, heq⟩ := ClientProtocol.ingestPacket_fragment hopen hfresh hparse
  have hsingle := ClientProtocol.ingestFragment_single
    (p := p.rebook window timestamp p.assemblies) (c := counter) hindex hfinal
    (Fragment.length_of_parse hparse).2 (by rw [hid]; exact hnew)
  have hsize : ¬ maximumActiveAssemblies ≤ (p.rebook window timestamp p.assemblies).assemblies.size :=
    Nat.not_le.mpr hroom
  rw [if_neg hsize] at hsingle
  refine ⟨timestamp, receipt, f.header, f.body, by rw [hbody]; exact hdecode, ?_⟩
  rw [hpacket, heq, hsingle]
  generalize ClientProtocol.ingestMessage _ counter f.header f.body = r
  obtain ⟨q, result⟩ := r
  cases result <;> rfl

end OxideTerm.Fernomade.Reference
