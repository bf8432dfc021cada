import Mathlib.Data.Nat.Bitwise
import OxideTerm.Lib.Bytes

/-!
# Authenticated datagram envelopes

`SecureChannel` couples one outbound nonce sequence with an authenticated inbound opener.
A packet is an 8-byte prefix, the direction bit over a 63-bit counter, followed by what the
cipher makes of the plaintext under the nonce built from that prefix.

The cipher is OCB3 over AES-128 under the session key, from outside the repository. It is the
parameter `Aead`; both directions use the same key, so both ciphers of a channel are this one.
-/

namespace OxideTerm.Fernomade

open OxideTerm.Lib

/-- The authenticated cipher under the session key. -/
structure Aead where
  /-- Seals a plaintext under a nonce, or fails. -/
  encrypt : Bytes → Bytes → Option Bytes
  /-- Opens what was sealed under a nonce, or rejects it. -/
  decrypt : Bytes → Bytes → Option Bytes

/-- What the channel relies on: opening inverts sealing, and the tag adds 16 bytes. -/
structure Aead.Lawful (A : Aead) : Prop where
  decrypt_encrypt : ∀ nonce plaintext packed, A.encrypt nonce plaintext = some packed →
    A.decrypt nonce packed = some plaintext
  length_encrypt : ∀ nonce plaintext packed, A.encrypt nonce plaintext = some packed →
    packed.length = plaintext.length + 16

def packetPrefixBytes : Nat := 8
def ocbNonceBytes : Nat := 12
def ocbTagBytes : Nat := 16
def directionBit : UInt64 := (1 : UInt64) <<< 63
def maxCounter : UInt64 := directionBit - 1
def minimumPacketBytes : Nat := packetPrefixBytes + ocbTagBytes

inductive PeerRole where
  | client
  | server
deriving DecidableEq

inductive PacketDirection where
  | clientToServer
  | serverToClient
deriving DecidableEq

namespace PacketDirection

def forOutbound : PeerRole → PacketDirection
  | .client => .clientToServer
  | .server => .serverToClient

def forInbound : PeerRole → PacketDirection
  | .client => .serverToClient
  | .server => .clientToServer

def encode (direction : PacketDirection) (counter : UInt64) : UInt64 :=
  match direction with
  | .clientToServer => counter
  | .serverToClient => counter ||| directionBit

def decode (value : UInt64) : PacketDirection × UInt64 :=
  (if value &&& directionBit = 0 then .clientToServer else .serverToClient, value &&& maxCounter)

end PacketDirection

inductive SealError where
  | counterExhausted
  | encryptionFailed
deriving DecidableEq

inductive OpenError where
  | packetTooShort
  | authenticationFailed
  | unexpectedDirection
deriving DecidableEq

/-- Plaintext is constructible only after successful authentication. -/
structure AuthenticatedPacket where
  counter : UInt64
  plaintext : Bytes
deriving DecidableEq

/-- One outbound nonce sequence and the direction expected inbound. -/
structure SecureChannel where
  outboundDirection : PacketDirection
  inboundDirection : PacketDirection
  nextCounter : Option UInt64
deriving DecidableEq

/-- The prefix, zero-extended on the left to the nonce length. -/
def makeNonce (prefixBytes : Bytes) : Bytes :=
  List.replicate (ocbNonceBytes - packetPrefixBytes) 0 ++ prefixBytes

/-- `counter.checked_add(1).filter(|next| *next <= MAX_COUNTER)`. -/
def followingCounter (counter : UInt64) : Option UInt64 :=
  if counter.toNat + 1 < 2 ^ 64 then
    if counter + 1 ≤ maxCounter then some (counter + 1) else none
  else none

namespace SecureChannel

def new (role : PeerRole) : SecureChannel where
  outboundDirection := .forOutbound role
  inboundDirection := .forInbound role
  nextCounter := some 0

/-- Encrypts once with the next counter and advances it after success. -/
def sealNext (A : Aead) (channel : SecureChannel) (plaintext : Bytes) :
    SecureChannel × Except SealError Bytes :=
  match channel.nextCounter with
  | none => (channel, .error .counterExhausted)
  | some counter =>
    let prefixBytes := u64ToBeBytes (channel.outboundDirection.encode counter)
    match A.encrypt (makeNonce prefixBytes) plaintext with
    | none => (channel, .error .encryptionFailed)
    | some packed =>
      ({ channel with nextCounter := followingCounter counter }, .ok (prefixBytes ++ packed))

/-- Authenticates a packet before returning any plaintext to the caller. -/
def «open» (A : Aead) (channel : SecureChannel) (packet : Bytes) :
    Except OpenError AuthenticatedPacket :=
  if packet.length < minimumPacketBytes then .error .packetTooShort
  else
    let prefixBytes := packet.take packetPrefixBytes
    let (direction, counter) := PacketDirection.decode (u64FromBeBytes prefixBytes)
    match A.decrypt (makeNonce prefixBytes) (packet.drop packetPrefixBytes) with
    | none => .error .authenticationFailed
    | some plaintext =>
      if direction ≠ channel.inboundDirection then .error .unexpectedDirection
      else .ok { counter, plaintext }

end SecureChannel

/-! ## The direction bit -/

theorem toNat_directionBit : directionBit.toNat = 2 ^ 63 := by decide

theorem toNat_maxCounter : maxCounter.toNat = 2 ^ 63 - 1 := by decide

theorem toNat_and_maxCounter (v : UInt64) : (v &&& maxCounter).toNat = v.toNat % 2 ^ 63 := by
  rw [UInt64.toNat_and, toNat_maxCounter, Nat.and_two_pow_sub_one_eq_mod]

theorem and_directionBit_eq_zero {v : UInt64} : v &&& directionBit = 0 ↔ v.toNat < 2 ^ 63 := by
  rw [← UInt64.toNat_inj, UInt64.toNat_and, toNat_directionBit, Nat.and_two_pow]
  have hv : v.toNat < 2 ^ 64 := v.toNat_lt
  rw [Nat.testBit_eq_decide_div_mod_eq]
  by_cases h : v.toNat / 2 ^ 63 % 2 = 1
  all_goals
    simp
    omega

theorem toNat_or_directionBit {c : UInt64} (h : c ≤ maxCounter) :
    (c ||| directionBit).toNat = c.toNat + 2 ^ 63 := by
  have hc : c.toNat < 2 ^ 63 := by
    have := UInt64.le_iff_toNat_le.mp h
    rw [toNat_maxCounter] at this
    omega
  rw [UInt64.toNat_or, toNat_directionBit, Nat.or_comm]
  have hor := Nat.two_pow_add_eq_or_of_lt hc 1
  rw [Nat.mul_one] at hor
  omega

/-- **The direction and the counter are read back from the encoded number.** -/
theorem PacketDirection.decode_encode (d : PacketDirection) {c : UInt64} (h : c ≤ maxCounter) :
    PacketDirection.decode (d.encode c) = (d, c) := by
  have hc : c.toNat < 2 ^ 63 := by
    have := UInt64.le_iff_toNat_le.mp h
    rw [toNat_maxCounter] at this
    omega
  cases d with
  | clientToServer =>
    have hcounter : c &&& maxCounter = c := by
      rw [← UInt64.toNat_inj, toNat_and_maxCounter, Nat.mod_eq_of_lt hc]
    simp [decode, encode, and_directionBit_eq_zero.mpr hc, hcounter]
  | serverToClient =>
    have hor := toNat_or_directionBit h
    have hbit : ¬ (c ||| directionBit) &&& directionBit = 0 := by
      rw [and_directionBit_eq_zero]
      omega
    have hcounter : (c ||| directionBit) &&& maxCounter = c := by
      rw [← UInt64.toNat_inj, toNat_and_maxCounter, hor]
      omega
    simp [decode, encode, hbit, hcounter]

theorem PacketDirection.encode_inj {d d' : PacketDirection} {c c' : UInt64}
    (h : c ≤ maxCounter) (h' : c' ≤ maxCounter) (heq : d.encode c = d'.encode c') :
    d = d' ∧ c = c' := by
  have hdec := congrArg PacketDirection.decode heq
  rw [decode_encode d h, decode_encode d' h'] at hdec
  exact Prod.mk.inj hdec

/-! ## The nonce sequence -/

theorem followingCounter_eq_some {c n : UInt64} :
    followingCounter c = some n ↔ c.toNat + 1 < 2 ^ 63 ∧ n.toNat = c.toNat + 1 := by
  have hc : c.toNat < 2 ^ 64 := c.toNat_lt
  unfold followingCounter
  by_cases hlt : c.toNat + 1 < 2 ^ 64
  · have hadd : (c + 1).toNat = c.toNat + 1 := by
      rw [UInt64.toNat_add]
      simp only [UInt64.reduceToNat]
      omega
    rw [if_pos hlt]
    by_cases hle : c + 1 ≤ maxCounter
    · have hle' := UInt64.le_iff_toNat_le.mp hle
      rw [hadd, toNat_maxCounter] at hle'
      rw [if_pos hle, Option.some.injEq, ← UInt64.toNat_inj, hadd]
      constructor
      · intro h; exact ⟨by omega, h.symm⟩
      · rintro ⟨-, h⟩; exact h.symm
    · have hle' : ¬ (c + 1).toNat ≤ maxCounter.toNat := fun h => hle (UInt64.le_iff_toNat_le.mpr h)
      rw [hadd, toNat_maxCounter] at hle'
      rw [if_neg hle]
      constructor
      · intro h; simp at h
      · rintro ⟨h, -⟩; omega
  · rw [if_neg hlt]
    constructor
    · intro h; simp at h
    · rintro ⟨h, -⟩; omega

theorem followingCounter_eq_none {c : UInt64} :
    followingCounter c = none ↔ 2 ^ 63 ≤ c.toNat + 1 := by
  constructor
  · intro h
    by_contra hlt
    have hlt' : c.toNat + 1 < 2 ^ 63 := by omega
    have hn : (UInt64.ofNat (c.toNat + 1)).toNat = c.toNat + 1 :=
      UInt64.toNat_ofNat_of_lt' (by rw [UInt64.size]; omega)
    rw [followingCounter_eq_some.mpr ⟨hlt', hn⟩] at h
    simp at h
  · intro h
    cases hf : followingCounter c with
    | none => rfl
    | some n =>
      have := (followingCounter_eq_some.mp hf).1
      omega

/-- What one attempt to seal does: nothing, or one packet under the current counter. -/
theorem SecureChannel.sealNext_cases (A : Aead) (channel : SecureChannel) (plaintext : Bytes) :
    (∃ e, channel.sealNext A plaintext = (channel, .error e) ∧
      (e = .counterExhausted ↔ channel.nextCounter = none)) ∨
    (∃ counter packed, channel.nextCounter = some counter ∧
      A.encrypt (makeNonce (u64ToBeBytes (channel.outboundDirection.encode counter))) plaintext
        = some packed ∧
      channel.sealNext A plaintext =
        ({ channel with nextCounter := followingCounter counter },
          .ok (u64ToBeBytes (channel.outboundDirection.encode counter) ++ packed))) := by
  unfold sealNext
  cases hn : channel.nextCounter with
  | none => exact Or.inl ⟨.counterExhausted, rfl, by simp⟩
  | some counter =>
    cases he : A.encrypt
        (makeNonce (u64ToBeBytes (channel.outboundDirection.encode counter))) plaintext with
    | none => exact Or.inl ⟨.encryptionFailed, by simp [he], by simp⟩
    | some packed => exact Or.inr ⟨counter, packed, rfl, he, by simp [he]⟩

/-- **A lawful cipher opens at one end what was sealed at the other.** -/
theorem SecureChannel.open_sealNext {A : Aead} (hA : A.Lawful) {sender receiver : SecureChannel}
    {plaintext packet : Bytes} {counter : UInt64} {sender' : SecureChannel}
    (hcounter : sender.nextCounter = some counter) (hle : counter ≤ maxCounter)
    (hdir : receiver.inboundDirection = sender.outboundDirection)
    (hseal : sender.sealNext A plaintext = (sender', .ok packet)) :
    receiver.open A packet = .ok { counter, plaintext } := by
  rcases sender.sealNext_cases A plaintext with ⟨e, he, -⟩ | ⟨c, packed, hc, henc, he⟩
  · rw [he] at hseal; simp at hseal
  · rw [he] at hseal
    simp only [Prod.mk.injEq, Except.ok.injEq] at hseal
    obtain ⟨-, rfl⟩ := hseal
    obtain rfl : counter = c := by rw [hcounter] at hc; exact Option.some.inj hc
    have hlen := hA.length_encrypt _ _ _ henc
    have hopen := hA.decrypt_encrypt _ _ _ henc
    have htake : (u64ToBeBytes (sender.outboundDirection.encode counter) ++ packed).take
        packetPrefixBytes = u64ToBeBytes (sender.outboundDirection.encode counter) :=
      List.take_left' (by simp [packetPrefixBytes])
    have hdrop : (u64ToBeBytes (sender.outboundDirection.encode counter) ++ packed).drop
        packetPrefixBytes = packed := List.drop_left' (by simp [packetPrefixBytes])
    unfold SecureChannel.open
    rw [if_neg (by simp [minimumPacketBytes, packetPrefixBytes, ocbTagBytes, hlen]; omega)]
    simp only [htake, hdrop, u64FromBeBytes_toBeBytes, hopen,
      PacketDirection.decode_encode _ hle, hdir]
    simp

end OxideTerm.Fernomade
