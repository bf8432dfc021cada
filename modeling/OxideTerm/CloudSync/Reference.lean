import Mathlib.Logic.Equiv.Finset
import Mathlib.Tactic.DeriveEncodable
import Mathlib.Tactic.IntervalCases
import OxideTerm.CloudSync.Publication

/-!
# Reference digests and codec

The simplest digest without collisions: the bytes themselves, as characters. The reference codec
writes identities as usual, and its digests are numbers in hexadecimal.
-/

namespace OxideTerm.CloudSync.Reference

open OxideTerm.Lib

def contentDigest (value : FieldValue) : String := String.ofList (value.map Char.ofUInt8)

theorem contentDigest_injective : Function.Injective contentDigest := by
  intro a b h
  have hchars := congrArg String.toList h
  rw [contentDigest, contentDigest, String.toList_ofList, String.toList_ofList] at hchars
  refine List.map_injective_iff.mpr (fun x y hxy => ?_) hchars
  have hval : x.toUInt32 = y.toUInt32 := congrArg Char.val hxy
  have hnat := congrArg UInt32.toNat hval
  rw [UInt8.toNat_toUInt32, UInt8.toNat_toUInt32] at hnat
  exact UInt8.toNat_inj.mp hnat

/-! ## A record -/

/-- A connection with a name. -/
def connection : SyncResource where
  kind := .connection
  id := "connection-1"

def name : SyncField where
  resource := connection
  group := "name"

/-- The values of the connection, with its name. -/
def named (text : FieldValue) : SyncValues :=
  .ofList [(.presence connection, .encodeBool true), (name, text)]

/-! ## Hexadecimal -/

/-- The two digits of each byte. -/
def hex (bytes : Bytes) : List Char :=
  bytes.flatMap fun b => [(b.toNat / 16).digitChar, (b.toNat % 16).digitChar]

/-- The value of a digit. -/
def hexValue (c : Char) : Nat := if c.isDigit then c.toNat - 48 else c.toNat - 87

def readHex : List Char → Bytes
  | a :: b :: rest => UInt8.ofNat (hexValue a * 16 + hexValue b) :: readHex rest
  | _ => []

theorem digit_cases {n : Nat} (h : n < 16) :
    hexValue n.digitChar = n ∧ lowerHex n.digitChar = true ∧ n.digitChar ≠ '-' ∧
      n.digitChar ≠ '/' := by
  interval_cases n <;> decide

theorem readHex_hex : (bytes : Bytes) → readHex (hex bytes) = bytes
  | [] => rfl
  | b :: rest => by
    have hlt := b.toNat_lt
    have hhigh := (digit_cases (show b.toNat / 16 < 16 by omega)).1
    have hlow := (digit_cases (show b.toNat % 16 < 16 by omega)).1
    show UInt8.ofNat (hexValue (b.toNat / 16).digitChar * 16 + hexValue (b.toNat % 16).digitChar) ::
      readHex (hex rest) = b :: rest
    rw [hhigh, hlow, readHex_hex rest, Nat.div_add_mod', UInt8.ofNat_toNat]

theorem mem_hex {bytes : Bytes} {c : Char} (h : c ∈ hex bytes) :
    lowerHex c = true ∧ c ≠ '-' ∧ c ≠ '/' := by
  obtain ⟨b, -, hc⟩ := List.mem_flatMap.mp h
  have hlt := b.toNat_lt
  rcases List.mem_cons.mp hc with rfl | hc
  · exact (digit_cases (show b.toNat / 16 < 16 by omega)).2
  · obtain rfl := List.mem_singleton.mp hc
    exact (digit_cases (show b.toNat % 16 < 16 by omega)).2

theorem length_hex : (bytes : Bytes) → (hex bytes).length = 2 * bytes.length
  | [] => rfl
  | b :: rest => by
    show (hex rest).length + 1 + 1 = 2 * (rest.length + 1)
    rw [length_hex rest]
    omega

/-! ## Identities -/

/-- Groups of eight, four, four, four and twelve digits. -/
def hyphenate (digits : List Char) : List Char :=
  digits.take 8 ++ '-' :: ((digits.drop 8).take 4 ++ '-' :: ((digits.drop 12).take 4 ++
    '-' :: ((digits.drop 16).take 4 ++ '-' :: digits.drop 20)))

theorem filter_hyphenate {digits : List Char} (h : '-' ∉ digits) :
    (hyphenate digits).filter (fun c => decide (c ≠ '-')) = digits := by
  have hkeep : ∀ part : List Char, (∀ c ∈ part, c ∈ digits) →
      part.filter (fun c => decide (c ≠ '-')) = part := by
    intro part hpart
    refine List.filter_eq_self.mpr fun c hc => ?_
    rw [decide_eq_true_eq]
    rintro rfl
    exact h (hpart _ hc)
  have hdrop : ∀ n m : Nat, ∀ c ∈ (digits.drop n).take m, c ∈ digits :=
    fun n m c hc => List.mem_of_mem_drop (List.mem_of_mem_take hc)
  rw [hyphenate]
  simp only [List.filter_append, List.filter_cons]
  rw [hkeep _ fun c hc => List.mem_of_mem_take hc, hkeep _ (hdrop 8 4), hkeep _ (hdrop 12 4),
    hkeep _ (hdrop 16 4), hkeep _ fun c hc => List.mem_of_mem_drop hc]
  simp only [ne_eq, not_true_eq_false, decide_false, Bool.false_eq_true, if_false]
  rw [show digits.drop 20 = (digits.drop 16).drop 4 by rw [List.drop_drop],
    List.take_append_drop, show digits.drop 16 = (digits.drop 12).drop 4 by rw [List.drop_drop],
    List.take_append_drop, show digits.drop 12 = (digits.drop 8).drop 4 by rw [List.drop_drop],
    List.take_append_drop, List.take_append_drop]

def uuidText (u : Uuid) : String := String.ofList (hyphenate (hex (beBytes 16 u.val)))

def parseUuid (text : String) : Option Uuid :=
  let u : Uuid :=
    Fin.ofNat _ (ofBeBytes (readHex (text.toList.filter fun c => decide (c ≠ '-'))))
  if uuidText u = text then some u else none

theorem parseUuid_uuidText (u : Uuid) : parseUuid (uuidText u) = some u := by
  have hhyphen : '-' ∉ hex (beBytes 16 u.val) := fun h => (mem_hex h).2.1 rfl
  have hvalue : ofBeBytes (readHex ((uuidText u).toList.filter fun c => decide (c ≠ '-'))) =
      u.val := by
    rw [uuidText, String.toList_ofList, filter_hyphenate hhyphen, readHex_hex, ofBeBytes_beBytes]
    exact Nat.mod_eq_of_lt u.isLt
  unfold parseUuid
  simp only [hvalue]
  rw [show Fin.ofNat (2 ^ 128) u.val = u from Fin.ext (Nat.mod_eq_of_lt u.isLt), if_pos rfl]

theorem mem_hyphenate {digits : List Char} {c : Char} (h : c ∈ hyphenate digits) :
    c = '-' ∨ c ∈ digits := by
  have hdrop : ∀ n m : Nat, c ∈ (digits.drop n).take m → c ∈ digits :=
    fun n m hc => List.mem_of_mem_drop (List.mem_of_mem_take hc)
  simp only [hyphenate, List.mem_append, List.mem_cons] at h
  rcases h with h | h | h | h | h | h | h | h | h
  · exact Or.inr (List.mem_of_mem_take h)
  · exact Or.inl h
  · exact Or.inr (hdrop 8 4 h)
  · exact Or.inl h
  · exact Or.inr (hdrop 12 4 h)
  · exact Or.inl h
  · exact Or.inr (hdrop 16 4 h)
  · exact Or.inl h
  · exact Or.inr (List.mem_of_mem_drop h)

theorem uuidText_slash (u : Uuid) : '/' ∉ (uuidText u).toList := by
  rw [uuidText, String.toList_ofList]
  intro h
  rcases mem_hyphenate h with h | h
  · exact absurd h (by decide)
  · exact (mem_hex h).2.2 rfl

/-! ## A codec -/

instance encodableChar : Encodable Char :=
  .ofLeftInjection Char.toNat (fun n => some (Char.ofNat n)) fun c => by simp

instance encodableString : Encodable String :=
  .ofLeftInjection String.toList (fun l => some (String.ofList l)) fun s => by simp

deriving instance Encodable for ResourceKind, SyncResource, SyncField, WriteId, ScalarValue, Put

/-- The digest of an object, as a number of 256 bits. -/
def objectDigest (bytes : Bytes) : String := String.ofList (hex (beBytes 32 (ofBeBytes bytes)))

def documentDigest (d : SyncDocument) : String := toString (Encodable.encode d)

theorem documentDigest_injective : Function.Injective documentDigest := by
  intro d e h
  have hdigits : Nat.toDigits 10 (Encodable.encode d) = Nat.toDigits 10 (Encodable.encode e) := by
    simpa [documentDigest, Nat.toString_eq_repr, Nat.toList_repr] using congrArg String.toList h
  have hvalue := congrArg (fun digits => Nat.ofDigitChars 10 digits 0) hdigits
  simp only [Nat.ofDigitChars_ten_toDigits] at hvalue
  exact Encodable.encode_injective hvalue

/-- A sealed object, known together with its contents. -/
structure Envelope where
  publication : PublishedReplica
  bytes : Bytes

def codec : Codec Envelope where
  uuidText := uuidText
  parseUuid := parseUuid
  contentDigest := objectDigest
  documentDigest := documentDigest
  sealDocument envelope publication :=
    if publication = envelope.publication then .ok envelope.bytes else .error "Sealing failed"
  openDocument envelope bytes :=
    if bytes = envelope.bytes then .ok envelope.publication else .error "Opening failed"

theorem codec_lawful : codec.Lawful where
  parseUuid_uuidText := parseUuid_uuidText
  uuidText_slash := uuidText_slash
  digest_length bytes := by
    show (objectDigest bytes).length = 64
    rw [objectDigest, String.length_ofList, length_hex, length_beBytes]
  digest_hex bytes := by
    show (objectDigest bytes).toList.all lowerHex = true
    rw [objectDigest, String.toList_ofList]
    exact List.all_eq_true.mpr fun c hc => (mem_hex hc).1
  documentDigest_injective := documentDigest_injective
  openDocument_sealDocument envelope publication bytes h := by
    simp only [codec] at h ⊢
    split at h
    · next heq =>
      rw [Except.ok.injEq] at h
      rw [if_pos h.symm, heq]
    · simp at h

end OxideTerm.CloudSync.Reference
