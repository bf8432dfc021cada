import Mathlib.Tactic.Ring
import OxideTerm.Lib.Bytes

/-!
# The protobuf wire format

A message on the wire is a sequence of fields. A field is a key, which packs the tag and the
wire type, followed by a varint or by a length and that many bytes. Only these two wire types
are written here; a reader that must skip the others is left to its own model.

The encoding is prefix free field by field, so it is injective on whole sequences
(`encodeFields_inj`).
-/

namespace OxideTerm.Lib.Protobuf

/-- The base-128 encoding, least significant group first. -/
def varint (v : Nat) : Bytes :=
  if v < 128 then [UInt8.ofNat v] else UInt8.ofNat (v % 128 + 128) :: varint (v / 128)
termination_by v
decreasing_by omega

theorem varint_of_lt {v : Nat} (h : v < 128) : varint v = [UInt8.ofNat v] := by
  rw [varint, if_pos h]

theorem varint_of_ge {v : Nat} (h : 128 ≤ v) :
    varint v = UInt8.ofNat (v % 128 + 128) :: varint (v / 128) := by
  rw [varint, if_neg (by omega)]

theorem varint_ne_nil (v : Nat) : varint v ≠ [] := by
  rw [varint]
  split <;> simp

/-- No varint is a prefix of another one. -/
theorem varint_append_inj : ∀ {v w : Nat} {x y : Bytes},
    varint v ++ x = varint w ++ y → v = w ∧ x = y := by
  intro v
  induction v using Nat.strongRecOn with
  | _ v ih =>
    intro w x y h
    by_cases hv : v < 128 <;> by_cases hw : w < 128
    · rw [varint_of_lt hv, varint_of_lt hw] at h
      simp only [List.cons_append, List.nil_append, List.cons.injEq] at h
      have hn := congrArg UInt8.toNat h.1
      simp only [UInt8.toNat_ofNat'] at hn
      exact ⟨by omega, h.2⟩
    · -- the first byte of `w` has the continuation bit
      rw [varint_of_lt hv, varint_of_ge (by omega)] at h
      simp only [List.cons_append, List.cons.injEq] at h
      have hn := congrArg UInt8.toNat h.1
      simp only [UInt8.toNat_ofNat'] at hn
      omega
    · rw [varint_of_ge (by omega), varint_of_lt hw] at h
      simp only [List.cons_append, List.cons.injEq] at h
      have hn := congrArg UInt8.toNat h.1
      simp only [UInt8.toNat_ofNat'] at hn
      omega
    · rw [varint_of_ge (v := v) (by omega), varint_of_ge (v := w) (by omega)] at h
      simp only [List.cons_append, List.cons.injEq] at h
      have hn := congrArg UInt8.toNat h.1
      simp only [UInt8.toNat_ofNat'] at hn
      obtain ⟨hdiv, hxy⟩ := ih (v / 128) (by omega) h.2
      exact ⟨by omega, hxy⟩

/-- What a field carries. -/
inductive WireValue where
  | varint (v : Nat)
  | bytes (b : Bytes)
deriving DecidableEq

/-- A tagged value. -/
structure Field where
  tag : Nat
  value : WireValue
deriving DecidableEq

/-- The wire type in the low three bits of a key. -/
def WireValue.wireType : WireValue → Nat
  | .varint _ => 0
  | .bytes _ => 2

/-- The part of a field after its key. -/
def WireValue.encode : WireValue → Bytes
  | .varint v => Protobuf.varint v
  | .bytes b => Protobuf.varint b.length ++ b

def Field.key (f : Field) : Nat := f.tag * 8 + f.value.wireType

def Field.encode (f : Field) : Bytes := varint f.key ++ f.value.encode

def encodeFields (fs : List Field) : Bytes := fs.flatMap Field.encode

@[simp] theorem encodeFields_nil : encodeFields [] = [] := rfl

@[simp] theorem encodeFields_cons (f : Field) (fs : List Field) :
    encodeFields (f :: fs) = f.encode ++ encodeFields fs := List.flatMap_cons

@[simp] theorem encodeFields_append (fs gs : List Field) :
    encodeFields (fs ++ gs) = encodeFields fs ++ encodeFields gs := List.flatMap_append

theorem Field.encode_ne_nil (f : Field) : f.encode ≠ [] := by
  simp [Field.encode, varint_ne_nil]

theorem Field.key_inj {f g : Field} (h : f.key = g.key) :
    f.tag = g.tag ∧ f.value.wireType = g.value.wireType := by
  have hf : f.value.wireType < 8 := by cases f.value <;> simp [WireValue.wireType]
  have hg : g.value.wireType < 8 := by cases g.value <;> simp [WireValue.wireType]
  unfold Field.key at h
  omega

theorem WireValue.encode_append_inj {a b : WireValue} {x y : Bytes}
    (ht : a.wireType = b.wireType) (h : a.encode ++ x = b.encode ++ y) : a = b ∧ x = y := by
  cases a with
  | varint v =>
    cases b with
    | varint w =>
      obtain ⟨rfl, hxy⟩ := varint_append_inj h
      exact ⟨rfl, hxy⟩
    | bytes _ => simp [WireValue.wireType] at ht
  | bytes c =>
    cases b with
    | varint _ => simp [WireValue.wireType] at ht
    | bytes d =>
      simp only [WireValue.encode, List.append_assoc] at h
      obtain ⟨hlen, hrest⟩ := varint_append_inj h
      obtain ⟨rfl, hxy⟩ := List.append_inj hrest hlen
      exact ⟨rfl, hxy⟩

theorem Field.encode_append_inj {f g : Field} {x y : Bytes}
    (h : f.encode ++ x = g.encode ++ y) : f = g ∧ x = y := by
  simp only [Field.encode, List.append_assoc] at h
  obtain ⟨hkey, hrest⟩ := varint_append_inj h
  obtain ⟨htag, htype⟩ := Field.key_inj hkey
  obtain ⟨hvalue, hxy⟩ := WireValue.encode_append_inj htype hrest
  cases f; cases g
  simp only at htag hvalue
  exact ⟨by rw [htag, hvalue], hxy⟩

/-- **A field sequence is determined by its bytes.** -/
theorem encodeFields_inj : ∀ {fs gs : List Field}, encodeFields fs = encodeFields gs → fs = gs
  | [], [], _ => rfl
  | [], g :: gs, h => by
    have := g.encode_ne_nil
    simp_all
  | f :: fs, [], h => by
    have := f.encode_ne_nil
    simp_all
  | f :: fs, g :: gs, h => by
    rw [encodeFields_cons, encodeFields_cons] at h
    obtain ⟨rfl, hrest⟩ := Field.encode_append_inj h
    rw [encodeFields_inj hrest]

/-! ## Message fields

A scalar is left out when it has its default value, a string of bytes when it is empty. A
nested message is written whenever it is present, also when it is empty itself.
-/

def uintField (tag v : Nat) : List Field := if v = 0 then [] else [⟨tag, .varint v⟩]

def bytesField (tag : Nat) (b : Bytes) : List Field := if b = [] then [] else [⟨tag, .bytes b⟩]

def messageField (tag : Nat) : Option (List Field) → List Field
  | none => []
  | some fs => [⟨tag, .bytes (encodeFields fs)⟩]

/-- The number under `tag`, zero when it is left out. -/
def uintOf (tag : Nat) (fs : List Field) : Nat :=
  match fs.find? (fun f => f.tag = tag) with
  | some ⟨_, .varint v⟩ => v
  | _ => 0

/-- The bytes under `tag`, empty when they are left out. -/
def bytesOf (tag : Nat) (fs : List Field) : Bytes :=
  match fs.find? (fun f => f.tag = tag) with
  | some ⟨_, .bytes b⟩ => b
  | _ => []

/-- The nested message under `tag`, as its bytes. -/
def messageOf (tag : Nat) (fs : List Field) : Option Bytes :=
  match fs.find? (fun f => f.tag = tag) with
  | some ⟨_, .bytes b⟩ => some b
  | _ => none

@[simp] theorem find?_uintField (tag v t : Nat) :
    (uintField tag v).find? (fun f => f.tag = t)
      = if v ≠ 0 ∧ tag = t then some ⟨tag, .varint v⟩ else none := by
  unfold uintField
  by_cases hv : v = 0 <;> by_cases ht : tag = t <;> simp [hv, ht]

@[simp] theorem find?_bytesField (tag : Nat) (b : Bytes) (t : Nat) :
    (bytesField tag b).find? (fun f => f.tag = t)
      = if b ≠ [] ∧ tag = t then some ⟨tag, .bytes b⟩ else none := by
  unfold bytesField
  by_cases hb : b = [] <;> by_cases ht : tag = t <;> simp [hb, ht]

@[simp] theorem find?_messageField (tag : Nat) (m : Option (List Field)) (t : Nat) :
    (messageField tag m).find? (fun f => f.tag = t)
      = if tag = t then m.map (fun fs => ⟨tag, .bytes (encodeFields fs)⟩) else none := by
  cases m with
  | none => simp [messageField]
  | some fs => by_cases ht : tag = t <;> simp [messageField, ht]

end OxideTerm.Lib.Protobuf
