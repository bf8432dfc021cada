import Mathlib.Tactic.Ring
import OxideTerm.Fernomade.Message

/-!
# What is encoded can be told apart and read back

Encoding loses nothing: a message is determined by its bytes. The structural checks of the
receiving side accept what the sending side encodes, so a compressed update is read back as
the update that was compressed (`decodeCompressedUpdate_encode`).
-/

namespace OxideTerm.Fernomade

open OxideTerm.Lib OxideTerm.Lib.Protobuf

/-! ## Encoding is injective -/

/-- Reading an update field by field. -/
theorem StateUpdate.of_fields (u : StateUpdate) :
    uintOf 1 u.fields = u.protocolVersion.toNat ∧ uintOf 2 u.fields = u.baseState.toNat ∧
    uintOf 3 u.fields = u.targetState.toNat ∧ uintOf 4 u.fields = u.acknowledgedState.toNat ∧
    uintOf 5 u.fields = u.discardBefore.toNat ∧ bytesOf 6 u.fields = u.delta ∧
    bytesOf 7 u.fields = u.padding ∧ bytesOf 8 u.fields = u.capabilities := by
  refine ⟨?_, ?_, ?_, ?_, ?_, ?_, ?_, ?_⟩ <;>
    simp only [uintOf, bytesOf, StateUpdate.fields, List.find?_append, find?_uintField,
      find?_bytesField] <;>
    simp <;> grind

/-- **An update is determined by its encoding.** -/
theorem StateUpdate.encode_inj {u v : StateUpdate} (h : u.encode = v.encode) : u = v := by
  have hfields : u.fields = v.fields := encodeFields_inj h
  have hu := u.of_fields
  have hv := v.of_fields
  rw [hfields] at hu
  cases u
  cases v
  simp only [StateUpdate.mk.injEq, ← UInt64.toNat_inj]
  grind

theorem ByteRun.of_fields (m : ByteRun) : bytesOf 4 m.fields = m.value := by
  simp only [bytesOf, ByteRun.fields, find?_bytesField]
  grind

theorem ViewportSize.of_fields (m : ViewportSize) :
    uintOf 5 m.fields = m.columns.toNat ∧ uintOf 6 m.fields = m.rows.toNat := by
  refine ⟨?_, ?_⟩ <;>
    simp only [uintOf, ViewportSize.fields, List.find?_append, find?_uintField] <;>
    simp <;> grind

theorem Marker.of_fields (m : Marker) : uintOf 8 m.fields = m.value.toNat := by
  simp only [uintOf, Marker.fields, find?_uintField]
  grind

theorem SessionControl.of_fields (m : SessionControl) :
    uintOf 10 m.fields = m.kind.toNat ∧ bytesOf 11 m.fields = m.payload := by
  refine ⟨?_, ?_⟩ <;>
    simp only [uintOf, bytesOf, SessionControl.fields, List.find?_append, find?_uintField,
      find?_bytesField] <;>
    simp <;> grind

theorem ByteRun.fields_inj {m n : ByteRun} (h : m.fields = n.fields) : m = n := by
  have hm := m.of_fields
  rw [h, n.of_fields] at hm
  cases m; cases n
  simp_all

theorem ViewportSize.fields_inj {m n : ViewportSize} (h : m.fields = n.fields) : m = n := by
  have hm := m.of_fields
  rw [h, n.of_fields.1, n.of_fields.2] at hm
  cases m; cases n
  simp_all [UInt64.toNat_inj]

theorem Marker.fields_inj {m n : Marker} (h : m.fields = n.fields) : m = n := by
  have hm := m.of_fields
  rw [h, n.of_fields] at hm
  cases m; cases n
  simp_all [UInt64.toNat_inj]

theorem SessionControl.fields_inj {m n : SessionControl} (h : m.fields = n.fields) : m = n := by
  have hm := m.of_fields
  rw [h, n.of_fields.1, n.of_fields.2] at hm
  cases m; cases n
  simp_all [UInt32.toNat_inj]

/-- Nested messages that are told apart by their fields are told apart by their bytes. -/
theorem map_encodeFields_inj {α : Type} {fields : α → List Field}
    (hinj : ∀ {m n : α}, fields m = fields n → m = n) {m n : Option α}
    (h : (m.map fields).map encodeFields = (n.map fields).map encodeFields) : m = n := by
  cases m <;> cases n <;> simp only [Option.map_none, Option.map_some, reduceCtorEq,
    Option.some.injEq] at h ⊢
  exact hinj (encodeFields_inj h)

theorem Instruction.of_fields (m : Instruction) :
    messageOf 2 m.fields = (m.bytes.map ByteRun.fields).map encodeFields ∧
    messageOf 3 m.fields = (m.viewport.map ViewportSize.fields).map encodeFields ∧
    messageOf 7 m.fields = (m.marker.map Marker.fields).map encodeFields ∧
    messageOf 9 m.fields = (m.sessionControl.map SessionControl.fields).map encodeFields := by
  refine ⟨?_, ?_, ?_, ?_⟩ <;>
    simp only [messageOf, Instruction.fields, List.find?_append, find?_messageField] <;>
    cases m.bytes <;> cases m.viewport <;> cases m.marker <;> cases m.sessionControl <;> simp

theorem Instruction.fields_inj {m n : Instruction} (h : m.fields = n.fields) : m = n := by
  obtain ⟨hb, hv, hm, hs⟩ := m.of_fields
  obtain ⟨hb', hv', hm', hs'⟩ := n.of_fields
  rw [h] at hb hv hm hs
  have h₁ := map_encodeFields_inj ByteRun.fields_inj (hb.symm.trans hb')
  have h₂ := map_encodeFields_inj ViewportSize.fields_inj (hv.symm.trans hv')
  have h₃ := map_encodeFields_inj Marker.fields_inj (hm.symm.trans hm')
  have h₄ := map_encodeFields_inj SessionControl.fields_inj (hs.symm.trans hs')
  cases m; cases n
  simp_all

/-- The fields of a batch: one for every instruction. -/
theorem InstructionBatch.fields_eq (m : InstructionBatch) :
    m.fields = m.instructions.map fun i => ⟨1, .bytes (encodeFields i.fields)⟩ := by
  rw [InstructionBatch.fields]
  induction m.instructions with
  | nil => rfl
  | cons i rest ih =>
    rw [List.flatMap_cons, ih]
    rfl

/-- **A batch is determined by its encoding.** -/
theorem InstructionBatch.encodeBytes_inj {m n : InstructionBatch}
    (h : m.encodeBytes = n.encodeBytes) : m = n := by
  have hfields : m.fields = n.fields := encodeFields_inj h
  rw [m.fields_eq, n.fields_eq] at hfields
  have hinstr : m.instructions = n.instructions := by
    refine (List.map_inj_right ?_).mp hfields
    intro i j hij
    simp only [Field.mk.injEq, WireValue.bytes.injEq, true_and] at hij
    exact Instruction.fields_inj (encodeFields_inj hij)
  cases m; cases n
  simpa using hinstr

/-! ## Varints are read back -/

/-- The bits of a group go above the bits that are already there. -/
theorem or_shiftLeft_eq_add {value payload index : Nat} (h : value < 2 ^ (index * 7)) :
    value ||| payload <<< (index * 7) = value + payload * 2 ^ (index * 7) := by
  rw [Nat.or_comm, ← Nat.shiftLeft_add_eq_or_of_lt h, Nat.shiftLeft_eq, Nat.add_comm]

theorem decodeVarintFrom_varint : ∀ (v : Nat) {index value : Nat} {rest : Bytes},
    value < 2 ^ (index * 7) → index ≤ 9 → v * 2 ^ (index * 7) < 2 ^ 64 →
    decodeVarintFrom index value (varint v ++ rest) =
      .ok (value + v * 2 ^ (index * 7), index + (varint v).length) := by
  intro v
  induction v using Nat.strongRecOn with
  | _ v ih =>
    intro index value rest hvalue hindex hfits
    -- the tenth byte has room for one bit
    have hlast : index = 9 → v ≤ 1 := by
      rintro rfl
      have : v * 2 ^ 63 < 2 ^ 64 := hfits
      omega
    by_cases hv : v < 128
    · have hbyte : (UInt8.ofNat v).toNat = v := UInt8.toNat_ofNat_of_lt' (by rw [UInt8.size]; omega)
      rw [varint_of_lt hv, List.cons_append, decodeVarintFrom]
      simp only [hbyte, Nat.mod_eq_of_lt hv]
      rw [if_neg (by omega), if_neg (by omega), if_pos hv, or_shiftLeft_eq_add hvalue]
      rfl
    · have hbyte : (UInt8.ofNat (v % 128 + 128)).toNat = v % 128 + 128 :=
        UInt8.toNat_ofNat_of_lt' (by rw [UInt8.size]; omega)
      have hpayload : (v % 128 + 128) % 128 = v % 128 := by omega
      rw [varint_of_ge (by omega), List.cons_append, decodeVarintFrom]
      simp only [hbyte, hpayload]
      rw [if_neg (by omega), if_neg (by omega), if_neg (by omega), or_shiftLeft_eq_add hvalue]
      have hpow : 2 ^ ((index + 1) * 7) = 128 * 2 ^ (index * 7) := by
        rw [Nat.succ_mul, Nat.pow_add]
        ring
      have hgroup : v % 128 * 2 ^ (index * 7) ≤ 127 * 2 ^ (index * 7) :=
        Nat.mul_le_mul_right _ (by omega)
      have hsplit : v % 128 * 2 ^ (index * 7) + v / 128 * 2 ^ ((index + 1) * 7) =
          v * 2 ^ (index * 7) := by
        rw [hpow]
        calc v % 128 * 2 ^ (index * 7) + v / 128 * (128 * 2 ^ (index * 7))
            = (v % 128 + 128 * (v / 128)) * 2 ^ (index * 7) := by ring
          _ = v * 2 ^ (index * 7) := by rw [Nat.mod_add_div]
      rw [ih (v / 128) (by omega) (by rw [hpow]; omega) (by omega) (by omega)]
      simp only [List.length_cons, Except.ok.injEq, Prod.mk.injEq]
      omega

/-- **A varint is read back, with its length.** -/
theorem decodeVarint_varint {v : Nat} (h : v < 2 ^ 64) (rest : Bytes) :
    decodeVarint (varint v ++ rest) = .ok (v, (varint v).length) := by
  rw [decodeVarint, decodeVarintFrom_varint v (by simp) (by omega) (by simpa using h)]
  simp

/-! ## What is encoded is accepted -/

/-- Keys, numbers and lengths are 64-bit numbers. -/
def FitsWord (f : Field) : Prop :=
  f.key < 2 ^ 64 ∧ match f.value with
    | .varint v => v < 2 ^ 64
    | .bytes b => b.length < 2 ^ 64

/-- A field with a known tag has the wire type of that tag. -/
def Known (allowed : List (Nat × Nat)) (f : Field) : Prop :=
  ∀ known, allowed.find? (fun known => known.1 = f.tag) = some known →
    f.value.wireType = known.2

theorem key_div (f : Field) : f.key / 8 = f.tag := by
  cases f with
  | mk tag value => cases value <;> simp only [Field.key, WireValue.wireType] <;> omega

theorem key_mod (f : Field) : f.key % 8 = f.value.wireType := by
  cases f with
  | mk tag value => cases value <;> simp only [Field.key, WireValue.wireType] <;> omega

/-- A value is skipped exactly. -/
theorem skipValue_encode {f : Field} (h : FitsWord f) (rest : Bytes) :
    skipValue (f.value.encode ++ rest) f.value.wireType = .ok rest := by
  obtain ⟨-, hvalue⟩ := h
  cases hv : f.value with
  | varint v =>
    rw [hv] at hvalue
    simp only [WireValue.encode, WireValue.wireType, skipValue, decodeVarint_varint hvalue]
    show Except.ok ((varint v ++ rest).drop (varint v).length) = _
    rw [List.drop_left]
  | bytes b =>
    rw [hv] at hvalue
    simp only [WireValue.encode, WireValue.wireType, skipValue, List.append_assoc,
      decodeVarint_varint hvalue]
    show getFrom b.length ((varint b.length ++ (b ++ rest)).drop (varint b.length).length) = _
    rw [List.drop_left, getFrom, if_pos (by simp), List.drop_left]

theorem validateFields_nil (allowed : List (Nat × Nat)) : validateFields allowed [] = .ok () := by
  rw [validateFields]
  simp

/-- A field's key is read off first, and leaves its value. -/
theorem decodeVarint_key {f : Field} (h : FitsWord f) (rest : Bytes) :
    decodeVarint (f.encode ++ rest) = .ok (f.key, (varint f.key).length) ∧
    (f.encode ++ rest).drop (varint f.key).length = f.value.encode ++ rest := by
  rw [Field.encode, List.append_assoc, List.drop_left]
  exact ⟨decodeVarint_varint h.1 _, rfl⟩

theorem validateFields_cons {allowed : List (Nat × Nat)} {f : Field} (hfits : FitsWord f)
    (hknown : Known allowed f) (rest : Bytes) :
    validateFields allowed (f.encode ++ rest) = validateFields allowed rest := by
  obtain ⟨hkey, hdrop⟩ := decodeVarint_key hfits rest
  have hallowed : ((allowed.find? fun known => known.1 = f.key / 8).any fun known =>
      f.key % 8 ≠ known.2) = false := by
    rw [key_div, key_mod]
    cases hfind : allowed.find? fun known => known.1 = f.tag with
    | none => rfl
    | some known => simpa using hknown known hfind
  have hskip : skipValue ((f.encode ++ rest).drop (varint f.key).length) (f.key % 8) = .ok rest := by
    rw [hdrop, key_mod]
    exact skipValue_encode hfits rest
  rw [validateFields, if_neg (by simp [f.encode_ne_nil])]
  split
  · next e he => rw [hkey] at he; simp at he
  · next key keyBytes he =>
    rw [hkey] at he
    simp only [Except.ok.injEq, Prod.mk.injEq] at he
    obtain ⟨rfl, rfl⟩ := he
    dsimp only
    rw [if_neg (by rw [hallowed]; simp)]
    split
    · next e he => rw [hskip] at he; simp at he
    · next rest' he =>
      rw [hskip] at he
      simp only [Except.ok.injEq] at he
      rw [he]

/-- **The fields of a message pass the structural check.** -/
theorem validateFields_encodeFields {allowed : List (Nat × Nat)} : ∀ {fs : List Field},
    (∀ f ∈ fs, FitsWord f ∧ Known allowed f) → validateFields allowed (encodeFields fs) = .ok ()
  | [], _ => validateFields_nil allowed
  | f :: fs, h => by
    obtain ⟨hfits, hknown⟩ := h f List.mem_cons_self
    rw [encodeFields_cons, validateFields_cons hfits hknown]
    exact validateFields_encodeFields fun g hg => h g (List.mem_cons_of_mem _ hg)

/-- The nested part of a field. -/
def nestedValue (f : Field) : Option (Nat × Bytes) :=
  match f.value with
  | .varint _ => none
  | .bytes b => some (f.tag, b)

/-- **The nested messages are found again.** -/
theorem lengthDelimitedFields_encodeFields : ∀ {fs : List Field}, (∀ f ∈ fs, FitsWord f) →
    lengthDelimitedFields (encodeFields fs) = .ok (fs.filterMap nestedValue)
  | [], _ => by
    rw [encodeFields_nil, lengthDelimitedFields]
    simp
  | f :: fs, h => by
    have hfits := h f List.mem_cons_self
    have ih := lengthDelimitedFields_encodeFields fun g hg => h g (List.mem_cons_of_mem _ hg)
    obtain ⟨hkey, hdrop⟩ := decodeVarint_key hfits (encodeFields fs)
    rw [encodeFields_cons, lengthDelimitedFields, if_neg (by simp [f.encode_ne_nil])]
    split
    · next e he => rw [hkey] at he; simp at he
    · next key keyBytes he =>
      rw [hkey] at he
      simp only [Except.ok.injEq, Prod.mk.injEq] at he
      obtain ⟨rfl, rfl⟩ := he
      dsimp only
      cases hv : f.value with
      | varint v =>
        have hskip : skipValue ((f.encode ++ encodeFields fs).drop (varint f.key).length)
            (f.key % 8) = .ok (encodeFields fs) := by
          rw [hdrop, key_mod]
          exact skipValue_encode hfits _
        rw [if_neg (by rw [key_mod, hv]; simp [WireValue.wireType])]
        split
        · next e he => rw [hskip] at he; simp at he
        · next rest he =>
          rw [hskip] at he
          simp only [Except.ok.injEq] at he
          subst he
          rw [ih, List.filterMap_cons_none (by simp [nestedValue, hv])]
      | bytes b =>
        have hlen : b.length < 2 ^ 64 := by
          have := hfits.2
          rwa [hv] at this
        have hdec : decodeVarint ((f.encode ++ encodeFields fs).drop (varint f.key).length) =
            .ok (b.length, (varint b.length).length) := by
          rw [hdrop, hv, WireValue.encode, List.append_assoc]
          exact decodeVarint_varint hlen _
        have hbody : ((f.encode ++ encodeFields fs).drop (varint f.key).length).drop
            (varint b.length).length = b ++ encodeFields fs := by
          rw [hdrop, hv, WireValue.encode, List.append_assoc, List.drop_left]
        rw [if_pos (by rw [key_mod, hv]; rfl)]
        split
        · next e he => rw [hdec] at he; simp at he
        · next length lengthBytes he =>
          rw [hdec] at he
          simp only [Except.ok.injEq, Prod.mk.injEq] at he
          obtain ⟨rfl, rfl⟩ := he
          rw [hbody, if_pos (by simp), List.drop_left, List.take_left, ih, key_div,
            List.filterMap_cons_some (b := (f.tag, b)) (by simp [nestedValue, hv])]

/-! ## The messages of the protocol -/

/-- A nested message is no longer than the message it is in. -/
theorem length_le_encodeFields {fs : List Field} {f : Field} (hf : f ∈ fs) {b : Bytes}
    (hb : f.value = .bytes b) : b.length ≤ (encodeFields fs).length := by
  obtain ⟨xs, ys, rfl⟩ := List.append_of_mem hf
  rw [encodeFields_append, encodeFields_cons, Field.encode, hb, WireValue.encode]
  simp only [List.length_append]
  omega

/-- Fields of small tag whose numbers are machine words fit when the whole message does. -/
theorem fitsWord_of_length {fs : List Field} (hlen : (encodeFields fs).length < 2 ^ 64)
    (htag : ∀ f ∈ fs, f.tag < 16) (hvarint : ∀ f ∈ fs, ∀ v, f.value = .varint v → v < 2 ^ 64) :
    ∀ f ∈ fs, FitsWord f := by
  intro f hf
  have ht := htag f hf
  refine ⟨?_, ?_⟩
  · cases f with
    | mk tag value => cases value <;> simp only [Field.key, WireValue.wireType] at * <;> omega
  · split
    · next v hv => exact hvarint f hf v hv
    · next b hb => exact lt_of_le_of_lt (length_le_encodeFields hf hb) hlen

theorem mem_uintField {tag v : Nat} {f : Field} (h : f ∈ uintField tag v) :
    f = ⟨tag, .varint v⟩ := by
  unfold uintField at h
  split at h <;> simp_all

theorem mem_bytesField {tag : Nat} {b : Bytes} {f : Field} (h : f ∈ bytesField tag b) :
    f = ⟨tag, .bytes b⟩ := by
  unfold bytesField at h
  split at h <;> simp_all

theorem mem_messageField {tag : Nat} {m : Option (List Field)} {f : Field}
    (h : f ∈ messageField tag m) : ∃ fs, m = some fs ∧ f = ⟨tag, .bytes (encodeFields fs)⟩ := by
  cases m with
  | none => simp [messageField] at h
  | some fs => exact ⟨fs, rfl, by simpa [messageField] using h⟩

/-- A message whose fields are known and fit passes the structural check. -/
theorem validateFields_message {allowed : List (Nat × Nat)} {fs : List Field}
    (hlen : (encodeFields fs).length < 2 ^ 64)
    (h : ∀ f ∈ fs, f.tag < 16 ∧ (∀ v, f.value = .varint v → v < 2 ^ 64) ∧ Known allowed f) :
    validateFields allowed (encodeFields fs) = .ok () :=
  validateFields_encodeFields fun f hf =>
    ⟨fitsWord_of_length hlen (fun g hg => (h g hg).1) (fun g hg => (h g hg).2.1) f hf,
      (h f hf).2.2⟩

theorem forM_eq_ok {α ε : Type} {f : α → Except ε Unit} : ∀ {l : List α},
    (∀ x ∈ l, f x = .ok ()) → l.forM f = .ok ()
  | [], _ => rfl
  | x :: xs, h => by
    rw [List.forM, h x List.mem_cons_self]
    exact forM_eq_ok fun y hy => h y (List.mem_cons_of_mem _ hy)

/-- A number field is fine under a table that lists it as a number. -/
theorem uintField_ok {allowed : List (Nat × Nat)} {tag v : Nat} {f : Field}
    (hf : f ∈ uintField tag v) (htag : tag < 16) (hv : v < 2 ^ 64)
    (hallowed : allowed.find? (fun known => known.1 = tag) = some (tag, 0)) :
    f.tag < 16 ∧ (∀ w, f.value = .varint w → w < 2 ^ 64) ∧ Known allowed f := by
  rw [mem_uintField hf]
  refine ⟨htag, ?_, ?_⟩
  · intro w hw
    obtain rfl := WireValue.varint.inj hw
    exact hv
  · intro known hknown
    rw [hallowed] at hknown
    obtain rfl := Option.some.inj hknown
    rfl

/-- A bytes field is fine under a table that lists it as one. -/
theorem bytes_ok {allowed : List (Nat × Nat)} {tag : Nat} {b : Bytes} (htag : tag < 16)
    (hallowed : allowed.find? (fun known => known.1 = tag) = some (tag, 2)) :
    tag < 16 ∧ (∀ w, WireValue.bytes b = .varint w → w < 2 ^ 64) ∧
      Known allowed ⟨tag, .bytes b⟩ := by
  refine ⟨htag, by simp, ?_⟩
  intro known hknown
  rw [hallowed] at hknown
  obtain rfl := Option.some.inj hknown
  rfl

/-- The nested fields of an instruction, each with the table it is checked by. -/
theorem Instruction.mem_fields {i : Instruction} {f : Field} (hf : f ∈ i.fields) :
    ∃ tag fs allowed, f = ⟨tag, .bytes (encodeFields fs)⟩ ∧
      instructionFieldTable tag = some allowed ∧ tag < 16 ∧
      [(2, 2), (3, 2), (7, 2), (9, 2)].find? (fun known : Nat × Nat => known.1 = tag)
        = some (tag, 2) ∧
      ∀ g ∈ fs, g.tag < 16 ∧ (∀ v, g.value = .varint v → v < 2 ^ 64) ∧ Known allowed g := by
  simp only [Instruction.fields, List.mem_append] at hf
  rcases hf with ((hf | hf) | hf) | hf
  · obtain ⟨fs, hfs, rfl⟩ := mem_messageField hf
    obtain ⟨m, -, rfl⟩ := Option.map_eq_some_iff.mp hfs
    refine ⟨2, _, [(4, 2)], rfl, rfl, by decide, rfl, ?_⟩
    intro g hg
    rw [mem_bytesField hg]
    exact bytes_ok (by simp) rfl
  · obtain ⟨fs, hfs, rfl⟩ := mem_messageField hf
    obtain ⟨m, -, rfl⟩ := Option.map_eq_some_iff.mp hfs
    refine ⟨3, _, [(5, 0), (6, 0)], rfl, rfl, by decide, rfl, ?_⟩
    intro g hg
    rcases List.mem_append.mp hg with hg | hg
    · exact uintField_ok hg (by decide) m.columns.toNat_lt rfl
    · exact uintField_ok hg (by decide) m.rows.toNat_lt rfl
  · obtain ⟨fs, hfs, rfl⟩ := mem_messageField hf
    obtain ⟨m, -, rfl⟩ := Option.map_eq_some_iff.mp hfs
    refine ⟨7, _, [(8, 0)], rfl, rfl, by decide, rfl, ?_⟩
    intro g hg
    exact uintField_ok hg (by decide) m.value.toNat_lt rfl
  · obtain ⟨fs, hfs, rfl⟩ := mem_messageField hf
    obtain ⟨m, -, rfl⟩ := Option.map_eq_some_iff.mp hfs
    refine ⟨9, _, [(10, 0), (11, 2)], rfl, rfl, by decide, rfl, ?_⟩
    intro g hg
    rcases List.mem_append.mp hg with hg | hg
    · exact uintField_ok hg (by decide) (lt_trans m.kind.toNat_lt (by decide)) rfl
    · rw [mem_bytesField hg]
      exact bytes_ok (by simp) rfl

theorem validateInstruction_encode {i : Instruction}
    (hlen : (encodeFields i.fields).length < 2 ^ 64) :
    validateInstruction (encodeFields i.fields) = .ok () := by
  have hfields : ∀ f ∈ i.fields, f.tag < 16 ∧ (∀ v, f.value = .varint v → v < 2 ^ 64) ∧
      Known [(2, 2), (3, 2), (7, 2), (9, 2)] f := by
    intro f hf
    obtain ⟨tag, fs, allowed, rfl, -, htag, hfind, -⟩ := Instruction.mem_fields hf
    exact bytes_ok htag hfind
  have hfits := fitsWord_of_length hlen (fun f hf => (hfields f hf).1)
    (fun f hf => (hfields f hf).2.1)
  rw [validateInstruction, validateFields_message hlen hfields,
    lengthDelimitedFields_encodeFields hfits]
  refine forM_eq_ok ?_
  rintro ⟨tag, value⟩ hmem
  obtain ⟨f, hf, hvalue⟩ := List.mem_filterMap.mp hmem
  obtain ⟨t, fs, allowed, rfl, htable, -, -, hnested⟩ := Instruction.mem_fields hf
  simp only [nestedValue, Option.some.injEq, Prod.mk.injEq] at hvalue
  obtain ⟨rfl, rfl⟩ := hvalue
  dsimp only
  rw [htable]
  exact validateFields_message (lt_of_le_of_lt (length_le_encodeFields hf rfl) hlen) hnested

/-- **An encoded batch passes the structural check.** -/
theorem validateInstructionBatch_encodeBytes {m : InstructionBatch}
    (hlen : m.encodeBytes.length < 2 ^ 64) :
    validateInstructionBatch m.encodeBytes = .ok () := by
  rw [InstructionBatch.encodeBytes] at hlen ⊢
  have hmem : ∀ f ∈ m.fields, ∃ i ∈ m.instructions, f = ⟨1, .bytes (encodeFields i.fields)⟩ := by
    intro f hf
    rw [m.fields_eq] at hf
    obtain ⟨i, hi, rfl⟩ := List.mem_map.mp hf
    exact ⟨i, hi, rfl⟩
  have hfields : ∀ f ∈ m.fields, f.tag < 16 ∧ (∀ v, f.value = .varint v → v < 2 ^ 64) ∧
      Known [(1, 2)] f := by
    intro f hf
    obtain ⟨i, -, rfl⟩ := hmem f hf
    exact bytes_ok (by simp) rfl
  have hfits := fitsWord_of_length hlen (fun f hf => (hfields f hf).1)
    (fun f hf => (hfields f hf).2.1)
  rw [validateInstructionBatch, lengthDelimitedValues, validateFields_message hlen hfields,
    lengthDelimitedFields_encodeFields hfits]
  refine forM_eq_ok ?_
  intro value hvalue
  obtain ⟨⟨tag, v⟩, htv, rfl⟩ := List.mem_map.mp hvalue
  obtain ⟨f, hf, hnested⟩ := List.mem_filterMap.mp (List.mem_filter.mp htv).1
  obtain ⟨i, -, rfl⟩ := hmem f hf
  simp only [nestedValue, Option.some.injEq, Prod.mk.injEq] at hnested
  obtain ⟨rfl, rfl⟩ := hnested
  exact validateInstruction_encode (lt_of_le_of_lt (length_le_encodeFields hf rfl) hlen)

/-- An encoded update passes the structural check. -/
theorem validateFields_update {u : StateUpdate} (hlen : u.encode.length < 2 ^ 64) :
    validateFields updateFieldTable u.encode = .ok () := by
  refine validateFields_message hlen ?_
  intro f hf
  simp only [StateUpdate.fields, List.mem_append] at hf
  rcases hf with ((((((hf | hf) | hf) | hf) | hf) | hf) | hf) | hf
  · exact uintField_ok hf (by decide) u.protocolVersion.toNat_lt rfl
  · exact uintField_ok hf (by decide) u.baseState.toNat_lt rfl
  · exact uintField_ok hf (by decide) u.targetState.toNat_lt rfl
  · exact uintField_ok hf (by decide) u.acknowledgedState.toNat_lt rfl
  · exact uintField_ok hf (by decide) u.discardBefore.toNat_lt rfl
  all_goals
    rw [mem_bytesField hf]
    exact bytes_ok (by simp) rfl

theorem length_delta_le (u : StateUpdate) : u.delta.length ≤ u.encode.length := by
  by_cases h : u.delta = []
  · simp [h]
  · refine length_le_encodeFields (f := ⟨6, .bytes u.delta⟩) ?_ rfl
    simp [StateUpdate.fields, bytesField, h]

/-- **A compressed update is read back.** -/
theorem decodeCompressedUpdate_encode {P : Prost} (hP : P.Lawful) {Z : Zlib} (hZ : Z.Lawful)
    {u : StateUpdate} {batch : InstructionBatch} {compressed : Bytes}
    (hcompressed : encodeCompressedUpdate Z u = .ok compressed)
    (hdelta : u.delta = batch.encodeBytes) (hlen : u.encode.length ≤ maximumDecompressedBytes) :
    decodeCompressedUpdate P Z compressed = .ok u := by
  have hword : u.encode.length < 2 ^ 64 := by
    rw [maximumDecompressedBytes] at hlen
    omega
  unfold encodeCompressedUpdate at hcompressed
  split at hcompressed
  · simp at hcompressed
  · next hversion =>
    split at hcompressed
    · simp at hcompressed
    · next c hc =>
      simp only [Except.ok.injEq] at hcompressed
      subst hcompressed
      have hread := hZ.readTake_compress _ _ hc (maximumDecompressedBytes + 1)
      rw [List.take_of_length_le (by omega)] at hread
      have hbatch : validateInstructionBatch u.delta = .ok () := by
        rw [hdelta]
        refine validateInstructionBatch_encodeBytes (lt_of_le_of_lt ?_ hword)
        rw [← hdelta]
        exact length_delta_le u
      simp only [decodeCompressedUpdate, hread, if_neg (Nat.not_lt.mpr hlen),
        validateFields_update hword, hP.decodeUpdate_encode, if_neg hversion, hbatch]

/-- The compressor does not run two updates together. -/
theorem encodeCompressedUpdate_inj {Z : Zlib} (hZ : Z.Lawful) {u v : StateUpdate}
    {compressed : Bytes} (hu : encodeCompressedUpdate Z u = .ok compressed)
    (hv : encodeCompressedUpdate Z v = .ok compressed) : u = v := by
  have hcompress : ∀ {w : StateUpdate}, encodeCompressedUpdate Z w = .ok compressed →
      Z.compress w.encode = some compressed := by
    intro w hw
    unfold encodeCompressedUpdate at hw
    split at hw
    · simp at hw
    · split at hw
      · simp at hw
      · next hc =>
        simp only [Except.ok.injEq] at hw
        rw [hc, hw]
  have hread := fun limit => hZ.readTake_compress _ _ (hcompress hu) limit
  have htake : ∀ limit, u.encode.take limit = v.encode.take limit := by
    intro limit
    have := hZ.readTake_compress _ _ (hcompress hv) limit
    rw [hread] at this
    exact Option.some.inj this
  have hencode := htake (max u.encode.length v.encode.length)
  rw [List.take_of_length_le (le_max_left _ _), List.take_of_length_le (le_max_right _ _)] at hencode
  exact StateUpdate.encode_inj hencode

end OxideTerm.Fernomade
