import OxideTerm.Modem.ZmodemTransfer

/-!
# Reading back frames

On a line without loss or delay, what a program writes as a frame is what the other one reads, in
hexadecimal and in binary with the longer check value.
-/

namespace OxideTerm.Modem

open OxideTerm.Lib

/-- A line without loss or delay, the use of which nothing else takes note of. -/
structure QuietLine {H : Type}
    (env : Surroundings UInt8 FileCall FileCall.Answer ModemTransferError H) : Prop where
  late_eq : ∀ h, env.late h = none
  arrives_eq : ∀ h bytes, env.arrives h bytes = bytes
  after_read : ∀ h, env.after .read h = h
  after_write : ∀ h bytes, env.after (.write bytes) h = h

/-- Given these bytes, and nothing more, the program returns this. -/
def Parses {H α : Type} (env : Surroundings UInt8 FileCall FileCall.Answer ModemTransferError H)
    (h : H) (p : ZmodemIo α) (bytes : Bytes) (a : α) : Prop :=
  Goes env p h bytes [] (.done (.ok a)) h

/-- What holds of all numbers of eight bits holds of all bytes. -/
theorem forall_byte {P : UInt8 → Prop} (h : ∀ n < 256, P (UInt8.ofNat n)) (byte : UInt8) : P byte := by
  have hbyte := h byte.toNat byte.toNat_lt
  rwa [UInt8.ofNat_toNat] at hbyte

/-! ## Bytes -/

theorem hexValue_digit (byte : UInt8) :
    hexValue (hexDigits.getD (byte >>> 4).toNat 0) = some (byte >>> 4) ∧
      hexValue (hexDigits.getD (byte &&& 0x0f).toNat 0) = some (byte &&& 0x0f) ∧
      ((byte >>> 4) <<< 4) ||| (byte &&& 0x0f) = byte := by
  revert byte
  exact forall_byte (by decide +kernel)

/-- A byte that is not escaped is no control byte of the frames, and an escaped one is found again. -/
theorem zdleEscaped_cases (byte : UInt8) (escapeControl : Bool) :
    (zdleEscaped byte escapeControl = [byte] ∧ isFlowControl byte = false ∧ byte ≠ zdle) ∨
    (zdleEscaped byte escapeControl = [zdle, byte ^^^ 0x40] ∧ byte ^^^ 0x40 ≠ zrub0 ∧
      byte ^^^ 0x40 ≠ zrub1 ∧ (byte ^^^ 0x40) &&& 0x60 = 0x40 ∧ (byte ^^^ 0x40) ^^^ 0x40 = byte ∧
      ZDataEnd.fromMarker (byte ^^^ 0x40) = none) := by
  revert byte
  cases escapeControl
  · exact forall_byte (by decide +kernel)
  · exact forall_byte (by decide +kernel)

theorem take_payload (frameType : ZFrameType) (position : ZPosition) (check : Bytes) :
    (ZHeader.payload frameType position ++ check).take 5 = ZHeader.payload frameType position := rfl

theorem drop_payload (frameType : ZFrameType) (position : ZPosition) (check : Bytes) :
    (ZHeader.payload frameType position ++ check).drop 5 = check := rfl

/-! ## Programs that return -/

section

variable {H : Type} {env : Surroundings UInt8 FileCall FileCall.Answer ModemTransferError H}
  {h h' : H} {α β : Type} {input sent : Bytes}

theorem parses_pure (a : α) : Parses env h (pure a) [] a := .stay _ _

theorem Parses.bind {p : ZmodemIo α} {bytes : Bytes} {a : α} (hp : Parses env h p bytes a)
    {f : α → ZmodemIo β} {q : ZmodemIo β} (hrest : Goes env (f a) h input sent q h') :
    Goes env (p.bind f) h (bytes ++ input) sent q h' :=
  Goes.bind_ok hp hrest

/-- Both programs return. -/
theorem Parses.seq {p : ZmodemIo α} {bytes more : Bytes} {a : α} {b : β}
    (hp : Parses env h p bytes a) {f : α → ZmodemIo β} (hf : Parses env h (f a) more b) :
    Parses env h (p.bind f) (bytes ++ more) b :=
  hp.bind hf

theorem Parses.last {p : ZmodemIo α} {bytes : Bytes} {a : α} {b : β}
    (hp : Parses env h p bytes a) {f : α → ZmodemIo β} (hf : Parses env h (f a) [] b) :
    Parses env h (p.bind f) bytes b := by
  have hall := hp.seq hf
  rwa [List.append_nil] at hall

/-- A round of a loop that goes on. -/
theorem parses_loop_on {σ : Type} {body : σ → ZmodemIo (σ ⊕ α)} {fuel : Nat} {s s' : σ}
    {bytes more : Bytes} {a : α} (hround : Parses env h (body s) bytes (.inl s'))
    (hrest : Parses env h (Program.loop body fuel s') more a) :
    Parses env h (Program.loop body (fuel + 1) s) (bytes ++ more) a :=
  hround.seq hrest

/-- The last round of a loop. -/
theorem parses_loop_end {σ : Type} {body : σ → ZmodemIo (σ ⊕ α)} {fuel : Nat} {s : σ}
    {bytes : Bytes} {a : α} (hround : Parses env h (body s) bytes (.inr a)) :
    Parses env h (Program.loop body (fuel + 1) s) bytes a :=
  hround.last (.stay _ _)

/-- What is read as a header. -/
theorem parses_decodedHeader (frameType : ZFrameType) (position : ZPosition) (check : Bytes)
    (encoding : ZHeaderEncoding) :
    Parses env h (decodedHeader (ZHeader.payload frameType position ++ check) encoding) []
      { frameType, position, encoding } := by
  have htype : (ZHeader.payload frameType position ++ check).getD 0 0 = frameType.toByte := rfl
  unfold decodedHeader
  rw [htype, ZFrameType.fromByte_toByte]
  exact parses_pure _

variable (hquiet : QuietLine env)

include hquiet

theorem parses_readByte (byte : UInt8) : Parses env h readByte [byte] byte := by
  refine .read (hquiet.late_eq h) ?_
  rw [hquiet.after_read]
  exact .stay _ _

theorem goes_writeAll_quiet (bytes : Bytes) :
    Goes env (writeAll bytes) h [] bytes (.done (.ok ())) h := by
  have hgoes : Goes env (writeAll bytes) h [] (env.arrives h bytes ++ []) (.done (.ok ()))
      (env.after (.write bytes) h) := .write (.stay _ _)
  rwa [hquiet.arrives_eq, hquiet.after_write, List.append_nil] at hgoes

/-! ## Hexadecimal headers -/

theorem parses_readHexNibble {digit value : UInt8} (hdigit : hexValue digit = some value) :
    Parses env h readHexNibble [digit] value := by
  unfold readHexNibble
  refine (parses_readByte hquiet digit).last ?_
  rw [hdigit]
  exact parses_pure value

theorem parses_readHexBytes :
    ∀ bytes : Bytes, Parses env h (readHexBytes bytes.length) (bytes.flatMap hexByte) bytes
  | [] => parses_pure []
  | byte :: bytes => by
    obtain ⟨hhigh, hlow, hbyte⟩ := hexValue_digit byte
    have hrest := parses_readHexBytes bytes
    rw [List.flatMap_cons]
    show Parses env h (readHexBytes (bytes.length + 1))
      ([hexDigits.getD (byte >>> 4).toNat 0] ++ ([hexDigits.getD (byte &&& 0x0f).toNat 0] ++
        bytes.flatMap hexByte)) (byte :: bytes)
    refine (parses_readHexNibble hquiet hhigh).seq ((parses_readHexNibble hquiet hlow).seq ?_)
    refine hrest.last ?_
    rw [hbyte]
    exact parses_pure _

theorem parses_consumeHexHeaderLineEnd :
    Parses env h consumeHexHeaderLineEnd [0x0d, 0x8a] () :=
  (parses_readByte hquiet 0x0d).seq ((parses_readByte hquiet 0x8a).last (parses_pure ()))

theorem parses_readHexZheader (frameType : ZFrameType) (position : ZPosition) :
    Parses env h readHexZheader
      ((ZHeader.payload frameType position ++
        u16ToBeBytes (crc16Xmodem (ZHeader.payload frameType position))).flatMap hexByte ++
        [0x0d, 0x8a]) { frameType, position, encoding := .hex } := by
  have hread := parses_readHexBytes (h := h) hquiet (ZHeader.payload frameType position ++
    u16ToBeBytes (crc16Xmodem (ZHeader.payload frameType position)))
  rw [List.length_append, length_u16ToBeBytes] at hread
  unfold readHexZheader
  refine hread.seq ?_
  rw [take_payload, drop_payload, u16FromBeBytes_toBeBytes, if_neg (not_not.mpr rfl)]
  exact (parses_consumeHexHeaderLineEnd hquiet).last (parses_decodedHeader _ _ _ _)

/-! ## Escaped bytes -/

theorem parses_readZescapedByte (byte : UInt8) (escapeControl : Bool) (fuel : Nat) :
    Parses env h (readZescapedByte (fuel + 1)) (zdleEscaped byte escapeControl) byte := by
  refine parses_loop_end ?_
  rcases zdleEscaped_cases byte escapeControl with ⟨hbytes, hflow, hzdle⟩ |
    ⟨hbytes, hrub0, hrub1, hmask, hdecoded, -⟩
  · rw [hbytes]
    refine (parses_readByte hquiet byte).last ?_
    rw [hflow, if_neg Bool.false_ne_true, if_neg hzdle]
    exact parses_pure _
  · rw [hbytes]
    refine (parses_readByte hquiet zdle).seq ((parses_readByte hquiet (byte ^^^ 0x40)).last ?_)
    rw [decodeZescapedFollowup, if_neg hrub0, if_neg hrub1, if_pos hmask, hdecoded]
    exact parses_pure _

theorem parses_readZescapedBytes (escapeControl : Bool) (fuel : Nat) :
    ∀ bytes : Bytes, Parses env h (readZescapedBytes (fuel + 1) bytes.length)
      (zdleEscapedAll bytes escapeControl) bytes
  | [] => parses_pure []
  | byte :: bytes => by
    have hrest := parses_readZescapedBytes escapeControl fuel bytes
    exact (parses_readZescapedByte hquiet byte escapeControl fuel).seq (hrest.last (parses_pure _))

/-! ## Binary headers and subpackets -/

theorem parses_readBinaryZheader (frameType : ZFrameType) (position : ZPosition)
    (escapeControl : Bool) (fuel : Nat) :
    Parses env h (readBinaryZheader (fuel + 1) .bin32)
      (zdleEscapedAll (ZHeader.payload frameType position ++
        u32ToLeBytes (crc32Ieee (ZHeader.payload frameType position))) escapeControl)
      { frameType, position, encoding := .bin32 } := by
  have hread := parses_readZescapedBytes (h := h) hquiet escapeControl fuel
    (ZHeader.payload frameType position ++
      u32ToLeBytes (crc32Ieee (ZHeader.payload frameType position)))
  rw [List.length_append, length_u32ToLeBytes] at hread
  unfold readBinaryZheader
  refine hread.last ?_
  simp only [take_payload, drop_payload, u32FromLeBytes_toLeBytes, ne_eq, not_true_eq_false,
    if_false]
  exact parses_decodedHeader _ _ _ _

/-- One byte of a payload. -/
theorem parses_payloadRound (byte : UInt8) (escapeControl : Bool) {maxPayload : Nat}
    {before : Bytes} (hroom : before.length < maxPayload) :
    Parses env h (readZmodemPayloadRound maxPayload before) (zdleEscaped byte escapeControl)
      (.inl (before ++ [byte])) := by
  rcases zdleEscaped_cases byte escapeControl with ⟨hbyte, hflow, hzdle⟩ |
    ⟨hbyte, hrub0, hrub1, hmask, hdecoded, hmarker⟩
  · rw [hbyte]
    refine (parses_readByte hquiet byte).last ?_
    rw [hflow, if_neg Bool.false_ne_true, if_pos hzdle, if_neg (by omega)]
    exact parses_pure _
  · rw [hbyte]
    refine (parses_readByte hquiet zdle).seq ((parses_readByte hquiet (byte ^^^ 0x40)).last ?_)
    rw [hmarker]
    simp only [if_neg (show ¬ maxPayload ≤ before.length by omega)]
    rw [decodeZescapedFollowup, if_neg hrub0, if_neg hrub1, if_pos hmask, hdecoded]
    exact parses_pure _

theorem parses_payload (escapeControl : Bool) (maxPayload : Nat) (frameEnd : ZDataEnd) :
    ∀ (bytes : Bytes) (fuel : Nat) (before : Bytes), bytes.length < fuel →
      before.length + bytes.length ≤ maxPayload →
      Parses env h (Program.loop (readZmodemPayloadRound maxPayload) fuel before)
        (zdleEscapedAll bytes escapeControl ++ [zdle, frameEnd.marker]) (before ++ bytes, frameEnd)
  | [], fuel, before, hfuel, hroom => by
    obtain ⟨fuel, rfl⟩ : ∃ k, fuel = k + 1 := ⟨fuel - 1, by omega⟩
    rw [List.append_nil]
    refine parses_loop_end ?_
    refine (parses_readByte hquiet zdle).seq ((parses_readByte hquiet frameEnd.marker).last ?_)
    rw [ZDataEnd.fromMarker_marker]
    exact parses_pure _
  | byte :: bytes, fuel, before, hfuel, hroom => by
    rw [List.length_cons] at hfuel hroom
    obtain ⟨fuel, rfl⟩ : ∃ k, fuel = k + 1 := ⟨fuel - 1, by omega⟩
    have hrest := parses_payload escapeControl maxPayload frameEnd bytes fuel (before ++ [byte])
      (by omega) (by rw [List.length_append, List.length_singleton]; omega)
    rw [List.append_assoc] at hrest
    have hbytes : zdleEscapedAll (byte :: bytes) escapeControl ++ [zdle, frameEnd.marker] =
        zdleEscaped byte escapeControl ++
          (zdleEscapedAll bytes escapeControl ++ [zdle, frameEnd.marker]) :=
      List.append_assoc _ _ _
    rw [hbytes]
    exact parses_loop_on (parses_payloadRound hquiet byte escapeControl (by omega)) hrest

/-- A subpacket, without what may follow it. -/
theorem parses_readZmodemData (escapeControl : Bool) {maxPayload : Nat} (frameEnd : ZDataEnd)
    {payload : Bytes} {fuel : Nat} (hfuel : payload.length < fuel)
    (hroom : payload.length ≤ maxPayload) :
    Parses env h (readZmodemData fuel true maxPayload)
      (zdleEscapedAll payload escapeControl ++ [zdle, frameEnd.marker] ++
        zdleEscapedAll (u32ToLeBytes (crc32Ieee (payload ++ [frameEnd.marker]))) escapeControl)
      { payload, frameEnd } := by
  have hpayload := parses_payload (h := h) hquiet escapeControl maxPayload frameEnd payload fuel []
    hfuel (by simpa using hroom)
  obtain ⟨fuel, rfl⟩ : ∃ k, fuel = k + 1 := ⟨fuel - 1, by omega⟩
  have hcheck := parses_readZescapedBytes (h := h) hquiet escapeControl fuel
    (u32ToLeBytes (crc32Ieee (payload ++ [frameEnd.marker])))
  rw [length_u32ToLeBytes] at hcheck
  unfold readZmodemData
  refine hpayload.seq (hcheck.last ?_)
  have hok : checksOut true payload frameEnd
      (u32ToLeBytes (crc32Ieee (payload ++ [frameEnd.marker]))) = true := by
    simp only [checksOut, u32FromLeBytes_toLeBytes, if_true, beq_self_eq_true]
  simp only [List.nil_append]
  rw [hok]
  exact parses_pure _

/-! ## Headers after a gap -/

/-- What stands before a header is passed over. -/
theorem parses_gap {bytes : Bytes} {header : ZHeader} {fuel : Nat} :
    ∀ (gap : Bytes) (rounds : Nat), zpad ∉ gap →
      Parses env h (Program.loop (readZmodemHeaderRound fuel) rounds ()) bytes header →
      Parses env h (Program.loop (readZmodemHeaderRound fuel) (gap.length + rounds) ())
        (gap ++ bytes) header
  | [], rounds, _, hheader => by
    rw [List.length_nil, Nat.zero_add]
    exact hheader
  | byte :: gap, rounds, hgap, hheader => by
    rw [List.mem_cons, not_or] at hgap
    have hrest := parses_gap gap rounds hgap.2 hheader
    rw [List.length_cons, Nat.add_right_comm]
    show Parses env h _ ([byte] ++ (gap ++ bytes)) header
    refine parses_loop_on ((parses_readByte hquiet byte).last ?_) hrest
    rw [if_pos (Ne.symm hgap.1)]
    exact parses_pure _

/-- A hexadecimal header, without what may follow it. -/
theorem parses_hexHeader (frameType : ZFrameType) (position : ZPosition) {gap : Bytes} {fuel : Nat}
    (hgap : zpad ∉ gap) (hfuel : gap.length < fuel) :
    Parses env h (readZmodemHeader fuel) (gap ++ encodeHexHeader frameType position false)
      { frameType, position, encoding := .hex } := by
  have hheader : Parses env h (Program.loop (readZmodemHeaderRound fuel) (fuel - gap.length) ())
      (encodeHexHeader frameType position false) { frameType, position, encoding := .hex } := by
    obtain ⟨rounds, hrounds⟩ : ∃ k, fuel - gap.length = k + 1 := ⟨fuel - gap.length - 1, by omega⟩
    rw [hrounds, encodeHexHeader, List.append_assoc, List.append_assoc]
    refine parses_loop_end ?_
    unfold readZmodemHeaderRound
    refine (parses_readByte hquiet zpad).seq ((parses_readByte hquiet zpad).seq
      ((parses_readByte hquiet zdle).seq ((parses_readByte hquiet zhex).seq ?_)))
    refine (parses_readHexZheader hquiet frameType position).last (parses_pure _)
  have hall := parses_gap hquiet gap _ hgap hheader
  rwa [Nat.add_sub_cancel' (Nat.le_of_lt hfuel)] at hall

/-- A binary header with the longer check value. -/
theorem parses_bin32Header (frameType : ZFrameType) (position : ZPosition) (escapeControl : Bool)
    {gap : Bytes} {fuel : Nat} (hgap : zpad ∉ gap) (hfuel : gap.length < fuel) :
    Parses env h (readZmodemHeader fuel) (gap ++ encodeBin32Header frameType position escapeControl)
      { frameType, position, encoding := .bin32 } := by
  have hheader : Parses env h (Program.loop (readZmodemHeaderRound fuel) (fuel - gap.length) ())
      (encodeBin32Header frameType position escapeControl)
      { frameType, position, encoding := .bin32 } := by
    obtain ⟨rounds, hrounds⟩ : ∃ k, fuel - gap.length = k + 1 := ⟨fuel - gap.length - 1, by omega⟩
    obtain ⟨bytes, rfl⟩ : ∃ k, fuel = k + 1 := ⟨fuel - 1, by omega⟩
    rw [hrounds, encodeBin32Header]
    refine parses_loop_end ?_
    unfold readZmodemHeaderRound
    refine (parses_readByte hquiet zpad).seq ((parses_readByte hquiet zdle).seq
      ((parses_readByte hquiet zbin32).seq ?_))
    exact (parses_readBinaryZheader hquiet frameType position escapeControl bytes).last
      (parses_pure _)
  have hall := parses_gap hquiet gap _ hgap hheader
  rwa [Nat.add_sub_cancel' (Nat.le_of_lt hfuel)] at hall

end

/-! ## The header of a file -/

/-- **Reading back the header of a file.** -/
theorem parseZfileHeader_build {fileName : List Char} {fileSize : Nat} (hname : fileName ≠ [])
    (hnul : Char.ofNat 0 ∉ fileName) (hslash : '/' ∉ fileName) (hbackslash : '\\' ∉ fileName)
    (hdot : fileName ≠ ['.'] ∧ fileName ≠ ['.', '.']) (hsize : fileSize < 2 ^ 64)
    {management : UInt8} (hmanagement : management ≠ zmodemFileClobber) :
    parseZfileHeader (buildZfileHeader fileName fileSize) management =
      .ok (some { fileName, fileSize := some fileSize, overwrite := false }) := by
  have hbytes := Text.zero_notMem_utf8Bytes hnul
  have htake : (buildZfileHeader fileName fileSize).takeWhile (· ≠ 0) = Text.utf8Bytes fileName :=
    Text.takeWhile_ne_zero hbytes
  have hdrop : (buildZfileHeader fileName fileSize).drop ((Text.utf8Bytes fileName).length + 1) =
      Text.utf8Bytes (toString fileSize).toList := by
    have hlength : (Text.utf8Bytes fileName).length + 1 =
        (Text.utf8Bytes fileName ++ [0]).length := by
      rw [List.length_append, List.length_singleton]
    rw [hlength, buildZfileHeader, List.drop_left]
  have hshort : ¬ (Text.utf8Bytes fileName).length =
      (buildZfileHeader fileName fileSize).length := by
    rw [buildZfileHeader, List.length_append, List.length_append, List.length_singleton]
    omega
  have hsome : ¬ Text.utf8Bytes fileName = [] := Text.utf8Bytes_ne_nil hname
  have hvalid : ¬ ('/' ∈ fileName ∨ '\\' ∈ fileName ∨ fileName = ['.'] ∨ fileName = ['.', '.']) := by
    rintro (h | h | h | h)
    exacts [hslash h, hbackslash h, hdot.1 h, hdot.2 h]
  have hword : Text.firstWord (toString fileSize).toList = some (toString fileSize).toList :=
    Text.firstWord_of_forall (Text.toString_ne_nil fileSize)
      fun c hc => Text.isWhitespace_of_isDigit (Text.isDigit_of_mem_repr hc)
  unfold parseZfileHeader
  simp only [htake, hdrop, if_neg hshort, if_neg hsome, Text.fromUtf8Lossy_utf8Bytes, if_neg hvalid,
    hword, Text.parseU64_repr hsize, hmanagement, decide_false]

end OxideTerm.Modem
