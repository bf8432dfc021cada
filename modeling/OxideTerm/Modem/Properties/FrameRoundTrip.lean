import OxideTerm.Modem.CrcLinear
import OxideTerm.Modem.ZmodemFrames

/-!
# Frames that come back

What the sender writes as a binary header or a subpacket, and what the receiver makes of it: a
header comes back if it has the longer check value, and hardly ever otherwise; a subpacket always
does, whatever flow control bytes came in between.
-/

namespace OxideTerm.Modem

open OxideTerm.Lib

/-- What a program reads from the front of an input. -/
def FromFront {α : Type} (p : ZmodemIo α) (bytes : Bytes) (result : Except ModemTransferError α) :
    Prop :=
  ∀ rest, onInput .timeout p (bytes ++ rest) = (some result, rest)

theorem quietLine_reading :
    QuietLine (Surroundings.reading (L := FileCall) (B := FileCall.Answer)
      ModemTransferError.timeout) where
  late_eq _ := rfl
  arrives_eq _ _ := rfl
  after_read _ := rfl
  after_write _ _ := rfl

/-- What a program returns on a quiet line, it reads from the front of an input. -/
theorem FromFront.of_goes {α : Type} {p : ZmodemIo α} {bytes : Bytes}
    {result : Except ModemTransferError α}
    (h : Goes (.reading .timeout) p () bytes [] (.done result) ()) : FromFront p bytes result := by
  intro rest
  rw [h.onInput_eq rest]
  rfl

/-! ## Binary headers -/

/-- An escaped byte is decoded from a slice as well. -/
theorem decodeZdlePayload_escaped (byte : UInt8) (escapeControl : Bool) (bytes : Bytes) (n : Nat) :
    decodeZdlePayload (zdleEscaped byte escapeControl ++ bytes) (n + 1) =
      (decodeZdlePayload bytes n).map (byte :: ·) := by
  rcases zdleEscaped_cases byte escapeControl with ⟨hbytes, -, hzdle⟩ |
    ⟨hbytes, hrub0, hrub1, hmask, hdecoded, -⟩
  · rw [hbytes, List.singleton_append, decodeZdlePayload.eq_def]
    dsimp only
    rw [if_neg hzdle]
    cases decodeZdlePayload bytes n <;> rfl
  · have hunescaped : unescapedZdle (byte ^^^ 0x40) = some byte := by
      rw [unescapedZdle, if_neg hrub0, if_neg hrub1, if_pos hmask, hdecoded]
    rw [hbytes]
    show decodeZdlePayload (zdle :: (byte ^^^ 0x40) :: bytes) (n + 1) = _
    rw [decodeZdlePayload.eq_def]
    dsimp only
    rw [if_pos rfl, hunescaped]
    cases decodeZdlePayload bytes n <;> rfl

theorem decodeZdlePayload_escapedAll (escapeControl : Bool) (rest : Bytes) :
    ∀ bytes : Bytes, decodeZdlePayload (zdleEscapedAll bytes escapeControl ++ rest) bytes.length =
      .ok bytes
  | [] => by
    show decodeZdlePayload rest 0 = .ok []
    rw [decodeZdlePayload]
  | byte :: bytes => by
    have hsplit : zdleEscapedAll (byte :: bytes) escapeControl ++ rest =
        zdleEscaped byte escapeControl ++ (zdleEscapedAll bytes escapeControl ++ rest) :=
      List.append_assoc _ _ _
    rw [hsplit, List.length_cons, decodeZdlePayload_escaped,
      decodeZdlePayload_escapedAll escapeControl rest bytes]
    rfl

theorem headerOf_payload (frameType : ZFrameType) (position : ZPosition) :
    headerOf .bin16 (ZHeader.payload frameType position ++
        u16ToBeBytes (crc16Sent (ZHeader.payload frameType position))) =
      .ok { frameType, position, encoding := .bin16 } ∧
    headerOf .bin32 (ZHeader.payload frameType position ++
        u32ToLeBytes (crc32Ieee (ZHeader.payload frameType position))) =
      .ok { frameType, position, encoding := .bin32 } := by
  have htype (check : Bytes) :
      (ZHeader.payload frameType position ++ check).getD 0 0 = frameType.toByte := rfl
  constructor
  · rw [headerOf, htype, ZFrameType.fromByte_toByte]
    dsimp only
    rw [take_payload, drop_payload, u16FromBeBytes_toBeBytes, if_neg (not_not.mpr rfl)]
    rfl
  · rw [headerOf, htype, ZFrameType.fromByte_toByte]
    dsimp only
    rw [take_payload, drop_payload, u32FromLeBytes_toLeBytes, if_neg (not_not.mpr rfl)]
    rfl

/-- The slice reader reads every header back. -/
theorem parseBinaryHeader_zbinaryHeader (frameType : ZFrameType) (position : ZPosition)
    (useCrc32 escapeControl : Bool) (rest : Bytes) :
    parseBinaryHeader (zbinaryHeader frameType position useCrc32 escapeControl ++ rest) =
      .ok { frameType, position, encoding := if useCrc32 then .bin32 else .bin16 } := by
  obtain ⟨hbin16, hbin32⟩ := headerOf_payload frameType position
  cases useCrc32 with
  | true =>
    have hdecoded := decodeZdlePayload_escapedAll escapeControl rest
      (ZHeader.payload frameType position ++
        u32ToLeBytes (crc32Ieee (ZHeader.payload frameType position)))
    rw [List.length_append, length_u32ToLeBytes] at hdecoded
    show (decodeZdlePayload _ 9).bind (headerOf .bin32) = _
    exact (congrArg (Except.bind · (headerOf .bin32)) hdecoded).trans hbin32
  | false =>
    have hdecoded := decodeZdlePayload_escapedAll escapeControl rest
      (ZHeader.payload frameType position ++
        u16ToBeBytes (crc16Sent (ZHeader.payload frameType position)))
    rw [List.length_append, length_u16ToBeBytes] at hdecoded
    show (decodeZdlePayload _ 7).bind (headerOf .bin16) = _
    exact (congrArg (Except.bind · (headerOf .bin16)) hdecoded).trans hbin16

/-- What the line reader makes of a header with the shorter check value. -/
def bin16Result (frameType : ZFrameType) (position : ZPosition) :
    Except ModemTransferError ZHeader :=
  if crc16Xmodem (ZHeader.payload frameType position) =
      crc16Sent (ZHeader.payload frameType position) then
    .ok { frameType, position, encoding := .bin16 }
  else .error (.protocol .invalidCrc)

theorem goes_bin16Header (frameType : ZFrameType) (position : ZPosition) (escapeControl : Bool)
    (fuel : Nat) :
    Goes (.reading .timeout) (readZmodemHeader (fuel + 1)) ()
      (encodeBin16Header frameType position escapeControl) []
      (.done (bin16Result frameType position)) () := by
  have hquiet := quietLine_reading
  have hread := parses_readZescapedBytes (h := ()) hquiet escapeControl fuel
    (ZHeader.payload frameType position ++
      u16ToBeBytes (crc16Sent (ZHeader.payload frameType position)))
  rw [List.length_append, length_u16ToBeBytes] at hread
  have hresidue : ((ZHeader.payload frameType position ++
      u16ToBeBytes (crc16Sent (ZHeader.payload frameType position))).take 7).foldl
        crc16XmodemUpdate 0 = 0 ↔ crc16Xmodem (ZHeader.payload frameType position) =
          crc16Sent (ZHeader.payload frameType position) := by
    rw [List.take_of_length_le (by simp [ZHeader.payload, ZPosition.bytes]), List.foldl_append]
    exact foldl_crc16_eq_zero_iff _ _
  have hheader : Goes (.reading .timeout) (readBinaryZheader (fuel + 1) .bin16) ()
      (zdleEscapedAll (ZHeader.payload frameType position ++
        u16ToBeBytes (crc16Sent (ZHeader.payload frameType position))) escapeControl) []
      (.done (bin16Result frameType position)) () := by
    unfold readBinaryZheader
    refine Goes.bind_reading hread ?_
    dsimp only
    unfold bin16Result
    by_cases hsame : crc16Xmodem (ZHeader.payload frameType position) =
        crc16Sent (ZHeader.payload frameType position)
    · rw [if_neg (not_not.mpr (hresidue.mpr hsame)), if_pos hsame]
      exact parses_decodedHeader _ _ _ _
    · rw [if_pos (mt hresidue.mp hsame), if_neg hsame]
      exact .stay _ _
  have hround : Goes (.reading .timeout) (readZmodemHeaderRound (fuel + 1) ()) ()
      (encodeBin16Header frameType position escapeControl) []
      ((Program.done (bin16Result frameType position)).bind fun header => pure (.inr header)) () := by
    unfold readZmodemHeaderRound encodeBin16Header
    exact (parses_readByte hquiet zpad).bind ((parses_readByte hquiet zdle).bind
      ((parses_readByte hquiet zbin).bind (hheader.bind _)))
  have hend : ((Program.done (bin16Result frameType position)).bind fun header =>
      (pure (.inr header) : ZmodemIo (Unit ⊕ ZHeader))).bind
        (Program.nextRound (readZmodemHeaderRound (fuel + 1)) fuel) =
      .done (bin16Result frameType position) := by
    cases bin16Result frameType position <;> rfl
  rw [readZmodemHeader, Program.loop_succ, ← hend]
  exact hround.bind _

theorem crc16Sent_eq_iff (payload : Bytes) : crc16Xmodem payload = crc16Sent payload ↔
    crc16Xmodem payload = 0 ∨ crc16Xmodem payload = 0xf01f :=
  eq_comm.trans (crc16_zeros_eq_iff (crc16Xmodem payload))

/-- Both readers find the header at the front of the bytes, and the one on the line reads no
further. -/
def HeaderReadsBack (bytes : Bytes) (header : ZHeader) : Prop :=
  ∀ fuel, FromFront (readZmodemHeader (fuel + 1)) bytes (.ok header) ∧
    ∀ rest, parseBinaryHeader (bytes ++ rest) = .ok header

/-- **A binary header comes back just if it has the longer check value, or a shorter one that two
more bytes of zeros do not change.** -/
theorem binary_header_reads_back_iff (frameType : ZFrameType) (position : ZPosition)
    (useCrc32 escapeControl : Bool) :
    HeaderReadsBack (zbinaryHeader frameType position useCrc32 escapeControl)
      { frameType, position, encoding := if useCrc32 then .bin32 else .bin16 } ↔
    useCrc32 = true ∨ crc16Xmodem (ZHeader.payload frameType position) = 0 ∨
      crc16Xmodem (ZHeader.payload frameType position) = 0xf01f := by
  have hslice := parseBinaryHeader_zbinaryHeader frameType position useCrc32 escapeControl
  cases useCrc32 with
  | true =>
    refine iff_of_true (fun fuel => ⟨.of_goes ?_, hslice⟩) (.inl rfl)
    have hgap : zpad ∉ ([] : Bytes) := by simp
    exact parses_bin32Header quietLine_reading frameType position escapeControl hgap
      (Nat.succ_pos fuel)
  | false =>
    have hgoes := goes_bin16Header frameType position escapeControl
    rw [or_iff_right Bool.false_ne_true, ← crc16Sent_eq_iff]
    constructor
    · intro h
      have hread : FromFront (readZmodemHeader 1)
          (encodeBin16Header frameType position escapeControl) (bin16Result frameType position) :=
        .of_goes (hgoes 0)
      have hresult := congrArg Prod.fst ((hread []).symm.trans ((h 0).1 []))
      by_contra hne
      rw [bin16Result, if_neg hne] at hresult
      cases Option.some.inj hresult
    · intro hsame fuel
      refine ⟨.of_goes ?_, hslice⟩
      have hall := hgoes fuel
      rwa [bin16Result, if_pos hsame] at hall

/-- The header of the data at the start of a file. -/
theorem bin16_data_header_lost :
    ¬ HeaderReadsBack (zbinaryHeader .zData (positionHeader 0) false false)
      { frameType := .zData, position := positionHeader 0, encoding := .bin16 } := by
  intro h
  have hread := (h 0).1 []
  revert hread
  decide +kernel

/-! ## Flow control bytes in between -/

/-- These bytes, with flow control bytes inserted, but not behind the byte that escapes. The flag
says whether one of those stands before. -/
inductive Interspersed : Bool → Bytes → Bytes → Prop
  | nil (escaping : Bool) : Interspersed escaping [] []
  | kept (escaping : Bool) (byte : UInt8) {bytes noisy : Bytes}
      (h : Interspersed (byte = zdle) bytes noisy) :
      Interspersed escaping (byte :: bytes) (byte :: noisy)
  | flow {byte : UInt8} {bytes noisy : Bytes} (hbyte : isFlowControl byte = true)
      (h : Interspersed false bytes noisy) : Interspersed false bytes (byte :: noisy)

/-- Bytes that belong together: one that does not escape, or the one that does with another one. -/
inductive IsSymbol : Bytes → Prop
  | plain {byte : UInt8} (h : byte ≠ zdle) : IsSymbol [byte]
  | escaped {byte : UInt8} (h : byte ≠ zdle) : IsSymbol [zdle, byte]

theorem isSymbol_zdleEscaped (byte : UInt8) (escapeControl : Bool) :
    IsSymbol (zdleEscaped byte escapeControl) := by
  rcases zdleEscaped_cases byte escapeControl with ⟨hbytes, -, hzdle⟩ | ⟨hbytes, -, -, hmask, -⟩
  · rw [hbytes]
    exact .plain hzdle
  · rw [hbytes]
    refine .escaped ?_
    intro hzdle
    rw [hzdle] at hmask
    exact absurd hmask (by decide)

theorem IsSymbol.length_pos {symbol : Bytes} (h : IsSymbol symbol) : 0 < symbol.length := by
  cases h <;> simp

theorem isSymbol_marker (frameEnd : ZDataEnd) : IsSymbol [zdle, frameEnd.marker] := by
  refine .escaped ?_
  cases frameEnd <;> decide

namespace Interspersed

/-- Before a symbol there may be flow control bytes, and none in it. -/
theorem symbol {symbol bytes : Bytes} (hsymbol : IsSymbol symbol) :
    ∀ {noisy : Bytes}, Interspersed false (symbol ++ bytes) noisy →
      ∃ flows later, (∀ byte ∈ flows, isFlowControl byte = true) ∧
        noisy = flows ++ (symbol ++ later) ∧ Interspersed false bytes later
  | [], h => by
    cases hsymbol <;> cases h
  | first :: noisy, h => by
    have hgo (hfirst : isFlowControl first = true)
        (hrest : Interspersed false (symbol ++ bytes) noisy) :
        ∃ flows later, (∀ byte ∈ flows, isFlowControl byte = true) ∧
          first :: noisy = flows ++ (symbol ++ later) ∧ Interspersed false bytes later := by
      obtain ⟨flows, later, hflows, rfl, hlater⟩ := Interspersed.symbol hsymbol hrest
      exact ⟨first :: flows, later, List.forall_mem_cons.mpr ⟨hfirst, hflows⟩, rfl, hlater⟩
    cases hsymbol with
    | plain hbyte =>
      cases h with
      | kept _ _ hrest =>
        rw [decide_eq_false hbyte] at hrest
        exact ⟨[], noisy, by simp, rfl, hrest⟩
      | flow hfirst hrest => exact hgo hfirst hrest
    | escaped hbyte =>
      cases h with
      | kept _ _ hrest =>
        rw [decide_eq_true rfl] at hrest
        cases hrest with
        | @kept _ _ _ later hlater =>
          rw [decide_eq_false hbyte] at hlater
          exact ⟨[], later, by simp, rfl, hlater⟩
      | flow hfirst hrest => exact hgo hfirst hrest

/-- What is inserted into flow control bytes leaves only such bytes. -/
theorem flows {escaping : Bool} {bytes noisy : Bytes} (h : Interspersed escaping bytes noisy)
    (hbytes : ∀ byte ∈ bytes, isFlowControl byte = true) :
    ∀ byte ∈ noisy, isFlowControl byte = true := by
  induction h with
  | nil escaping => simp
  | kept escaping byte h ih =>
    obtain ⟨hbyte, hrest⟩ := List.forall_mem_cons.mp hbytes
    exact List.forall_mem_cons.mpr ⟨hbyte, ih hrest⟩
  | flow hbyte h ih => exact List.forall_mem_cons.mpr ⟨hbyte, ih hbytes⟩

end Interspersed

section

variable {H : Type} {env : Surroundings UInt8 FileCall FileCall.Answer ModemTransferError H} {h : H}

/-- A loop that passes over flow control bytes. -/
theorem parses_loop_flows {σ α : Type} {body : σ → ZmodemIo (σ ⊕ α)} {s : σ} {fuel : Nat}
    {bytes : Bytes} {a : α}
    (hbody : ∀ byte, isFlowControl byte = true → Parses env h (body s) [byte] (.inl s))
    (hrest : Parses env h (Program.loop body fuel s) bytes a) :
    ∀ flows : Bytes, (∀ byte ∈ flows, isFlowControl byte = true) →
      Parses env h (Program.loop body (flows.length + fuel) s) (flows ++ bytes) a
  | [], _ => by
    rw [List.length_nil, Nat.zero_add]
    exact hrest
  | byte :: flows, hflows => by
    obtain ⟨hbyte, hflows⟩ := List.forall_mem_cons.mp hflows
    rw [List.length_cons, Nat.add_right_comm]
    rw [← List.singleton_append, List.append_assoc]
    exact parses_loop_on (hbody byte hbyte) (parses_loop_flows hbody hrest flows hflows)

variable (hquiet : QuietLine env)

include hquiet

theorem parses_readZescapedByte_flows {flows : Bytes} (byte : UInt8) (escapeControl : Bool)
    {fuel : Nat} (hflows : ∀ byte ∈ flows, isFlowControl byte = true) (hfuel : flows.length < fuel) :
    Parses env h (readZescapedByte fuel) (flows ++ zdleEscaped byte escapeControl) byte := by
  obtain ⟨rounds, rfl⟩ : ∃ rounds, fuel = flows.length + (rounds + 1) :=
    ⟨fuel - flows.length - 1, by omega⟩
  refine parses_loop_flows ?_ (parses_readZescapedByte hquiet byte escapeControl rounds) flows hflows
  intro other hother
  refine (parses_readByte hquiet other).last ?_
  rw [if_pos hother]
  exact parses_pure _

/-- Escaped bytes, with what was inserted before each. -/
theorem parses_readZescapedBytes_noisy (escapeControl : Bool) {fuel : Nat} {more : Bytes} :
    ∀ {bytes noisy : Bytes}, Interspersed false (zdleEscapedAll bytes escapeControl ++ more) noisy →
      noisy.length < fuel → ∃ first later, noisy = first ++ later ∧ Interspersed false more later ∧
        Parses env h (readZescapedBytes fuel bytes.length) first bytes
  | [], noisy, hnoisy, _ => ⟨[], noisy, rfl, hnoisy, parses_pure []⟩
  | byte :: bytes, noisy, hnoisy, hfuel => by
    have hsplit : zdleEscapedAll (byte :: bytes) escapeControl ++ more =
        zdleEscaped byte escapeControl ++ (zdleEscapedAll bytes escapeControl ++ more) :=
      List.append_assoc _ _ _
    rw [hsplit] at hnoisy
    obtain ⟨flows, later, hflows, rfl, hlater⟩ :=
      hnoisy.symbol (isSymbol_zdleEscaped byte escapeControl)
    simp only [List.length_append] at hfuel
    obtain ⟨first, later, rfl, hmore, hbytes⟩ :=
      parses_readZescapedBytes_noisy escapeControl hlater (show later.length < fuel by omega)
    refine ⟨flows ++ zdleEscaped byte escapeControl ++ first, later, by simp, hmore, ?_⟩
    exact (parses_readZescapedByte_flows hquiet byte escapeControl hflows (by omega)).seq
      (hbytes.last (parses_pure _))

/-- The payload of a subpacket and its end, with what was inserted. -/
theorem parses_payload_noisy (escapeControl : Bool) (maxPayload : Nat) (frameEnd : ZDataEnd)
    {more : Bytes} :
    ∀ (bytes : Bytes) {noisy before : Bytes} {fuel : Nat},
      Interspersed false (zdleEscapedAll bytes escapeControl ++ ([zdle, frameEnd.marker] ++ more))
        noisy → noisy.length < fuel → before.length + bytes.length ≤ maxPayload →
      ∃ first later, noisy = first ++ later ∧ Interspersed false more later ∧
        Parses env h (Program.loop (readZmodemPayloadRound maxPayload) fuel before) first
          (before ++ bytes, frameEnd) := by
  have hflow (before : Bytes) (byte : UInt8) (hbyte : isFlowControl byte = true) :
      Parses env h (readZmodemPayloadRound maxPayload before) [byte] (.inl before) := by
    refine (parses_readByte hquiet byte).last ?_
    rw [if_pos hbyte]
    exact parses_pure _
  intro bytes
  induction bytes with
  | nil =>
    intro noisy before fuel hnoisy hfuel hroom
    obtain ⟨flows, later, hflows, rfl, hlater⟩ := hnoisy.symbol (isSymbol_marker frameEnd)
    simp only [List.length_append] at hfuel
    obtain ⟨rounds, rfl⟩ : ∃ rounds, fuel = flows.length + (rounds + 1) :=
      ⟨fuel - flows.length - 1, by omega⟩
    refine ⟨flows ++ [zdle, frameEnd.marker], later, by simp, hlater, ?_⟩
    have hend := parses_payload (h := h) hquiet escapeControl maxPayload frameEnd [] (rounds + 1)
      before (by simp) hroom
    exact parses_loop_flows (hflow before) hend flows hflows
  | cons byte bytes ih =>
    intro noisy before fuel hnoisy hfuel hroom
    have hsplit : zdleEscapedAll (byte :: bytes) escapeControl ++
        ([zdle, frameEnd.marker] ++ more) = zdleEscaped byte escapeControl ++
          (zdleEscapedAll bytes escapeControl ++ ([zdle, frameEnd.marker] ++ more)) :=
      List.append_assoc _ _ _
    rw [hsplit] at hnoisy
    obtain ⟨flows, later, hflows, rfl, hlater⟩ :=
      hnoisy.symbol (isSymbol_zdleEscaped byte escapeControl)
    simp only [List.length_append, List.length_cons] at hfuel hroom
    obtain ⟨rounds, rfl⟩ : ∃ rounds, fuel = flows.length + (rounds + 1) :=
      ⟨fuel - flows.length - 1, by omega⟩
    have hone := (isSymbol_zdleEscaped byte escapeControl).length_pos
    obtain ⟨first, later, rfl, hmore, hbytes⟩ := @ih later (before ++ [byte]) rounds hlater
      (by omega) (by rw [List.length_append, List.length_singleton]; omega)
    rw [List.append_assoc] at hbytes
    refine ⟨flows ++ (zdleEscaped byte escapeControl ++ first), later, by simp, hmore, ?_⟩
    refine parses_loop_flows (hflow before) ?_ flows hflows
    exact parses_loop_on (parses_payloadRound hquiet byte escapeControl (by omega)) hbytes

end

/-- The check bytes that come with a payload belong to it. -/
theorem checksOut_sent (useCrc32 : Bool) (payload : Bytes) (frameEnd : ZDataEnd) :
    checksOut useCrc32 payload frameEnd
      (if useCrc32 then u32ToLeBytes (crc32Ieee (payload ++ [frameEnd.marker]))
        else u16ToBeBytes (crc16Xmodem (payload ++ [frameEnd.marker]))) = true := by
  cases useCrc32 with
  | true => simp only [checksOut, u32FromLeBytes_toLeBytes, if_true, beq_self_eq_true]
  | false =>
    have hzero := (foldl_crc16_eq_zero_iff (crc16Xmodem (payload ++ [frameEnd.marker])) _).mpr rfl
    simp only [checksOut, Bool.false_eq_true, if_false, List.foldl_append]
    rw [crc16Xmodem, List.foldl_append] at hzero
    simp only [crc16Xmodem, List.foldl_append]
    exact beq_iff_eq.mpr hzero

/-- **A subpacket comes back, whatever flow control bytes came in between.** What is left of it is
some of those, among them the one that the sender sends last. -/
theorem zdata_round_trip {payload noisy : Bytes} {maxPayload fuel : Nat}
    (hroom : payload.length ≤ maxPayload) (frameEnd : ZDataEnd) (useCrc32 escapeControl : Bool)
    (hnoisy : Interspersed false (encodeZdata payload frameEnd useCrc32 escapeControl) noisy)
    (hfuel : noisy.length < fuel) :
    ∃ subpacket trailing, noisy = subpacket ++ trailing ∧
      (∀ byte ∈ trailing, isFlowControl byte = true) ∧
      FromFront (readZmodemData fuel useCrc32 maxPayload) subpacket (.ok { payload, frameEnd }) := by
  have hquiet := quietLine_reading
  unfold encodeZdata at hnoisy
  rw [List.append_assoc, List.append_assoc] at hnoisy
  obtain ⟨first, later, rfl, hlater, hpayload⟩ := parses_payload_noisy (h := ()) hquiet escapeControl
    maxPayload frameEnd payload hnoisy hfuel
    (show ([] : Bytes).length + payload.length ≤ maxPayload by simpa using hroom)
  rw [List.length_append] at hfuel
  obtain ⟨check, trailing, rfl, htrailing, hcheck⟩ := parses_readZescapedBytes_noisy (h := ())
    hquiet escapeControl hlater (show later.length < fuel by omega)
  refine ⟨first ++ check, trailing, by simp, htrailing.flows ?_, .of_goes ?_⟩
  · intro byte hbyte
    split at hbyte
    · rw [List.mem_singleton.mp hbyte]
      decide
    · cases hbyte
  · unfold readZmodemData
    refine hpayload.seq ?_
    have hlength : (if useCrc32 then u32ToLeBytes (crc32Ieee (payload ++ [frameEnd.marker]))
        else u16ToBeBytes (crc16Xmodem (payload ++ [frameEnd.marker]))).length =
        if useCrc32 then 4 else 2 := by
      cases useCrc32
      · exact length_u16ToBeBytes _
      · exact length_u32ToLeBytes _
    rw [hlength] at hcheck
    refine hcheck.last ?_
    rw [List.nil_append, if_pos (checksOut_sent useCrc32 payload frameEnd)]
    exact parses_pure _

/-- A subpacket in the middle of which the flow of data was stopped and resumed. -/
theorem zdata_round_trip_stopped :
    ∃ subpacket trailing, [0x13, 0x61, 0x11, 0x18, 0x6b, 0x13, 0xe5, 0x91, 0xd6, 0x11, 0x13] =
        subpacket ++ trailing ∧ (∀ byte ∈ trailing, isFlowControl byte = true) ∧
      FromFront (readZmodemData 12 false 1) subpacket
        (.ok { payload := [0x61], frameEnd := .endWithAck }) := by
  refine zdata_round_trip (show ([0x61] : Bytes).length ≤ 1 by decide) .endWithAck false false ?_
    (by decide)
  have hbytes : encodeZdata [0x61] .endWithAck false false =
      [0x61, 0x18, 0x6b, 0xe5, 0xd6, 0x11] := by decide +kernel
  rw [hbytes]
  exact .flow rfl (.kept _ _ (.flow rfl (.kept _ _ (.kept _ _ (.flow rfl (.kept _ _
    (.flow rfl (.kept _ _ (.kept _ _ (.flow rfl (.nil _)))))))))))

end OxideTerm.Modem
