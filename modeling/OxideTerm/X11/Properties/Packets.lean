import OxideTerm.X11.SetupBuffer

/-!
# The layout of setup packets

Every packet with a byte order is a header with something behind it, and a complete one consists of the
header, the name and the data with their padding. On such packets nothing is sliced out of bounds, and
rewriting replaces the data and its length and nothing else.
-/

namespace OxideTerm.X11

open Lib Lib.Text

variable {bytes packet rest name namePad data dataPad replacement : Bytes} {order : X11ByteOrder}
  {value : UInt16} {n : Nat}

/-! ## Slices -/

theorem slice_append (front middle behind : Bytes) :
    slice (front ++ (middle ++ behind)) front.length (front.length + middle.length) =
      .ok middle := by
  rw [slice, if_pos ⟨Nat.le_add_right _ _, by simp⟩, List.drop_left, Nat.add_sub_cancel_left,
    List.take_left]

theorem copyFromSlice_append {front middle behind source : Bytes}
    (h : source.length = middle.length) :
    copyFromSlice (front ++ (middle ++ behind)) front.length (front.length + middle.length) source =
      .ok (front ++ (source ++ behind)) := by
  rw [copyFromSlice, if_pos ⟨Nat.le_add_right _ _, by simp, by omega⟩, List.take_left,
    ← List.append_assoc front middle behind, ← List.length_append, List.drop_left]

/-- A field can be cut off what is long enough. -/
theorem exists_front (n : Nat) (bytes : Bytes) (h : n ≤ bytes.length) :
    ∃ front behind, bytes = front ++ behind ∧ front.length = n ∧
      behind.length = bytes.length - n :=
  ⟨bytes.take n, bytes.drop n, (List.take_append_drop n bytes).symm, List.length_take_of_le h,
    List.length_drop⟩

/-! ## Numbers -/

@[simp] theorem length_encodeU16 (value : UInt16) (order : X11ByteOrder) :
    (encodeU16 value order).length = 2 := by
  cases order <;> simp [encodeU16]

theorem readU16_encodeU16 (value : UInt16) (order : X11ByteOrder) :
    readU16 (encodeU16 value order) order = .ok value := by
  obtain ⟨first, second, htwo⟩ := List.length_eq_two.mp (length_u16ToBeBytes value)
  have hread := u16FromBeBytes_toBeBytes value
  rw [htwo] at hread
  cases order with
  | bigEndian =>
    rw [encodeU16, htwo]
    exact congrArg Except.ok hread
  | littleEndian =>
    rw [encodeU16, htwo]
    exact congrArg Except.ok hread

theorem u16ToBeBytes_fromBeBytes (h : bytes.length = 2) :
    u16ToBeBytes (u16FromBeBytes bytes) = bytes := by
  have hlt := ofBeBytes_lt bytes
  have hread := beBytes_ofBeBytes bytes
  rw [h] at hlt hread
  rw [u16ToBeBytes, u16FromBeBytes, UInt16.toNat_ofNat_of_lt' hlt, hread]

/-- Two bytes are a number, in either order. -/
theorem exists_encodeU16 (h : bytes.length = 2) (order : X11ByteOrder) :
    ∃ value, bytes = encodeU16 value order := by
  cases order with
  | bigEndian => exact ⟨u16FromBeBytes bytes, (u16ToBeBytes_fromBeBytes h).symm⟩
  | littleEndian =>
    refine ⟨u16FromBeBytes bytes.reverse, ?_⟩
    have hreverse : bytes.reverse.length = 2 := by rw [List.length_reverse, h]
    rw [encodeU16, u16ToBeBytes_fromBeBytes hreverse, List.reverse_reverse]

/-- A length up to the next word. -/
def pad (n : Nat) : Nat := (n + 3) / 4 * 4

theorem le_pad (n : Nat) : n ≤ pad n := by
  rw [pad]
  omega

theorem paddedLen_eq (h : n < 2 ^ 32) : paddedLen n = .ok (pad n) := by
  have hadd : checkedAdd n 3 = some (n + 3) := if_pos (by omega)
  rw [paddedLen, hadd]
  rfl

theorem addLen_eq {m : Nat} (h : m + n < 2 ^ 64) : addLen m n = .ok (m + n) := by
  have hadd : checkedAdd m n = some (m + n) := if_pos h
  rw [addLen, hadd]

theorem toNat_lt_pow (value : UInt16) : value.toNat < 2 ^ 16 := value.toNat_lt

theorem pad_lt (value : UInt16) : pad value.toNat < 2 ^ 17 := by
  have hlt := toNat_lt_pow value
  rw [pad]
  omega

/-! ## Headers -/

/-- What a header says; two of its fields are not used. -/
structure SetupHeader where
  byteOrder : X11ByteOrder
  unused : UInt8
  protocolMajor : UInt16
  protocolMinor : UInt16
  nameLen : UInt16
  dataLen : UInt16
  unused' : { bytes : Bytes // bytes.length = 2 }

def orderByte : X11ByteOrder → UInt8
  | .bigEndian => 66
  | .littleEndian => 108

theorem parseByteOrder_orderByte (order : X11ByteOrder) :
    parseByteOrder (orderByte order) = .ok order := by
  cases order <;> rfl

namespace SetupHeader

variable (header : SetupHeader)

def encoded : Bytes :=
  [orderByte header.byteOrder, header.unused] ++
    (encodeU16 header.protocolMajor header.byteOrder ++
    (encodeU16 header.protocolMinor header.byteOrder ++
    (encodeU16 header.nameLen header.byteOrder ++
    (encodeU16 header.dataLen header.byteOrder ++ header.unused'.1))))

/-- The length of the packet. -/
def required : Nat := setupHeaderLen + pad header.nameLen.toNat + pad header.dataLen.toNat

theorem length_encoded : header.encoded.length = setupHeaderLen := by
  simp [encoded, header.unused'.2, setupHeaderLen]

theorem setupHeaderLen_le_required : setupHeaderLen ≤ header.required := by
  rw [required]
  omega

/-- The parts of a header, in front of anything. -/
theorem slices (rest : Bytes) :
    byteAt (header.encoded ++ rest) 0 = .ok (orderByte header.byteOrder) ∧
    slice (header.encoded ++ rest) 2 4 = .ok (encodeU16 header.protocolMajor header.byteOrder) ∧
    slice (header.encoded ++ rest) 4 6 = .ok (encodeU16 header.protocolMinor header.byteOrder) ∧
    slice (header.encoded ++ rest) 6 8 = .ok (encodeU16 header.nameLen header.byteOrder) ∧
    slice (header.encoded ++ rest) 8 10 = .ok (encodeU16 header.dataLen header.byteOrder) := by
  obtain ⟨order, unused, major, minor, nameLen, dataLen, unused'⟩ := header
  refine ⟨rfl, ?_, ?_, ?_, ?_⟩
  · have h := slice_append [orderByte order, unused] (encodeU16 major order)
      (encodeU16 minor order ++ (encodeU16 nameLen order ++ (encodeU16 dataLen order ++
        (unused'.1 ++ rest))))
    simpa [encoded] using h
  · have h := slice_append ([orderByte order, unused] ++ encodeU16 major order)
      (encodeU16 minor order) (encodeU16 nameLen order ++ (encodeU16 dataLen order ++
        (unused'.1 ++ rest)))
    simpa [encoded] using h
  · have h := slice_append ([orderByte order, unused] ++ encodeU16 major order ++
      encodeU16 minor order) (encodeU16 nameLen order) (encodeU16 dataLen order ++
        (unused'.1 ++ rest))
    simpa [encoded] using h
  · have h := slice_append ([orderByte order, unused] ++ encodeU16 major order ++
      encodeU16 minor order ++ encodeU16 nameLen order) (encodeU16 dataLen order)
        (unused'.1 ++ rest)
    simpa [encoded] using h

/-- **The header tells the length of its packet.** -/
theorem setupPacketTotalLen (rest : Bytes) :
    X11.setupPacketTotalLen (header.encoded ++ rest) = .ok (some header.required) := by
  obtain ⟨hbyte, -, -, hname, hdata⟩ := header.slices rest
  have hlong : ¬ (header.encoded ++ rest).length < setupHeaderLen := by
    rw [List.length_append, header.length_encoded]
    omega
  have hnameLt := toNat_lt_pow header.nameLen
  have hdataLt := toNat_lt_pow header.dataLen
  have hnamePad := pad_lt header.nameLen
  have hdataPad := pad_lt header.dataLen
  have hheaderLen : setupHeaderLen = 12 := rfl
  rw [X11.setupPacketTotalLen, if_neg hlong]
  simp only [hbyte, hname, hdata, parseByteOrder_orderByte, readU16_encodeU16, bind, Except.bind,
    paddedLen_eq (show header.nameLen.toNat < 2 ^ 32 by omega),
    paddedLen_eq (show header.dataLen.toNat < 2 ^ 32 by omega),
    addLen_eq (show setupHeaderLen + pad header.nameLen.toNat < 2 ^ 64 by omega),
    addLen_eq (show setupHeaderLen + pad header.nameLen.toNat + pad header.dataLen.toNat < 2 ^ 64
      by omega)]
  rfl

end SetupHeader

/-- **What the beginning of a stream tells**: nothing yet, a length, or an error that stays. -/
theorem setupPacketTotalLen_cases (packet : Bytes) :
    (packet.length < setupHeaderLen ∧ setupPacketTotalLen packet = .ok none) ∨
    (∃ (header : SetupHeader) (rest : Bytes), packet = header.encoded ++ rest) ∨
    (setupHeaderLen ≤ packet.length ∧ ∃ error, ∀ more,
      setupPacketTotalLen (packet ++ more) = .error (.error error)) := by
  by_cases hshort : packet.length < setupHeaderLen
  · exact .inl ⟨hshort, if_pos hshort⟩
  · refine .inr ?_
    have hheaderLen : setupHeaderLen = 12 := rfl
    obtain ⟨first, rest, rfl⟩ := List.exists_cons_of_length_pos (show 0 < packet.length by omega)
    rw [List.length_cons] at hshort
    cases horder : parseByteOrder first with
    | error failure =>
      refine .inr ⟨Nat.not_lt.mp hshort, ?_⟩
      have hfailure : ∃ error, failure = .error error := by
        rw [parseByteOrder] at horder
        split at horder
        · cases horder
        · split at horder
          · cases horder
          · cases horder
            exact ⟨_, rfl⟩
      obtain ⟨error, rfl⟩ := hfailure
      refine ⟨error, fun more => ?_⟩
      have hbyte : byteAt (first :: rest ++ more) 0 = .ok first := rfl
      rw [setupPacketTotalLen, if_neg (by simp; omega)]
      simp only [hbyte, horder, bind, Except.bind]
    | ok order =>
      refine .inl ?_
      have hfirst : first = orderByte order := by
        rw [parseByteOrder] at horder
        split at horder
        next h =>
          cases horder
          exact h
        next =>
          split at horder
          next h =>
            cases horder
            exact h
          next => cases horder
      obtain ⟨unused, rest, rfl⟩ := List.exists_cons_of_length_pos (show 0 < rest.length by omega)
      rw [List.length_cons] at hshort
      obtain ⟨major, rest, rfl, hmajor, hrest⟩ := exists_front 2 rest (by omega)
      rw [List.length_append] at hshort
      obtain ⟨minor, rest, rfl, hminor, hrest⟩ := exists_front 2 rest (by omega)
      rw [List.length_append] at hshort
      obtain ⟨nameLen, rest, rfl, hnameLen, hrest⟩ := exists_front 2 rest (by omega)
      rw [List.length_append] at hshort
      obtain ⟨dataLen, rest, rfl, hdataLen, hrest⟩ := exists_front 2 rest (by omega)
      rw [List.length_append] at hshort
      obtain ⟨unused', rest, rfl, hunused', hrest⟩ := exists_front 2 rest (by omega)
      obtain ⟨major, rfl⟩ := exists_encodeU16 hmajor order
      obtain ⟨minor, rfl⟩ := exists_encodeU16 hminor order
      obtain ⟨nameLen, rfl⟩ := exists_encodeU16 hnameLen order
      obtain ⟨dataLen, rfl⟩ := exists_encodeU16 hdataLen order
      refine ⟨⟨order, unused, major, minor, nameLen, dataLen, ⟨unused', hunused'⟩⟩, rest, ?_⟩
      rw [hfirst]
      simp [SetupHeader.encoded]

/-! ## Complete packets -/

/-- A complete packet: header, name and data, with what pads them. -/
structure Setup where
  header : SetupHeader
  name : Bytes
  namePad : Bytes
  data : Bytes
  dataPad : Bytes
  length_name : name.length = header.nameLen.toNat
  length_namePad : name.length + namePad.length = pad header.nameLen.toNat
  length_data : data.length = header.dataLen.toNat
  length_dataPad : data.length + dataPad.length = pad header.dataLen.toNat

namespace Setup

variable (setup : Setup)

def encoded : Bytes :=
  setup.header.encoded ++ (setup.name ++ (setup.namePad ++ (setup.data ++ setup.dataPad)))

theorem length_encoded : setup.encoded.length = setup.header.required := by
  rw [encoded, SetupHeader.required]
  simp only [List.length_append, setup.header.length_encoded]
  have hname := setup.length_namePad
  have hdata := setup.length_dataPad
  omega

/-- Where the data of the packet starts. -/
def dataStart : Nat := setupHeaderLen + pad setup.header.nameLen.toNat

theorem slice_name :
    slice setup.encoded setupHeaderLen (setupHeaderLen + setup.header.nameLen.toNat) =
      .ok setup.name := by
  have h := slice_append setup.header.encoded setup.name
    (setup.namePad ++ (setup.data ++ setup.dataPad))
  rwa [setup.header.length_encoded, setup.length_name] at h

theorem length_front :
    (setup.header.encoded ++ (setup.name ++ setup.namePad)).length = setup.dataStart := by
  rw [List.length_append, List.length_append, setup.header.length_encoded, setup.length_namePad,
    dataStart]

theorem encoded_eq : setup.encoded =
    (setup.header.encoded ++ (setup.name ++ setup.namePad)) ++ (setup.data ++ setup.dataPad) := by
  rw [encoded]
  simp only [List.append_assoc]

theorem slice_data :
    slice setup.encoded setup.dataStart (setup.dataStart + setup.header.dataLen.toNat) =
      .ok setup.data := by
  have h := slice_append (setup.header.encoded ++ (setup.name ++ setup.namePad)) setup.data
    setup.dataPad
  rwa [← setup.encoded_eq, setup.length_front, setup.length_data] at h

/-- What a complete packet is parsed to. -/
def parsed : ParsedSetup :=
  { request :=
      { byteOrder := setup.header.byteOrder
        protocolMajor := setup.header.protocolMajor
        protocolMinor := setup.header.protocolMinor
        authProtocol := fromUtf8Lossy setup.name
        authDataLen := setup.header.dataLen.toNat }
    authProtocolBytes := setup.name
    authDataStart := setup.dataStart
    authDataEnd := setup.dataStart + setup.header.dataLen.toNat
    authDataPaddedEnd := setup.header.required }

/-- **A complete packet is parsed.** -/
theorem parseSetupPacket : X11.parseSetupPacket setup.encoded = .ok setup.parsed := by
  obtain ⟨hbyte, hmajor, hminor, hname, hdata⟩ := setup.header.slices
    (setup.name ++ (setup.namePad ++ (setup.data ++ setup.dataPad)))
  have htotal := setup.header.setupPacketTotalLen
    (setup.name ++ (setup.namePad ++ (setup.data ++ setup.dataPad)))
  have hlong : ¬ setup.encoded.length < setup.header.required := by
    rw [setup.length_encoded]
    omega
  have hnameLt := toNat_lt_pow setup.header.nameLen
  have hdataLt := toNat_lt_pow setup.header.dataLen
  have hnamePad := pad_lt setup.header.nameLen
  have hheaderLen : setupHeaderLen = 12 := rfl
  have hstart : setup.dataStart = setupHeaderLen + pad setup.header.nameLen.toNat := rfl
  rw [← encoded] at htotal hbyte hmajor hminor hname hdata
  simp only [X11.parseSetupPacket, htotal, bind, Except.bind, if_neg hlong, hbyte, hmajor, hminor,
    hname, hdata, parseByteOrder_orderByte, readU16_encodeU16,
    paddedLen_eq (show setup.header.nameLen.toNat < 2 ^ 32 by omega),
    addLen_eq (show setupHeaderLen + setup.header.nameLen.toNat < 2 ^ 64 by omega),
    addLen_eq (show setupHeaderLen + pad setup.header.nameLen.toNat < 2 ^ 64 by omega),
    addLen_eq (show setupHeaderLen + pad setup.header.nameLen.toNat +
      setup.header.dataLen.toNat < 2 ^ 64 by omega), setup.slice_name]
  rfl

/-- The name that the packet gives, if it is one. -/
def protocol : Except Failure X11AuthProtocol := X11AuthProtocol.parse (fromUtf8Lossy setup.name)

theorem inspectSetupAuthentication :
    X11.inspectSetupAuthentication setup.encoded = (do
      let protocol ← setup.protocol
      let fakeCookie ← X11AuthCookie.fromBytes setup.data
      return { request := setup.parsed.request, protocol, fakeCookie }) := by
  have hslice : slice setup.encoded setup.parsed.authDataStart setup.parsed.authDataEnd =
      .ok setup.data := setup.slice_data
  rw [X11.inspectSetupAuthentication, setup.parseSetupPacket]
  simp only [bind, Except.bind, hslice]
  rfl

/-! ## Rewriting -/

/-- The padding behind data that replaces other data: it stays as it is if the lengths are the same. -/
def newPad (replacement : Bytes) : Bytes :=
  if replacement.length = setup.header.dataLen.toNat then setup.dataPad
  else List.replicate (pad replacement.length - replacement.length) 0

theorem length_newPad (replacement : Bytes) :
    replacement.length + (setup.newPad replacement).length = pad replacement.length := by
  rw [newPad]
  split
  next h =>
    have hpad := setup.length_dataPad
    rw [h, ← setup.length_data, hpad, setup.length_data]
  next =>
    have hle := le_pad replacement.length
    rw [List.length_replicate]
    omega

/-- The packet with other data. -/
def withData (replacement : Bytes) (h : replacement.length ≤ 65535) : Setup :=
  have hlength : (UInt16.ofNat replacement.length).toNat = replacement.length :=
    UInt16.toNat_ofNat_of_lt' (Nat.lt_succ_of_le h)
  { setup with
    header := { setup.header with dataLen := UInt16.ofNat replacement.length }
    data := replacement
    dataPad := setup.newPad replacement
    length_data := hlength.symm
    length_dataPad := (setup.length_newPad replacement).trans (congrArg pad hlength.symm) }

theorem encoded_withData (h : replacement.length ≤ 65535) :
    (setup.withData replacement h).encoded =
      ({ setup.header with dataLen := UInt16.ofNat replacement.length } : SetupHeader).encoded ++
        (setup.name ++ (setup.namePad ++ (replacement ++ setup.newPad replacement))) := rfl

/-- The length of the data is overwritten in the header. -/
theorem copy_dataLen (value : UInt16) (rest : Bytes) :
    copyFromSlice (setup.header.encoded ++ rest) 8 10 (encodeU16 value setup.header.byteOrder) =
      .ok (({ setup.header with dataLen := value } : SetupHeader).encoded ++ rest) := by
  obtain ⟨⟨order, unused, major, minor, nameLen, dataLen, unused'⟩, -⟩ := setup
  have h := @copyFromSlice_append ([orderByte order, unused] ++ encodeU16 major order ++
      encodeU16 minor order ++ encodeU16 nameLen order) (encodeU16 dataLen order)
        (unused'.1 ++ rest) (encodeU16 value order) (by simp)
  simpa [SetupHeader.encoded] using h

/-- **Rewriting gives the packet with other data**, if their length fits the header. -/
theorem rewriteAuthData (h : replacement.length ≤ 65535) :
    X11.rewriteAuthData setup.encoded setup.parsed replacement =
      .ok (setup.withData replacement h).encoded := by
  have hcopy := setup.copy_dataLen (UInt16.ofNat replacement.length)
    (setup.name ++ (setup.namePad ++ (setup.data ++ setup.dataPad)))
  rw [← encoded] at hcopy
  have horder : setup.parsed.request.byteOrder = setup.header.byteOrder := rfl
  have hstart : setup.parsed.authDataStart = setup.dataStart := rfl
  have hend : setup.parsed.authDataEnd = setup.dataStart + setup.header.dataLen.toNat := rfl
  have hpadded : setup.parsed.authDataPaddedEnd = setup.header.required := rfl
  rw [X11.rewriteAuthData, if_neg (Nat.not_lt.mpr h), encoded_withData]
  simp only [bind, Except.bind, horder, hcopy, hstart, hend, hpadded, Nat.add_sub_cancel_left]
  -- the header with the new length is as long as before
  generalize hheader : ({ setup.header with dataLen := UInt16.ofNat replacement.length } :
    SetupHeader) = header
  have hfront : (header.encoded ++ (setup.name ++ setup.namePad)).length = setup.dataStart := by
    rw [← setup.length_front, List.length_append, header.length_encoded,
      @List.length_append _ setup.header.encoded, setup.header.length_encoded]
  have hwhole : header.encoded ++ (setup.name ++ (setup.namePad ++ (setup.data ++
      setup.dataPad))) = (header.encoded ++ (setup.name ++ setup.namePad)) ++
        (setup.data ++ setup.dataPad) := by
    simp only [List.append_assoc]
  rw [hwhole, newPad]
  by_cases hsame : replacement.length = setup.header.dataLen.toNat
  · have hreplace := @copyFromSlice_append (header.encoded ++ (setup.name ++ setup.namePad))
      setup.data setup.dataPad replacement (by rw [hsame, setup.length_data])
    rw [hfront, setup.length_data] at hreplace
    rw [if_pos hsame, if_pos hsame, hreplace]
    simp only [List.append_assoc]
  · have hlength : ((header.encoded ++ (setup.name ++ setup.namePad)) ++ (setup.data ++
        setup.dataPad)).length = setup.header.required := by
      rw [← setup.length_encoded, setup.encoded_eq, List.length_append, hfront,
        @List.length_append _ (setup.header.encoded ++ (setup.name ++ setup.namePad)),
        setup.length_front]
    have hnothing := slice_append ((header.encoded ++ (setup.name ++ setup.namePad)) ++
      (setup.data ++ setup.dataPad)) [] []
    rw [List.append_nil, List.append_nil, List.length_nil, Nat.add_zero, hlength] at hnothing
    rw [if_neg hsame, if_neg hsame, hlength, hnothing,
      paddedLen_eq (show replacement.length < 2 ^ 32 by omega)]
    dsimp only
    rw [← hfront, List.take_left, List.append_nil]
    simp only [List.append_assoc]
    rfl

theorem rewriteSetupAuthentication_ok {auth : X11AuthMaterial}
    (hname : setup.name = utf8Bytes auth.protocol.sshName)
    (hdata : setup.data = auth.fakeCookie.1) (hlocal : auth.localCookie.1.length ≤ 65535) :
    X11.rewriteSetupAuthentication setup.encoded auth =
      .ok (setup.parsed.request, (setup.withData auth.localCookie.1 hlocal).encoded) := by
  have hslice : slice setup.encoded setup.parsed.authDataStart setup.parsed.authDataEnd =
      .ok setup.data := setup.slice_data
  have hnameEq : setup.parsed.authProtocolBytes = utf8Bytes auth.protocol.sshName := hname
  rw [X11.rewriteSetupAuthentication, setup.parseSetupPacket]
  simp only [bind, Except.bind, hslice, hnameEq, hdata, ne_eq, not_true_eq_false, if_false,
    setup.rewriteAuthData hlocal]
  rfl

theorem rewriteSetupAuthentication_error {auth : X11AuthMaterial}
    (h : setup.name ≠ utf8Bytes auth.protocol.sshName ∨ 65535 < auth.localCookie.1.length) :
    ∃ error, X11.rewriteSetupAuthentication setup.encoded auth = .error (.error error) := by
  have hslice : slice setup.encoded setup.parsed.authDataStart setup.parsed.authDataEnd =
      .ok setup.data := setup.slice_data
  rw [X11.rewriteSetupAuthentication, setup.parseSetupPacket]
  simp only [bind, Except.bind, hslice]
  split
  · exact ⟨_, rfl⟩
  next hname =>
    split
    · exact ⟨_, rfl⟩
    · rcases h with hother | hlong
      · exact absurd hother hname
      · rw [X11.rewriteAuthData, if_pos hlong]
        exact ⟨_, rfl⟩

end Setup

/-- What is as long as a header tells is a complete packet. -/
theorem exists_setup {header : SetupHeader}
    (h : (header.encoded ++ rest).length = header.required) :
    ∃ setup : Setup, setup.header = header ∧ setup.encoded = header.encoded ++ rest := by
  rw [List.length_append, header.length_encoded, SetupHeader.required] at h
  have hname := le_pad header.nameLen.toNat
  have hdata := le_pad header.dataLen.toNat
  obtain ⟨name, rest, rfl, hnameLen, hrest⟩ :=
    exists_front header.nameLen.toNat rest (by omega)
  rw [List.length_append] at h
  obtain ⟨namePad, rest, rfl, hnamePadLen, hrest⟩ :=
    exists_front (pad header.nameLen.toNat - header.nameLen.toNat) rest (by omega)
  rw [List.length_append] at h
  obtain ⟨data, dataPad, rfl, hdataLen, hrest⟩ :=
    exists_front header.dataLen.toNat rest (by omega)
  rw [List.length_append] at h
  exact ⟨⟨header, name, namePad, data, dataPad, hnameLen, by omega, hdataLen, by omega⟩, rfl, rfl⟩

end OxideTerm.X11
