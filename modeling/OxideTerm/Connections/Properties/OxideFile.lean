import OxideTerm.Connections.OxideFile
import OxideTerm.Connections.Properties.Container

/-!
# Archives survive reading and writing

A sealed document is written as it was read. An archive of the first container is laid out again, with
a header that names the key derivation of today, so that it survives only if that is the one it had.
-/

namespace OxideTerm.Connections

open OxideTerm.Lib

variable {Metadata Payload : Type} {json : MetadataJson Metadata} {header : FileHeader}
  {version flags metadataLength dataLength : UInt32} {salt : Salt} {nonce : Nonce} {tag : Tag}
  {bytes data metadataBytes trailing rest : Bytes} {message : String}

/-! ## Headers -/

theorem length_toBytes (header : FileHeader) : header.toBytes.length = headerLen := by
  simp only [FileHeader.toBytes, List.length_append, length_u32ToLeBytes, header.magic.2]
  rfl

/-- A word of the header, where it is known what stands around it. -/
theorem word_append (front behind : Bytes) (word : UInt32)
    (h : bytes = front ++ (u32ToLeBytes word ++ behind)) :
    FileHeader.word bytes front.length message = .ok word := by
  have hslice := sliceBytes_append front (u32ToLeBytes word) behind
  rw [length_u32ToLeBytes] at hslice
  rw [FileHeader.word, h, hslice]
  show (fixed 4 (u32ToLeBytes word) (.error (.invalidFormat message)) >>= fun word => pure (u32FromLeBytes word.1)) = _
  rw [fixed, dif_pos (length_u32ToLeBytes word)]
  exact congrArg Except.ok (u32FromLeBytes_toLeBytes word)

theorem word_toBytes (header : FileHeader) (message : String) :
    FileHeader.word header.toBytes 5 message = .ok header.version ∧
    FileHeader.word header.toBytes 9 message = .ok header.flags ∧
    FileHeader.word header.toBytes 13 message = .ok header.metadataLength ∧
    FileHeader.word header.toBytes 17 message = .ok header.encryptedDataLength := by
  have hmagic := header.magic.2
  have hfive : header.magic.1.length = 5 := hmagic
  have hnine : (header.magic.1 ++ u32ToLeBytes header.version).length = 9 := by simp [hmagic]
  have hthirteen : (header.magic.1 ++ u32ToLeBytes header.version ++
      u32ToLeBytes header.flags).length = 13 := by simp [hmagic]
  have hseventeen : (header.magic.1 ++ u32ToLeBytes header.version ++
      u32ToLeBytes header.flags ++ u32ToLeBytes header.metadataLength).length = 17 := by
    simp [hmagic]
  refine ⟨?_, ?_, ?_, ?_⟩
  · have h := @word_append header.toBytes message header.magic.1 _ header.version (by
      simp only [FileHeader.toBytes, List.append_assoc]; rfl)
    rwa [hfive] at h
  · have h := @word_append header.toBytes message _ _ header.flags (by
      simp only [FileHeader.toBytes]; rw [List.append_assoc, List.append_assoc])
    rwa [hnine] at h
  · have h := @word_append header.toBytes message _ _ header.metadataLength (by
      simp only [FileHeader.toBytes]; rw [List.append_assoc])
    rwa [hthirteen] at h
  · have h := @word_append header.toBytes message
      (header.magic.1 ++ u32ToLeBytes header.version ++ u32ToLeBytes header.flags ++
        u32ToLeBytes header.metadataLength) [] header.encryptedDataLength (by
      simp only [FileHeader.toBytes, List.append_nil])
    rwa [hseventeen] at h

/-- A header is read back if it is one of the first container. -/
theorem FileHeader.fromBytes_toBytes (header : FileHeader) :
    (header.magic.1 = Connections.magic ∧ header.version = fileVersion ∧
      FileHeader.fromBytes header.toBytes = .ok header) ∨
    ((header.magic.1 ≠ Connections.magic ∨ header.version ≠ fileVersion) ∧
      ∃ error, FileHeader.fromBytes header.toBytes = .error (.error error)) := by
  have hlength := length_toBytes header
  have hslice : sliceBytes header.toBytes 0 5 = .ok header.magic.1 := by
    have h := sliceBytes_append [] header.magic.1 (u32ToLeBytes header.version ++
      (u32ToLeBytes header.flags ++ (u32ToLeBytes header.metadataLength ++
        u32ToLeBytes header.encryptedDataLength)))
    rw [List.nil_append, List.length_nil, header.magic.2] at h
    rw [FileHeader.toBytes]
    simpa only [List.append_assoc] using h
  have hfixed : fixed 5 header.magic.1 .panic = .ok header.magic := dif_pos header.magic.2
  have hversion := (word_toBytes header "Failed to read version").1
  have hflags := (word_toBytes header "Failed to read flags").2.1
  have hmetadata := (word_toBytes header "Failed to read metadata length").2.2.1
  have hdata := (word_toBytes header "Failed to read encrypted data length").2.2.2
  rw [FileHeader.fromBytes, if_neg (by omega)]
  simp only [hslice, hfixed, bind, Except.bind, hversion, hflags, hmetadata, hdata]
  by_cases hmagic : header.magic.1 = Connections.magic
  · rw [if_neg (not_not.mpr hmagic)]
    by_cases hone : header.version = fileVersion
    · rw [if_neg (not_not.mpr hone)]
      exact .inl ⟨hmagic, hone, rfl⟩
    · rw [if_pos hone]
      exact .inr ⟨.inr hone, _, rfl⟩
  · rw [if_pos hmagic]
    exact .inr ⟨.inl hmagic, _, rfl⟩

/-- What is long enough begins with some header. -/
theorem exists_header (h : headerLen ≤ data.length) :
    ∃ (header : FileHeader) (rest : Bytes), data = header.toBytes ++ rest := by
  have hheaderLen : headerLen = 21 := rfl
  obtain ⟨magic, rest, rfl, hmagic⟩ := exists_fixed 5 data (by omega)
  rw [List.length_append, magic.2] at h
  obtain ⟨version, rest, rfl, hversion⟩ := exists_fixed 4 rest (by omega)
  obtain ⟨flags, rest, rfl, hflags⟩ := exists_fixed 4 rest (by omega)
  obtain ⟨metadataLength, rest, rfl, hmetadata⟩ := exists_fixed 4 rest (by omega)
  obtain ⟨dataLength, rest, rfl, hdata⟩ := exists_fixed 4 rest (by omega)
  refine ⟨⟨magic, u32FromLeBytes version.1, u32FromLeBytes flags.1,
    u32FromLeBytes metadataLength.1, u32FromLeBytes dataLength.1⟩, rest, ?_⟩
  simp only [FileHeader.toBytes, u32ToLeBytes_fromLeBytes version.2,
    u32ToLeBytes_fromLeBytes flags.2, u32ToLeBytes_fromLeBytes metadataLength.2,
    u32ToLeBytes_fromLeBytes dataLength.2, List.append_assoc]

/-! ## Parts -/

theorem readExact_append {n : Nat} (field : FixedBytes n) (rest : Bytes) (message : String) :
    readExact n (field.1 ++ rest) message = .ok (field, rest) := by
  have hle : n ≤ (field.1 ++ rest).length := by rw [List.length_append, field.2]; omega
  rw [readExact, dif_pos hle]
  congr 2
  · exact Subtype.ext (List.take_left' field.2)
  · exact List.drop_left' field.2

/-- An archive of the first container, with what may stand behind it. -/
def archive (flags metadataLength dataLength : UInt32) (salt : Salt) (nonce : Nonce)
    (metadataBytes data : Bytes) (tag : Tag) (trailing : Bytes) : Bytes :=
  container fileVersion flags metadataLength dataLength salt nonce
    (metadataBytes ++ (data ++ (tag.1 ++ trailing)))

/-- The file that is read from an archive, if its metadata can be read. -/
def fileOf (flags : UInt32) (salt : Salt) (nonce : Nonce) (data : Bytes) (tag : Tag)
    (metadata : Metadata) : OxideFile Metadata :=
  { metadata := some metadata
    archive := none
    salt
    nonce
    encryptedData := data
    tag
    kdfVersion := flags &&& kdfVersionMask }

theorem container_eq (version flags metadataLength dataLength : UInt32) (salt : Salt)
    (nonce : Nonce) (message : Bytes) :
    container version flags metadataLength dataLength salt nonce message =
      (FileHeader.mk ⟨magic, length_magic⟩ version flags metadataLength dataLength).toBytes ++
        (salt.1 ++ (nonce.1 ++ message)) := by
  rw [container, authenticated]
  simp only [List.append_assoc]

/-- **The parts of an archive are read**, whatever stands behind it. -/
theorem fromParts_archive (hmetadata : metadataBytes.length = metadataLength.toNat)
    (hdata : data.length = dataLength.toNat) :
    OxideFile.fromParts json
        (archive flags metadataLength dataLength salt nonce metadataBytes data tag trailing) =
      (json.fromSlice metadataBytes).elim (.error (.error .json)) fun metadata =>
        .ok (fileOf flags salt nonce data tag metadata) := by
  rw [archive, container_eq]
  generalize hheader : FileHeader.mk ⟨magic, length_magic⟩ fileVersion flags metadataLength
    dataLength = header
  have hread : FileHeader.fromBytes header.toBytes = .ok header := by
    rcases FileHeader.fromBytes_toBytes header with ⟨-, -, hok⟩ | ⟨hbad, -⟩
    · exact hok
    · rw [← hheader] at hbad
      exact absurd hbad (by simp)
  have hfirst := readExact_append ⟨header.toBytes, length_toBytes header⟩
    (salt.1 ++ (nonce.1 ++ (metadataBytes ++ (data ++ (tag.1 ++ trailing)))))
    "Failed to read header"
  have hmetadata' : metadataBytes.length = header.metadataLength.toNat := by
    rw [← hheader]
    exact hmetadata
  have hdata' : data.length = header.encryptedDataLength.toNat := by
    rw [← hheader]
    exact hdata
  have hkdf : header.kdfVersion = flags &&& kdfVersionMask := by
    rw [← hheader]
    rfl
  have hlong : ¬ (header.toBytes ++ (salt.1 ++ (nonce.1 ++ (metadataBytes ++ (data ++
      (tag.1 ++ trailing)))))).length < headerLen + saltLen + nonceLen +
        header.metadataLength.toNat + header.encryptedDataLength.toNat + tagLen := by
    simp only [List.length_append, length_toBytes, salt.2, nonce.2, tag.2, hmetadata', hdata']
    omega
  have hmetadataRead := readExact_append ⟨metadataBytes, hmetadata'⟩
    (data ++ (tag.1 ++ trailing)) "Failed to read metadata"
  have hdataRead := readExact_append ⟨data, hdata'⟩ (tag.1 ++ trailing)
    "Failed to read encrypted data"
  dsimp only at hfirst hmetadataRead hdataRead
  rw [OxideFile.fromParts, hfirst]
  simp only [bind, Except.bind, hread, if_neg hlong, readExact_append, hmetadataRead]
  cases json.fromSlice metadataBytes with
  | none => rfl
  | some metadata =>
    simp only [hdataRead, readExact_append, hkdf]
    rfl

/-- **What is read by its parts is an archive**, or an error comes back. -/
theorem fromParts_cases (json : MetadataJson Metadata) (bytes : Bytes) :
    (∃ flags metadataLength dataLength salt nonce metadataBytes data tag trailing,
      bytes = archive flags metadataLength dataLength salt nonce metadataBytes data tag trailing ∧
        metadataBytes.length = metadataLength.toNat ∧ data.length = dataLength.toNat) ∨
    ∃ error, OxideFile.fromParts json bytes = .error (.error error) := by
  by_cases hheaderLen : headerLen ≤ bytes.length
  · obtain ⟨header, rest, rfl⟩ := exists_header hheaderLen
    have hfirst := readExact_append ⟨header.toBytes, length_toBytes header⟩ rest
      "Failed to read header"
    dsimp only at hfirst
    rcases FileHeader.fromBytes_toBytes header with ⟨hmagic, hversion, hread⟩ | ⟨-, error, hread⟩
    · by_cases hlong : (header.toBytes ++ rest).length < headerLen + saltLen + nonceLen +
          header.metadataLength.toNat + header.encryptedDataLength.toNat + tagLen
      · refine .inr ⟨.invalidFormat "File is shorter than header lengths", ?_⟩
        rw [OxideFile.fromParts, hfirst]
        simp only [bind, Except.bind, hread, if_pos hlong]
      · refine .inl ?_
        rw [List.length_append, length_toBytes] at hlong
        have hsaltLen : saltLen = 32 := rfl
        have hnonceLen : nonceLen = 12 := rfl
        have htagLen : tagLen = 16 := rfl
        obtain ⟨salt, rest, rfl, hsalt⟩ := exists_fixed saltLen rest (by omega)
        rw [List.length_append, salt.2] at hlong
        obtain ⟨nonce, rest, rfl, hnonce⟩ := exists_fixed nonceLen rest (by omega)
        rw [List.length_append, nonce.2] at hlong
        obtain ⟨metadataBytes, rest, rfl, hmetadata⟩ :=
          exists_fixed header.metadataLength.toNat rest (by omega)
        rw [List.length_append, metadataBytes.2] at hlong
        obtain ⟨data, rest, rfl, hdata⟩ :=
          exists_fixed header.encryptedDataLength.toNat rest (by omega)
        rw [List.length_append, data.2] at hlong
        obtain ⟨tag, trailing, rfl, htag⟩ := exists_fixed tagLen rest (by omega)
        refine ⟨header.flags, header.metadataLength, header.encryptedDataLength, salt, nonce,
          metadataBytes.1, data.1, tag, trailing, ?_, metadataBytes.2, data.2⟩
        rw [archive, container_eq]
        congr 2
        obtain ⟨magic', version, flags, metadataLength, dataLength⟩ := header
        obtain rfl : magic' = ⟨magic, length_magic⟩ := Subtype.ext hmagic
        obtain rfl : version = fileVersion := hversion
        rfl
    · refine .inr ⟨error, ?_⟩
      rw [OxideFile.fromParts, hfirst]
      simp only [bind, Except.bind, hread]
  · refine .inr ⟨.invalidFormat "Failed to read header", ?_⟩
    rw [OxideFile.fromParts, readExact, dif_neg hheaderLen]
    rfl

/-! ## Both containers -/

theorem getBytes_container {message : Bytes} :
    getBytes (container version flags metadataLength dataLength salt nonce message) 5 9 =
      some (u32ToLeBytes version) := by
  have hslice := sliceBytes_append magic (u32ToLeBytes version) (u32ToLeBytes flags ++
    (u32ToLeBytes metadataLength ++ (u32ToLeBytes dataLength ++ (salt.1 ++ (nonce.1 ++ message)))))
  rw [length_u32ToLeBytes, length_magic] at hslice
  rw [getBytes, container_eq, FileHeader.toBytes]
  simp only [List.append_assoc]
  rw [hslice]
  rfl

theorem u32ToLeBytes_inj {v w : UInt32} (h : u32ToLeBytes v = u32ToLeBytes w) : v = w := by
  have hread := congrArg u32FromLeBytes h
  rwa [u32FromLeBytes_toLeBytes, u32FromLeBytes_toLeBytes] at hread

theorem fromBytes_archive (hmetadata : metadataBytes.length = metadataLength.toNat)
    (hdata : data.length = dataLength.toNat) :
    OxideFile.fromBytes json
        (archive flags metadataLength dataLength salt nonce metadataBytes data tag trailing) =
      (json.fromSlice metadataBytes).elim (.error (.error .json)) fun metadata =>
        .ok (fileOf flags salt nonce data tag metadata) := by
  rw [OxideFile.fromBytes, if_neg, fromParts_archive hmetadata hdata]
  rw [archive, getBytes_container, Option.some.injEq]
  intro h
  exact absurd (u32ToLeBytes_inj h) (by decide)

/-- What a sealed document is read as. -/
theorem IsDocument.fromDocument (h : IsDocument flags dataLength salt nonce bytes data) :
    ((OxideFile.fromDocument data : Except Failure (OxideFile Metadata)) = .ok
      { metadata := none
        archive := some data
        salt
        nonce
        encryptedData := []
        tag := ⟨List.replicate tagLen 0, length_zeros tagLen⟩
        kdfVersion := flags &&& kdfVersionMask }) ∨
    ∃ error, (OxideFile.fromDocument data : Except Failure (OxideFile Metadata)) =
      .error (.error error) := by
  have hvalid := h.validateContainer
  obtain ⟨rfl, -, -, -⟩ := h
  obtain ⟨hsalt, hnonce, -, -⟩ := @sliceBytes_document flags dataLength salt nonce bytes
  have hfixedSalt : fixed saltLen salt.1 (.error .cryptoError) = .ok salt := dif_pos salt.2
  have hfixedNonce : fixed nonceLen nonce.1 (.error .cryptoError) = .ok nonce := dif_pos nonce.2
  simp only [OxideFile.fromDocument, bind, Except.bind, hvalid, hsalt, hnonce, hfixedSalt,
    hfixedNonce]
  split
  · exact .inr ⟨_, rfl⟩
  · exact .inl rfl

/-- **Bytes are read without a panic:** they are a sealed document, which is kept, or an archive of
the first container, or an error comes back. -/
theorem fromBytes_cases (json : MetadataJson Metadata) (bytes : Bytes) :
    (∃ flags dataLength salt nonce message, IsDocument flags dataLength salt nonce message bytes ∧
      ∃ file, OxideFile.fromBytes json bytes = .ok file ∧ file.archive = some bytes) ∨
    (∃ flags metadataLength dataLength salt nonce metadataBytes data tag trailing,
      bytes = archive flags metadataLength dataLength salt nonce metadataBytes data tag trailing ∧
        metadataBytes.length = metadataLength.toNat ∧ data.length = dataLength.toNat) ∨
    ∃ error, OxideFile.fromBytes json bytes = .error (.error error) := by
  rw [OxideFile.fromBytes]
  split
  · rcases validateContainer_cases bytes with
      ⟨flags, dataLength, salt, nonce, message, hdocument, -⟩ | ⟨error, hinvalid⟩
    · rcases @IsDocument.fromDocument Metadata _ _ _ _ _ _ hdocument with hok | ⟨error, herror⟩
      · exact .inl ⟨flags, dataLength, salt, nonce, message, hdocument, _, hok, rfl⟩
      · exact .inr (.inr ⟨error, herror⟩)
    · refine .inr (.inr ⟨error, ?_⟩)
      rw [OxideFile.fromDocument, hinvalid]
      rfl
  · rcases fromParts_cases json bytes with hparts | herror
    · exact .inr (.inl hparts)
    · exact .inr (.inr herror)

/-! ## Writing -/

theorem toBytes_fileOf (json : MetadataJson Metadata) (metadata : Metadata) :
    (fileOf flags salt nonce data tag metadata).toBytes json =
      archive currentKdf (UInt32.ofNat (json.toVec (some metadata)).length)
        (UInt32.ofNat data.length) salt nonce (json.toVec (some metadata)) data tag [] := by
  rw [archive, container_eq]
  simp only [OxideFile.toBytes, fileOf, FileHeader.new, List.append_assoc, List.append_nil]

/-- **What is written of a file is read again**, now with the key derivation of today. -/
theorem fromBytes_toBytes (hjson : json.Lawful) {metadata : Metadata}
    (hdata : data.length = dataLength.toNat)
    (hlength : (json.toVec (some metadata)).length < 2 ^ 32) :
    OxideFile.fromBytes json ((fileOf flags salt nonce data tag metadata).toBytes json) =
      .ok (fileOf currentKdf salt nonce data tag metadata) := by
  have hmetadata : (UInt32.ofNat (json.toVec (some metadata)).length).toNat =
      (json.toVec (some metadata)).length := UInt32.toNat_ofNat_of_lt' hlength
  have hdata' : (UInt32.ofNat data.length).toNat = data.length := by
    rw [hdata]
    exact congrArg UInt32.toNat UInt32.ofNat_toNat
  rw [toBytes_fileOf, fromBytes_archive hmetadata.symm hdata'.symm, hjson.fromSlice_toVec]
  rfl

/-- Where the length of the metadata is cut to 32 bits, only a part of it is read again. -/
theorem fromBytes_toBytes_of_long (hjson : json.Lawful) {metadata : Metadata}
    (hdata : data.length = dataLength.toNat)
    (hlength : 2 ^ 32 ≤ (json.toVec (some metadata)).length) :
    OxideFile.fromBytes json ((fileOf flags salt nonce data tag metadata).toBytes json) =
      .error (.error .json) := by
  generalize hvec : json.toVec (some metadata) = vec at hlength
  have hshort : (UInt32.ofNat vec.length).toNat < 2 ^ 32 := (UInt32.ofNat vec.length).toNat_lt
  have hdata' : (UInt32.ofNat data.length).toNat = data.length := by
    rw [hdata]
    exact congrArg UInt32.toNat UInt32.ofNat_toNat
  have hdataLt : data.length < 2 ^ 32 := by
    rw [hdata]
    exact dataLength.toNat_lt
  have htagLen : tagLen = 16 := rfl
  -- what is behind the part that is read as metadata has room for the data and the tag
  obtain ⟨front, rest, hfront, hrest⟩ := exists_fixed (UInt32.ofNat vec.length).toNat
    (vec ++ (data ++ (tag.1 ++ []))) (by rw [List.length_append]; omega)
  have hrestLength : data.length + tagLen ≤ rest.length := by
    rw [hrest, List.length_append, List.length_append, List.length_append, tag.2]
    omega
  obtain ⟨data', rest, rfl, hdataRest⟩ := exists_fixed data.length rest (by omega)
  rw [List.length_append, data'.2] at hrestLength
  obtain ⟨tag', trailing, rfl, -⟩ := exists_fixed tagLen rest (by omega)
  have harchive : archive currentKdf (UInt32.ofNat vec.length) (UInt32.ofNat data.length) salt nonce
      vec data tag [] = archive currentKdf (UInt32.ofNat vec.length) (UInt32.ofNat data.length) salt
        nonce front.1 data'.1 tag' trailing := by
    rw [archive, hfront, ← archive]
  have hpart : ∃ behind, vec = front.1 ++ behind ∧ behind ≠ [] := by
    refine ⟨vec.drop front.1.length, ?_, ?_⟩
    · have htake := congrArg (List.take front.1.length) hfront
      rw [List.take_left, List.take_append_of_le_length (by rw [front.2]; omega)] at htake
      exact (List.take_append_drop front.1.length vec).symm.trans (by rw [htake])
    · rw [← List.length_pos_iff, List.length_drop, front.2]
      omega
  obtain ⟨behind, hbehind, hne⟩ := hpart
  rw [toBytes_fileOf, hvec, harchive, fromBytes_archive front.2 (by rw [data'.2, hdata']),
    hjson.fromSlice_front metadata front.1 behind (hvec.trans hbehind) hne]
  rfl

/-! ## What survives -/

/-- What is written of a file is read as a file with the same fields, which decrypts to the same. -/
def OxideFile.Survives (json : MetadataJson Metadata) (cipher : Aead) (argon2 : Argon2)
    (pack : PayloadPack Metadata Payload) (file : OxideFile Metadata) : Prop :=
  ∃ file', OxideFile.fromBytes json (file.toBytes json) = .ok file' ∧ file'.salt = file.salt ∧
    file'.nonce = file.nonce ∧ file'.tag = file.tag ∧ file'.encryptedData = file.encryptedData ∧
    file'.metadata = file.metadata ∧ file'.kdfVersion = file.kdfVersion ∧
    ∀ password, file'.decrypt cipher argon2 pack password = file.decrypt cipher argon2 pack password

/-- Bytes of which everything is written again: the second container, or the first with the key
derivation of today and metadata whose text fits a word. -/
def Rewritable (json : MetadataJson Metadata) (bytes : Bytes) : Prop :=
  (∃ flags metadataLength dataLength salt nonce message,
    bytes = container containerVersion flags metadataLength dataLength salt nonce message) ∨
  ∃ flags metadataLength dataLength salt nonce metadataBytes data tag trailing,
    bytes = archive flags metadataLength dataLength salt nonce metadataBytes data tag trailing ∧
      metadataBytes.length = metadataLength.toNat ∧ data.length = dataLength.toNat ∧
      flags &&& kdfVersionMask = currentKdf ∧
      ∀ metadata, json.fromSlice metadataBytes = some metadata →
        (json.toVec (some metadata)).length < 2 ^ 32

theorem OxideFile.survives_of_archive {cipher : Aead} {argon2 : Argon2}
    {pack : PayloadPack Metadata Payload} {file : OxideFile Metadata}
    (hread : OxideFile.fromBytes json bytes = .ok file) (harchive : file.archive = some bytes) :
    file.Survives json cipher argon2 pack := by
  refine ⟨file, ?_, rfl, rfl, rfl, rfl, rfl, rfl, fun _ => rfl⟩
  rw [OxideFile.toBytes, harchive]
  exact hread

/-- **An archive survives reading and writing if and only if its bytes are rewritable**, and reading
never looks outside its input. -/
theorem fromBytes_survives_iff (json : MetadataJson Metadata) (hjson : json.Lawful) (cipher : Aead)
    (argon2 : Argon2) (pack : PayloadPack Metadata Payload) (bytes : Bytes) :
    OxideFile.fromBytes json bytes ≠ .error .panic ∧
    ∀ file, OxideFile.fromBytes json bytes = .ok file →
      (file.Survives json cipher argon2 pack ↔ Rewritable json bytes) := by
  rcases fromBytes_cases json bytes with
    ⟨flags, dataLength, salt, nonce, message, hdocument, file, hread, harchive⟩ |
    ⟨flags, metadataLength, dataLength, salt, nonce, metadataBytes, data, tag, trailing, rfl,
      hmetadata, hdata⟩ | ⟨error, herror⟩
  · rw [hread]
    refine ⟨fun h => (by cases h), fun file' hfile' => ?_⟩
    cases hfile'
    refine ⟨fun _ => .inl ⟨flags, 0, dataLength, salt, nonce, message, hdocument.eq⟩, fun _ => ?_⟩
    exact OxideFile.survives_of_archive hread harchive
  · rw [fromBytes_archive hmetadata hdata]
    cases hslice : json.fromSlice metadataBytes with
    | none => exact ⟨fun h => (by cases h), fun _ hfile => (by cases hfile)⟩
    | some metadata =>
      refine ⟨fun h => (by cases h), fun file hfile => ?_⟩
      obtain rfl : fileOf flags salt nonce data tag metadata = file := Except.ok.inj hfile
      constructor
      · rintro ⟨file', hread, -, -, -, -, -, hkdf, -⟩
        have hlength : (json.toVec (some metadata)).length < 2 ^ 32 := by
          by_contra hlong
          rw [fromBytes_toBytes_of_long hjson hdata (Nat.not_lt.mp hlong)] at hread
          cases hread
        rw [fromBytes_toBytes hjson hdata hlength] at hread
        cases hread
        refine .inr ⟨flags, metadataLength, dataLength, salt, nonce, metadataBytes, data, tag,
          trailing, rfl, hmetadata, hdata, hkdf.symm, fun metadata' hmetadata' => ?_⟩
        rw [hslice] at hmetadata'
        cases hmetadata'
        exact hlength
      · rintro (⟨flags', metadataLength', dataLength', salt', nonce', message, hsame⟩ |
          ⟨flags', metadataLength', dataLength', salt', nonce', metadataBytes', data', tag',
            trailing', hsame, hmetadata', hdata', hkdf, hlength⟩)
        · -- the versions of the containers differ
          have hversion := congrArg (getBytes · 5 9) hsame
          rw [archive, getBytes_container, getBytes_container, Option.some.injEq] at hversion
          exact absurd (u32ToLeBytes_inj hversion) (by decide)
        · have hread : OxideFile.fromBytes json (archive flags' metadataLength' dataLength' salt'
              nonce' metadataBytes' data' tag' trailing') = _ :=
            fromBytes_archive hmetadata' hdata'
          rw [← hsame, fromBytes_archive hmetadata hdata, hslice] at hread
          cases hslice' : json.fromSlice metadataBytes' with
          | none =>
            rw [hslice'] at hread
            cases hread
          | some metadata' =>
            rw [hslice'] at hread
            have hfile : fileOf flags salt nonce data tag metadata =
                fileOf flags' salt' nonce' data' tag' metadata' := Except.ok.inj hread
            rw [hfile]
            have hagain : OxideFile.fromBytes json
                ((fileOf flags' salt' nonce' data' tag' metadata').toBytes json) = _ :=
              fromBytes_toBytes hjson hdata' (hlength metadata' hslice')
            have hsameKdf : fileOf currentKdf salt' nonce' data' tag' metadata' =
                fileOf flags' salt' nonce' data' tag' metadata' := by
              rw [fileOf, fileOf, hkdf]
              rfl
            rw [hsameKdf] at hagain
            exact ⟨_, hagain, rfl, rfl, rfl, rfl, rfl, rfl, fun _ => rfl⟩
  · rw [herror]
    exact ⟨fun h => (by cases h), fun _ hfile => (by cases hfile)⟩

/-- The JSON text of metadata that says nothing. -/
@[irreducible] def emptyMetadataText : Bytes :=
  ("\x7b\"exported_at\":\"1970-01-01T00:00:00Z\",\"exported_by\":\"\",\"description\":null," ++
    "\"num_connections\":0,\"connection_names\":[]\x7d").toList.map fun ch => UInt8.ofNat ch.toNat

/-- JSON, as far as it is about metadata that says nothing. -/
def emptyMetadataJson : MetadataJson Unit where
  toVec metadata := if metadata.isSome then emptyMetadataText else [110, 117, 108, 108]
  fromSlice bytes := if bytes = emptyMetadataText then some () else none

theorem emptyMetadataJson_lawful : emptyMetadataJson.Lawful := by
  refine ⟨fun _ => if_pos rfl, fun _ front behind htext hne => if_neg ?_⟩
  rintro rfl
  have htext : emptyMetadataText = emptyMetadataText ++ behind := htext
  have hlength := congrArg List.length htext
  rw [List.length_append] at hlength
  have hpos := List.length_pos_iff.mpr hne
  omega

theorem length_emptyMetadataText : emptyMetadataText.length < 2 ^ 32 := by decide +kernel

/-- An archive of the first container with a version of the key derivation. -/
def emptyArchive (flags : UInt32) : Bytes :=
  archive flags (UInt32.ofNat emptyMetadataText.length) 0 ⟨_, length_zeros saltLen⟩
    ⟨_, length_zeros nonceLen⟩ emptyMetadataText [] ⟨_, length_zeros tagLen⟩ []

theorem fromBytes_emptyArchive (flags : UInt32) :
    OxideFile.fromBytes emptyMetadataJson (emptyArchive flags) =
      .ok (fileOf flags ⟨_, length_zeros saltLen⟩ ⟨_, length_zeros nonceLen⟩ []
        ⟨_, length_zeros tagLen⟩ ()) := by
  have hlength : (UInt32.ofNat emptyMetadataText.length).toNat = emptyMetadataText.length :=
    UInt32.toNat_ofNat_of_lt' length_emptyMetadataText
  have hread : OxideFile.fromBytes emptyMetadataJson (emptyArchive flags) = _ :=
    fromBytes_archive hlength.symm rfl
  have hslice : emptyMetadataJson.fromSlice emptyMetadataText = some () := if_pos rfl
  rw [hread, hslice]
  rfl

/-- Services that decrypt nothing. -/
def emptyAead : Aead := ⟨fun _ _ _ _ => none, fun _ _ _ _ => none⟩

def emptyArgon2 : Argon2 := fun _ _ _ => none

def emptyPack : PayloadPack Unit Unit := ⟨fun _ => none, fun _ => none, fun _ => .ok ()⟩

theorem fromBytes_survives_iff_empty :
    OxideFile.fromBytes emptyMetadataJson (emptyArchive currentKdf) ≠ .error .panic ∧
    ∀ file, OxideFile.fromBytes emptyMetadataJson (emptyArchive currentKdf) = .ok file →
      (file.Survives emptyMetadataJson emptyAead emptyArgon2 emptyPack ↔
        Rewritable emptyMetadataJson (emptyArchive currentKdf)) :=
  fromBytes_survives_iff emptyMetadataJson emptyMetadataJson_lawful emptyAead emptyArgon2 emptyPack _

/-- **An archive whose key is derived by the second version** is written with the first. -/
theorem second_kdf_not_survives : ¬ ∀ (Metadata Payload : Type) (json : MetadataJson Metadata),
    json.Lawful → ∀ (cipher : Aead) (argon2 : Argon2) (pack : PayloadPack Metadata Payload)
      (bytes : Bytes) (file : OxideFile Metadata), OxideFile.fromBytes json bytes = .ok file →
        file.Survives json cipher argon2 pack := by
  intro h
  obtain ⟨file', hread, -, -, -, -, -, hkdf, -⟩ := h Unit Unit emptyMetadataJson
    emptyMetadataJson_lawful ⟨fun _ _ _ _ => none, fun _ _ _ _ => none⟩ (fun _ _ _ => none)
    ⟨fun _ => none, fun _ => none, fun _ => .ok ()⟩ _ _ (fromBytes_emptyArchive kdfV2)
  rw [@fromBytes_toBytes _ emptyMetadataJson _ 0 _ _ _ _ emptyMetadataJson_lawful () rfl
    length_emptyMetadataText] at hread
  cases hread
  exact absurd hkdf (by decide)

end OxideTerm.Connections
