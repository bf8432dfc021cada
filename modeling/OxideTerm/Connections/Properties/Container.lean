import OxideTerm.Connections.Container

/-!
# Documents open only as what was sealed

Every byte string that is long enough and begins with the magic bytes is a container with some
header, and on containers every slice of the openers is within bounds. What is checked of the header
before the cipher is asked is what sealing writes there, so a document opens just where it is an
output of sealing.
-/

namespace OxideTerm.Connections

open OxideTerm.Lib

/-! ## Keys -/

theorem OxideBatchDecryptionContext.keyFor_fst {argon2 : Argon2}
    (context : OxideBatchDecryptionContext argon2) (salt : Salt) (kdfVersion : UInt32) :
    (context.keyFor salt kdfVersion).1 = deriveKey argon2 context.password salt kdfVersion := by
  rw [keyFor]
  split
  · next cached hcached =>
    obtain ⟨hmem, hsame⟩ := Option.filter_eq_some_iff.mp hcached
    obtain ⟨rfl, rfl⟩ := of_decide_eq_true hsame
    exact (context.derived cached hmem).symm
  · split
    · next error h => exact h.symm
    · next key h => exact h.symm

theorem OxideBatchDecryptionContext.password_keyFor {argon2 : Argon2}
    (context : OxideBatchDecryptionContext argon2) (salt : Salt) (kdfVersion : UInt32) :
    (context.keyFor salt kdfVersion).2.password = context.password := by
  rw [keyFor]
  split
  · rfl
  · split <;> rfl

/-- The versions of the key derivation fit the mask. -/
theorem version_of_deriveKey {argon2 : Argon2} {password : Bytes} {salt : Salt} {key : Key}
    {kdfVersion : UInt32} (h : deriveKey argon2 password salt kdfVersion = .ok key) :
    kdfVersion = 0 ∨ kdfVersion = kdfV1 ∨ kdfVersion = kdfV2 := by
  by_contra hother
  rw [not_or, not_or] at hother
  rw [deriveKey, KdfParams.forVersion, if_neg fun hor => hor.elim hother.2.1 hother.1,
    if_neg hother.2.2] at h
  cases h

/-! ## Containers -/

/-- The bytes of a container: what is authenticated, and the message behind it. -/
def authenticated (version flags metadataLength dataLength : UInt32) (salt : Salt)
    (nonce : Nonce) : Bytes :=
  (FileHeader.mk ⟨magic, length_magic⟩ version flags metadataLength dataLength).toBytes ++ salt.1 ++ nonce.1

def container (version flags metadataLength dataLength : UInt32) (salt : Salt) (nonce : Nonce)
    (message : Bytes) : Bytes :=
  authenticated version flags metadataLength dataLength salt nonce ++ message

section Layout

variable (version flags metadataLength dataLength : UInt32) (salt : Salt) (nonce : Nonce)
  (message : Bytes)

theorem length_authenticated :
    (authenticated version flags metadataLength dataLength salt nonce).length = prefixLen := by
  simp only [authenticated, FileHeader.toBytes, List.length_append, length_u32ToLeBytes, salt.2,
    nonce.2]
  rfl

theorem length_container :
    (container version flags metadataLength dataLength salt nonce message).length =
      prefixLen + message.length := by
  rw [container, List.length_append, length_authenticated]

theorem sliceBytes_append (front middle behind : Bytes) :
    sliceBytes (front ++ (middle ++ behind)) front.length (front.length + middle.length) =
      .ok middle := by
  rw [sliceBytes, if_pos ⟨Nat.le_add_right _ _, by simp⟩, List.drop_left, Nat.add_sub_cancel_left,
    List.take_left]

/-- A word of the bytes, where it is known what stands around it. -/
theorem readU32_append (front behind : Bytes) (word : UInt32) {bytes : Bytes}
    (h : bytes = front ++ (u32ToLeBytes word ++ behind)) :
    readU32 bytes front.length = .ok word := by
  have hslice := sliceBytes_append front (u32ToLeBytes word) behind
  rw [length_u32ToLeBytes] at hslice
  rw [readU32, h, hslice]
  show (fixed 4 (u32ToLeBytes word) .panic >>= fun word => pure (u32FromLeBytes word.1)) = _
  rw [fixed, dif_pos (length_u32ToLeBytes word)]
  exact congrArg Except.ok (u32FromLeBytes_toLeBytes word)

/-- The words of a header are read back. -/
theorem readU32_container :
    readU32 (container version flags metadataLength dataLength salt nonce message) 5 = .ok version ∧
    readU32 (container version flags metadataLength dataLength salt nonce message) 9 = .ok flags ∧
    readU32 (container version flags metadataLength dataLength salt nonce message) 13 =
      .ok metadataLength ∧
    readU32 (container version flags metadataLength dataLength salt nonce message) 17 =
      .ok dataLength := by
  refine ⟨?_, ?_, ?_, ?_⟩
  · exact readU32_append magic _ version (by
      simp only [container, authenticated, FileHeader.toBytes, List.append_assoc]
      rfl)
  · exact readU32_append (magic ++ u32ToLeBytes version) _ flags (by
      simp only [container, authenticated, FileHeader.toBytes, List.append_assoc]
      rfl)
  · exact readU32_append (magic ++ u32ToLeBytes version ++ u32ToLeBytes flags) _ metadataLength (by
      simp only [container, authenticated, FileHeader.toBytes, List.append_assoc]
      rfl)
  · exact readU32_append (magic ++ u32ToLeBytes version ++ u32ToLeBytes flags ++
      u32ToLeBytes metadataLength) _ dataLength (by
      simp only [container, authenticated, FileHeader.toBytes, List.append_assoc]
      rfl)

/-- What is checked of a container. -/
structure Checked : Prop where
  version : version = containerVersion
  metadataLength : metadataLength = 0
  flags : flags &&& ~~~(localKeyFlag ||| kdfVersionMask) = 0
  dataLength : message.length = dataLength.toNat + tagLen

instance : Decidable (Checked version flags metadataLength dataLength message) :=
  decidable_of_iff (version = containerVersion ∧ metadataLength = 0 ∧
      flags &&& ~~~(localKeyFlag ||| kdfVersionMask) = 0 ∧
      message.length = dataLength.toNat + tagLen)
    ⟨fun h => ⟨h.1, h.2.1, h.2.2.1, h.2.2.2⟩, fun h => ⟨h.1, h.2, h.3, h.4⟩⟩

variable {version flags metadataLength dataLength salt nonce message}

/-- A container is valid as far as it can be seen without the key, or an error comes back. -/
theorem validateContainer_container (hlength : tagLen + 1 ≤ message.length) :
    (Checked version flags metadataLength dataLength message ∧
      validateContainer (container version flags metadataLength dataLength salt nonce message) =
        .ok flags) ∨
    ¬ Checked version flags metadataLength dataLength message ∧
      ∃ error, validateContainer
        (container version flags metadataLength dataLength salt nonce message) =
          .error (.error error) := by
  obtain ⟨hversion, hflags, hmetadata, hdata⟩ :=
    readU32_container version flags metadataLength dataLength salt nonce message
  have hmagic : magic <+: container version flags metadataLength dataLength salt nonce message := by
    simp only [container, authenticated, FileHeader.toBytes, List.append_assoc]
    exact List.prefix_append _ _
  have hlong : ¬ ((container version flags metadataLength dataLength salt nonce message).length <
      prefixLen + tagLen + 1 ∨
      ¬ magic <+: container version flags metadataLength dataLength salt nonce message) := by
    rw [length_container, not_or, not_not]
    exact ⟨by omega, hmagic⟩
  have hadd : checkedAdd dataLength.toNat (prefixLen + tagLen) =
      some (dataLength.toNat + (prefixLen + tagLen)) := by
    have hlt : dataLength.toNat < 2 ^ 32 := dataLength.toNat_lt
    rw [checkedAdd, if_pos]
    simp only [prefixLen, headerLen, saltLen, nonceLen, tagLen]
    omega
  rw [validateContainer, if_neg hlong]
  simp only [hversion, hflags, hmetadata, hdata, hadd, length_container, bind, Except.bind]
  by_cases hversion' : version = containerVersion
  · rw [if_neg (not_not.mpr hversion')]
    by_cases hfields : metadataLength = 0 ∧ flags &&& ~~~(localKeyFlag ||| kdfVersionMask) = 0
    · rw [if_neg (by rw [← not_and_or, not_not]; exact hfields)]
      by_cases hcount : message.length = dataLength.toNat + tagLen
      · exact .inl ⟨⟨hversion', hfields.1, hfields.2, hcount⟩, if_neg (by omega)⟩
      · exact .inr ⟨fun h => hcount h.dataLength, _, if_pos (by omega)⟩
    · refine .inr ⟨fun h => hfields ⟨h.metadataLength, h.flags⟩, _, if_pos ?_⟩
      rwa [← not_and_or]
  · exact .inr ⟨fun h => hversion' h.version, _, if_pos hversion'⟩

end Layout

/-- A field can be cut off what is long enough. -/
theorem exists_fixed (n : Nat) (bytes : Bytes) (h : n ≤ bytes.length) :
    ∃ (field : FixedBytes n) (behind : Bytes), bytes = field.1 ++ behind ∧
      behind.length = bytes.length - n :=
  ⟨⟨bytes.take n, List.length_take_of_le h⟩, bytes.drop n, (List.take_append_drop n bytes).symm,
    List.length_drop⟩

/-- What begins with the magic bytes and is long enough is a container. -/
theorem exists_container {bytes : Bytes} (hlength : prefixLen + tagLen + 1 ≤ bytes.length)
    (hmagic : magic <+: bytes) :
    ∃ version flags metadataLength dataLength salt nonce message,
      bytes = container version flags metadataLength dataLength salt nonce message ∧
        tagLen + 1 ≤ message.length := by
  obtain ⟨rest, rfl⟩ := hmagic
  have hrest : prefixLen + tagLen + 1 ≤ magic.length + rest.length := by
    rwa [List.length_append] at hlength
  simp only [prefixLen, headerLen, saltLen, nonceLen, tagLen, magic, List.length_cons,
    List.length_nil] at hrest
  have hsaltLen : saltLen = 32 := rfl
  have hnonceLen : nonceLen = 12 := rfl
  have htagLen : tagLen = 16 := rfl
  -- cut off one field after the other
  obtain ⟨version, rest, rfl, hversion⟩ := exists_fixed 4 rest (by omega)
  obtain ⟨flags, rest, rfl, hflags⟩ := exists_fixed 4 rest (by omega)
  obtain ⟨metadataLength, rest, rfl, hmetadata⟩ := exists_fixed 4 rest (by omega)
  obtain ⟨dataLength, rest, rfl, hdata⟩ := exists_fixed 4 rest (by omega)
  obtain ⟨salt, rest, rfl, hsalt⟩ := exists_fixed saltLen rest (by omega)
  obtain ⟨nonce, message, rfl, hnonce⟩ := exists_fixed nonceLen rest (by omega)
  refine ⟨u32FromLeBytes version.1, u32FromLeBytes flags.1, u32FromLeBytes metadataLength.1,
    u32FromLeBytes dataLength.1, salt, nonce, message, ?_, ?_⟩
  · simp only [container, authenticated, FileHeader.toBytes, u32ToLeBytes_fromLeBytes version.2,
      u32ToLeBytes_fromLeBytes flags.2, u32ToLeBytes_fromLeBytes metadataLength.2,
      u32ToLeBytes_fromLeBytes dataLength.2, List.append_assoc]
  · omega

/-- The container of a document: what of its header is always the same is left out. -/
def document (flags dataLength : UInt32) (salt : Salt) (nonce : Nonce) (message : Bytes) : Bytes :=
  container containerVersion flags 0 dataLength salt nonce message

/-- The bytes are a document as far as it can be seen without the key. -/
structure IsDocument (flags dataLength : UInt32) (salt : Salt) (nonce : Nonce)
    (message bytes : Bytes) : Prop where
  eq : bytes = document flags dataLength salt nonce message
  flags : flags &&& ~~~(localKeyFlag ||| kdfVersionMask) = 0
  length : message.length = dataLength.toNat + tagLen
  nonempty : 1 ≤ dataLength.toNat

/-- **Bytes are validated without a panic:** they are a document, or an error comes back. -/
theorem validateContainer_cases (bytes : Bytes) :
    (∃ flags dataLength salt nonce message, IsDocument flags dataLength salt nonce message bytes ∧
      validateContainer bytes = .ok flags) ∨
    ∃ error, validateContainer bytes = .error (.error error) := by
  by_cases hshape : bytes.length < prefixLen + tagLen + 1 ∨ ¬ magic <+: bytes
  · exact .inr ⟨_, if_pos hshape⟩
  · rw [not_or, not_not, Nat.not_lt] at hshape
    obtain ⟨version, flags, metadataLength, dataLength, salt, nonce, message, rfl, hlength⟩ :=
      exists_container hshape.1 hshape.2
    rcases @validateContainer_container version flags metadataLength dataLength salt nonce message
      hlength with ⟨hchecked, hvalid⟩ | ⟨-, herror⟩
    · obtain ⟨rfl, rfl, hflags, hdata⟩ := hchecked
      exact .inl ⟨flags, dataLength, salt, nonce, message, ⟨rfl, hflags, hdata, by omega⟩, hvalid⟩
    · exact .inr herror

theorem IsDocument.validateContainer {flags dataLength : UInt32} {salt : Salt} {nonce : Nonce}
    {message bytes : Bytes} (h : IsDocument flags dataLength salt nonce message bytes) :
    validateContainer bytes = .ok flags := by
  obtain ⟨rfl, hflags, hlength, hnonempty⟩ := h
  rcases @validateContainer_container containerVersion flags 0 dataLength salt nonce message
    (by omega) with ⟨-, hvalid⟩ | ⟨hnot, -⟩
  · exact hvalid
  · exact absurd ⟨rfl, rfl, hflags, hlength⟩ hnot

/-! ## Opening -/

section Opening

variable {cipher : Aead} {flags dataLength : UInt32} {salt : Salt} {nonce : Nonce} {message bytes : Bytes}

theorem length_document :
    (document flags dataLength salt nonce message).length = prefixLen + message.length :=
  length_container _ _ _ _ _ _ _

/-- The slices of a document. -/
theorem sliceBytes_document :
    sliceBytes (document flags dataLength salt nonce message) headerLen (headerLen + saltLen) =
      .ok salt.1 ∧
    sliceBytes (document flags dataLength salt nonce message) (headerLen + saltLen) prefixLen =
      .ok nonce.1 ∧
    sliceBytes (document flags dataLength salt nonce message) prefixLen
      (document flags dataLength salt nonce message).length = .ok message ∧
    sliceBytes (document flags dataLength salt nonce message) 0 prefixLen =
      .ok (authenticated containerVersion flags 0 dataLength salt nonce) := by
  have hlength := length_authenticated containerVersion flags 0 dataLength salt nonce
  let header := (FileHeader.mk ⟨magic, length_magic⟩ containerVersion flags 0 dataLength).toBytes
  have hheader : header.length = headerLen := by
    simp only [header, FileHeader.toBytes, List.length_append, length_u32ToLeBytes]
    rfl
  have hshape : document flags dataLength salt nonce message =
      header ++ (salt.1 ++ (nonce.1 ++ message)) := by
    simp only [document, container, authenticated, header, List.append_assoc]
  have hsalt := sliceBytes_append header salt.1 (nonce.1 ++ message)
  have hnonce := sliceBytes_append (header ++ salt.1) nonce.1 message
  have hmessage := sliceBytes_append (authenticated containerVersion flags 0 dataLength salt nonce)
    message []
  have haad := sliceBytes_append [] (authenticated containerVersion flags 0 dataLength salt nonce)
    message
  rw [hheader, salt.2] at hsalt
  rw [List.length_append, hheader, salt.2, nonce.2, List.append_assoc] at hnonce
  rw [hlength, List.append_nil] at hmessage
  rw [List.nil_append, List.length_nil, hlength, Nat.zero_add] at haad
  refine ⟨?_, ?_, ?_, haad⟩
  · rw [hshape]
    exact hsalt
  · rw [hshape]
    exact hnonce
  · rw [length_document]
    exact hmessage

/-- **A document opens just with what the cipher makes of it,** if that begins with the purpose. -/
theorem IsDocument.openContainer_iff (h : IsDocument flags dataLength salt nonce message bytes)
    (expected : OxideDocumentKind) (key : Key) :
    openContainer cipher bytes expected key ≠ .error .panic ∧
    ∀ payload, openContainer cipher bytes expected key = .ok payload ↔
      cipher.decrypt key nonce (authenticated containerVersion flags 0 dataLength salt nonce)
        message = some (expected.toByte :: payload) := by
  obtain ⟨rfl, -, -, -⟩ := h
  obtain ⟨-, hnonce, hmessage, haad⟩ :=
    @sliceBytes_document flags dataLength salt nonce message
  have hfixed : fixed nonceLen nonce.1 .panic = .ok nonce := dif_pos nonce.2
  simp only [openContainer, hnonce, hmessage, haad, hfixed, bind, Except.bind]
  cases hplain : cipher.decrypt key nonce
      (authenticated containerVersion flags 0 dataLength salt nonce) message with
  | none => exact ⟨by simp, fun payload => by simp⟩
  | some plaintext =>
    dsimp only
    rcases plaintext with _ | ⟨first, rest⟩
    · exact ⟨by simp, fun payload => by simp⟩
    · by_cases hfirst : first = expected.toByte
      · rw [if_neg (by simp [hfirst]), hfirst]
        exact ⟨by simp, fun payload => by simp⟩
      · rw [if_pos (by simp [hfirst])]
        exact ⟨by simp, fun payload => by simp [hfirst]⟩

end Opening

/-! ## Sealing -/

section Sealing

variable {cipher : Aead} {kind : OxideDocumentKind} {payload : Bytes} {key : Key} {salt : Salt}
  {flags : UInt32} {nonce : Nonce} {bytes : Bytes}

theorem sealContainer_eq_ok_iff :
    sealContainer cipher kind payload key salt flags nonce = .ok bytes ↔
      payload.length + 1 < 2 ^ 32 ∧ ∃ message,
        cipher.encrypt key nonce (authenticated containerVersion flags 0
          (UInt32.ofNat (payload.length + 1)) salt nonce) (kind.toByte :: payload) = some message ∧
        bytes = document flags (UInt32.ofNat (payload.length + 1)) salt nonce message := by
  by_cases hlength : payload.length + 1 < 2 ^ 32
  · have hadd : checkedAdd payload.length 1 = some (payload.length + 1) := if_pos (by omega)
    rw [sealContainer, hadd]
    dsimp only
    rw [if_neg (Nat.not_le.mpr hlength)]
    constructor
    · intro h
      split at h
      · next message hmessage => exact ⟨hlength, message, hmessage, (Except.ok.inj h).symm⟩
      · cases h
    · rintro ⟨-, message, hmessage, rfl⟩
      rw [authenticated] at hmessage
      rw [hmessage]
      rfl
  · refine iff_of_false (fun h => ?_) fun h => hlength h.1
    rw [sealContainer] at h
    split at h
    · cases h
    · next plaintextLen hadd =>
      rw [checkedAdd] at hadd
      split at hadd
      · cases hadd
        rw [if_pos (Nat.not_lt.mp hlength)] at h
        cases h
      · cases hadd

/-- **Sealing gives just the documents that open.** -/
theorem sealContainer_iff (hideal : cipher.Ideal)
    (hflags : flags &&& ~~~(localKeyFlag ||| kdfVersionMask) = 0) :
    sealContainer cipher kind payload key salt flags nonce = .ok bytes ↔
      ∃ dataLength message, IsDocument flags dataLength salt nonce message bytes ∧
        openContainer cipher bytes kind key = .ok payload := by
  rw [sealContainer_eq_ok_iff]
  constructor
  · rintro ⟨hlength, message, hmessage, hbytes⟩
    have htag := hideal.length_encrypt _ _ _ _ _ hmessage
    have hcount : (UInt32.ofNat (payload.length + 1)).toNat = payload.length + 1 :=
      UInt32.toNat_ofNat_of_lt' hlength
    have hdocument : IsDocument flags (UInt32.ofNat (payload.length + 1)) salt nonce message bytes :=
      ⟨hbytes, hflags, by rw [htag, hcount, List.length_cons], by omega⟩
    exact ⟨_, message, hdocument, ((hdocument.openContainer_iff kind key).2 payload).mpr
      ((hideal.decrypt_iff _ _ _ _ _).mpr hmessage)⟩
  · rintro ⟨dataLength, message, hdocument, hopen⟩
    have hmessage := (hideal.decrypt_iff _ _ _ _ _).mp
      (((hdocument.openContainer_iff kind key).2 payload).mp hopen)
    have htag := hideal.length_encrypt _ _ _ _ _ hmessage
    have hcount : dataLength.toNat = payload.length + 1 := by
      rw [hdocument.length, List.length_cons] at htag
      omega
    have hdata : UInt32.ofNat (payload.length + 1) = dataLength := by
      rw [← hcount]
      exact UInt32.ofNat_toNat
    have hlt : dataLength.toNat < 2 ^ 32 := dataLength.toNat_lt
    rw [hdata]
    exact ⟨by omega, message, hmessage, hdocument.eq⟩

end Sealing

/-! ## Flags -/

/-- Flags without the local bit are a version of the key derivation. -/
theorem and_mask_of_password {flags : UInt32}
    (hflags : flags &&& ~~~(localKeyFlag ||| kdfVersionMask) = 0) (hlocal : flags &&& localKeyFlag = 0) :
    flags &&& kdfVersionMask = flags := by
  rw [← UInt32.toBitVec_inj] at hflags hlocal ⊢
  refine BitVec.eq_of_getLsbD_eq fun i hi => ?_
  have hother := congrArg (BitVec.getLsbD · i) hflags
  have hbit := congrArg (BitVec.getLsbD · i) hlocal
  simp only [UInt32.toBitVec_and, UInt32.toBitVec_not, UInt32.toBitVec_or, BitVec.getLsbD_and,
    BitVec.getLsbD_not, BitVec.getLsbD_or, UInt32.toBitVec_zero, BitVec.getLsbD_zero, hi,
    decide_true, Bool.true_and] at hother hbit ⊢
  revert hother hbit
  cases flags.toBitVec.getLsbD i <;> cases localKeyFlag.toBitVec.getLsbD i <;>
    cases kdfVersionMask.toBitVec.getLsbD i <;> simp

theorem flags_of_version {kdfVersion : UInt32}
    (h : kdfVersion = 0 ∨ kdfVersion = kdfV1 ∨ kdfVersion = kdfV2) :
    kdfVersion &&& ~~~(localKeyFlag ||| kdfVersionMask) = 0 ∧ kdfVersion &&& localKeyFlag = 0 := by
  rcases h with rfl | rfl | rfl <;> decide

/-! ## Outputs of sealing -/

/-- An output of sealing under a key of the password. -/
def SealedUnder (cipher : Aead) (argon2 : Argon2) (password : Bytes) (kind : OxideDocumentKind)
    (payload bytes : Bytes) : Prop :=
  ∃ (sealing : OxideBatchEncryptionContext) (nonce : Nonce),
    deriveKey argon2 password sealing.salt sealing.kdfVersion = .ok sealing.key ∧
      sealOxideDocument cipher kind payload sealing nonce = .ok bytes

/-- An output of sealing under a local key. Sealing writes an empty salt, opening takes any. -/
def SealedLocally (cipher : Aead) (key : Key) (kind : OxideDocumentKind) (payload bytes : Bytes) :
    Prop :=
  kind.isLocal = true ∧ ∃ (salt : Salt) (nonce : Nonce),
    sealContainer cipher kind payload key salt localKeyFlag nonce = .ok bytes

section Documents

variable {cipher : Aead} {argon2 : Argon2} {bytes : Bytes}

/-- What is opened locally is a document with the local flag. -/
theorem openLocal_cases (bytes : Bytes) (kind : OxideDocumentKind) (key : Key) :
    (∃ error, openLocalOxideDocument cipher bytes kind key = .error (.error error)) ∨
    kind.isLocal = true ∧ ∃ dataLength salt nonce message,
      IsDocument localKeyFlag dataLength salt nonce message bytes ∧
        openLocalOxideDocument cipher bytes kind key = openContainer cipher bytes kind key := by
  by_cases hlocal : kind.isLocal = true
  · rw [openLocalOxideDocument, if_neg (by simp [hlocal])]
    rcases validateContainer_cases bytes with
      ⟨flags, dataLength, salt, nonce, message, hdocument, hvalid⟩ | ⟨error, hinvalid⟩
    · rw [hvalid]
      show (∃ error, (if flags ≠ localKeyFlag then _ else _) = _) ∨ _ ∧ ∃ _ _ _ _, _ ∧
        (if flags ≠ localKeyFlag then _ else _) = _
      by_cases hflags : flags = localKeyFlag
      · subst hflags
        exact .inr ⟨hlocal, dataLength, salt, nonce, message, hdocument, if_neg (not_not.mpr rfl)⟩
      · exact .inl ⟨_, if_pos hflags⟩
    · rw [hinvalid]
      exact .inl ⟨error, rfl⟩
  · exact .inl ⟨_, if_pos (by simp [hlocal])⟩

theorem IsDocument.keyOf {flags dataLength : UInt32} {salt : Salt} {nonce : Nonce}
    {message bytes : Bytes} {kind : OxideDocumentKind}
    (h : IsDocument flags dataLength salt nonce message bytes) (hlocal : kind.isLocal = false)
    (hflags : flags &&& localKeyFlag = 0) : keyOf bytes kind = .ok (salt, flags) := by
  have hnot : ¬ (kind.isLocal = true ∨ flags &&& localKeyFlag ≠ 0) := by
    rw [not_or, not_not, Bool.not_eq_true]
    exact ⟨hlocal, hflags⟩
  obtain ⟨hsalt, -⟩ := @sliceBytes_document flags dataLength salt nonce message
  have hfixed : fixed saltLen salt.1 (.error invalidContainer) = .ok salt := dif_pos salt.2
  rw [Connections.keyOf, h.validateContainer]
  simp only [bind, Except.bind, if_neg hnot, h.eq, hsalt, hfixed,
    and_mask_of_password h.flags hflags]
  rfl

/-- What is opened under a password is a document with a version of the key derivation. -/
theorem keyOf_cases (bytes : Bytes) (kind : OxideDocumentKind) :
    (∃ error, keyOf bytes kind = .error (.error error)) ∨
    kind.isLocal = false ∧ ∃ flags dataLength salt nonce message,
      IsDocument flags dataLength salt nonce message bytes ∧ flags &&& localKeyFlag = 0 ∧
        keyOf bytes kind = .ok (salt, flags) := by
  rcases validateContainer_cases bytes with
    ⟨flags, dataLength, salt, nonce, message, hdocument, hvalid⟩ | ⟨error, hinvalid⟩
  · by_cases hrefused : kind.isLocal ∨ flags &&& localKeyFlag ≠ 0
    · refine .inl ⟨invalidContainer, ?_⟩
      rw [keyOf, hvalid]
      exact if_pos hrefused
    · rw [not_or, not_not, Bool.not_eq_true] at hrefused
      exact .inr ⟨hrefused.1, flags, dataLength, salt, nonce, message, hdocument, hrefused.2,
        hdocument.keyOf hrefused.1 hrefused.2⟩
  · refine .inl ⟨error, ?_⟩
    rw [keyOf, hinvalid]
    rfl

theorem flags_of_local : localKeyFlag &&& ~~~(localKeyFlag ||| kdfVersionMask) = 0 := by decide

theorem openLocal_of_document {flags dataLength : UInt32} {salt : Salt} {nonce : Nonce}
    {message bytes : Bytes} {kind : OxideDocumentKind} (hlocal : kind.isLocal = true)
    (h : IsDocument flags dataLength salt nonce message bytes) (hflags : flags = localKeyFlag)
    (key : Key) : openLocalOxideDocument cipher bytes kind key =
      openContainer cipher bytes kind key := by
  rw [openLocalOxideDocument, if_neg (by simp [hlocal]), h.validateContainer]
  exact if_neg (not_not.mpr hflags)

/-- **A local document opens just where it was sealed.** -/
theorem openLocal_iff (hideal : cipher.Ideal) (bytes : Bytes) (kind : OxideDocumentKind) (key : Key)
    (payload : Bytes) : openLocalOxideDocument cipher bytes kind key = .ok payload ↔
      SealedLocally cipher key kind payload bytes := by
  constructor
  · intro h
    rcases @openLocal_cases cipher bytes kind key with
      ⟨error, herror⟩ | ⟨hlocal, dataLength, salt, nonce, message, hdocument, hopen⟩
    · rw [herror] at h
      cases h
    · rw [hopen] at h
      exact ⟨hlocal, salt, nonce,
        (sealContainer_iff hideal flags_of_local).mpr ⟨dataLength, message, hdocument, h⟩⟩
  · rintro ⟨hlocal, salt, nonce, hseal⟩
    obtain ⟨dataLength, message, hdocument, hopen⟩ :=
      (sealContainer_iff hideal flags_of_local).mp hseal
    rw [openLocal_of_document hlocal hdocument rfl]
    exact hopen

theorem openLocal_ne_panic (bytes : Bytes) (kind : OxideDocumentKind) (key : Key) :
    openLocalOxideDocument cipher bytes kind key ≠ .error .panic := by
  rcases @openLocal_cases cipher bytes kind key with
    ⟨error, herror⟩ | ⟨-, dataLength, salt, nonce, message, hdocument, hopen⟩
  · rw [herror]
    simp
  · rw [hopen]
    exact (hdocument.openContainer_iff kind key).1

/-- A call of the opener under a password, by what is read of the bytes and by the key. -/
theorem openOxideDocument_cases (bytes : Bytes) (kind : OxideDocumentKind)
    (context : OxideBatchDecryptionContext argon2) :
    (openOxideDocument cipher bytes kind context).2.password = context.password ∧
    ((∃ error, (openOxideDocument cipher bytes kind context).1 = .error (.error error)) ∨
      kind.isLocal = false ∧ ∃ flags dataLength salt nonce message key,
        IsDocument flags dataLength salt nonce message bytes ∧ flags &&& localKeyFlag = 0 ∧
        deriveKey argon2 context.password salt flags = .ok key ∧
        (openOxideDocument cipher bytes kind context).1 = openContainer cipher bytes kind key) := by
  rcases keyOf_cases bytes kind with
    ⟨error, herror⟩ | ⟨hlocal, flags, dataLength, salt, nonce, message, hdocument, hflags, hkeyOf⟩
  · rw [openOxideDocument, herror]
    exact ⟨rfl, .inl ⟨error, rfl⟩⟩
  · have hkey := context.keyFor_fst salt flags
    have hpassword := context.password_keyFor salt flags
    rw [openOxideDocument, hkeyOf]
    dsimp only
    rcases hfor : context.keyFor salt flags with ⟨error | key, after⟩
    · rw [hfor] at hpassword
      exact ⟨hpassword, .inl ⟨error, rfl⟩⟩
    · rw [hfor] at hkey hpassword
      exact ⟨hpassword, .inr ⟨hlocal, flags, dataLength, salt, nonce, message, key, hdocument,
        hflags, hkey.symm, rfl⟩⟩

/-- **A document opens under a password just where it was sealed under a key of it.** -/
theorem openOxideDocument_iff (hideal : cipher.Ideal) (bytes : Bytes) (kind : OxideDocumentKind)
    (context : OxideBatchDecryptionContext argon2) (payload : Bytes) :
    (openOxideDocument cipher bytes kind context).1 = .ok payload ↔
      SealedUnder cipher argon2 context.password kind payload bytes := by
  obtain ⟨-, hcases⟩ := @openOxideDocument_cases cipher argon2 bytes kind context
  constructor
  · intro h
    rcases hcases with ⟨error, herror⟩ |
      ⟨hlocal, flags, dataLength, salt, nonce, message, key, hdocument, hflags, hkey, hopen⟩
    · rw [herror] at h
      cases h
    · rw [hopen] at h
      refine ⟨⟨salt, key, flags⟩, nonce, hkey, ?_⟩
      rw [sealOxideDocument, if_neg (by simp [hlocal])]
      exact (sealContainer_iff hideal hdocument.flags).mpr ⟨dataLength, message, hdocument, h⟩
  · rintro ⟨sealing, nonce, hkey, hseal⟩
    obtain ⟨hflags, hpassword⟩ := flags_of_version (version_of_deriveKey hkey)
    rw [sealOxideDocument] at hseal
    split at hseal
    · cases hseal
    · next hlocal =>
      obtain ⟨dataLength, message, hdocument, hopen⟩ := (sealContainer_iff hideal hflags).mp hseal
      have hfor := context.keyFor_fst sealing.salt sealing.kdfVersion
      rw [openOxideDocument, hdocument.keyOf (by simpa using hlocal) hpassword]
      dsimp only
      rcases heq : context.keyFor sealing.salt sealing.kdfVersion with ⟨error | key, after⟩
      · rw [heq, hkey] at hfor
        cases hfor
      · rw [heq, hkey] at hfor
        cases hfor
        exact hopen

/-! ## Other documents -/

/-- Opens by some call. -/
def Opens (cipher : Aead) (bytes : Bytes) : Prop :=
  (∃ (argon2 : Argon2) (context : OxideBatchDecryptionContext argon2) (kind : OxideDocumentKind)
    (payload : Bytes), (openOxideDocument cipher bytes kind context).1 = .ok payload) ∨
  ∃ (key : Key) (kind : OxideDocumentKind) (payload : Bytes),
    openLocalOxideDocument cipher bytes kind key = .ok payload

theorem exists_document_of_opens (h : Opens cipher bytes) : ∃ flags dataLength salt nonce message,
    IsDocument flags dataLength salt nonce message bytes := by
  rcases h with ⟨argon2, context, kind, payload, hopen⟩ | ⟨key, kind, payload, hopen⟩
  · rcases (@openOxideDocument_cases cipher argon2 bytes kind context).2 with ⟨error, herror⟩ |
      ⟨-, flags, dataLength, salt, nonce, message, key, hdocument, -⟩
    · rw [herror] at hopen
      cases hopen
    · exact ⟨flags, dataLength, salt, nonce, message, hdocument⟩
  · rcases @openLocal_cases cipher bytes kind key with
      ⟨error, herror⟩ | ⟨-, dataLength, salt, nonce, message, hdocument, -⟩
    · rw [herror] at hopen
      cases hopen
    · exact ⟨_, dataLength, salt, nonce, message, hdocument⟩

/-- The header says how long a document is. -/
theorem eq_nil_of_documents {flags dataLength flags' dataLength' : UInt32} {salt salt' : Salt}
    {nonce nonce' : Nonce} {message message' extra : Bytes}
    (h : IsDocument flags dataLength salt nonce message bytes)
    (h' : IsDocument flags' dataLength' salt' nonce' message' (bytes ++ extra)) : extra = [] := by
  have hshape : bytes ++ extra = document flags dataLength salt nonce (message ++ extra) := by
    rw [h.eq, document, document, container, container, List.append_assoc]
  have hread : readU32 (bytes ++ extra) 17 = .ok dataLength :=
    hshape ▸ (readU32_container containerVersion flags 0 dataLength salt nonce _).2.2.2
  have hread' : readU32 (bytes ++ extra) 17 = .ok dataLength' :=
    h'.eq ▸ (readU32_container containerVersion flags' 0 dataLength' salt' nonce' _).2.2.2
  obtain rfl := Except.ok.inj (hread.symm.trans hread')
  have hlength : (bytes ++ extra).length = bytes.length := by
    rw [h'.eq, h.eq, length_document, length_document, h.length, h'.length]
  rw [List.length_append] at hlength
  exact List.eq_nil_of_length_eq_zero (by omega)

/-- The parts of a document are told apart. -/
theorem parts_unique {flags dataLength flags' dataLength' : UInt32} {salt salt' : Salt}
    {nonce nonce' : Nonce} {message message' : Bytes}
    (h : IsDocument flags dataLength salt nonce message bytes)
    (h' : IsDocument flags' dataLength' salt' nonce' message' bytes) :
    flags = flags' ∧ dataLength = dataLength' ∧ salt = salt' ∧ nonce = nonce' ∧
      message = message' := by
  have heq : document flags dataLength salt nonce message =
      document flags' dataLength' salt' nonce' message' := h.eq.symm.trans h'.eq
  obtain ⟨-, hflags, -, hdata⟩ :=
    readU32_container containerVersion flags 0 dataLength salt nonce message
  obtain ⟨-, hflags', -, hdata'⟩ :=
    readU32_container containerVersion flags' 0 dataLength' salt' nonce' message'
  obtain ⟨hsalt, hnonce, hmessage, -⟩ := @sliceBytes_document flags dataLength salt nonce message
  obtain ⟨hsalt', hnonce', hmessage', -⟩ :=
    @sliceBytes_document flags' dataLength' salt' nonce' message'
  rw [← document, heq, document] at hflags hdata
  rw [heq] at hsalt hnonce hmessage
  refine ⟨Except.ok.inj (hflags.symm.trans hflags'), Except.ok.inj (hdata.symm.trans hdata'), ?_, ?_,
    Except.ok.inj (hmessage.symm.trans hmessage')⟩
  · exact Subtype.ext (Except.ok.inj (hsalt.symm.trans hsalt'))
  · exact Subtype.ext (Except.ok.inj (hnonce.symm.trans hnonce'))

theorem toByte_inj {kind kind' : OxideDocumentKind} (h : kind.toByte = kind'.toByte) :
    kind = kind' := by
  revert h
  cases kind <;> cases kind' <;> decide

/-- A document has one purpose and one payload under its key. -/
theorem openContainer_unique {flags dataLength : UInt32} {salt : Salt} {nonce : Nonce}
    {message payload payload' : Bytes} {key : Key} {kind kind' : OxideDocumentKind}
    (h : IsDocument flags dataLength salt nonce message bytes)
    (hopen : openContainer cipher bytes kind key = .ok payload)
    (hopen' : openContainer cipher bytes kind' key = .ok payload') :
    kind = kind' ∧ payload = payload' := by
  have hplain := ((h.openContainer_iff kind key).2 payload).mp hopen
  have hplain' := ((h.openContainer_iff kind' key).2 payload').mp hopen'
  rw [hplain, Option.some.injEq, List.cons.injEq] at hplain'
  exact ⟨toByte_inj hplain'.1, hplain'.2⟩

/-- **Documents open only as what was sealed.** -/
theorem documents_open_as_sealed (hideal : cipher.Ideal) :
    (∀ bytes kind (context : OxideBatchDecryptionContext argon2),
      (openOxideDocument cipher bytes kind context).1 ≠ .error .panic ∧
      (openOxideDocument cipher bytes kind context).2.password = context.password ∧
      ∀ payload, (openOxideDocument cipher bytes kind context).1 = .ok payload ↔
        SealedUnder cipher argon2 context.password kind payload bytes) ∧
    (∀ bytes kind key, openLocalOxideDocument cipher bytes kind key ≠ .error .panic ∧
      ∀ payload, openLocalOxideDocument cipher bytes kind key = .ok payload ↔
        SealedLocally cipher key kind payload bytes) ∧
    -- no other kind of document, and not with the other kind of key
    (∀ bytes kind kind' payload payload' (context context' : OxideBatchDecryptionContext argon2),
      context.password = context'.password →
      (openOxideDocument cipher bytes kind context).1 = .ok payload →
      (openOxideDocument cipher bytes kind' context').1 = .ok payload' →
      kind = kind' ∧ payload = payload') ∧
    (∀ bytes kind kind' payload payload' key,
      openLocalOxideDocument cipher bytes kind key = .ok payload →
      openLocalOxideDocument cipher bytes kind' key = .ok payload' →
      kind = kind' ∧ payload = payload') ∧
    (∀ bytes kind kind' payload payload' key (context : OxideBatchDecryptionContext argon2),
      (openOxideDocument cipher bytes kind context).1 = .ok payload →
      openLocalOxideDocument cipher bytes kind' key ≠ .ok payload') ∧
    -- nothing shorter or longer
    ∀ bytes extra, extra ≠ [] → Opens cipher bytes → ¬ Opens cipher (bytes ++ extra) := by
  refine ⟨fun bytes kind context => ⟨?_, ?_, ?_⟩, fun bytes kind key => ⟨?_, ?_⟩, ?_, ?_, ?_, ?_⟩
  · rcases (@openOxideDocument_cases cipher argon2 bytes kind context).2 with ⟨error, herror⟩ |
      ⟨-, flags, dataLength, salt, nonce, message, key, hdocument, -, -, hopen⟩
    · rw [herror]
      simp
    · rw [hopen]
      exact (hdocument.openContainer_iff kind key).1
  · exact (openOxideDocument_cases bytes kind context).1
  · exact openOxideDocument_iff hideal bytes kind context
  · exact openLocal_ne_panic bytes kind key
  · exact openLocal_iff hideal bytes kind key
  · intro bytes kind kind' payload payload' context context' hpassword h h'
    rcases (@openOxideDocument_cases cipher argon2 bytes kind context).2 with ⟨error, herror⟩ |
      ⟨-, flags, dataLength, salt, nonce, message, key, hdocument, -, hkey, hopen⟩
    · rw [herror] at h
      cases h
    · rcases (@openOxideDocument_cases cipher argon2 bytes kind' context').2 with ⟨error, herror⟩ |
        ⟨-, _, _, _, _, _, key', hdocument', -, hkey', hopen'⟩
      · rw [herror] at h'
        cases h'
      · obtain ⟨rfl, rfl, rfl, rfl, rfl⟩ := parts_unique hdocument hdocument'
        rw [← hpassword, hkey] at hkey'
        cases hkey'
        exact openContainer_unique hdocument (hopen ▸ h) (hopen' ▸ h')
  · intro bytes kind kind' payload payload' key h h'
    rcases @openLocal_cases cipher bytes kind key with
      ⟨error, herror⟩ | ⟨-, _, _, _, _, hdocument, hopen⟩
    · rw [herror] at h
      cases h
    · rcases @openLocal_cases cipher bytes kind' key with
        ⟨error, herror⟩ | ⟨-, _, _, _, _, -, hopen'⟩
      · rw [herror] at h'
        cases h'
      · exact openContainer_unique hdocument (hopen ▸ h) (hopen' ▸ h')
  · intro bytes kind kind' payload payload' key context h h'
    rcases (@openOxideDocument_cases cipher argon2 bytes kind context).2 with ⟨error, herror⟩ |
      ⟨-, _, _, _, _, _, _, hdocument, hflags, -⟩
    · rw [herror] at h
      cases h
    · rcases @openLocal_cases cipher bytes kind' key with
        ⟨error, herror⟩ | ⟨-, _, _, _, _, hdocument', -⟩
      · rw [herror] at h'
        cases h'
      · obtain ⟨rfl, -⟩ := parts_unique hdocument hdocument'
        exact absurd hflags (by decide)
  · intro bytes extra hextra h h'
    obtain ⟨_, _, _, _, _, hdocument⟩ := exists_document_of_opens h
    obtain ⟨_, _, _, _, _, hdocument'⟩ := exists_document_of_opens h'
    exact hextra (eq_nil_of_documents hdocument hdocument')

end Documents

/-! ## An ideal cipher -/

/-- Hides nothing, and appends an empty tag. -/
def plainCipher : Aead where
  encrypt _ _ _ message := some (message ++ List.replicate tagLen 0)
  decrypt _ _ _ ciphertext :=
    if ciphertext.drop (ciphertext.length - tagLen) = List.replicate tagLen 0 then
      some (ciphertext.take (ciphertext.length - tagLen))
    else none

theorem plainCipher_ideal : plainCipher.Ideal := by
  constructor
  · intro key nonce aad ciphertext message
    show (if _ then _ else _) = some message ↔ some _ = some ciphertext
    constructor
    · intro h
      split at h
      · next htag =>
        cases h
        rw [← htag, List.take_append_drop]
      · cases h
    · rintro ⟨⟩
      have hlength : (message ++ List.replicate tagLen (0 : UInt8)).length - tagLen =
          message.length := by
        rw [List.length_append, List.length_replicate, Nat.add_sub_cancel]
      rw [hlength, List.drop_left, List.take_left, if_pos rfl]
  · rintro key nonce aad message ciphertext ⟨⟩
    rw [List.length_append, List.length_replicate]

theorem documents_open_as_sealed_magic :
    openLocalOxideDocument plainCipher magic .recovery ⟨List.replicate 32 0, rfl⟩ ≠
        .error .panic ∧
      ∀ payload, ¬ SealedLocally plainCipher ⟨List.replicate 32 0, rfl⟩ .recovery payload magic := by
  obtain ⟨-, hlocal, -⟩ := @documents_open_as_sealed plainCipher (fun _ _ _ => none) plainCipher_ideal
  obtain ⟨hpanic, hiff⟩ := hlocal magic .recovery ⟨List.replicate 32 0, rfl⟩
  refine ⟨hpanic, fun payload hsealed => ?_⟩
  have hopen := (hiff payload).mpr hsealed
  have herror : openLocalOxideDocument plainCipher magic .recovery ⟨List.replicate 32 0, rfl⟩ =
      .error (.error invalidContainer) := by decide +kernel
  rw [herror] at hopen
  cases hopen

/-- A local document with another salt opens, although the local sealing never makes it. -/
theorem local_salt_opens : ∃ cipher : Aead, cipher.Ideal ∧ ∃ (key : Key) (bytes : Bytes),
    openLocalOxideDocument cipher bytes .recovery key = .ok [] ∧
      ∀ nonce, sealLocalOxideDocument cipher .recovery [] key nonce ≠ .ok bytes := by
  let key : Key := ⟨List.replicate 32 0, rfl⟩
  let salt : Salt := ⟨List.replicate saltLen 1, rfl⟩
  let nonce : Nonce := ⟨List.replicate nonceLen 0, rfl⟩
  let message : Bytes := OxideDocumentKind.recovery.toByte :: List.replicate tagLen 0
  have hdocument : IsDocument localKeyFlag 1 salt nonce message
      (document localKeyFlag 1 salt nonce message) := ⟨rfl, by decide, rfl, by decide⟩
  refine ⟨plainCipher, plainCipher_ideal, key, document localKeyFlag 1 salt nonce message, ?_, ?_⟩
  · rw [openLocal_of_document rfl hdocument rfl]
    refine ((hdocument.openContainer_iff .recovery key).2 []).mpr ?_
    exact (plainCipher_ideal.decrypt_iff _ _ _ _ _).mpr rfl
  · intro nonce' hseal
    rw [sealLocalOxideDocument, if_neg (by decide)] at hseal
    obtain ⟨-, message', hencrypt, hbytes⟩ := sealContainer_eq_ok_iff.mp hseal
    have hshape : IsDocument localKeyFlag 1 ⟨List.replicate saltLen 0, List.length_replicate⟩ nonce'
        message' (document localKeyFlag 1 salt nonce message) :=
      ⟨hbytes, by decide, plainCipher_ideal.length_encrypt _ _ _ _ _ hencrypt, by decide⟩
    obtain ⟨-, -, hsalt, -, -⟩ := parts_unique hdocument hshape
    exact absurd hsalt (by decide)

end OxideTerm.Connections
