import OxideTerm.Modem.Properties.Corruption
import OxideTerm.Modem.Ymodem

/-!
# A YMODEM batch on a line that loses nothing

The sender and the receiver of a batch take turns: each block has one reply, the end of a file two,
and a file starts with two requests of the receiver. So both sides are always at the same place of
the same file, and every run comes to the end of the batch. Only the names decide whether the headers
come through: block zero ends a name at its first zero byte.
-/

namespace OxideTerm.Modem

open OxideTerm.Lib

/-! ## Headers -/

namespace YmodemFileHeader

/-- A name that ends within a payload. -/
theorem parse_name {fileName : List Char} {rest : Bytes} {fileSize : Option UInt64}
    (hname : fileName ≠ []) (hvalid : validateYmodemFileName fileName = .ok ())
    (hnul : Char.ofNat 0 ∉ fileName) (hsize : parseFileSize rest = .ok fileSize) :
    parseBlock0Payload (Text.utf8Bytes fileName ++ [0] ++ rest) =
      .ok (some { fileName, fileSize }) := by
  have htake : (Text.utf8Bytes fileName ++ [0] ++ rest).takeWhile (· ≠ 0) =
      Text.utf8Bytes fileName := Text.takeWhile_ne_zero (Text.zero_notMem_utf8Bytes hnul)
  have hlength : (Text.utf8Bytes fileName).length + 1 =
      (Text.utf8Bytes fileName ++ [0]).length := by
    rw [List.length_append, List.length_singleton]
  have hshort : ¬ (Text.utf8Bytes fileName).length =
      (Text.utf8Bytes fileName ++ [0] ++ rest).length := by
    rw [List.length_append, ← hlength]
    omega
  have hsome : ¬ Text.utf8Bytes fileName = [] := Text.utf8Bytes_ne_nil hname
  unfold parseBlock0Payload
  simp only [htake, if_neg hshort, if_neg hsome, Text.fromUtf8Lossy_utf8Bytes, hvalid]
  rw [hlength, List.drop_left, hsize]

/-- **Reading back a header**, whose name has no zero in it. -/
theorem parse_encode {header : YmodemFileHeader} {payload : Bytes}
    (hvalid : validateYmodemFileName header.fileName = .ok ())
    (hencode : header.encodeBlock0Payload = .ok payload) (hnul : Char.ofNat 0 ∉ header.fileName) :
    payload.length = XyBlockSize.bytes128.len ∧ parseBlock0Payload payload = .ok (some header) := by
  obtain ⟨fileName, fileSize⟩ := header
  have hname : fileName ≠ [] := by
    rintro rfl
    cases hencode
  have haccepted : ¬ (Text.utf8Bytes fileName = [] ∨
      (Text.utf8Bytes fileName).length ≥ XyBlockSize.bytes128.len) := by
    intro hrefused
    rw [encodeBlock0Payload, if_pos hrefused] at hencode
    cases hencode
  have hroom : (Text.utf8Bytes fileName).length < XyBlockSize.bytes128.len :=
    not_le.mp (not_or.mp haccepted).2
  rw [encodeBlock0Payload, if_neg haccepted] at hencode
  cases fileSize with
  | none =>
    obtain rfl := Except.ok.inj hencode
    obtain ⟨k, hk⟩ : ∃ k, XyBlockSize.bytes128.len - (Text.utf8Bytes fileName).length = k + 1 :=
      ⟨_, (Nat.succ_pred_eq_of_pos (Nat.sub_pos_of_lt hroom)).symm⟩
    constructor
    · rw [List.length_append, List.length_replicate]
      exact Nat.add_sub_of_le (Nat.le_of_lt hroom)
    · have hblank : parseFileSize (List.replicate k 0) = .ok none := by
        cases k <;> rfl
      simp only
      rw [hk, List.replicate_succ, List.append_cons]
      exact parse_name hname hvalid hnul hblank
  | some fileSize =>
    simp only at hencode
    split at hencode
    · cases hencode
    next hsize =>
    obtain rfl := Except.ok.inj hencode
    rw [not_le] at hsize
    generalize hdigits : Text.utf8Bytes (toString fileSize.toNat).toList = digits at hsize ⊢
    constructor
    · simp only [List.length_append, List.length_replicate, List.length_singleton]
      omega
    · have hzero : (0 : UInt8) ∉ digits := by
        rw [← hdigits]
        exact Text.zero_notMem_utf8Bytes (Text.notMem_repr (by decide))
      have hblank : (0x20 : UInt8) ∉ digits := by
        rw [← hdigits]
        exact Text.ascii_notMem_utf8Bytes (n := 0x20) (by decide) (Text.notMem_repr (by decide))
      have hkept : (digits ++ List.replicate (XyBlockSize.bytes128.len -
          ((Text.utf8Bytes fileName).length + 1 + digits.length)) 0).takeWhile
            (fun byte => byte ≠ 0x20 ∧ byte ≠ 0) = digits := by
        obtain ⟨k, hk⟩ : ∃ k, XyBlockSize.bytes128.len -
            ((Text.utf8Bytes fileName).length + 1 + digits.length) = k + 1 :=
          ⟨_, (Nat.succ_pred_eq_of_pos (Nat.sub_pos_of_lt hsize)).symm⟩
        rw [hk, List.replicate_succ, List.takeWhile_append_of_pos]
        · simp
        · intro byte hbyte
          rw [decide_eq_true_eq]
          exact ⟨fun h => hblank (h ▸ hbyte), fun h => hzero (h ▸ hbyte)⟩
      have hsome : digits ≠ [] := hdigits ▸ Text.utf8Bytes_ne_nil (Text.toString_ne_nil _)
      rw [List.append_assoc]
      refine parse_name hname hvalid hnul ?_
      rw [parseFileSize]
      simp only [hkept, if_neg hsome]
      rw [← hdigits, Text.fromUtf8Lossy_utf8Bytes, Text.parseU64_repr fileSize.toNat_lt]
      simp only [UInt64.ofNat_toNat]

/-- **No header that is read has a name with a zero in it.** -/
theorem zero_notMem_of_parse {payload : Bytes} {header : YmodemFileHeader}
    (h : parseBlock0Payload payload = .ok (some header)) : Char.ofNat 0 ∉ header.fileName := by
  have hname : Char.ofNat 0 ∉ Text.fromUtf8Lossy (payload.takeWhile (· ≠ 0)) := by
    refine Text.zero_notMem_fromUtf8Lossy fun hmem => ?_
    simpa using List.mem_takeWhile_imp hmem
  unfold parseBlock0Payload at h
  simp only at h
  split at h
  · cases h
  · split at h
    · cases h
    · split at h
      · cases h
      · split at h
        · cases h
        · cases h
          exact hname

/-- A block of zeros has no header. -/
theorem parse_zeros : parseBlock0Payload (List.replicate 128 0) = .ok none := by
  have hname : (List.replicate 128 (0 : UInt8)).takeWhile (· ≠ 0) = [] := by
    rw [List.replicate_succ]
    rfl
  have hlength : ¬ ([] : Bytes).length = (List.replicate 128 (0 : UInt8)).length := by
    rw [List.length_replicate]
    decide
  rw [parseBlock0Payload]
  simp only [hname, if_neg hlength, if_true]

end YmodemFileHeader

/-! ## Reading and writing -/

section

variable {L : Type} {B : L → Type} {H α : Type}
  {env : Surroundings UInt8 L B ModemTransferError H} (hline : env.Lossless) {h h' : H}
  {input sent : Bytes} {q : ModemProgram L B α}

include hline

theorem lossless_readByte {byte : UInt8} {f : UInt8 → ModemProgram L B α}
    (hrest : Goes env (f byte) h input sent q h') :
    Goes env (readByte.bind f) h (byte :: input) sent q h' := by
  refine goes_readByte (hline.late_eq h) ?_
  rw [hline.after_read]
  exact hrest

theorem lossless_writeAll {bytes : Bytes} {f : Unit → ModemProgram L B α}
    (hrest : Goes env (f ()) h input sent q h') :
    Goes env ((writeAll bytes).bind f) h input (bytes ++ sent) q h' := by
  have hwrite : Goes env ((writeAll bytes).bind f) h input (env.arrives h bytes ++ sent) q h' := by
    refine goes_writeAll ?_
    rw [hline.after_write]
    exact hrest
  rwa [hline.arrives_eq] at hwrite

theorem lossless_readBytes {n : Nat} {bytes : Bytes} (hlength : n = bytes.length)
    {f : Bytes → ModemProgram L B α} (hrest : Goes env (f bytes) h [] sent q h') :
    Goes env ((readBytes n).bind f) h bytes sent q h' := by
  have hsame : ∀ k, Nat.iterate (env.after .read) k h = h := by
    intro k
    induction k with
    | zero => rfl
    | succ k ih =>
      rw [Function.iterate_succ_apply, hline.after_read]
      exact ih
  refine goes_readBytes_all hline.late_eq hlength ?_
  rw [hsame]
  exact hrest

omit hline in
/-- A block starts with its marker, which says how much follows. -/
theorem encode_cons (block : XyBlock) (useCrc : Bool) :
    ∃ rest, block.encode useCrc = block.size.marker :: rest ∧
      2 + block.size.len + (if useCrc then 2 else 1) = rest.length := by
  refine ⟨[block.number, ~~~ block.number] ++ block.payload ++
    XyBlock.check useCrc block.payload, block.encode_eq useCrc, ?_⟩
  rw [List.length_append, List.length_append, XyBlock.length_check, block.length_payload]
  rfl

theorem goes_readXymodemBlock (block : XyBlock) (useCrc : Bool) :
    Goes env (readXymodemBlock useCrc) h (block.encode useCrc) [] (.done (.ok block)) h := by
  have hparse := block.parse_encode useCrc
  obtain ⟨rest, hencode, hlength⟩ := encode_cons block useCrc
  rw [hencode] at hparse ⊢
  refine lossless_readByte hline ?_
  rw [XyBlockSize.fromMarker_marker]
  refine lossless_readBytes hline hlength ?_
  rw [hparse]
  exact .stay _ _

theorem goes_readBlockPacket (block : XyBlock) (useCrc : Bool) :
    Goes env (readXymodemPacket useCrc) h (block.encode useCrc) []
      (.done (.ok (.block block))) h := by
  have hparse := block.parse_encode useCrc
  have hmarker : block.size.marker ≠ eot ∧ block.size.marker ≠ can := by
    cases block.size <;> decide
  obtain ⟨rest, hencode, hlength⟩ := encode_cons block useCrc
  rw [hencode] at hparse ⊢
  refine lossless_readByte hline ?_
  rw [if_neg hmarker.1, if_neg hmarker.2, XyBlockSize.fromMarker_marker]
  refine lossless_readBytes hline hlength ?_
  rw [hparse]
  exact .stay _ _

theorem goes_expectByte (expected : UInt8) {f : Unit → ModemProgram L B α}
    (hrest : Goes env (f ()) h input sent q h') :
    Goes env ((expectByteOrCancel expected).bind f) h (expected :: input) sent q h' := by
  have hassoc : (expectByteOrCancel expected).bind f = readByte.bind fun byte =>
      Program.bind (if byte = expected then return ()
        else if byte = can then do
          let second ← readByte
          if second = can then Program.fail .cancelled else Program.fail (.unexpectedByte can)
        else Program.fail (.unexpectedByte byte)) f := Program.bind_assoc _ _ _
  rw [hassoc]
  refine lossless_readByte hline ?_
  rw [if_pos rfl]
  exact hrest

/-- The request of the receiver that comes first. -/
theorem goes_waitForStart {f : Bool → ModemProgram L B α}
    (hrest : Goes env (f true) h input sent q h') :
    Goes env (waitForXymodemStart.bind f) h (wantCrc :: input) sent q h' := by
  have hassoc : (waitForXymodemStart : ModemProgram L B Bool).bind f = readByte.bind fun byte =>
      Program.bind (if byte = wantCrc then return true
        else if byte = nak then return false
        else if byte = can then do
          let second ← readByte
          if second = can then Program.fail .cancelled else startRounds 9
        else startRounds 9) f := Program.bind_assoc _ _ _
  rw [hassoc]
  refine lossless_readByte hline ?_
  rw [if_pos rfl]
  exact hrest

end

/-! ## The two sides -/

/-- The files of a receiver, the one that was opened last in front. -/
abbrev BatchFiles := List (YmodemFileHeader × Bytes)

/-- Writes to the file that was opened last. -/
def BatchFiles.write : BatchFiles → Bytes → BatchFiles
  | [], _ => []
  | (header, written) :: files, bytes => (header, written ++ bytes) :: files

/-- What surrounds a sender. -/
def batchSender : Surroundings UInt8 Empty (fun _ => Unit) ModemTransferError Unit where
  late _ := none
  arrives _ bytes := bytes
  answer l := l.elim
  after _ _ := ()

/-- What surrounds a receiver whose writers never fail. -/
def batchReceiver :
    Surroundings UInt8 YmodemCall YmodemCall.Answer ModemTransferError BatchFiles where
  late _ := none
  arrives _ bytes := bytes
  answer _ _ := .ok ()
  after
    | .host (.openWriter header), files => (header, []) :: files
    | .host (.writer (.writeAll bytes)), files => files.write bytes
    | _, files => files

/-- Both sides. -/
def batchLine : Network UInt8 Empty YmodemCall (fun _ => Unit) YmodemCall.Answer ModemTransferError
    Unit BatchFiles where
  left := batchSender
  right := batchReceiver

theorem lossless_batchSender : batchSender.Lossless :=
  ⟨fun _ => rfl, fun _ _ => rfl, fun _ => rfl, fun _ _ => rfl⟩

theorem lossless_batchReceiver : batchReceiver.Lossless :=
  ⟨fun _ => rfl, fun _ _ => rfl, fun _ => rfl, fun _ _ => rfl⟩

/-- What surrounds the receiver of one file of a batch. -/
abbrev fileReceiver := batchReceiver.comap YmodemCall.writer

theorem lossless_fileReceiver : fileReceiver.Lossless := lossless_batchReceiver.comap _

/-- A sender and a receiver with what each has yet to read. -/
abbrev BatchSession := Network.Config UInt8 Empty YmodemCall (fun _ => Unit) YmodemCall.Answer
  ModemTransferError Unit BatchFiles Nat (List YmodemFileHeader)

abbrev BatchSenderProgram := ModemProgram Empty (fun _ => Unit) Nat

abbrev BatchReceiverProgram :=
  ModemProgram YmodemCall YmodemCall.Answer (List YmodemFileHeader)

def batch (sender : BatchSenderProgram) (receiver : BatchReceiverProgram) (files : BatchFiles)
    (toSender : Bytes) : BatchSession where
  left := { program := sender, state := (), inbox := toSender }
  right := { program := receiver, state := files, inbox := [] }

/-! ## One packet -/

section

variable {sender sender' : BatchSenderProgram} {receiver receiver' : BatchReceiverProgram}
  {files files' : BatchFiles} {input sent reply : Bytes}

/-- The sender reads all there is. -/
theorem sender_reads_all (h : Goes batchSender sender () input [] sender' ()) (rest : Bytes) :
    batchLine.Reaches (batch sender receiver files (input ++ rest))
      (batch sender' receiver files rest) := by
  have hreaches : batchLine.Reaches ⟨⟨sender, (), input ++ rest⟩, ⟨receiver, files, []⟩⟩ _ :=
    Network.reaches_left h rest ⟨receiver, files, []⟩
  rwa [Station.deliver_nil] at hreaches

/-- The sender takes the request that starts something. -/
theorem sender_starts (f : Bool → BatchSenderProgram) :
    batchLine.Reaches (batch (waitForXymodemStart.bind f) receiver files [wantCrc])
      (batch (f true) receiver files []) := by
  have hgoes : Goes batchSender (waitForXymodemStart.bind f) () [wantCrc] [] (f true) () :=
    goes_waitForStart lossless_batchSender (.stay _ _)
  exact sender_reads_all hgoes []

/-- The sender takes the request for the blocks of a file. -/
theorem sender_expects (f : Unit → BatchSenderProgram) :
    batchLine.Reaches (batch ((expectByteOrCancel wantCrc).bind f) receiver files [wantCrc])
      (batch (f ()) receiver files []) := by
  have hgoes : Goes batchSender ((expectByteOrCancel wantCrc).bind f) () [wantCrc] [] (f ()) () :=
    goes_expectByte lossless_batchSender wantCrc (.stay _ _)
  exact sender_reads_all hgoes []

/-- The receiver goes on by itself. -/
theorem receiver_goes_on (h : Goes batchReceiver receiver files [] reply receiver' files')
    (toSender : Bytes) :
    batchLine.Reaches (batch sender receiver files toSender)
      (batch sender receiver' files' (toSender ++ reply)) :=
  @Network.reaches_right _ _ _ _ _ _ _ _ _ _ batchLine _ _ _ _ _ _ h [] ⟨sender, (), toSender⟩

/-- The sender writes, and the receiver answers. -/
theorem exchange_packet (hsender : Goes batchSender sender () [] sent sender' ())
    (hreceiver : Goes batchReceiver receiver files sent reply receiver' files') :
    batchLine.Reaches (batch sender receiver files []) (batch sender' receiver' files' reply) := by
  have hsent : batchLine.Reaches ⟨⟨sender, (), [] ++ []⟩, ⟨receiver, files, []⟩⟩ _ :=
    Network.reaches_left hsender [] ⟨receiver, files, []⟩
  have hanswered : batchLine.Reaches ⟨⟨sender', (), []⟩, ⟨receiver, files, sent ++ []⟩⟩ _ :=
    Network.reaches_right hreceiver [] ⟨sender', (), []⟩
  rw [List.append_nil] at hanswered
  exact hsent.trans hanswered

/-- What follows the reply to something that was sent. -/
theorem goes_awaitAck {again : List UInt8} {retry : ModemProgram Empty (fun _ => Unit) Unit}
    {f : Unit → BatchSenderProgram} :
    Goes batchSender ((awaitAck again retry).bind f) () [ack] [] (f ()) () ∧
      ∀ reply, reply ∈ again → reply ≠ ack →
        Goes batchSender ((awaitAck again retry).bind f) () [reply] [] (retry.bind f) () := by
  rw [awaitAck_bind]
  constructor
  · refine lossless_readByte lossless_batchSender ?_
    rw [afterReply, if_pos rfl]
    exact .stay _ _
  · intro reply hagain hack
    refine lossless_readByte lossless_batchSender ?_
    rw [afterReply, if_neg hack, if_pos hagain]
    exact .stay _ _

theorem goes_sendRounds (bytes : Bytes) (again : List UInt8) (rounds : Nat)
    (f : Unit → BatchSenderProgram) :
    Goes batchSender ((sendRounds bytes again (rounds + 1)).bind f) () [] bytes
      ((awaitAck again (sendRounds bytes again rounds)).bind f) () := by
  have hassoc : (sendRounds bytes again (rounds + 1)).bind f = (writeAll bytes).bind fun _ =>
      (awaitAck again (sendRounds bytes again rounds)).bind f := by
    rw [sendRounds, Program.bind_eq, Program.bind_assoc]
  have hwrite : Goes batchSender ((sendRounds bytes again (rounds + 1)).bind f) () []
      (bytes ++ []) ((awaitAck again (sendRounds bytes again rounds)).bind f) () := by
    rw [hassoc]
    exact lossless_writeAll lossless_batchSender (.stay _ _)
  rwa [List.append_nil] at hwrite

/-- Something that is acknowledged. -/
theorem exchange_acknowledged (bytes : Bytes) (again : List UInt8) (rounds : Nat)
    (f : Unit → BatchSenderProgram) {more : Bytes}
    (hreceiver : Goes batchReceiver receiver files bytes (ack :: more) receiver' files') :
    batchLine.Reaches (batch ((sendRounds bytes again (rounds + 1)).bind f) receiver files [])
      (batch (f ()) receiver' files' more) :=
  (exchange_packet (goes_sendRounds bytes again rounds f) hreceiver).trans
    (sender_reads_all goes_awaitAck.1 more)

/-- Something that the receiver wants to have again. -/
theorem exchange_again (bytes : Bytes) {again : List UInt8} (rounds : Nat)
    (f : Unit → BatchSenderProgram) {reply : UInt8} (hagain : reply ∈ again) (hack : reply ≠ ack)
    (hreceiver : Goes batchReceiver receiver files bytes [reply] receiver' files') :
    batchLine.Reaches (batch ((sendRounds bytes again (rounds + 1)).bind f) receiver files [])
      (batch ((sendRounds bytes again rounds).bind f) receiver' files' []) :=
  (exchange_packet (goes_sendRounds bytes again rounds f) hreceiver).trans
    (sender_reads_all (goes_awaitAck.2 reply hagain hack) [])

end

/-! ## One file -/

/-- The receiver takes a block that has something of the file. -/
theorem goes_receiveBlock {s : ReceiveState} {block : XyBlock} {size : Nat}
    (hnumber : block.number = s.expected) (hsome : 0 < writeLen (some size) s.total block.payload)
    (header : YmodemFileHeader) (written : Bytes) (files : BatchFiles) :
    Goes fileReceiver (receiveRound true (some size) true s) ((header, written) :: files)
      (block.encode true) [ack]
      (.done (.ok (.inl { expected := s.expected + 1
                          total := s.total + writeLen (some size) s.total block.payload
                          retries := 0 })))
      ((header, written ++ block.payload.take (writeLen (some size) s.total block.payload)) ::
        files) := by
  refine Goes.bind_reading (goes_readBlockPacket lossless_fileReceiver block true).attempt ?_
  simp only [hnumber, if_true]
  rw [if_pos hsome]
  exact goes_onHost rfl (lossless_writeAll lossless_fileReceiver (.stay _ _))

/-- The receiver confirms the end of a file in two rounds. -/
theorem goes_receiveEnd (expectedSize : Option Nat) (s : ReceiveState) (files : BatchFiles) :
    ∃ waiting,
      Goes fileReceiver (receiveRound true expectedSize true s) files [eot] [nak] waiting files ∧
      Goes fileReceiver waiting files [eot] [ack] (.done (.ok (.inr s.total))) files := by
  have hread : Goes fileReceiver (readXymodemPacket true) files [eot] []
      (.done (.ok .endOfTransmission)) files :=
    lossless_readByte lossless_fileReceiver (.stay _ _)
  refine ⟨_, Goes.bind_reading hread.attempt (lossless_writeAll lossless_fileReceiver (.stay _ _)),
    ?_⟩
  refine goes_expectByte lossless_fileReceiver eot ?_
  exact goes_onHost rfl (lossless_writeAll lossless_fileReceiver (.stay _ _))

/-- A round of the receiver within a file, and what follows. -/
def receivingRound (fuel size : Nat) (next : Nat → BatchReceiverProgram)
    (round : ModemProgram WriterCall WriterCall.Answer (ReceiveState ⊕ Nat)) :
    BatchReceiverProgram :=
  ((round.bind (Program.nextRound (receiveRound true (some size) true) fuel)).interpret
    (Port.rename YmodemCall.writer)).bind next

/-- The receiver within a file. -/
def receiving (fuel size : Nat) (s : ReceiveState) (next : Nat → BatchReceiverProgram) :
    BatchReceiverProgram :=
  ((Program.loop (receiveRound true (some size) true) fuel s).interpret
    (Port.rename YmodemCall.writer)).bind next

section

variable {files files' : BatchFiles} {input sent : Bytes} {size : Nat}

theorem goes_receivingRound
    {p q : ModemProgram WriterCall WriterCall.Answer (ReceiveState ⊕ Nat)}
    (h : Goes fileReceiver p files input sent q files') (fuel : Nat)
    (next : Nat → BatchReceiverProgram) :
    Goes batchReceiver (receivingRound fuel size next p) files input sent
      (receivingRound fuel size next q) files' :=
  (Goes.interpret_rename (h.bind _)).bind next

variable {R : Type} [Read R]

/-- A reader that gives these contents at least, wherever it stands in them. -/
structure Yields (contents : Bytes) (stands : R → Nat → Prop) : Prop where
  read : ∀ reader position room, stands reader position → 0 < room →
    position + room ≤ contents.length → ∃ bytes reader',
      Read.read reader room = .ok (bytes, reader') ∧ bytes ≠ [] ∧ bytes <+: contents.drop position ∧
        stands reader' (position + bytes.length)

theorem ReadsBuffers.yields {contents : Bytes} {stands : R → Nat → Prop}
    (h : ReadsBuffers contents stands) : Yields contents stands where
  read := by
    intro reader position room hstands hroom hwithin
    obtain ⟨bytes, reader', hread, hprefixed, hempty, hstands'⟩ :=
      h.read reader position room hstands hroom
    refine ⟨bytes, reader', hread, fun hnil => ?_, hprefixed, hstands'⟩
    have hend := hempty hnil
    omega

/-- A reader that ends after so many bytes gives what comes before. -/
theorem Yields.take {contents : Bytes} {stands : R → Nat → Prop} (h : Yields contents stands)
    {limit : Nat} (hlimit : limit ≤ contents.length) :
    ReadsBuffers (contents.take limit) fun (taken : Take R) position =>
      stands taken.reader position ∧ taken.limit = limit - position where
  read := by
    rintro ⟨reader, rest⟩ position room ⟨hstands, hrest⟩ hroom
    simp only at hstands hrest
    have hlength : (contents.take limit).length = limit := by
      rw [List.length_take]
      omega
    by_cases hover : rest = 0
    · refine ⟨[], ⟨reader, rest⟩, if_pos hover, List.nil_prefix, fun _ => ?_, hstands, hrest⟩
      omega
    · obtain ⟨bytes, reader', hread, hsome, hprefixed, hstands'⟩ :=
        h.read reader position (min room rest) hstands (by omega) (by omega)
      have hshort : bytes.length ≤ min room rest := Read.length_le hread
      have hleft : rest - bytes.length = limit - (position + bytes.length) := by
        omega
      refine ⟨bytes, _, Take.read_of_ne_zero hover hread, ?_, fun hnil => absurd hnil hsome,
        hstands', hleft⟩
      rw [List.drop_take, ← hrest]
      exact List.prefix_take_iff.mpr ⟨hprefixed, by omega⟩

/-- A block of the sender that is taken by the receiver. -/
theorem exchange_block {file : Bytes} {stands : R → Nat → Prop} (hreads : ReadsBuffers file stands)
    (f : Nat → BatchSenderProgram) (next : Nat → BatchReceiverProgram) (header : YmodemFileHeader)
    (files : BatchFiles) (left right : Nat) (number : UInt8) {position : Nat} {reader : R}
    (written : Bytes) (hstands : stands reader position) (hposition : position < file.length) :
    ∃ reader', stands reader' (position + ((file.drop position).take 1024).length) ∧
      batchLine.Reaches
        (batch ((Program.loop (sendRound .bytes1024 true) (left + 1)
            { number, total := position, reader }).bind f)
          (receiving (right + 1) file.length { expected := number, total := position, retries := 0 }
            next) ((header, written) :: files) [])
        (batch ((Program.loop (sendRound .bytes1024 true) left
            { number := number + 1, total := position + ((file.drop position).take 1024).length,
              reader := reader' }).bind f)
          (receiving right file.length
            { expected := number + 1
              total := position + ((file.drop position).take 1024).length
              retries := 0 } next)
          ((header, written ++ (file.drop position).take 1024) :: files) []) := by
  obtain ⟨reader', hread, hstands'⟩ := hreads.readPadded_eq XyBlockSize.bytes1024.len hstands
  have hlength : ((file.drop position).take 1024).length = min 1024 (file.length - position) := by
    rw [List.length_take, List.length_drop]
  refine ⟨reader', hstands', ?_⟩
  generalize hbytes : (file.drop position).take 1024 = bytes at hlength
  have hread : readPadded reader XyBlockSize.bytes1024.len = .ok (bytes, reader') := hbytes ▸ hread
  have hsome : bytes ≠ [] := by
    rintro rfl
    rw [List.length_nil] at hlength
    omega
  have hroom : bytes.length ≤ XyBlockSize.bytes1024.len := by
    show bytes.length ≤ 1024
    omega
  rw [sendRound_bind hread hsome hroom]
  -- What the block is filled up with lies behind the end of the file.
  have hwrite : writeLen (some file.length) position (XyBlock.padded .bytes1024 bytes) =
      bytes.length := by
    rw [writeLen, XyBlock.length_padded hroom]
    show min (file.length - position) 1024 = _
    omega
  have htake : (XyBlock.padded .bytes1024 bytes).take bytes.length = bytes := List.take_left
  have hround : Goes fileReceiver (receiveRound true (some file.length) true
      { expected := number, total := position, retries := 0 }) ((header, written) :: files)
      (XyBlock.encode ⟨number, .bytes1024, _, XyBlock.length_padded hroom⟩ true) _ _ _ :=
    goes_receiveBlock rfl (by rw [hwrite]; exact List.length_pos_iff.mpr hsome) header written files
  simp only [hwrite, htake] at hround
  exact exchange_acknowledged _ _ 9 _ (goes_receivingRound hround right next)

/-- All blocks of a file from a position on. -/
theorem exchange_blocks {file : Bytes} {stands : R → Nat → Prop} (hreads : ReadsBuffers file stands)
    (f : Nat → BatchSenderProgram) (next : Nat → BatchReceiverProgram) (header : YmodemFileHeader)
    (files : BatchFiles) :
    ∀ (left right : Nat) (number : UInt8) (position : Nat) (reader : R) (written : Bytes),
      stands reader position → position ≤ file.length → file.length - position < left →
      file.length - position < right →
      ∃ rounds number', batchLine.Reaches
        (batch ((Program.loop (sendRound .bytes1024 true) left
            { number, total := position, reader }).bind f)
          (receiving right file.length { expected := number, total := position, retries := 0 } next)
          ((header, written) :: files) [])
        (batch (f file.length)
          (receiving (rounds + 1) file.length
            { expected := number', total := file.length, retries := 0 } next)
          ((header, written ++ file.drop position) :: files) [])
  | 0, right, number, position, reader, written, hstands, hposition, hleft, hright => by
    omega
  | left + 1, 0, number, position, reader, written, hstands, hposition, hleft, hright => by
    omega
  | left + 1, right + 1, number, position, reader, written, hstands, hposition, hleft, hright => by
    rcases Nat.lt_or_eq_of_le hposition with hmore | rfl
    · obtain ⟨reader', hstands', hblock⟩ :=
        exchange_block hreads f next header files left right number written hstands hmore
      have hlength : ((file.drop position).take 1024).length =
          min 1024 (file.length - position) := by
        rw [List.length_take, List.length_drop]
      obtain ⟨rounds, number', hrest⟩ := exchange_blocks hreads f next header files left right
        (number + 1) _ reader' (written ++ (file.drop position).take 1024) hstands' (by omega)
        (by omega) (by omega)
      have hcut : written ++ (file.drop position).take 1024 ++
          file.drop (position + ((file.drop position).take 1024).length) =
          written ++ file.drop position := by
        rw [List.append_assoc, ← List.drop_drop, List.append_cancel_left_eq]
        exact (List.prefix_append_drop (List.take_prefix _ _)).symm
      rw [hcut] at hrest
      exact ⟨rounds, number', hblock.trans hrest⟩
    · obtain ⟨reader', hread, -⟩ := hreads.readPadded_eq XyBlockSize.bytes1024.len hstands
      rw [List.drop_length, List.take_nil] at hread
      have hround : sendRound .bytes1024 true { number, total := file.length, reader } =
          (.done (.ok (.inr file.length)) : ModemProgram Empty (fun _ => Unit) _) := by
        rw [sendRound, hread]
        rfl
      refine ⟨right, number, ?_⟩
      rw [Program.loop_succ, hround, List.drop_length, List.append_nil]
      exact .refl _

end

/-! ## The batch -/

/-- The header of an entry. -/
def YmodemSendStreamEntry.header {R : Type} (entry : YmodemSendStreamEntry R) :
    YmodemFileHeader where
  fileName := entry.fileName
  fileSize := some entry.fileSize

/-- The part of the contents that is sent. -/
def YmodemSendStreamEntry.file {R : Type} (entry : YmodemSendStreamEntry R) (contents : Bytes) :
    Bytes := contents.take entry.fileSize.toNat

/-- An entry whose header is accepted and fits, and whose reader gives what it says. -/
structure Offered {R : Type} [Read R] (entry : YmodemSendStreamEntry R) (contents : Bytes) :
    Prop where
  accepted : ∃ header payload,
    YmodemFileHeader.new entry.fileName (some entry.fileSize) = .ok header ∧
      header.encodeBlock0Payload = .ok payload
  size_le : entry.fileSize.toNat ≤ contents.length
  yields : ∃ stands, Yields contents stands ∧ stands entry.reader 0

/-- A sender and a receiver at their starts. -/
def batchStart {R : Type} [Read R] (fuel : Nat) (entries : List (YmodemSendStreamEntry R)) :
    BatchSession :=
  batch (sendYmodemStream fuel entries) (receiveYmodem fuel) [] []

/-- Both sides have returned, the receiver with all headers in order and all files. -/
structure BatchDelivered {R : Type} (entries : List (YmodemSendStreamEntry R))
    (contents : List Bytes) (c : BatchSession) : Prop where
  sender_done : ∃ total, c.left.program = .done (.ok total)
  receiver_done : c.right.program = .done (.ok (entries.map YmodemSendStreamEntry.header))
  files_eq : c.right.state.reverse =
    (entries.map YmodemSendStreamEntry.header).zip
      (List.zipWith YmodemSendStreamEntry.file entries contents)

/-- With rounds enough every run ends, and ends with the batch delivered. -/
def DeliversBatch {R : Type} [Read R] (entries : List (YmodemSendStreamEntry R))
    (contents : List Bytes) : Prop :=
  ∃ enough, ∀ fuel, enough ≤ fuel → ∃ bound, ∀ n c,
    batchLine.Steps n (batchStart fuel entries) c →
      n ≤ bound ∧ (batchLine.Stuck c → BatchDelivered entries contents c)

section

variable {R : Type} [Read R] {entry : YmodemSendStreamEntry R} {contents : Bytes}

theorem YmodemFileHeader.new_eq {fileName : List Char} {fileSize : Option UInt64}
    {header : YmodemFileHeader} (h : YmodemFileHeader.new fileName fileSize = .ok header) :
    validateYmodemFileName fileName = .ok () ∧ header = { fileName, fileSize } := by
  unfold YmodemFileHeader.new at h
  cases hvalid : validateYmodemFileName fileName with
  | error error =>
    rw [hvalid] at h
    cases h
  | ok checked =>
    rw [hvalid] at h
    cases h
    exact ⟨rfl, rfl⟩

/-- The header that both sides have of an entry. -/
theorem Offered.payload (h : Offered entry contents) :
    YmodemFileHeader.new entry.fileName (some entry.fileSize) = .ok entry.header ∧
      ∃ payload, entry.header.encodeBlock0Payload = .ok payload ∧
        (Char.ofNat 0 ∉ entry.fileName → payload.length = XyBlockSize.bytes128.len ∧
          YmodemFileHeader.parseBlock0Payload payload = .ok (some entry.header)) := by
  obtain ⟨header, payload, hnew, hencode⟩ := h.accepted
  obtain ⟨hvalid, rfl⟩ := YmodemFileHeader.new_eq hnew
  exact ⟨hnew, payload, hencode, fun hnul => YmodemFileHeader.parse_encode hvalid hencode hnul⟩

theorem Offered.length_file (h : Offered entry contents) :
    (entry.file contents).length = entry.fileSize.toNat := by
  have hsize := h.size_le
  rw [YmodemSendStreamEntry.file, List.length_take]
  omega

/-- The receiver that has asked for a header. -/
def awaitHeader (fuel rounds : Nat) (received : List YmodemFileHeader) : BatchReceiverProgram :=
  (readXymodemBlock true).bind fun headerBlock =>
    (takeHeaderBlock fuel received headerBlock).bind
      (Program.nextRound (receiveYmodemRound fuel) rounds)

theorem goes_receiveYmodem (fuel rounds : Nat) (received : List YmodemFileHeader)
    (files : BatchFiles) :
    Goes batchReceiver (Program.loop (receiveYmodemRound fuel) (rounds + 1) received) files []
      [wantCrc] (awaitHeader fuel rounds received) files := by
  have hround : Program.loop (receiveYmodemRound fuel) (rounds + 1) received =
      (writeAll [wantCrc]).bind fun _ => awaitHeader fuel rounds received := by
    rw [Program.loop_succ, receiveYmodemRound, Program.bind_eq, Program.bind_assoc]
    refine congrArg _ (funext fun _ => ?_)
    rw [Program.bind_eq, Program.bind_assoc]
    rfl
  rw [hround]
  exact lossless_writeAll lossless_batchReceiver (.stay _ _)

/-- What the receiver does when the blocks of a file are over. -/
def afterFile (fuel rounds : Nat) (received : List YmodemFileHeader) (header : YmodemFileHeader)
    (bytes : Nat) : BatchReceiverProgram :=
  Program.bind (if header.fileSize.any fun size => bytes < size.toNat then
      Program.fail .unexpectedFrame else return ()) fun _ =>
    Program.loop (receiveYmodemRound fuel) rounds (received ++ [header])

/-- The receiver takes a header, opens its file and asks for its blocks. -/
theorem goes_awaitHeader (fuel rounds : Nat) (received : List YmodemFileHeader)
    (files : BatchFiles) {block : XyBlock} (hnumber : block.number = 0) {header : YmodemFileHeader}
    {size : UInt64} (hsize : header.fileSize = some size)
    (hparse : YmodemFileHeader.parseBlock0Payload block.payload = .ok (some header)) :
    Goes batchReceiver (awaitHeader fuel rounds received) files (block.encode true) [ack, wantCrc]
      (receiving fuel size.toNat { expected := 1, total := 0, retries := 0 }
        (afterFile fuel rounds received header)) ((header, []) :: files) := by
  have hfollow : (takeHeaderBlock fuel received block).bind
      (Program.nextRound (receiveYmodemRound fuel) rounds) =
      (writeAll [ack]).bind fun _ => (writeAll [wantCrc]).bind fun _ =>
        (onHost (YmodemCall.openWriter header)).bind fun _ =>
          receiving fuel size.toNat { expected := 1, total := 0, retries := 0 }
            (afterFile fuel rounds received header) := by
    obtain ⟨fileName, fileSize⟩ := header
    obtain rfl : fileSize = some size := hsize
    rw [takeHeaderBlock, if_neg (not_not.mpr hnumber), hparse]
    simp only [protocolStep_ok, receiveYmodemFile, Program.bind_eq, Program.done_ok_bind,
      Program.bind_assoc]
    rfl
  rw [awaitHeader]
  refine Goes.bind_reading (goes_readXymodemBlock lossless_batchReceiver block true) ?_
  rw [hfollow]
  show Goes batchReceiver _ _ [] ([ack] ++ ([wantCrc] ++ [])) _ _
  refine lossless_writeAll lossless_batchReceiver (lossless_writeAll lossless_batchReceiver ?_)
  exact goes_onHost rfl (.stay _ _)

/-- A file that is complete. -/
theorem afterFile_eq (fuel rounds : Nat) (received : List YmodemFileHeader)
    {header : YmodemFileHeader} {size : UInt64} (hsize : header.fileSize = some size) :
    afterFile fuel rounds received header size.toNat =
      Program.loop (receiveYmodemRound fuel) rounds (received ++ [header]) := by
  have hcomplete : ¬ header.fileSize.any (fun bound => size.toNat < bound.toNat) = true := by
    simp [hsize]
  rw [afterFile, if_neg hcomplete]
  rfl

/-- The end of a file, and the request for the next header. -/
theorem exchange_end (f : Unit → BatchSenderProgram) (fuel left rounds : Nat) (number : UInt8)
    (received : List YmodemFileHeader) {header : YmodemFileHeader} {size : UInt64}
    (hsize : header.fileSize = some size) (files : BatchFiles) :
    batchLine.Reaches
      (batch (finishXymodemSend.bind f)
        (receiving (left + 1) size.toNat { expected := number, total := size.toNat, retries := 0 }
          (afterFile fuel (rounds + 1) received header)) files [])
      (batch (f ()) (awaitHeader fuel rounds (received ++ [header])) files [wantCrc]) := by
  obtain ⟨waiting, hfirst, hsecond⟩ := goes_receiveEnd (some size.toNat)
    { expected := number, total := size.toNat, retries := 0 } files
  have hrefused : Goes batchReceiver (receivingRound left size.toNat
      (afterFile fuel (rounds + 1) received header) _) files [eot] [nak] _ files :=
    goes_receivingRound hfirst left _
  have hconfirmed : Goes batchReceiver
      (receivingRound left size.toNat (afterFile fuel (rounds + 1) received header) waiting) files
      [eot] [ack, wantCrc] (awaitHeader fuel rounds (received ++ [header])) files := by
    have hnext : Goes batchReceiver (afterFile fuel (rounds + 1) received header size.toNat) files
        [] [wantCrc] (awaitHeader fuel rounds (received ++ [header])) files := by
      rw [afterFile_eq fuel (rounds + 1) received hsize]
      exact goes_receiveYmodem fuel rounds _ files
    exact (goes_receivingRound hsecond left _).trans hnext
  exact (exchange_again [eot] 9 f List.mem_cons_self (by decide) hrefused).trans
    (exchange_acknowledged [eot] [nak] 8 f hconfirmed)

/-- What the sender does when the blocks of an entry are over. -/
def afterBlocks (fuel : Nat) (entry : YmodemSendStreamEntry R)
    (entries : List (YmodemSendStreamEntry R)) (total bytes : Nat) : BatchSenderProgram :=
  if bytes ≠ entry.fileSize.toNat then Program.fail .unexpectedFrame
  else finishXymodemSend.bind fun _ => sendYmodemEntries fuel entries (total + bytes)

theorem sendYmodemEntries_cons {payload : Bytes}
    (hnew : YmodemFileHeader.new entry.fileName (some entry.fileSize) = .ok entry.header)
    (hencode : entry.header.encodeBlock0Payload = .ok payload)
    (hpayload : payload.length = XyBlockSize.bytes128.len) (fuel : Nat)
    (entries : List (YmodemSendStreamEntry R)) (total : Nat) :
    sendYmodemEntries fuel (entry :: entries) total =
      waitForXymodemStart.bind fun _ =>
        (sendRounds (XyBlock.encode ⟨0, .bytes128, payload, hpayload⟩ true) [nak, wantCrc]
          xymodemRetries).bind fun _ => (expectByteOrCancel wantCrc).bind fun _ =>
            (Program.loop (sendRound .bytes1024 true) fuel
              { number := 1, total := 0,
                reader := ({ reader := entry.reader, limit := entry.fileSize.toNat } : Take R)
                }).bind (afterBlocks fuel entry entries total) := by
  rw [sendYmodemEntries, hnew]
  simp only [Program.bind_eq, protocolStep_ok, Program.done_ok_bind, hencode,
    sendXymodemBlock_eq 0 hpayload]
  rfl

/-- An entry, from the request for its header to the request for the next one. -/
theorem exchange_batch_entry (h : Offered entry contents) (hnul : Char.ofNat 0 ∉ entry.fileName)
    {fuel : Nat} (hfuel : entry.fileSize.toNat < fuel) (entries : List (YmodemSendStreamEntry R))
    (total rounds : Nat) (received : List YmodemFileHeader) (files : BatchFiles) :
    batchLine.Reaches
      (batch (sendYmodemEntries fuel (entry :: entries) total)
        (awaitHeader fuel (rounds + 1) received) files [wantCrc])
      (batch (sendYmodemEntries fuel entries (total + entry.fileSize.toNat))
        (awaitHeader fuel rounds (received ++ [entry.header]))
        ((entry.header, entry.file contents) :: files) [wantCrc]) := by
  obtain ⟨hnew, payload, hencode, hheader⟩ := h.payload
  obtain ⟨hpayload, hparse⟩ := hheader hnul
  obtain ⟨stands, hyields, hstands⟩ := h.yields
  have hfile : (contents.take entry.fileSize.toNat).length = entry.fileSize.toNat := h.length_file
  rw [sendYmodemEntries_cons hnew hencode hpayload]
  -- The header and the two requests around it.
  refine (sender_starts _).trans ?_
  refine (exchange_acknowledged _ _ 9 _
    (goes_awaitHeader fuel (rounds + 1) received files rfl rfl hparse)).trans ?_
  refine (sender_expects _).trans ?_
  obtain ⟨left, number, hblocks⟩ := exchange_blocks (hyields.take h.size_le)
    (afterBlocks fuel entry entries total) (afterFile fuel (rounds + 1) received entry.header)
    entry.header files fuel fuel 1 0 { reader := entry.reader, limit := entry.fileSize.toNat } []
    ⟨hstands, rfl⟩ (Nat.zero_le _) (by rw [hfile]; exact hfuel) (by rw [hfile]; exact hfuel)
  have hafter : afterBlocks fuel entry entries total entry.fileSize.toNat =
      finishXymodemSend.bind fun _ =>
        sendYmodemEntries fuel entries (total + entry.fileSize.toNat) :=
    if_neg (not_not.mpr rfl)
  rw [hfile, hafter] at hblocks
  exact hblocks.trans (exchange_end _ fuel left rounds number received rfl _)

/-- A block of zeros, which ends a batch. -/
def zeroBlock : XyBlock where
  number := 0
  size := .bytes128
  payload := List.replicate 128 0
  length_payload := List.length_replicate

omit [Read R] in
theorem goes_lastHeader (fuel rounds : Nat) (received : List YmodemFileHeader)
    (files : BatchFiles) :
    Goes batchReceiver (awaitHeader fuel rounds received) files (zeroBlock.encode true) [ack]
      (.done (.ok received)) files := by
  have hfollow : (takeHeaderBlock fuel received zeroBlock).bind
      (Program.nextRound (receiveYmodemRound fuel) rounds) =
      (writeAll [ack]).bind fun _ => .done (.ok received) := by
    have hnumber : ¬ zeroBlock.number ≠ 0 := not_not.mpr rfl
    have hparse : YmodemFileHeader.parseBlock0Payload zeroBlock.payload = .ok none :=
      YmodemFileHeader.parse_zeros
    rw [takeHeaderBlock, if_neg hnumber, hparse]
    simp only [protocolStep_ok, Program.bind_eq, Program.done_ok_bind, Program.bind_assoc]
    rfl
  rw [awaitHeader]
  refine Goes.bind_reading (goes_readXymodemBlock lossless_batchReceiver zeroBlock true) ?_
  rw [hfollow]
  show Goes batchReceiver _ _ [] ([ack] ++ []) _ _
  exact lossless_writeAll lossless_batchReceiver (.stay _ _)

/-- The end of a batch. -/
theorem exchange_last_header (fuel rounds total : Nat) (received : List YmodemFileHeader)
    (files : BatchFiles) :
    batchLine.Reaches
      (batch (sendYmodemEntries fuel ([] : List (YmodemSendStreamEntry R)) total)
        (awaitHeader fuel rounds received) files [wantCrc])
      (batch (.done (.ok total)) (.done (.ok received)) files []) := by
  have hsend : sendYmodemEntries fuel ([] : List (YmodemSendStreamEntry R)) total =
      waitForXymodemStart.bind fun _ => (sendRounds (zeroBlock.encode true) [nak, wantCrc]
        xymodemRetries).bind fun _ => (.done (.ok total) : BatchSenderProgram) := by
    have hblock : (sendXymodemBlock 0 .bytes128 (List.replicate 128 0) true :
        ModemProgram Empty (fun _ => Unit) Unit) =
          sendRounds (zeroBlock.encode true) [nak, wantCrc] xymodemRetries :=
      sendXymodemBlock_eq 0 List.length_replicate
    rw [sendYmodemEntries, hblock]
    simp only [Program.bind_eq, Program.pure_eq]
  rw [hsend]
  exact (sender_starts _).trans
    (exchange_acknowledged _ _ 9 _ (goes_lastHeader fuel rounds received files))

/-- The rest of a batch, from the request for a header on. -/
theorem exchange_batch_entries {fuel : Nat} (hfuel : 2 ^ 64 ≤ fuel) :
    ∀ {entries : List (YmodemSendStreamEntry R)} {contents : List Bytes},
      List.Forall₂ Offered entries contents →
      (∀ entry ∈ entries, Char.ofNat 0 ∉ entry.fileName) →
      ∀ (total rounds : Nat) (received : List YmodemFileHeader) (files : BatchFiles),
        entries.length ≤ rounds →
        ∃ total', batchLine.Reaches
          (batch (sendYmodemEntries fuel entries total) (awaitHeader fuel rounds received) files
            [wantCrc])
          (batch (.done (.ok total'))
            (.done (.ok (received ++ entries.map YmodemSendStreamEntry.header)))
            (((entries.map YmodemSendStreamEntry.header).zip
              (List.zipWith YmodemSendStreamEntry.file entries contents)).reverse ++ files) [])
  | _, _, .nil, hnul, total, rounds, received, files, hrounds => by
    refine ⟨total, ?_⟩
    rw [List.map_nil, List.append_nil]
    exact exchange_last_header fuel rounds total received files
  | _, _, @List.Forall₂.cons _ _ _ entry contents entries rest hentry hentries, hnul, total, rounds,
      received, files, hrounds => by
    obtain ⟨rounds, rfl⟩ : ∃ k, rounds = k + 1 :=
      ⟨rounds - 1, (Nat.sub_add_cancel (Nat.le_trans (Nat.succ_pos _) hrounds)).symm⟩
    obtain ⟨hname, hnames⟩ := List.forall_mem_cons.mp hnul
    have hfirst := exchange_batch_entry hentry hname (Nat.lt_of_lt_of_le entry.fileSize.toNat_lt hfuel)
      entries total rounds received files
    obtain ⟨total', hrest⟩ := exchange_batch_entries hfuel hentries hnames
      (total + entry.fileSize.toNat) rounds (received ++ [entry.header])
      ((entry.header, entry.file contents) :: files) (Nat.le_of_succ_le_succ hrounds)
    rw [List.append_assoc, List.singleton_append] at hrest
    refine ⟨total', hfirst.trans ?_⟩
    rw [List.map_cons, List.zipWith_cons_cons, List.zip_cons_cons, List.reverse_cons,
      List.append_assoc]
    exact hrest

/-- Names without a zero come through, and all files with them. -/
theorem deliversBatch_of_names {entries : List (YmodemSendStreamEntry R)} {contents : List Bytes}
    (h : List.Forall₂ Offered entries contents)
    (hnul : ∀ entry ∈ entries, Char.ofNat 0 ∉ entry.fileName) : DeliversBatch entries contents := by
  refine ⟨2 ^ 64 + entries.length, fun fuel hfuel => ?_⟩
  obtain ⟨rounds, hrounds⟩ : ∃ k, fuel = k + 1 := ⟨fuel - 1, by omega⟩
  have hrequest : batchLine.Reaches (batchStart fuel entries)
      (batch (sendYmodemStream fuel entries) (awaitHeader fuel rounds []) [] [wantCrc]) := by
    rw [batchStart, receiveYmodem]
    have hgoes := goes_receiveYmodem fuel rounds [] []
    rw [← hrounds] at hgoes
    exact receiver_goes_on hgoes []
  obtain ⟨total, hentries⟩ := exchange_batch_entries (show 2 ^ 64 ≤ fuel by omega) h hnul 0 rounds
    [] []
    (by omega)
  obtain ⟨bound, hbound⟩ := (hrequest.trans hentries).every_run (Network.stuck_of_done rfl rfl)
  refine ⟨bound, fun n c hsteps => ⟨(hbound n c hsteps).1, fun hstuck => ?_⟩⟩
  obtain rfl := (hbound n c hsteps).2 hstuck
  refine ⟨⟨total, rfl⟩, rfl, ?_⟩
  show List.reverse (List.reverse _ ++ []) = _
  rw [List.append_nil, List.reverse_reverse]

end

/-! ## Names -/

/-- A round of the receiver takes no header whose name has a zero in it. -/
theorem receiveYmodemRound_names {fuel : Nat} {received : List YmodemFileHeader}
    {t : List (Program.Exchange (Port UInt8 YmodemCall) (Port.Answer UInt8 YmodemCall.Answer)
      ModemTransferError)}
    {next : List YmodemFileHeader ⊕ List YmodemFileHeader}
    (hreceived : ∀ header ∈ received, Char.ofNat 0 ∉ header.fileName)
    (h : Program.Runs (receiveYmodemRound fuel received) t (.done (.ok next))) :
    ∀ header ∈ next.elim id id, Char.ofNat 0 ∉ header.fileName := by
  obtain ⟨-, t₁, -, -, -, h⟩ := Program.runs_bind_ok h
  obtain ⟨-, t₂, headerBlock, -, -, h⟩ := Program.runs_bind_ok h
  unfold takeHeaderBlock at h
  split at h
  · obtain ⟨-, t₃, -, -, -, h⟩ := Program.runs_bind_ok h
    obtain rfl := Except.ok.inj (Program.done.inj (Program.runs_done h).2)
    exact hreceived
  · obtain ⟨-, t₃, -, -, -, h⟩ := Program.runs_bind_ok h
    obtain ⟨t₄, t₅, parsed, -, hparse, h⟩ := Program.runs_bind_ok h
    cases parsed with
    | none =>
      obtain rfl := Except.ok.inj (Program.done.inj (Program.runs_done h).2)
      exact hreceived
    | some header =>
      obtain ⟨-, t₆, -, -, -, h⟩ := Program.runs_bind_ok h
      obtain rfl := Except.ok.inj (Program.done.inj (Program.runs_done h).2)
      have hname : Char.ofNat 0 ∉ header.fileName := by
        cases hresult : YmodemFileHeader.parseBlock0Payload headerBlock.payload with
        | error error =>
          rw [hresult] at hparse
          exact absurd (Program.done.inj (Program.runs_done hparse).2) (by simp [Except.mapError])
        | ok parsed =>
          rw [hresult, protocolStep_ok] at hparse
          obtain rfl := Except.ok.inj (Program.done.inj (Program.runs_done hparse).2)
          exact YmodemFileHeader.zero_notMem_of_parse hresult
      intro taken htaken
      rcases List.mem_append.mp htaken with hbefore | hlast
      · exact hreceived taken hbefore
      · obtain rfl := List.mem_singleton.mp hlast
        exact hname

/-- A receiver that returns has taken no header whose name has a zero in it. -/
theorem receiveYmodem_names {fuel : Nat}
    {t : List (Program.Exchange (Port UInt8 YmodemCall) (Port.Answer UInt8 YmodemCall.Answer)
      ModemTransferError)}
    {headers : List YmodemFileHeader}
    (h : Program.Runs (receiveYmodem fuel) t (.done (.ok headers))) :
    ∀ header ∈ headers, Char.ofNat 0 ∉ header.fileName := by
  refine Program.runs_loop_ok
    (P := fun received => ∀ header ∈ received, Char.ofNat 0 ∉ header.fileName)
    (Q := fun received => ∀ header ∈ received, Char.ofNat 0 ∉ header.fileName)
    (fun received t next hreceived hround => ?_) fuel (fun header hmem => absurd hmem
      List.not_mem_nil) h
  have hnames := receiveYmodemRound_names hreceived hround
  constructor
  · rintro headers rfl
    exact hnames
  · rintro headers rfl
    exact hnames

section

variable {R : Type} [Read R]

/-- The headers that arrive have no zero in their names, so neither have the ones that are sent. -/
theorem names_of_deliversBatch {entries : List (YmodemSendStreamEntry R)} {contents : List Bytes}
    (h : DeliversBatch entries contents) :
    ∀ entry ∈ entries, Char.ofNat 0 ∉ entry.fileName := by
  intro entry hentry
  obtain ⟨enough, hends⟩ := h
  obtain ⟨bound, hbound⟩ := hends enough (Nat.le_refl _)
  obtain ⟨n, c, hsteps, hstuck⟩ := Network.exists_stuck fun n c hsteps => (hbound n c hsteps).1
  obtain ⟨-, hreceiver, -⟩ := (hbound n c hsteps).2 hstuck
  obtain ⟨t, hruns⟩ := hsteps.runs_right
  rw [hreceiver] at hruns
  exact receiveYmodem_names hruns entry.header (List.mem_map_of_mem hentry)

end

/-- An entry of one byte that goes by this name. -/
def oneByteEntry (fileName : List Char) : YmodemSendStreamEntry Cursor where
  fileName := fileName
  fileSize := 1
  reader := oneByte

theorem offered_oneByteEntry {fileName : List Char} (haccepted : ∃ header payload,
    YmodemFileHeader.new fileName (some 1) = .ok header ∧
      header.encodeBlock0Payload = .ok payload) : Offered (oneByteEntry fileName) [0x61] where
  accepted := haccepted
  size_le := Nat.le_refl _
  yields := ⟨_, (Cursor.seeks [0x61]).toReads.readsBuffers.yields, rfl, rfl⟩

end OxideTerm.Modem
