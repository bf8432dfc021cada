import OxideTerm.Modem.ZmodemFrames

/-!
# A ZMODEM sender and a ZMODEM receiver

The two programs run against each other on a line that loses nothing, in any order of their steps.
One order is easy to follow: each side goes on until it waits for the other one. Every other order
comes to the same end.
-/

namespace OxideTerm.Modem

open OxideTerm.Lib

/-! ## The two sides -/

/-- The files of a receiver, in the order in which they were opened. -/
abbrev Files := List (ZmodemFileHeader × Bytes)

/-- Writes to the file that was opened last. -/
def Files.writeLast (files : Files) (bytes : Bytes) : Files :=
  match files.getLast? with
  | none => files
  | some (header, written) => files.dropLast ++ [(header, written ++ bytes)]

@[simp] theorem Files.writeLast_concat (files : Files) (header : ZmodemFileHeader)
    (written bytes : Bytes) :
    Files.writeLast (files ++ [(header, written)]) bytes =
      files ++ [(header, written ++ bytes)] := by
  unfold Files.writeLast
  rw [List.getLast?_concat, List.dropLast_concat]

/-- What surrounds a sender. -/
def senderSide : Surroundings UInt8 FileCall FileCall.Answer ModemTransferError Unit where
  late _ := none
  arrives _ bytes := bytes
  answer _ _ := .ok ()
  after _ _ := ()

/-- What surrounds a receiver whose writers never fail. -/
def receiverSide : Surroundings UInt8 FileCall FileCall.Answer ModemTransferError Files where
  late _ := none
  arrives _ bytes := bytes
  answer _ _ := .ok ()
  after
    | .host (.openWriter header), files => files ++ [(header, [])]
    | .host (.writeAll bytes), files => files.writeLast bytes
    | _, files => files

/-- Both sides. -/
def link : Network UInt8 FileCall FileCall FileCall.Answer FileCall.Answer ModemTransferError Unit
    Files where
  left := senderSide
  right := receiverSide

theorem quietLine_senderSide : QuietLine senderSide :=
  ⟨fun _ => rfl, fun _ _ => rfl, fun _ => rfl, fun _ _ => rfl⟩

theorem quietLine_receiverSide : QuietLine receiverSide :=
  ⟨fun _ => rfl, fun _ _ => rfl, fun _ => rfl, fun _ _ => rfl⟩

/-- A sender and a receiver with what each has yet to read. -/
abbrev Session := Network.Config UInt8 FileCall FileCall FileCall.Answer FileCall.Answer
  ModemTransferError Unit Files Nat (List ZmodemFileHeader)

def session (fuel : Nat) (sender : Zmodem Nat) (receiver : Zmodem (List ZmodemFileHeader))
    (files : Files) (toSender toReceiver : Bytes) : Session where
  left := { program := sender.interpret (onLine fuel), state := (), inbox := toSender }
  right := { program := receiver.interpret (onLine fuel), state := files, inbox := toReceiver }

/-- An entry whose name can be sent and whose reader gives what it says. -/
structure Sendable {R : Type} [Read R] [Seek R] (entry : ZmodemSendStreamEntry R) (file : Bytes) :
    Prop where
  name_ne_nil : entry.fileName ≠ []
  nul_notMem : Char.ofNat 0 ∉ entry.fileName
  slash_notMem : '/' ∉ entry.fileName
  backslash_notMem : '\\' ∉ entry.fileName
  name_ne_dot : entry.fileName ≠ ['.'] ∧ entry.fileName ≠ ['.', '.']
  header_fits : (buildZfileHeader entry.fileName entry.fileSize).length ≤ zmodemMaxChunk
  size_eq : entry.fileSize = file.length
  size_le : entry.fileSize ≤ zmodemMaxPosition
  seeks : ∃ stands position, Seeks file stands ∧ stands entry.reader position

/-- The header that a receiver makes of an entry. -/
def ZmodemSendStreamEntry.header {R : Type} (entry : ZmodemSendStreamEntry R) : ZmodemFileHeader where
  fileName := entry.fileName
  fileSize := some entry.fileSize
  overwrite := false

/-! ## Steps in terms of frames -/

section

variable {fuel : Nat} {H : Type}
  {env : Surroundings UInt8 FileCall FileCall.Answer ModemTransferError H}
  {α β : Type} {h h' : H} {input sent : Bytes} {q : Zmodem β}

/-- A program in terms of frames gets as far as another one. -/
def Does (fuel : Nat) (env : Surroundings UInt8 FileCall FileCall.Answer ModemTransferError H)
    (p : Zmodem α) (h : H) (input sent : Bytes) (q : Zmodem α) (h' : H) : Prop :=
  Goes env (p.interpret (onLine fuel)) h input sent (q.interpret (onLine fuel)) h'

theorem does_stay (p : Zmodem α) (h : H) : Does fuel env p h [] [] p h := .stay _ _

/-- A frame that is read. -/
theorem does_read {call : ZCall} {answer : call.Answer} {bytes : Bytes}
    {next : Except ModemTransferError call.Answer → Zmodem β}
    (hcall : Parses env h (onLine fuel call) bytes answer)
    (hrest : Does fuel env (next (.ok answer)) h input sent q h') :
    Does fuel env (Program.act call next) h (bytes ++ input) sent q h' :=
  (Goes.interpret_act hcall).trans hrest

/-- A frame that is written. -/
theorem does_write {call : ZCall} {answer : call.Answer} {bytes : Bytes}
    {next : Except ModemTransferError call.Answer → Zmodem β}
    (hcall : Goes env (onLine fuel call) h [] bytes (.done (.ok answer)) h)
    (hrest : Does fuel env (next (.ok answer)) h input sent q h') :
    Does fuel env (Program.act call next) h input (bytes ++ sent) q h' :=
  (Goes.interpret_act hcall).trans hrest

/-- A frame that is read, and nothing behind it. -/
theorem does_read_last {call : ZCall} {answer : call.Answer} {bytes : Bytes}
    {next : Except ModemTransferError call.Answer → Zmodem β}
    (hcall : Parses env h (onLine fuel call) bytes answer)
    (hrest : Does fuel env (next (.ok answer)) h [] sent q h') :
    Does fuel env (Program.act call next) h bytes sent q h' := by
  have hall := does_read hcall hrest
  rwa [List.append_nil] at hall

/-- A frame that is written, and nothing behind it. -/
theorem does_write_last {call : ZCall} {answer : call.Answer} {bytes : Bytes}
    {next : Except ModemTransferError call.Answer → Zmodem β}
    (hcall : Goes env (onLine fuel call) h [] bytes (.done (.ok answer)) h)
    (hrest : Does fuel env (next (.ok answer)) h input [] q h') :
    Does fuel env (Program.act call next) h input bytes q h' := by
  have hall := does_write hcall hrest
  rwa [List.append_nil] at hall

/-- An action on a file. -/
theorem does_file {call : FileCall} {next : Except ModemTransferError Unit → Zmodem β}
    (hanswer : env.answer call h = .ok ())
    (hrest : Does fuel env (next (.ok ())) (env.after (.host call) h) input sent q h') :
    Does fuel env (Program.act (ZCall.file call) next) h input sent q h' := by
  have hcall : Goes env (onLine fuel (.file call)) h [] [] (.done (.ok ()))
      (env.after (.host call) h) := by
    refine .host ?_
    rw [hanswer]
    exact .stay _ _
  exact (Goes.interpret_act hcall).trans hrest

end

section

variable {fuel : Nat} {sender sender' : Zmodem Nat}
  {receiver receiver' : Zmodem (List ZmodemFileHeader)} {files files' : Files}
  {input sent : Bytes}

theorem sender_goes (h : Does fuel senderSide sender () input sent sender' ())
    (rest toReceiver : Bytes) :
    link.Reaches (session fuel sender receiver files (input ++ rest) toReceiver)
      (session fuel sender' receiver files rest (toReceiver ++ sent)) :=
  @Network.reaches_left _ _ _ _ _ _ _ _ _ _ link _ _ _ _ _ _ h rest _

theorem receiver_goes (h : Does fuel receiverSide receiver files input sent receiver' files')
    (toSender rest : Bytes) :
    link.Reaches (session fuel sender receiver files toSender (input ++ rest))
      (session fuel sender receiver' files' (toSender ++ sent) rest) :=
  @Network.reaches_right _ _ _ _ _ _ _ _ _ _ link _ _ _ _ _ _ h rest _

/-- The sender writes. -/
theorem sender_writes (h : Does fuel senderSide sender () [] sent sender' ()) (gap : Bytes) :
    link.Reaches (session fuel sender receiver files gap [])
      (session fuel sender' receiver files gap sent) :=
  sender_goes h gap []

/-- The sender reads all there is. -/
theorem sender_reads (h : Does fuel senderSide sender () input sent sender' ()) :
    link.Reaches (session fuel sender receiver files input [])
      (session fuel sender' receiver files [] sent) := by
  have hgoes : link.Reaches (session fuel sender receiver files (input ++ []) [])
      (session fuel sender' receiver files [] sent) := sender_goes h [] []
  rwa [List.append_nil] at hgoes

/-- The receiver reads all there is and answers. -/
theorem receiver_turn (h : Does fuel receiverSide receiver files input sent receiver' files')
    (gap : Bytes) :
    link.Reaches (session fuel sender receiver files gap input)
      (session fuel sender receiver' files' (gap ++ sent) []) := by
  have hgoes : link.Reaches (session fuel sender receiver files gap (input ++ []))
      (session fuel sender receiver' files' (gap ++ sent) []) := receiver_goes h gap []
  rwa [List.append_nil] at hgoes

/-- The receiver reads all there is. -/
theorem receiver_reads (h : Does fuel receiverSide receiver files input [] receiver' files')
    (gap : Bytes) :
    link.Reaches (session fuel sender receiver files gap input)
      (session fuel sender receiver' files' gap []) := by
  have hturn : link.Reaches (session fuel sender receiver files gap input) _ := receiver_turn h gap
  rwa [List.append_nil] at hturn

end

/-! ## What is written -/

/-- What a sender learns of a receiver of this kind. -/
def ownPeer : ZmodemPeerCapabilities where
  chunkSize := zmodemMaxChunk
  useCrc32 := true
  escapeControl := true

/-- A subpacket, without what may follow it. -/
def subpacket (payload : Bytes) (frameEnd : ZDataEnd) : Bytes :=
  zdleEscapedAll payload true ++ [zdle, frameEnd.marker] ++
    zdleEscapedAll (u32ToLeBytes (crc32Ieee (payload ++ [frameEnd.marker]))) true

theorem encodeZdata_eq (payload : Bytes) (frameEnd : ZDataEnd) :
    encodeZdata payload frameEnd true true =
      subpacket payload frameEnd ++ if frameEnd = .endWithAck then [xon] else [] := rfl

theorem encodeZdata_of_ne {payload : Bytes} {frameEnd : ZDataEnd} (h : frameEnd ≠ .endWithAck) :
    encodeZdata payload frameEnd true true = subpacket payload frameEnd := by
  rw [encodeZdata_eq, if_neg h, List.append_nil]

theorem encodeHexHeader_eq (frameType : ZFrameType) (position : ZPosition) (includeXon : Bool) :
    encodeHexHeader frameType position includeXon =
      encodeHexHeader frameType position false ++ if includeXon then [xon] else [] := by
  cases includeXon
  · exact (List.append_nil _).symm
  · unfold encodeHexHeader
    simp only [Bool.false_eq_true, if_false, List.append_nil]

theorem writePosition_eq (frameType : ZFrameType) {position : Nat}
    (h : position ≤ zmodemMaxPosition) :
    writePosition frameType position = writeHeader frameType (positionHeader position) := by
  unfold writePosition positionHeaderChecked
  rw [if_neg (Nat.not_lt.mpr h)]
  rfl

theorem value_of_le {position : Nat} (h : position ≤ zmodemMaxPosition) :
    (positionHeader position).value = position :=
  value_positionHeader (Nat.lt_of_le_of_lt h (by decide))

section

variable {H : Type} {env : Surroundings UInt8 FileCall FileCall.Answer ModemTransferError H}
  (hquiet : QuietLine env) {h : H} {fuel : Nat}

include hquiet

theorem goes_writeHeader (frameType : ZFrameType) (position : ZPosition) :
    Goes env (onLine fuel (.writeHeader frameType position)) h []
      (encodeHexHeader frameType position (frameType ∉ [.zFin, .zAck])) (.done (.ok ())) h :=
  goes_writeAll_quiet hquiet _

theorem goes_writePeerHeader (frameType : ZFrameType) (position : ZPosition) :
    Goes env (onLine fuel (.writeBinaryHeader frameType position true true)) h []
      (encodeBin32Header frameType position true) (.done (.ok ())) h :=
  goes_writeAll_quiet hquiet _

theorem goes_writePeerData (payload : Bytes) (frameEnd : ZDataEnd) :
    Goes env (onLine fuel (.writeData payload frameEnd true true)) h []
      (encodeZdata payload frameEnd true true) (.done (.ok ())) h :=
  goes_writeAll_quiet hquiet _

end

/-! ## A file -/

section

variable {R : Type} [Read R] {file : Bytes} {stands : R → Nat → Prop}
  {after : ZmodemSendDataResult × R → Zmodem Nat} {next : Nat → Zmodem (List ZmodemFileHeader)}
  {fileHeader : ZmodemFileHeader} {written : Bytes} {fuel : Nat} {files : Files}

/-- A round of the sender that is not the last one. -/
theorem sendChunk_more {fileSize position : Nat} {reader reader' : R} {bytes : Bytes}
    (hread : readPadded reader (min (fileSize - position) zmodemMaxChunk) = .ok (bytes, reader'))
    (hbytes : bytes ≠ []) (hmore : position + bytes.length < fileSize) :
    sendChunk ownPeer fileSize (position, reader) =
      (writePeerData ownPeer bytes .continueWithAck).bind fun _ =>
        readHeader.bind (chunkResponse (position + bytes.length) reader') := by
  unfold sendChunk
  rw [if_neg (show ¬ fileSize ≤ position by omega)]
  show Program.bind (Program.done (readPadded reader
    (min (fileSize - position) zmodemMaxChunk))) _ = _
  rw [hread]
  show (if bytes = [] then _ else if position + bytes.length < fileSize then _ else _) = _
  rw [if_neg hbytes, if_pos hmore]
  rfl

/-- The last round of the sender in which it sends something. -/
theorem sendChunk_last {fileSize position : Nat} {reader reader' : R} {bytes : Bytes}
    (hread : readPadded reader (min (fileSize - position) zmodemMaxChunk) = .ok (bytes, reader'))
    (hbytes : bytes ≠ []) (hposition : position < fileSize)
    (hlast : ¬ position + bytes.length < fileSize) :
    sendChunk ownPeer fileSize (position, reader) =
      (writePeerData ownPeer bytes .endFrame).bind fun _ =>
        .done (.ok (.inl (position + bytes.length, reader'))) := by
  unfold sendChunk
  rw [if_neg (show ¬ fileSize ≤ position by omega)]
  show Program.bind (Program.done (readPadded reader
    (min (fileSize - position) zmodemMaxChunk))) _ = _
  rw [hread]
  show (if bytes = [] then _ else if position + bytes.length < fileSize then _ else _) = _
  rw [if_neg hbytes, if_neg hlast]
  rfl

/-- A subpacket that stays within the file. -/
theorem acceptFrame_eq {fileSize position : Nat} {frame : ZDataFrame}
    (hsize : fileHeader.fileSize = some fileSize)
    (hfits : position + frame.payload.length ≤ fileSize) (hmax : fileSize ≤ zmodemMaxPosition) :
    acceptFrame fileHeader position frame =
      (onFile (.writeAll frame.payload)).bind fun _ => match frame.frameEnd with
        | .continueFrame => .done (.ok (.inl (position + frame.payload.length)))
        | .continueWithAck =>
          (writeHeader .zAck (positionHeader (position + frame.payload.length))).bind fun _ =>
            .done (.ok (.inl (position + frame.payload.length)))
        | .endFrame => .done (.ok (.inr (position + frame.payload.length)))
        | .endWithAck =>
          (writeHeader .zAck (positionHeader (position + frame.payload.length))).bind fun _ =>
            .done (.ok (.inr (position + frame.payload.length))) := by
  have hposition : position + frame.payload.length ≤ zmodemMaxPosition := Nat.le_trans hfits hmax
  have hadd : checkedAdd position frame.payload.length = some (position + frame.payload.length) := by
    rw [checkedAdd, if_pos]
    rw [zmodemMaxPosition] at hposition
    omega
  have hany : ¬ fileHeader.fileSize.any (· < position + frame.payload.length) = true := by
    simp only [hsize, Option.any_some, decide_eq_true_eq]
    omega
  unfold acceptFrame
  rw [hadd]
  simp only [if_neg hany, writePosition_eq _ hposition]
  rfl

variable (after next files written)

/-- A subpacket that is written and acknowledged, when more of the file follows. -/
theorem exchange_chunk (hreads : Reads file stands)
    (hsize : fileHeader.fileSize = some file.length) (hmax : file.length ≤ zmodemMaxPosition)
    (hfuel : zmodemMaxChunk < fuel) {position : Nat} {reader : R} (hstands : stands reader position)
    (hmore : position + zmodemMaxChunk < file.length) {gap : Bytes} (hgap : zpad ∉ gap)
    (hgaplen : gap.length < fuel) (left right : Nat) :
    ∃ reader', stands reader' (position + zmodemMaxChunk) ∧
      link.Reaches
        (session fuel
          ((Program.loop (sendChunk ownPeer file.length) (left + 1) (position, reader)).bind after)
          ((Program.loop (dataRound fileHeader true) (right + 1) position).bind next)
          (files ++ [(fileHeader, written)]) gap [])
        (session fuel
          ((Program.loop (sendChunk ownPeer file.length) left
            (position + zmodemMaxChunk, reader')).bind after)
          ((Program.loop (dataRound fileHeader true) right (position + zmodemMaxChunk)).bind next)
          (files ++ [(fileHeader, written ++ (file.drop position).take zmodemMaxChunk)]) [] []) := by
  have hroom : min (file.length - position) zmodemMaxChunk = zmodemMaxChunk := by omega
  obtain ⟨reader', hread, hstands'⟩ := readPadded_eq hreads zmodemMaxChunk hstands
  have hlength : ((file.drop position).take zmodemMaxChunk).length = zmodemMaxChunk := by
    rw [List.length_take, List.length_drop]
    omega
  generalize (file.drop position).take zmodemMaxChunk = bytes at hread hlength hstands' ⊢
  have hbytes : bytes ≠ [] := by
    rintro rfl
    exact absurd hlength (by decide)
  have hround : sendChunk ownPeer file.length (position, reader) = _ :=
    sendChunk_more (hroom.symm ▸ hread) hbytes (by omega)
  rw [hlength] at hstands' hround
  refine ⟨reader', hstands', ?_⟩
  have hposition : position + zmodemMaxChunk ≤ zmodemMaxPosition := by omega
  -- The sender writes, the receiver takes the subpacket and acknowledges it, and the sender reads that.
  obtain ⟨waiting, hwrite, hacked⟩ : ∃ waiting,
      Does fuel senderSide ((Program.loop (sendChunk ownPeer file.length) (left + 1)
        (position, reader)).bind after) () [] (subpacket bytes .continueWithAck) waiting () ∧
      Does fuel senderSide waiting ()
        (gap ++ encodeHexHeader .zAck (positionHeader (position + zmodemMaxChunk)) false) []
        ((Program.loop (sendChunk ownPeer file.length) left
          (position + zmodemMaxChunk, reader')).bind after) () := by
    have hresponse : chunkResponse (position + zmodemMaxChunk) reader'
        { frameType := .zAck, position := positionHeader (position + zmodemMaxChunk),
          encoding := .hex } = .done (.ok (.inl (position + zmodemMaxChunk, reader'))) := by
      exact if_pos (value_of_le hposition)
    rw [Program.loop_succ, hround, ← encodeZdata_of_ne (by decide)]
    refine ⟨_, does_write_last (goes_writePeerData quietLine_senderSide bytes .continueWithAck)
      (does_stay _ _), ?_⟩
    refine does_read_last (parses_hexHeader quietLine_senderSide .zAck _ hgap hgaplen) ?_
    show Does fuel senderSide (((chunkResponse (position + zmodemMaxChunk) reader' _).bind _).bind
      after) () [] [] _ ()
    rw [hresponse]
    exact does_stay _ _
  have htaken : Does fuel receiverSide
      ((Program.loop (dataRound fileHeader true) (right + 1) position).bind next)
      (files ++ [(fileHeader, written)]) (subpacket bytes .continueWithAck)
      (encodeHexHeader .zAck (positionHeader (position + zmodemMaxChunk)) false)
      ((Program.loop (dataRound fileHeader true) right (position + zmodemMaxChunk)).bind next)
      (files ++ [(fileHeader, written ++ bytes)]) := by
    have hfits : position + bytes.length ≤ file.length := by omega
    have haccept : acceptFrame fileHeader position
        { payload := bytes, frameEnd := .continueWithAck } = _ := acceptFrame_eq hsize hfits hmax
    rw [hlength] at haccept
    rw [Program.loop_succ]
    refine does_read_last (parses_readZmodemData quietLine_receiverSide true .continueWithAck
      (by omega) (Nat.le_of_eq hlength)) ?_
    show Does fuel receiverSide (((acceptFrame fileHeader position _).bind _).bind next) _ [] _ _ _
    rw [haccept, ← Files.writeLast_concat]
    refine does_file rfl ?_
    exact does_write_last (goes_writeHeader quietLine_receiverSide .zAck _) (does_stay _ _)
  exact ((sender_writes hwrite gap).trans (receiver_turn htaken gap)).trans (sender_reads hacked)

/-- The last subpacket of a file. -/
theorem exchange_last (hreads : Reads file stands)
    (hsize : fileHeader.fileSize = some file.length) (hmax : file.length ≤ zmodemMaxPosition)
    (hfuel : zmodemMaxChunk < fuel) {position : Nat} {reader : R} (hstands : stands reader position)
    (hposition : position < file.length) (hlast : file.length ≤ position + zmodemMaxChunk)
    (gap : Bytes) (left right : Nat) :
    ∃ reader', link.Reaches
      (session fuel
        ((Program.loop (sendChunk ownPeer file.length) (left + 2) (position, reader)).bind after)
        ((Program.loop (dataRound fileHeader true) (right + 1) position).bind next)
        (files ++ [(fileHeader, written)]) gap [])
      (session fuel (after (.complete, reader')) (next file.length)
        (files ++ [(fileHeader, written ++ file.drop position)]) gap []) := by
  have hroom : min (file.length - position) zmodemMaxChunk = file.length - position := by omega
  obtain ⟨reader', hread, hstands'⟩ := readPadded_eq hreads (file.length - position) hstands
  have hlength : (file.drop position).length = file.length - position := List.length_drop
  rw [← hlength, List.take_length] at hread
  rw [hlength] at hread
  generalize file.drop position = bytes at hread hlength ⊢
  have hbytes : bytes ≠ [] := by
    rintro rfl
    rw [List.length_nil] at hlength
    omega
  have hround : sendChunk ownPeer file.length (position, reader) = _ :=
    sendChunk_last (hroom.symm ▸ hread) hbytes hposition (by omega)
  have hend : position + bytes.length = file.length := by omega
  rw [hend] at hround
  have hover : sendChunk ownPeer file.length (file.length, reader') =
      .done (.ok (.inr (.complete, reader'))) := by
    unfold sendChunk
    exact if_pos (Nat.le_refl _)
  refine ⟨reader', ?_⟩
  have hwrite : Does fuel senderSide ((Program.loop (sendChunk ownPeer file.length) (left + 2)
      (position, reader)).bind after) () [] (subpacket bytes .endFrame)
      (after (.complete, reader')) () := by
    rw [Program.loop_succ, hround, ← encodeZdata_of_ne (by decide)]
    refine does_write_last (goes_writePeerData quietLine_senderSide bytes .endFrame) ?_
    show Does fuel senderSide ((Program.loop (sendChunk ownPeer file.length) (left + 1)
      (file.length, reader')).bind after) () [] [] _ ()
    rw [Program.loop_succ, hover]
    exact does_stay _ _
  have htaken : Does fuel receiverSide
      ((Program.loop (dataRound fileHeader true) (right + 1) position).bind next)
      (files ++ [(fileHeader, written)]) (subpacket bytes .endFrame) [] (next file.length)
      (files ++ [(fileHeader, written ++ bytes)]) := by
    have haccept : acceptFrame fileHeader position { payload := bytes, frameEnd := .endFrame } = _ :=
      acceptFrame_eq hsize (Nat.le_of_eq hend) hmax
    rw [hend] at haccept
    rw [Program.loop_succ]
    refine does_read_last (parses_readZmodemData quietLine_receiverSide true .endFrame
      (by omega) (show bytes.length ≤ zmodemMaxChunk by omega)) ?_
    show Does fuel receiverSide (((acceptFrame fileHeader position _).bind _).bind next) _ [] _ _ _
    rw [haccept, ← Files.writeLast_concat]
    exact does_file rfl (does_stay _ _)
  have hall := (sender_writes hwrite gap).trans (receiver_turn htaken gap)
  rwa [List.append_nil] at hall

/-- All subpackets of a file from a position on. -/
theorem exchange_chunks (hreads : Reads file stands)
    (hsize : fileHeader.fileSize = some file.length) (hmax : file.length ≤ zmodemMaxPosition)
    (hfuel : zmodemMaxChunk < fuel) :
    ∀ (left right position : Nat) (reader : R) (gap written : Bytes), stands reader position →
      position < file.length → file.length - position ≤ left → file.length - position ≤ right →
      zpad ∉ gap → gap.length < fuel →
      ∃ reader' gap', zpad ∉ gap' ∧ gap'.length < fuel ∧ link.Reaches
        (session fuel
          ((Program.loop (sendChunk ownPeer file.length) (left + 1) (position, reader)).bind after)
          ((Program.loop (dataRound fileHeader true) right position).bind next)
          (files ++ [(fileHeader, written)]) gap [])
        (session fuel (after (.complete, reader')) (next file.length)
          (files ++ [(fileHeader, written ++ file.drop position)]) gap' [])
  | 0, right, position, reader, gap, written, hstands, hposition, hleft, hright, hgap, hgaplen => by
    omega
  | left + 1, right, position, reader, gap, written, hstands, hposition, hleft, hright, hgap,
      hgaplen => by
    obtain ⟨right, rfl⟩ : ∃ k, right = k + 1 := ⟨right - 1, by omega⟩
    by_cases hmore : position + zmodemMaxChunk < file.length
    · obtain ⟨reader', hstands', hfirst⟩ := exchange_chunk after next written files hreads hsize
        hmax hfuel hstands hmore hgap hgaplen (left + 1) right
      have hchunk : 0 < zmodemMaxChunk := by decide
      obtain ⟨reader'', gap', hgap', hgaplen', hrest⟩ := exchange_chunks hreads hsize hmax hfuel
        left right (position + zmodemMaxChunk) reader' []
        (written ++ (file.drop position).take zmodemMaxChunk) hstands' hmore (by omega) (by omega)
        List.not_mem_nil (Nat.zero_lt_of_lt hfuel)
      rw [List.append_assoc, ← List.drop_drop, List.take_append_drop] at hrest
      exact ⟨reader'', gap', hgap', hgaplen', hfirst.trans hrest⟩
    · obtain ⟨reader', hlast⟩ := exchange_last after next written files hreads hsize hmax hfuel
        hstands hposition (by omega) gap left right
      exact ⟨reader', gap, hgap, hgaplen, hlast⟩

end

/-! ## A whole file -/

section

variable {R : Type} [Read R] [Seek R] {file : Bytes} {stands : R → Nat → Prop} {fuel : Nat}

/-- A file that is sent from its start. -/
theorem sendFileRound_start {fileSize : Nat} {reader reader' : R}
    (hseek : Seek.seek reader 0 = .ok reader') :
    sendFileRound ownPeer fuel fileSize (0, reader) =
      (writePeerHeader ownPeer .zData (positionHeader 0)).bind fun _ =>
        (Program.loop (sendChunk ownPeer fileSize) fuel (0, reader')).bind fun outcome =>
          (finishStream ownPeer fileSize 0 outcome).bind (afterStream fileSize) := by
  unfold sendFileRound sendZfileDataStream
  simp only [Nat.zero_min, hseek, Program.bind_eq, Program.done_ok_bind, Program.bind_assoc]
  rfl

/-- The end of a file that has something in it. -/
theorem sendZeof_of_pos {fileSize : Nat} (hpos : 0 < fileSize)
    (hmax : fileSize ≤ zmodemMaxPosition) :
    sendZeof ownPeer fileSize 0 = writeHeader .zEof (positionHeader fileSize) := by
  unfold sendZeof
  rw [if_neg (Nat.ne_of_lt hpos), writePosition_eq _ hmax]

/-- The end of an empty file. -/
theorem sendZeof_zero :
    sendZeof ownPeer 0 0 =
      (writePeerData ownPeer [] .endFrame).bind fun _ => writeHeader .zEof (positionHeader 0) := by
  unfold sendZeof
  rw [if_pos rfl, writePosition_eq _ (by decide)]
  rfl

variable {fileHeader : ZmodemFileHeader}
  (counted : Nat × R ⊕ Nat → Zmodem Nat) (next : Nat → Zmodem (List ZmodemFileHeader))
  (files : Files)

omit [Seek R] in
/-- The contents of a file, up to its end. -/
theorem exchange_data (hreads : Reads file stands)
    (hsize : fileHeader.fileSize = some file.length) (hmax : file.length ≤ zmodemMaxPosition)
    (hfuel : zmodemMaxChunk + file.length < fuel) {reader : R} (hstands : stands reader 0)
    {gap : Bytes} (hgap : zpad ∉ gap) (hgaplen : gap.length < fuel) :
    ∃ reader' gap', zpad ∉ gap' ∧ gap'.length < fuel ∧ link.Reaches
      (session fuel
        ((Program.loop (sendChunk ownPeer file.length) fuel (0, reader)).bind fun outcome =>
          ((finishStream ownPeer file.length 0 outcome).bind (afterStream file.length)).bind counted)
        ((Program.loop (dataRound fileHeader true) fuel 0).bind next)
        (files ++ [(fileHeader, [])]) gap [])
      (session fuel ((readHeader.bind (fileResponse file.length reader')).bind counted)
        (next file.length) (files ++ [(fileHeader, file)]) gap'
        (encodeHexHeader .zEof (positionHeader file.length) true)) := by
  obtain ⟨fuel, rfl⟩ : ∃ k, fuel = k + 1 := ⟨fuel - 1, by omega⟩
  rcases Nat.eq_zero_or_pos file.length with hempty | hpos
  · obtain rfl : file = [] := List.length_eq_zero_iff.mp hempty
    have hover : sendChunk ownPeer 0 (0, reader) = .done (.ok (.inr (.complete, reader))) := rfl
    have hwrite : Does (fuel + 1) senderSide
        ((Program.loop (sendChunk ownPeer 0) (fuel + 1) (0, reader)).bind fun outcome =>
          ((finishStream ownPeer 0 0 outcome).bind (afterStream 0)).bind counted) () []
        (subpacket [] .endFrame ++ encodeHexHeader .zEof (positionHeader 0) true)
        ((readHeader.bind (fileResponse 0 reader)).bind counted) () := by
      rw [Program.loop_succ, hover, ← encodeZdata_of_ne (by decide)]
      show Does (fuel + 1) senderSide ((((sendZeof ownPeer 0 0).bind _).bind _).bind counted) _ _ _
        _ _
      rw [sendZeof_zero]
      refine does_write (goes_writePeerData quietLine_senderSide [] .endFrame) ?_
      exact does_write_last (goes_writeHeader quietLine_senderSide .zEof _) (does_stay _ _)
    have htaken : Does (fuel + 1) receiverSide
        ((Program.loop (dataRound fileHeader true) (fuel + 1) 0).bind next)
        (files ++ [(fileHeader, [])]) (subpacket [] .endFrame) [] (next 0)
        (files ++ [(fileHeader, [])]) := by
      have haccept : acceptFrame fileHeader 0 { payload := [], frameEnd := .endFrame } = _ :=
        acceptFrame_eq hsize (Nat.le_refl _) hmax
      rw [Program.loop_succ]
      refine does_read_last (parses_readZmodemData quietLine_receiverSide true .endFrame
        (Nat.succ_pos _) (Nat.zero_le _)) ?_
      show Does (fuel + 1) receiverSide (((acceptFrame fileHeader 0
        { payload := [], frameEnd := .endFrame }).bind _).bind next) _ [] _ _ _
      rw [haccept]
      refine does_file rfl ?_
      show Does (fuel + 1) receiverSide (next 0)
        (Files.writeLast (files ++ [(fileHeader, [])]) []) [] [] _ _
      rw [Files.writeLast_concat]
      exact does_stay _ _
    have htake : link.Reaches (session (fuel + 1)
        ((readHeader.bind (fileResponse 0 reader)).bind counted) _ _ gap _) _ :=
      receiver_goes htaken gap (encodeHexHeader .zEof (positionHeader 0) true)
    rw [List.append_nil] at htake
    exact ⟨reader, gap, hgap, hgaplen, (sender_writes hwrite gap).trans htake⟩
  · obtain ⟨reader', gap', hgap', hgaplen', hchunks⟩ := exchange_chunks
      (fun outcome =>
        ((finishStream ownPeer file.length 0 outcome).bind (afterStream file.length)).bind counted)
      next files hreads hsize hmax (by omega) fuel (fuel + 1) 0 reader gap [] hstands hpos
      (by omega) (by omega) hgap hgaplen
    have hwrite : Does (fuel + 1) senderSide
        (((finishStream ownPeer file.length 0 (.complete, reader')).bind
          (afterStream file.length)).bind counted) () []
        (encodeHexHeader .zEof (positionHeader file.length) true)
        ((readHeader.bind (fileResponse file.length reader')).bind counted) () := by
      show Does (fuel + 1) senderSide ((((sendZeof ownPeer file.length 0).bind _).bind _).bind
        counted) _ _ _ _ _
      rw [sendZeof_of_pos hpos hmax]
      exact does_write_last (goes_writeHeader quietLine_senderSide .zEof _) (does_stay _ _)
    exact ⟨reader', gap', hgap', hgaplen', hchunks.trans (sender_writes hwrite gap')⟩

omit [Read R] [Seek R] in
theorem fileFrame_data (fileHeader : ZmodemFileHeader) :
    fileFrame fuel fileHeader 0
        { frameType := .zData, position := positionHeader 0, encoding := .bin32 } =
      (Program.loop (dataRound fileHeader true) fuel 0).bind fun position =>
        .done (.ok (.inl position)) := rfl

theorem fileFrame_eof {fileHeader : ZmodemFileHeader} {fileSize : Nat}
    (hsize : fileHeader.fileSize = some fileSize) (hmax : fileSize ≤ zmodemMaxPosition) :
    fileFrame fuel fileHeader fileSize
        { frameType := .zEof, position := positionHeader fileSize, encoding := .hex } =
      (onFile .flush).bind fun _ => sendZrinit.bind fun _ => .done (.ok (.inr ())) := by
  have hmatches : ¬ ((positionHeader fileSize).value ≠ fileSize ∨
      ¬ fileHeader.fileSize.all (· = fileSize) = true) := by
    rw [value_of_le hmax, hsize]
    simp
  exact if_neg hmatches

/-- A file, from its position on both sides to the response to its end. -/
theorem exchange_file (done : Unit → Zmodem (List ZmodemFileHeader)) (counted : Nat → Zmodem Nat)
    (files : Files) (hseeks : Seeks file stands)
    (hsize : fileHeader.fileSize = some file.length) (hmax : file.length ≤ zmodemMaxPosition)
    (hfuel : zmodemMaxChunk + file.length < fuel) {reader : R} {position : Nat}
    (hstands : stands reader position) {gap : Bytes} (hgap : zpad ∉ gap)
    (hgaplen : gap.length < fuel) :
    link.Reaches
      (session fuel
        ((Program.loop (sendFileRound ownPeer fuel file.length) fuel (0, reader)).bind counted)
        ((Program.loop (fileRound fuel fileHeader) fuel 0).bind done)
        (files ++ [(fileHeader, [])]) gap [xon])
      (session fuel (counted file.length) (done ()) (files ++ [(fileHeader, file)]) [xon] [xon]) := by
  obtain ⟨reader', hseek, hstands'⟩ := hseeks.seek reader 0 position hstands (Nat.zero_le _)
  obtain ⟨rounds, rfl⟩ : ∃ k, fuel = k + 2 := ⟨fuel - 2, by
    rw [zmodemMaxChunk] at hfuel
    omega⟩
  generalize hcounted : (fun result : Nat × R ⊕ Nat => (Program.nextRound
    (sendFileRound ownPeer (rounds + 2) file.length) (rounds + 1) result).bind counted) = counted'
  generalize hnext : (fun position => (Program.nextRound (fileRound (rounds + 2) fileHeader)
    (rounds + 1) (.inl position)).bind done) = next
  -- The sender starts, and the receiver takes the position.
  have hstart : Does (rounds + 2) senderSide
      ((Program.loop (sendFileRound ownPeer (rounds + 2) file.length) (rounds + 2)
        (0, reader)).bind counted) () []
      (encodeBin32Header .zData (positionHeader 0) true)
      ((Program.loop (sendChunk ownPeer file.length) (rounds + 2) (0, reader')).bind fun outcome =>
        ((finishStream ownPeer file.length 0 outcome).bind (afterStream file.length)).bind
          counted') () := by
    rw [Program.loop_bind, sendFileRound_start hseek, Program.bind_assoc]
    refine does_write_last (goes_writePeerHeader quietLine_senderSide .zData _) ?_
    show Does (rounds + 2) senderSide (((Program.loop (sendChunk ownPeer file.length) (rounds + 2)
      (0, reader')).bind _).bind _) _ _ _ _ _
    rw [Program.bind_assoc, hcounted]
    exact does_stay _ _
  have hposition : Does (rounds + 2) receiverSide
      ((Program.loop (fileRound (rounds + 2) fileHeader) (rounds + 2) 0).bind done)
      (files ++ [(fileHeader, [])]) ([xon] ++ encodeBin32Header .zData (positionHeader 0) true) []
      ((Program.loop (dataRound fileHeader true) (rounds + 2) 0).bind next)
      (files ++ [(fileHeader, [])]) := by
    rw [Program.loop_bind]
    refine does_read_last (parses_bin32Header quietLine_receiverSide .zData _ true (by decide)
      (Nat.succ_lt_succ (Nat.succ_pos _))) ?_
    simp only [Program.done_ok_bind, fileFrame_data, Program.bind_assoc]
    rw [← hnext]
    exact does_stay _ _
  obtain ⟨reader'', gap', hgap', hgaplen', hdata⟩ := exchange_data counted' next files
    hseeks.toReads hsize hmax hfuel hstands' hgap hgaplen
  -- The receiver takes the end, and the sender its response.
  have hend : Does (rounds + 2) receiverSide (next file.length) (files ++ [(fileHeader, file)])
      (encodeHexHeader .zEof (positionHeader file.length) false)
      (encodeHexHeader .zrInit zrinitFlags true) (done ()) (files ++ [(fileHeader, file)]) := by
    rw [← hnext]
    show Does (rounds + 2) receiverSide ((Program.loop (fileRound (rounds + 2) fileHeader)
      (rounds + 1) file.length).bind done) _ _ _ _ _
    rw [Program.loop_bind]
    refine does_read_last (parses_hexHeader quietLine_receiverSide .zEof _
      List.not_mem_nil (Nat.succ_pos _)) ?_
    simp only [Program.done_ok_bind, fileFrame_eof hsize hmax, Program.bind_assoc]
    refine does_file rfl ?_
    exact does_write_last (goes_writeHeader quietLine_receiverSide .zrInit _) (does_stay _ _)
  have hresponse : Does (rounds + 2) senderSide
      ((readHeader.bind (fileResponse file.length reader'')).bind counted') ()
      (gap' ++ encodeHexHeader .zrInit zrinitFlags false) [] (counted file.length) () := by
    refine does_read_last (parses_hexHeader quietLine_senderSide .zrInit _ hgap' hgaplen') ?_
    rw [← hcounted]
    exact does_stay _ _
  have hfinish : link.Reaches (session (rounds + 2)
      ((readHeader.bind (fileResponse file.length reader'')).bind counted') _ _ gap' _) _ :=
    receiver_goes hend gap' [xon]
  rw [encodeHexHeader_eq .zEof _ true] at hdata
  rw [encodeHexHeader_eq .zrInit _ true, ← List.append_assoc] at hfinish
  exact ((((sender_goes hstart gap [xon]).trans (receiver_reads hposition gap)).trans hdata).trans
    hfinish).trans (sender_goes hresponse [xon] [xon])

end

/-! ## A session -/

section

variable {R : Type} [Read R] [Seek R] {fuel : Nat}

theorem sendEntries_cons (entry : ZmodemSendStreamEntry R) (entries : List (ZmodemSendStreamEntry R))
    (total : Nat) :
    sendEntries ownPeer fuel (entry :: entries) total =
      (writePeerHeader ownPeer .zFile zfileBinaryFlags).bind fun _ =>
        (writePeerData ownPeer (buildZfileHeader entry.fileName entry.fileSize) .endWithAck).bind
          fun _ => (Program.loop (responseRound ownPeer fuel entry) fuel ()).bind fun counted =>
            sendEntries ownPeer fuel entries (total + counted) := rfl

omit [Read R] [Seek R] in
theorem sessionFrame_zFile (received : List ZmodemFileHeader) :
    sessionFrame fuel received
        { frameType := .zFile, position := zfileBinaryFlags, encoding := .bin32 } =
      (readData true zmodemMaxChunk).bind fun frame =>
        if frame.frameEnd ≠ .endWithAck then Program.fail .unexpectedFrame
        else (Program.done (parseZfileHeader frame.payload zfileBinaryFlags.b2)).bind fun header? =>
          match header? with
          | none => (finishZmodemReceive fuel).bind fun _ => .done (.ok (.inr received))
          | some fileHeader => (receiveFile fuel fileHeader).bind fun _ =>
            .done (.ok (.inl (received ++ [fileHeader]))) := rfl

variable {entry : ZmodemSendStreamEntry R} {file : Bytes}

/-- What the receiver reads of the header of an entry. -/
theorem Sendable.parseZfileHeader (h : Sendable entry file) :
    parseZfileHeader (buildZfileHeader entry.fileName entry.fileSize) zfileBinaryFlags.b2 =
      .ok (some entry.header) := by
  have hsize := h.size_le
  rw [zmodemMaxPosition] at hsize
  exact parseZfileHeader_build h.name_ne_nil h.nul_notMem h.slash_notMem h.backslash_notMem
    h.name_ne_dot (by omega) (by decide)

theorem Sendable.receiveFile (h : Sendable entry file) :
    receiveFile fuel entry.header =
      (onFile (.openWriter entry.header)).bind fun _ =>
        (writeHeader .zRpos (positionHeader 0)).bind fun _ =>
          Program.loop (fileRound fuel entry.header) fuel 0 := by
  have hvalid : validateZmodemFileSize entry.fileSize = .ok () :=
    if_neg (Nat.not_lt.mpr h.size_le)
  have hheader : entry.header.fileSize = some entry.fileSize := rfl
  unfold OxideTerm.Modem.receiveFile
  rw [hheader, Option.elim_some, hvalid, writePosition_eq _ (by decide)]
  rfl

/-- An entry, from its header to the response to its end. -/
theorem exchange_entry (h : Sendable entry file) (hfuel : zmodemMaxChunk + file.length < fuel)
    (entries : List (ZmodemSendStreamEntry R)) (total : Nat) (finish : Nat → Zmodem Nat)
    (rounds : Nat) (received : List ZmodemFileHeader) (files : Files) {gap : Bytes}
    (hgap : zpad ∉ gap) (hgaplen : gap.length < fuel) :
    link.Reaches
      (session fuel ((sendEntries ownPeer fuel (entry :: entries) total).bind finish)
        (Program.loop (sessionRound fuel) (rounds + 1) received) files [xon] gap)
      (session fuel ((sendEntries ownPeer fuel entries (total + file.length)).bind finish)
        (Program.loop (sessionRound fuel) rounds (received ++ [entry.header]))
        (files ++ [(entry.header, file)]) [xon] [xon]) := by
  obtain ⟨stands, position, hseeks, hstands⟩ := h.seeks
  obtain ⟨turns, rfl⟩ : ∃ k, fuel = k + 1 := ⟨fuel - 1, by omega⟩
  have hlength : (buildZfileHeader entry.fileName entry.fileSize).length < turns + 1 :=
    Nat.lt_of_le_of_lt h.header_fits (by omega)
  -- The sender offers the file.
  have hoffer : Does (turns + 1) senderSide
      ((sendEntries ownPeer (turns + 1) (entry :: entries) total).bind finish) () []
      (encodeBin32Header .zFile zfileBinaryFlags true ++
        (subpacket (buildZfileHeader entry.fileName entry.fileSize) .endWithAck ++ [xon]))
      (((Program.loop (responseRound ownPeer (turns + 1) entry) (turns + 1) ()).bind fun counted =>
        sendEntries ownPeer (turns + 1) entries (total + counted)).bind finish) () := by
    rw [sendEntries_cons]
    refine does_write (goes_writePeerHeader quietLine_senderSide .zFile _) ?_
    exact does_write_last (goes_writePeerData quietLine_senderSide _ .endWithAck) (does_stay _ _)
  -- The receiver opens it and asks for its start.
  have htaken : Does (turns + 1) receiverSide
      (Program.loop (sessionRound (turns + 1)) (rounds + 1) received) files
      ((gap ++ encodeBin32Header .zFile zfileBinaryFlags true) ++
        subpacket (buildZfileHeader entry.fileName entry.fileSize) .endWithAck)
      (encodeHexHeader .zRpos (positionHeader 0) true)
      ((Program.loop (fileRound (turns + 1) entry.header) (turns + 1) 0).bind fun _ =>
        Program.loop (sessionRound (turns + 1)) rounds (received ++ [entry.header]))
      (files ++ [(entry.header, [])]) := by
    rw [Program.loop_succ]
    refine does_read (parses_bin32Header quietLine_receiverSide .zFile _ true hgap hgaplen) ?_
    simp only [Program.done_ok_bind, sessionFrame_zFile, Program.bind_assoc]
    refine does_read_last (parses_readZmodemData quietLine_receiverSide true .endWithAck
      hlength h.header_fits) ?_
    simp only [Program.done_ok_bind, ne_eq, not_true_eq_false, if_false, h.parseZfileHeader,
      h.receiveFile, Program.bind_assoc]
    refine does_file rfl ?_
    exact does_write_last (goes_writeHeader quietLine_receiverSide .zRpos _) (does_stay _ _)
  have hone : ([xon] : Bytes).length < turns + 1 := by
    rw [List.length_singleton]
    rw [zmodemMaxChunk] at hfuel
    omega
  have hresponse : Does (turns + 1) senderSide
      (((Program.loop (responseRound ownPeer (turns + 1) entry) (turns + 1) ()).bind fun counted =>
        sendEntries ownPeer (turns + 1) entries (total + counted)).bind finish) ()
      ([xon] ++ encodeHexHeader .zRpos (positionHeader 0) false) []
      ((Program.loop (sendFileRound ownPeer (turns + 1) file.length) (turns + 1)
        (0, entry.reader)).bind fun counted =>
          (sendEntries ownPeer (turns + 1) entries (total + counted)).bind finish) () := by
    have hstart : (positionHeader 0).value = 0 := value_of_le (by decide)
    rw [Program.loop_succ, ← h.size_eq]
    refine does_read_last (parses_hexHeader quietLine_senderSide .zRpos _ (by decide) hone) ?_
    simp only [Program.done_ok_bind, Program.bind_eq, Program.bind_assoc, ZHeader.positionU32, hstart,
      Nat.not_lt_zero, if_false]
    exact does_stay _ _
  have hsize : entry.header.fileSize = some file.length := congrArg some h.size_eq
  have hfile := exchange_file (fun _ => Program.loop (sessionRound (turns + 1)) rounds
      (received ++ [entry.header]))
    (fun counted => (sendEntries ownPeer (turns + 1) entries (total + counted)).bind finish) files
    hseeks hsize (h.size_eq ▸ h.size_le) hfuel hstands (show zpad ∉ [xon] by decide) hone
  have hopened : link.Reaches (session (turns + 1)
      (((Program.loop (responseRound ownPeer (turns + 1) entry) (turns + 1) ()).bind fun counted =>
        sendEntries ownPeer (turns + 1) entries (total + counted)).bind finish) _ _ [xon] _) _ :=
    receiver_goes htaken [xon] [xon]
  have hoffered : link.Reaches (session (turns + 1) _
      (Program.loop (sessionRound (turns + 1)) (rounds + 1) received) files ([] ++ [xon]) gap) _ :=
    sender_goes hoffer [xon] gap
  have hanswered : link.Reaches (session (turns + 1) _
      ((Program.loop (fileRound (turns + 1) entry.header) (turns + 1) 0).bind fun _ =>
        Program.loop (sessionRound (turns + 1)) rounds (received ++ [entry.header]))
      (files ++ [(entry.header, [])])
      ([xon] ++ encodeHexHeader .zRpos (positionHeader 0) false ++ [xon]) [xon]) _ :=
    sender_goes hresponse [xon] [xon]
  rw [encodeHexHeader_eq .zRpos _ true] at hopened
  simp only [List.append_assoc, List.nil_append, List.append_nil] at hoffered hopened hanswered
  exact ((hoffered.trans hopened).trans hanswered).trans hfile

/-- All entries. -/
theorem exchange_entries (finish : Nat → Zmodem Nat) :
    ∀ {entries : List (ZmodemSendStreamEntry R)} {contents : List Bytes},
      List.Forall₂ Sendable entries contents →
      ∀ (rounds total : Nat) (received : List ZmodemFileHeader) (files : Files) (gap : Bytes),
        zmodemMaxChunk + (contents.map List.length).sum < fuel → zpad ∉ gap → gap.length < fuel →
        ∃ gap', zpad ∉ gap' ∧ gap'.length < fuel ∧ link.Reaches
          (session fuel ((sendEntries ownPeer fuel entries total).bind finish)
            (Program.loop (sessionRound fuel) (entries.length + rounds) received) files [xon] gap)
          (session fuel (finish (total + (contents.map List.length).sum))
            (Program.loop (sessionRound fuel) rounds
              (received ++ entries.map ZmodemSendStreamEntry.header))
            (files ++ (entries.map ZmodemSendStreamEntry.header).zip contents) [xon] gap')
  | [], [], .nil, rounds, total, received, files, gap, hfuel, hgap, hgaplen => by
    refine ⟨gap, hgap, hgaplen, ?_⟩
    simp only [List.map_nil, List.sum_nil, List.zip_nil_left, List.append_nil, List.length_nil,
      Nat.zero_add, Nat.add_zero]
    exact .refl _
  | entry :: entries, file :: contents, .cons h hrest, rounds, total, received, files, gap, hfuel,
      hgap, hgaplen => by
    rw [List.map_cons, List.sum_cons] at hfuel
    have hone : ([xon] : Bytes).length < fuel := by
      rw [List.length_singleton]
      rw [zmodemMaxChunk] at hfuel
      omega
    have hfirst := exchange_entry h (by omega) entries total finish (entries.length + rounds)
      received files hgap hgaplen
    obtain ⟨gap', hgap', hgaplen', hmore⟩ := exchange_entries finish hrest rounds
      (total + file.length) (received ++ [entry.header]) (files ++ [(entry.header, file)]) [xon]
      (by omega) (by decide) hone
    refine ⟨gap', hgap', hgaplen', ?_⟩
    rw [List.append_assoc, List.append_assoc, Nat.add_assoc] at hmore
    rw [List.length_cons, Nat.add_right_comm]
    exact hfirst.trans hmore

omit [Read R] [Seek R] in
theorem validate_entries :
    ∀ {entries : List (ZmodemSendStreamEntry R)},
      (∀ entry ∈ entries, entry.fileSize ≤ zmodemMaxPosition) →
      (entries.forM fun entry => validateZmodemFileSize entry.fileSize) = .ok ()
  | [], _ => rfl
  | entry :: entries, h => by
    have hvalid : validateZmodemFileSize entry.fileSize = .ok () :=
      if_neg (Nat.not_lt.mpr (h entry List.mem_cons_self))
    have hrest := validate_entries fun entry hentry => h entry (List.mem_cons_of_mem _ hentry)
    show (validateZmodemFileSize entry.fileSize >>= fun _ =>
      entries.forM fun entry => validateZmodemFileSize entry.fileSize) = .ok ()
    rw [hvalid]
    exact hrest

/-- The start of a session. -/
theorem exchange_start {entries : List (ZmodemSendStreamEntry R)}
    (hsizes : ∀ entry ∈ entries, entry.fileSize ≤ zmodemMaxPosition) (hfuel : 0 < fuel) :
    link.Reaches
      (session fuel (sendZmodemStream fuel entries) (receiveZmodem fuel) [] [] [])
      (session fuel ((sendEntries ownPeer fuel entries 0).bind fun total =>
          finishZmodemSend.bind fun _ => .done (.ok total))
        (Program.loop (sessionRound fuel) fuel []) [] [xon] []) := by
  obtain ⟨turns, rfl⟩ : ∃ k, fuel = k + 1 := ⟨fuel - 1, by omega⟩
  have hinvite : Does (turns + 1) receiverSide (receiveZmodem (turns + 1)) [] []
      (encodeHexHeader .zrInit zrinitFlags true) (Program.loop (sessionRound (turns + 1)) (turns + 1)
        []) [] :=
    does_write_last (goes_writeHeader quietLine_receiverSide .zrInit _) (does_stay _ _)
  have hinvited : Does (turns + 1) senderSide (sendZmodemStream (turns + 1) entries) ()
      ([] ++ encodeHexHeader .zrInit zrinitFlags false) []
      ((sendEntries ownPeer (turns + 1) entries 0).bind fun total =>
        finishZmodemSend.bind fun _ => .done (.ok total)) () := by
    unfold sendZmodemStream
    rw [validate_entries hsizes]
    simp only [Program.bind_eq, Program.done_ok_bind]
    rw [Program.loop_bind]
    refine does_read_last (parses_hexHeader quietLine_senderSide .zrInit _ List.not_mem_nil
      (Nat.succ_pos turns)) ?_
    exact does_stay _ _
  have hsent : link.Reaches (session (turns + 1) (sendZmodemStream (turns + 1) entries) _ _ _ _) _ :=
    receiver_turn hinvite []
  rw [encodeHexHeader_eq .zrInit _ true] at hsent
  exact hsent.trans (sender_goes hinvited [xon] [])

/-- The end of a session. -/
theorem exchange_finish (total rounds : Nat) (received : List ZmodemFileHeader) (files : Files)
    {gap : Bytes} (hgap : zpad ∉ gap) (hgaplen : gap.length < fuel) (hfuel : 1 < fuel) :
    link.Reaches
      (session fuel (finishZmodemSend.bind fun _ => .done (.ok total))
        (Program.loop (sessionRound fuel) (rounds + 1) received) files [xon] gap)
      (session fuel (.done (.ok total)) (.done (.ok received)) files [] []) := by
  have hone : ([xon] : Bytes).length < fuel := hfuel
  obtain ⟨turns, rfl⟩ : ∃ k, fuel = k + 2 := ⟨fuel - 2, by omega⟩
  obtain ⟨waiting, hfin, hover⟩ : ∃ waiting,
      Does (turns + 2) senderSide (finishZmodemSend.bind fun _ => .done (.ok total)) () []
        (encodeHexHeader .zFin (positionHeader 0) false) waiting () ∧
      Does (turns + 2) senderSide waiting ()
        ([xon] ++ encodeHexHeader .zFin (positionHeader 0) false) [0x4f, 0x4f]
        (.done (.ok total)) () := by
    refine ⟨_, does_write_last (goes_writeHeader quietLine_senderSide .zFin _) (does_stay _ _), ?_⟩
    refine does_read_last (parses_hexHeader quietLine_senderSide .zFin _ (by decide) hone) ?_
    exact does_write_last (goes_writeAll_quiet quietLine_senderSide _) (does_stay _ _)
  obtain ⟨closing, hclose, hclosed⟩ : ∃ closing,
      Does (turns + 2) receiverSide
        (Program.loop (sessionRound (turns + 2)) (rounds + 1) received) files
        (gap ++ encodeHexHeader .zFin (positionHeader 0) false)
        (encodeHexHeader .zFin (positionHeader 0) false) closing files ∧
      Does (turns + 2) receiverSide closing files [0x4f, 0x4f] [] (.done (.ok received)) files := by
    rw [Program.loop_succ]
    refine ⟨_, does_read_last (parses_hexHeader quietLine_receiverSide .zFin _ hgap hgaplen)
      (does_write_last (goes_writeHeader quietLine_receiverSide .zFin _) (does_stay _ _)), ?_⟩
    show Does (turns + 2) receiverSide _ files ([0x4f] ++ [0x4f]) [] _ files
    refine does_read (parses_readByte quietLine_receiverSide 0x4f) ?_
    exact does_read_last (parses_readByte quietLine_receiverSide 0x4f) (does_stay _ _)
  have hends : link.Reaches (session (turns + 2) waiting
      (Program.loop (sessionRound (turns + 2)) (rounds + 1) received) files [xon] _) _ :=
    receiver_turn hclose [xon]
  exact (((sender_goes hfin [xon] gap).trans hends).trans (sender_reads hover)).trans
    (receiver_reads hclosed [])

/-- A whole session, one side after the other. -/
theorem exchange_session {entries : List (ZmodemSendStreamEntry R)} {contents : List Bytes}
    (h : List.Forall₂ Sendable entries contents)
    (hfuel : zmodemMaxChunk + (contents.map List.length).sum + entries.length + 1 ≤ fuel) :
    link.Reaches
      (session fuel (sendZmodemStream fuel entries) (receiveZmodem fuel) [] [] [])
      (session fuel (.done (.ok (contents.map List.length).sum))
        (.done (.ok (entries.map ZmodemSendStreamEntry.header)))
        ((entries.map ZmodemSendStreamEntry.header).zip contents) [] []) := by
  have hsome : 1 < fuel := by
    rw [zmodemMaxChunk] at hfuel
    omega
  have hsizes : ∀ entry ∈ entries, entry.fileSize ≤ zmodemMaxPosition := by
    intro entry hentry
    obtain ⟨i, hi, rfl⟩ := List.getElem_of_mem hentry
    exact (h.get hi (h.length_eq ▸ hi)).size_le
  obtain ⟨rounds, hrounds⟩ : ∃ k, fuel = entries.length + (k + 1) :=
    ⟨fuel - entries.length - 1, by omega⟩
  have hstart := exchange_start hsizes (Nat.zero_lt_of_lt hsome)
  obtain ⟨gap, hgap, hgaplen, hentries⟩ := exchange_entries
    (fun total => finishZmodemSend.bind fun _ => .done (.ok total)) h (rounds + 1) 0 [] [] []
    (by omega) List.not_mem_nil (Nat.zero_lt_of_lt hsome)
  rw [← hrounds, Nat.zero_add, List.nil_append, List.nil_append] at hentries
  exact (hstart.trans hentries).trans (exchange_finish _ rounds _ _ hgap hgaplen hsome)

end

/-- **A sender and a receiver carry out a session**, in any order of their steps: the receiver gets
the contents of every file under its header, and the sender counts all of them. -/
theorem zmodem_sender_and_receiver_interoperate {R : Type} [Read R] [Seek R]
    {entries : List (ZmodemSendStreamEntry R)} {contents : List Bytes}
    (h : List.Forall₂ Sendable entries contents) :
    ∃ enough, ∀ fuel, enough ≤ fuel → ∃ bound, ∀ n c,
      link.Steps n (session fuel (sendZmodemStream fuel entries) (receiveZmodem fuel) [] [] []) c →
      n ≤ bound ∧ (link.Stuck c →
        c.left.program = .done (.ok (entries.map fun entry => entry.fileSize).sum) ∧
        c.right.program = .done (.ok (entries.map ZmodemSendStreamEntry.header)) ∧
        c.right.state = (entries.map ZmodemSendStreamEntry.header).zip contents) := by
  have hsizes : entries.map (fun entry => entry.fileSize) = contents.map List.length := by
    induction h with
    | nil => rfl
    | cons hentry _ ih => rw [List.map_cons, List.map_cons, hentry.size_eq, ih]
  refine ⟨zmodemMaxChunk + (contents.map List.length).sum + entries.length + 1, fun fuel hfuel => ?_⟩
  obtain ⟨bound, hbound⟩ := (exchange_session h hfuel).every_run (Network.stuck_of_done rfl rfl)
  refine ⟨bound, fun n c hrun => ?_⟩
  obtain ⟨hle, hend⟩ := hbound n c hrun
  refine ⟨hle, fun hstuck => ?_⟩
  rw [hend hstuck, hsizes]
  exact ⟨rfl, rfl, rfl⟩

/-- An empty file and a file of one byte. -/
def twoEntries : List (ZmodemSendStreamEntry Cursor) :=
  [{ fileName := ['a'], fileSize := 0, reader := { contents := [], position := 0 } },
    { fileName := ['b'], fileSize := 1, reader := { contents := [0x18], position := 0 } }]

/-- A session with two files. -/
theorem zmodem_sender_and_receiver_interoperate_two :
    ∃ enough, ∀ fuel, enough ≤ fuel → ∃ bound, ∀ n c,
      link.Steps n (session fuel (sendZmodemStream fuel twoEntries) (receiveZmodem fuel) [] [] []) c →
      n ≤ bound ∧ (link.Stuck c →
        c.left.program = .done (.ok 1) ∧
        c.right.program = .done (.ok (twoEntries.map ZmodemSendStreamEntry.header)) ∧
        c.right.state = (twoEntries.map ZmodemSendStreamEntry.header).zip [[], [0x18]]) := by
  refine zmodem_sender_and_receiver_interoperate (.cons ?_ (.cons ?_ .nil))
  · exact ⟨by decide, by decide, by decide, by decide, by decide, by decide +kernel, rfl, by decide,
      _, _, Cursor.seeks [], rfl, rfl⟩
  · exact ⟨by decide, by decide, by decide, by decide, by decide, by decide +kernel, rfl, by decide,
      _, _, Cursor.seeks [0x18], rfl, rfl⟩

end OxideTerm.Modem
