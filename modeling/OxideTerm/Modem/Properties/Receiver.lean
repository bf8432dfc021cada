import OxideTerm.Lib.Monitor
import OxideTerm.Modem.ZmodemFrames

/-!
# A ZMODEM receiver and any peer

Whatever arrives and whatever becomes of what the receiver writes: a file gets the payloads of
subpackets that check out, each at the position that its header said, and no file is reported before
its end was announced at the right position.
-/

namespace OxideTerm.Modem

open OxideTerm.Lib

/-- An action of a transfer with its answer. -/
abbrev ZEvent := Program.Exchange ZCall ZCall.Answer ModemTransferError

/-! ## What is watched -/

/-- What has become known of a transfer. -/
structure Observed where
  /-- The file that is open, with what has been handed over to its writer. -/
  file : Option (ZmodemFileHeader × Bytes)
  /-- The last header, with how much had been handed over when it was read. -/
  header : Option (ZHeader × Nat)
  /-- The subpacket that was read just now. -/
  subpacket : Option ZDataFrame
  /-- The files of which the end was announced at the right position, with their contents. -/
  completed : List (ZmodemFileHeader × Bytes)

namespace Observed

/-- How much has been handed over to the writer. -/
def offset (o : Observed) : Nat := o.file.elim 0 fun file => file.2.length

/-- A header ends a file of which so much has been handed over: all of it, as far as its size is
known. -/
def Ends (header : ZHeader) (fileHeader : ZmodemFileHeader) (offset : Nat) : Prop :=
  header.frameType = .zEof ∧ header.positionU32 = offset ∧ fileHeader.fileSize.all (· = offset)

instance instDecidableEnds (header : ZHeader) (fileHeader : ZmodemFileHeader) (offset : Nat) :
    Decidable (Ends header fileHeader offset) := instDecidableAnd

def readHeader (o : Observed) (header : ZHeader) : Observed :=
  match o.file with
  | none => { o with header := some (header, o.offset), subpacket := none }
  | some file =>
    if Ends header file.1 file.2.length then
      { file := none, header := some (header, o.offset), subpacket := none,
        completed := o.completed ++ [file] }
    else { o with header := some (header, o.offset), subpacket := none }

def next (o : Observed) : ZEvent → Observed
  | ⟨.readHeader, .ok header⟩ => o.readHeader header
  | ⟨.readData _ _, .ok frame⟩ => { o with subpacket := some frame }
  | ⟨.file (.openWriter fileHeader), .ok _⟩ =>
    { o with file := some (fileHeader, []), subpacket := none }
  | ⟨.file (.writeAll bytes), _⟩ =>
    { o with file := o.file.map fun file => (file.1, file.2 ++ bytes), subpacket := none }
  | _ => { o with subpacket := none }

/-- These bytes are the payload of the subpacket that was read just now, under a header that said
where they belong, and the file has room for them. -/
def AcceptsData (o : Observed) (bytes : Bytes) : Prop :=
  ∃ frame header start file, o.subpacket = some frame ∧ frame.payload = bytes ∧
    o.header = some (header, start) ∧ header.frameType = .zData ∧ header.positionU32 = start ∧
    o.file = some file ∧ ∀ size, file.1.fileSize = some size → file.2.length + bytes.length ≤ size

/-- This position is how much has been handed over. -/
def IsOffset (o : Observed) (position : ZPosition) : Prop :=
  ∃ file, o.file = some file ∧ position.value = file.2.length

/-- The last header was one that announces attention bytes, of which `1` is the acknowledgement. -/
def AcknowledgesAttention (o : Observed) (position : ZPosition) : Prop :=
  ∃ header start, o.header = some (header, start) ∧ header.frameType = .zsInit ∧
    position = positionHeader 1

def Allows (o : Observed) : ZEvent → Prop
  | ⟨.file (.writeAll bytes), _⟩ => o.AcceptsData bytes
  | ⟨.writeHeader .zRpos position, _⟩ => o.IsOffset position
  | ⟨.writeHeader .zAck position, _⟩ => o.IsOffset position ∨ o.AcknowledgesAttention position
  | _ => True

end Observed

/-- Watches a receiver. -/
def receiverMonitor : Monitor ZCall ZCall.Answer ModemTransferError Observed where
  start := { file := none, header := none, subpacket := none, completed := [] }
  next := Observed.next
  Allows := Observed.Allows

/-! ## What the receiver keeps -/

/-- Between files. -/
def Between (received : List ZmodemFileHeader) (o : Observed) : Prop :=
  o.completed.map (fun file => file.1) = received ∧ o.file = none

/-- Within a file, of which so much has been received, after this header. -/
def Within (received : List ZmodemFileHeader) (fileHeader : ZmodemFileHeader)
    (header : Option (ZHeader × Nat)) (offset : Nat) (o : Observed) : Prop :=
  o.completed.map (fun file => file.1) = received ∧ o.header = header ∧
    ∃ written, o.file = some (fileHeader, written) ∧ written.length = offset

/-- Within a file, of which so much has been received. -/
def Open (received : List ZmodemFileHeader) (fileHeader : ZmodemFileHeader) (offset : Nat)
    (o : Observed) : Prop :=
  ∃ last, Within received fileHeader last offset o

variable {received : List ZmodemFileHeader} {fileHeader : ZmodemFileHeader}
  {last : Option (ZHeader × Nat)} {offset : Nat} {o : Observed}

theorem Within.isOffset (h : Within received fileHeader last offset o)
    (hmax : offset ≤ zmodemMaxPosition) : o.IsOffset (positionHeader offset) := by
  obtain ⟨-, -, written, hfile, hlength⟩ := h
  refine ⟨_, hfile, ?_⟩
  rw [value_positionHeader (Nat.lt_of_le_of_lt hmax (by decide))]
  exact hlength.symm

/-- A position is written within a file. -/
theorem meets_writePosition {frameType : ZFrameType}
    (htype : frameType = .zRpos ∨ frameType = .zAck) :
    receiverMonitor.Meets (writePosition frameType offset) (Within received fileHeader last offset)
      fun _ => Within received fileHeader last offset := by
  unfold writePosition positionHeaderChecked
  split
  · exact Monitor.meets_error _
  · next hmax =>
    refine Monitor.meets_call (fun o answer ho => ?_) fun o _ ho => ho
    have hoffset := ho.isOffset (Nat.not_lt.mp hmax)
    rcases htype with rfl | rfl
    · exact hoffset
    · exact .inl hoffset

/-- The subpacket that was read just now is handed over. -/
theorem meets_handOver {header : ZHeader} {start : Nat} {frame : ZDataFrame}
    (hdata : header.frameType = .zData) (hstart : header.positionU32 = start)
    (hroom : ∀ size, fileHeader.fileSize = some size → offset + frame.payload.length ≤ size) :
    receiverMonitor.Meets (onFile (.writeAll frame.payload))
      (fun o => Within received fileHeader (some (header, start)) offset o ∧
        o.subpacket = some frame)
      fun _ => Within received fileHeader (some (header, start)) (offset + frame.payload.length) := by
  refine Monitor.meets_call ?_ ?_
  · rintro o answer ⟨⟨-, hheader, written, hfile, hlength⟩, hframe⟩
    refine ⟨frame, header, start, _, hframe, rfl, hheader, hdata, hstart, hfile, fun size hsize => ?_⟩
    rw [hlength]
    exact hroom size hsize
  · rintro o answer ⟨⟨hreceived, hheader, written, hfile, rfl⟩, -⟩
    refine ⟨hreceived, hheader, written ++ frame.payload, ?_, List.length_append⟩
    show (o.file.map fun file => (file.1, file.2 ++ frame.payload)) = _
    rw [hfile, Option.map_some]

theorem meets_acceptFrame {header : ZHeader} {start : Nat} (hdata : header.frameType = .zData)
    (hstart : header.positionU32 = start) (frame : ZDataFrame) :
    receiverMonitor.Meets (acceptFrame fileHeader offset frame)
      (fun o => Within received fileHeader (some (header, start)) offset o ∧
        o.subpacket = some frame)
      (Sum.elim (Within received fileHeader (some (header, start)))
        (Within received fileHeader (some (header, start)))) := by
  unfold acceptFrame
  split
  · exact Monitor.meets_error _
  · next nextOffset hadd =>
    obtain rfl : offset + frame.payload.length = nextOffset := by
      unfold checkedAdd at hadd
      split at hadd
      · exact Option.some.inj hadd
      · exact absurd hadd (by simp)
    split
    · exact Monitor.meets_error _
    · next hroom =>
      have hfits : ∀ size, fileHeader.fileSize = some size →
          offset + frame.payload.length ≤ size := by
        intro size hsize
        rw [hsize, Option.any_some, decide_eq_true_eq] at hroom
        exact Nat.not_lt.mp hroom
      refine Monitor.meets_bind (meets_handOver hdata hstart hfits) fun _ => ?_
      cases frame.frameEnd with
      | continueFrame => exact Monitor.meets_ok fun _ h => h
      | continueWithAck =>
        exact Monitor.meets_bind (meets_writePosition (.inr rfl)) fun _ => Monitor.meets_ok fun _ h => h
      | endFrame => exact Monitor.meets_ok fun _ h => h
      | endWithAck =>
        exact Monitor.meets_bind (meets_writePosition (.inr rfl)) fun _ => Monitor.meets_ok fun _ h => h

/-- One subpacket under a header that said where it belongs. -/
theorem meets_dataRound {header : ZHeader} {start : Nat} (hdata : header.frameType = .zData)
    (hstart : header.positionU32 = start) (useCrc32 : Bool) (offset : Nat) :
    receiverMonitor.Meets (dataRound fileHeader useCrc32 offset)
      (Within received fileHeader (some (header, start)) offset)
      (Sum.elim (Within received fileHeader (some (header, start)))
        (Within received fileHeader (some (header, start)))) := by
  have hread : receiverMonitor.Meets (readData useCrc32 zmodemMaxChunk).attempt
      (Within received fileHeader (some (header, start)) offset)
      fun answer o => Within received fileHeader (some (header, start)) offset o ∧
        ∀ frame, answer = .ok frame → o.subpacket = some frame := by
    refine Monitor.meets_attempt_call (fun _ _ _ => trivial) fun o answer ho => ?_
    cases answer with
    | ok frame => exact ⟨ho, fun _ h => congrArg some (Except.ok.inj h)⟩
    | error e => exact ⟨ho, fun _ h => absurd h (by simp)⟩
  unfold dataRound
  refine Monitor.meets_bind hread fun answer => ?_
  cases answer with
  | ok frame =>
    exact (meets_acceptFrame hdata hstart frame).weaken (fun o ho => ⟨ho.1, ho.2 frame rfl⟩)
      fun _ _ h => h
  | error e =>
    simp only
    split
    · refine Monitor.meets_bind ((meets_writePosition (.inl rfl)).weaken (fun o ho => ho.1)
        fun _ _ h => h) fun _ => Monitor.meets_ok fun _ h => h
    · exact Monitor.meets_error _

/-- What is known of a header within a file: it ends the file, or it is the last header. -/
def AfterHeader (received : List ZmodemFileHeader) (fileHeader : ZmodemFileHeader) (offset : Nat)
    (header : ZHeader) (o : Observed) : Prop :=
  if Observed.Ends header fileHeader offset then Between (received ++ [fileHeader]) o
  else Within received fileHeader (some (header, offset)) offset o

theorem meets_readHeader :
    receiverMonitor.Meets readHeader (Within received fileHeader last offset)
      (AfterHeader received fileHeader offset) := by
  refine Monitor.meets_call (fun _ _ _ => trivial) ?_
  rintro o header ⟨hreceived, -, written, hfile, rfl⟩
  show AfterHeader received fileHeader written.length header (o.readHeader header)
  have hoffset : o.offset = written.length := by rw [Observed.offset, hfile, Option.elim_some]
  unfold Observed.readHeader AfterHeader
  rw [hfile]
  simp only
  by_cases hends : Observed.Ends header fileHeader written.length
  · rw [if_pos hends, if_pos hends]
    refine ⟨?_, rfl⟩
    rw [List.map_append, hreceived]
    rfl
  · rw [if_neg hends, if_neg hends, hoffset]
    exact ⟨hreceived, rfl, written, rfl, rfl⟩

/-- What is done with a header within a file. -/
theorem meets_fileFrame (fuel : Nat) (header : ZHeader) :
    receiverMonitor.Meets (fileFrame fuel fileHeader offset header)
      (AfterHeader received fileHeader offset header)
      (Sum.elim (Open received fileHeader) fun _ => Between (received ++ [fileHeader])) := by
  have hresume : ¬ Observed.Ends header fileHeader offset →
      receiverMonitor.Meets (do
          writePosition .zRpos offset
          return (.inl offset : Nat ⊕ Unit))
        (AfterHeader received fileHeader offset header)
        (Sum.elim (Open received fileHeader) fun _ => Between (received ++ [fileHeader])) := by
    intro hends
    have hwrite : receiverMonitor.Meets (writePosition .zRpos offset)
        (Within received fileHeader (some (header, offset)) offset) _ :=
      meets_writePosition (.inl rfl)
    refine Monitor.meets_bind (hwrite.weaken (fun o ho => ?_) fun _ _ h => h)
      fun _ => Monitor.meets_ok fun o ho => ⟨_, ho⟩
    rwa [AfterHeader, if_neg hends] at ho
  unfold fileFrame
  split
  · next hdata =>
    have hends : ¬ Observed.Ends header fileHeader offset := fun h => by
      rw [h.1] at hdata
      exact absurd hdata (by decide)
    split
    · exact hresume hends
    · next hposition =>
      have hloop : receiverMonitor.Meets (Program.loop (dataRound fileHeader
          (header.encoding = .bin32)) fuel offset)
          (Within received fileHeader (some (header, offset)) offset)
          fun offset' o => Within received fileHeader (some (header, offset)) offset' o :=
        Monitor.meets_loop (meets_dataRound hdata (Decidable.not_not.mp hposition) _) fuel offset
      refine Monitor.meets_bind (hloop.weaken (fun o ho => ?_) fun _ _ h => h)
        fun offset' => Monitor.meets_ok fun o ho => ⟨_, ho⟩
      rwa [AfterHeader, if_neg hends] at ho
  · next heof =>
    split
    · next hwrong =>
      refine hresume fun hends => ?_
      rcases hwrong with h | h
      · exact h hends.2.1
      · exact h hends.2.2
    · next hright =>
      rw [not_or, Decidable.not_not, Decidable.not_not] at hright
      have hends : Observed.Ends header fileHeader offset := ⟨heof, hright⟩
      have hflush : receiverMonitor.Meets (onFile .flush) (Between (received ++ [fileHeader]))
          fun _ => Between (received ++ [fileHeader]) :=
        Monitor.meets_call (fun _ _ _ => trivial) fun _ _ ho => ho
      have hinit : receiverMonitor.Meets sendZrinit (Between (received ++ [fileHeader]))
          fun _ => Between (received ++ [fileHeader]) :=
        Monitor.meets_call (fun _ _ _ => trivial) fun _ _ ho => ho
      refine Monitor.meets_bind (hflush.weaken (fun o ho => ?_) fun _ _ h => h) fun _ =>
        Monitor.meets_bind hinit fun _ => Monitor.meets_ok fun o ho => ho
      rwa [AfterHeader, if_pos hends] at ho
  · exact Monitor.meets_error _
  · exact Monitor.meets_error _
  · exact Monitor.meets_error _

theorem meets_fileRound (fuel offset : Nat) :
    receiverMonitor.Meets (fileRound fuel fileHeader offset) (Open received fileHeader offset)
      (Sum.elim (Open received fileHeader) fun _ => Between (received ++ [fileHeader])) :=
  Monitor.meets_bind (Monitor.meets_exists fun _ => meets_readHeader) (meets_fileFrame fuel)

/-- **A file**, from its header to its end. -/
theorem meets_receiveFile (fuel : Nat) (fileHeader : ZmodemFileHeader) :
    receiverMonitor.Meets (receiveFile fuel fileHeader) (Between received)
      fun _ => Between (received ++ [fileHeader]) := by
  unfold receiveFile
  have hopen : receiverMonitor.Meets (onFile (.openWriter fileHeader)) (Between received)
      fun _ => Open received fileHeader 0 :=
    Monitor.meets_call (fun _ _ _ => trivial) fun o _ ho => ⟨o.header, ho.1, rfl, [], rfl, rfl⟩
  have hstart : receiverMonitor.Meets (writePosition .zRpos 0) (Open received fileHeader 0)
      fun _ => Open received fileHeader 0 :=
    Monitor.meets_exists fun last =>
      (meets_writePosition (.inl rfl)).weaken (fun _ h => h) fun _ _ h => ⟨last, h⟩
  refine Monitor.meets_bind (Monitor.meets_result _) fun _ => Monitor.meets_bind hopen fun _ =>
    Monitor.meets_bind hstart fun _ => ?_
  exact Monitor.meets_loop (meets_fileRound fuel) fuel 0

/-! ## Between files -/

theorem meets_finishZmodemReceive (fuel : Nat) :
    receiverMonitor.Meets (finishZmodemReceive fuel) (Between received)
      fun _ => Between received := by
  have hwrite : receiverMonitor.Meets (writeHeader .zFin (positionHeader 0)) (Between received)
      fun _ => Between received :=
    Monitor.meets_call (fun _ _ _ => trivial) fun _ _ ho => ho
  refine Monitor.meets_bind hwrite fun _ => ?_
  refine @Monitor.meets_loop _ _ _ _ _ _ _ _ _ (fun _ => Between received) (fun counts => ?_) fuel
    (0, 0)
  unfold finishReceiveRound
  have hread : receiverMonitor.Meets (Program.call (B := ZCall.Answer) ZCall.readByte)
      (Between received) fun _ => Between received :=
    Monitor.meets_call (fun _ _ _ => trivial) fun _ _ ho => ho
  refine Monitor.meets_bind hread fun byte => ?_
  dsimp only
  by_cases hover : (if byte = 0x4f then counts.1 + 1 else 0) = 2
  · rw [if_pos hover]
    exact Monitor.meets_ok fun _ h => h
  · rw [if_neg hover]
    by_cases hcancel : (if byte = zdle then counts.2 + 1 else 0) = 5
    · rw [if_pos hcancel]
      exact Monitor.meets_error _
    · rw [if_neg hcancel]
      exact Monitor.meets_ok fun _ h => h

/-- What is done with a header between files. -/
theorem meets_sessionFrame (fuel : Nat) (header : ZHeader) :
    receiverMonitor.Meets (sessionFrame fuel received header)
      (fun o => Between received o ∧ o.header = some (header, 0))
      (Sum.elim Between Between) := by
  have hread : ∀ useCrc32 maxPayload, receiverMonitor.Meets (readData useCrc32 maxPayload)
      (fun o => Between received o ∧ o.header = some (header, 0))
      fun _ o => Between received o ∧ o.header = some (header, 0) := fun _ _ =>
    Monitor.meets_call (fun _ _ _ => trivial) fun _ _ ho => ho
  have hfinish : receiverMonitor.Meets (finishZmodemReceive fuel) (Between received)
      fun _ => Between received := meets_finishZmodemReceive fuel
  unfold sessionFrame
  split
  · have hinit : receiverMonitor.Meets sendZrinit
        (fun o => Between received o ∧ o.header = some (header, 0)) fun _ => Between received :=
      Monitor.meets_call (fun _ _ _ => trivial) fun _ _ ho => ho.1
    exact Monitor.meets_bind hinit fun _ => Monitor.meets_ok fun _ ho => ho
  · refine Monitor.meets_bind (hread _ _) fun frame => ?_
    split
    · exact Monitor.meets_error _
    · refine Monitor.meets_bind (Monitor.meets_result _) fun header? => ?_
      cases header? with
      | none =>
        exact Monitor.meets_bind (hfinish.weaken (fun _ ho => ho.1) fun _ _ ho => ho) fun _ =>
          Monitor.meets_ok fun _ ho => ho
      | some fileHeader =>
        exact Monitor.meets_bind ((meets_receiveFile fuel fileHeader).weaken (fun _ ho => ho.1)
          fun _ _ ho => ho) fun _ => Monitor.meets_ok fun _ ho => ho
  · next hattention =>
    refine Monitor.meets_bind (hread _ _) fun frame => ?_
    split
    · exact Monitor.meets_error _
    · have hwrite : receiverMonitor.Meets (writeHeader .zAck (positionHeader 1))
          (fun o => Between received o ∧ o.header = some (header, 0)) fun _ => Between received :=
        Monitor.meets_call (fun _ _ ho => .inr ⟨header, 0, ho.2, hattention, rfl⟩)
          fun _ _ ho => ho.1
      exact Monitor.meets_bind hwrite fun _ => Monitor.meets_ok fun _ ho => ho
  · exact Monitor.meets_bind (hfinish.weaken (fun _ ho => ho.1) fun _ _ ho => ho) fun _ =>
      Monitor.meets_ok fun _ ho => ho
  · exact Monitor.meets_error _
  · exact Monitor.meets_error _
  · exact Monitor.meets_ok fun _ ho => ho.1

theorem meets_sessionRound (fuel : Nat) (received : List ZmodemFileHeader) :
    receiverMonitor.Meets (sessionRound fuel received) (Between received)
      (Sum.elim Between Between) := by
  have hread : receiverMonitor.Meets readHeader (Between received)
      fun header o => Between received o ∧ o.header = some (header, 0) := by
    refine Monitor.meets_call (fun _ _ _ => trivial) ?_
    rintro o header ⟨hreceived, hfile⟩
    show Between received (o.readHeader header) ∧ (o.readHeader header).header = some (header, 0)
    unfold Observed.readHeader Observed.offset
    rw [hfile]
    exact ⟨⟨hreceived, rfl⟩, rfl⟩
  exact Monitor.meets_bind hread (meets_sessionFrame fuel)

/-- **All actions of a receiver are allowed**, and what it returns are the completed files. -/
theorem meets_receiveZmodem (fuel : Nat) :
    receiverMonitor.Meets (receiveZmodem fuel) (fun o => o = receiverMonitor.start) Between := by
  have hinit : receiverMonitor.Meets sendZrinit (fun o => o = receiverMonitor.start)
      fun _ => Between [] := by
    refine Monitor.meets_call (fun _ _ _ => trivial) ?_
    rintro _ _ rfl
    exact ⟨rfl, rfl⟩
  exact Monitor.meets_bind hinit fun _ => Monitor.meets_loop (meets_sessionRound fuel) fuel []

/-! ## Where the contents of files come from -/

def subpacketOf : ZEvent → Option ZDataFrame
  | ⟨.readData _ _, .ok frame⟩ => some frame
  | _ => none

/-- The subpackets that were read, in the order of reading. -/
def subpackets (events : List ZEvent) : List ZDataFrame := events.filterMap subpacketOf

/-- A file holds payloads of such subpackets in their order, and no more than its size. -/
structure HoldsPayloads (frames : List ZDataFrame) (file : ZmodemFileHeader × Bytes) : Prop where
  payloads : ∃ taken, List.Sublist taken frames ∧
    file.2 = (taken.map fun frame => frame.payload).flatten
  within_size : ∀ size, file.1.fileSize = some size → file.2.length ≤ size

/-- The end of a file was announced at the right position. -/
def EndAnnounced (events : List ZEvent) (file : ZmodemFileHeader × Bytes) : Prop :=
  ∃ before header later, events = before ++ ⟨.readHeader, .ok header⟩ :: later ∧
    (receiverMonitor.observe before).file = some file ∧
    Observed.Ends header file.1 file.2.length

namespace HoldsPayloads

variable {frames more : List ZDataFrame} {file : ZmodemFileHeader × Bytes}

theorem append (h : HoldsPayloads frames file) : HoldsPayloads (frames ++ more) file := by
  obtain ⟨taken, htaken, hfile⟩ := h.payloads
  exact ⟨⟨taken, htaken.trans (List.sublist_append_left _ _), hfile⟩, h.within_size⟩

theorem of_empty (h : file.2 = []) : HoldsPayloads frames file :=
  ⟨⟨[], List.nil_sublist _, h⟩, fun _ _ => h ▸ Nat.zero_le _⟩

/-- The next subpacket is handed over. -/
theorem concat {frame : ZDataFrame} (h : HoldsPayloads frames file)
    (hroom : ∀ size, file.1.fileSize = some size → file.2.length + frame.payload.length ≤ size) :
    HoldsPayloads (frames ++ [frame]) (file.1, file.2 ++ frame.payload) := by
  obtain ⟨taken, htaken, hfile⟩ := h.payloads
  refine ⟨⟨taken ++ [frame], htaken.append (List.Sublist.refl _), ?_⟩, fun size hsize => ?_⟩
  · rw [List.map_append, List.flatten_append, ← hfile]
    simp
  · rw [List.length_append]
    exact hroom size hsize

end HoldsPayloads

theorem Observed.subpacket_readHeader (o : Observed) (header : ZHeader) :
    (o.readHeader header).subpacket = none := by
  unfold Observed.readHeader
  split
  · rfl
  · split <;> rfl

theorem Observed.subpacket_next (o : Observed) (event : ZEvent) :
    (o.next event).subpacket = subpacketOf event := by
  rcases event with ⟨call, answer⟩
  cases call with
  | readHeader =>
    cases answer with
    | ok header => exact o.subpacket_readHeader header
    | error e => rfl
  | readData useCrc32 maxPayload => cases answer <;> rfl
  | readByte => rfl
  | writeHeader frameType position => rfl
  | writeBinaryHeader frameType position useCrc32 escapeControl => rfl
  | writeData payload frameEnd useCrc32 escapeControl => rfl
  | writeAll bytes => rfl
  | file call =>
    cases call with
    | openWriter fileHeader => cases answer <;> rfl
    | writeAll bytes => rfl
    | flush => rfl

/-- A header leaves the known files as they are, and ends one at most. -/
theorem Observed.files_readHeader {o : Observed} {header : ZHeader}
    {file : ZmodemFileHeader × Bytes} :
    ((o.readHeader header).file = some file → o.file = some file) ∧
    (file ∈ (o.readHeader header).completed → file ∈ o.completed ∨
      o.file = some file ∧ Observed.Ends header file.1 file.2.length) := by
  unfold Observed.readHeader
  split
  · exact ⟨fun h => h, .inl⟩
  · next current hcurrent =>
    split
    · next hends =>
      refine ⟨fun h => absurd h (by simp), fun h => ?_⟩
      rw [List.mem_append, List.mem_singleton] at h
      rcases h with h | rfl
      · exact .inl h
      · exact .inr ⟨hcurrent, hends⟩
    · exact ⟨fun h => h, .inl⟩

/-- What becomes of the file that is open. -/
theorem Observed.file_next {o : Observed} {event : ZEvent} {file : ZmodemFileHeader × Bytes}
    (h : (o.next event).file = some file) :
    o.file = some file ∨ file.2 = [] ∨
      ∃ bytes answer before, event = ⟨.file (.writeAll bytes), answer⟩ ∧ o.file = some before ∧
        file = (before.1, before.2 ++ bytes) := by
  unfold Observed.next at h
  split at h
  · exact .inl (Observed.files_readHeader.1 h)
  · exact .inl h
  · next fileHeader _ =>
    obtain rfl : (fileHeader, []) = file := Option.some.inj h
    exact .inr (.inl rfl)
  · next bytes answer =>
    obtain ⟨before, hbefore, rfl⟩ := Option.map_eq_some_iff.mp h
    exact .inr (.inr ⟨bytes, answer, before, rfl, hbefore, rfl⟩)
  · exact .inl h

/-- Only a header completes a file. -/
theorem Observed.completed_next {o : Observed} {event : ZEvent} {file : ZmodemFileHeader × Bytes}
    (h : file ∈ (o.next event).completed) :
    file ∈ o.completed ∨ ∃ header, event = ⟨.readHeader, .ok header⟩ ∧ o.file = some file ∧
      Observed.Ends header file.1 file.2.length := by
  unfold Observed.next at h
  split at h
  · next header =>
    rcases Observed.files_readHeader.2 h with h | h
    · exact .inl h
    · exact .inr ⟨header, rfl, h⟩
  · exact .inl h
  · exact .inl h
  · exact .inl h
  · exact .inl h

/-- **Every file holds payloads of subpackets**, all but the last that was read at most. -/
theorem holdsPayloads_of_safe {events : List ZEvent} (hsafe : receiverMonitor.Safe events) :
    ∃ earlier, subpackets events = earlier ++ (receiverMonitor.observe events).subpacket.toList ∧
      (∀ file, (receiverMonitor.observe events).file = some file → HoldsPayloads earlier file) ∧
      ∀ file ∈ (receiverMonitor.observe events).completed, HoldsPayloads earlier file := by
  induction events using List.reverseRecOn with
  | nil => exact ⟨[], rfl, fun _ h => (nomatch h), fun _ h => (nomatch h)⟩
  | append_singleton events event ih =>
    obtain ⟨hbefore, hallows⟩ := Monitor.safe_concat.mp hsafe
    obtain ⟨earlier, hearlier, hfile, hcompleted⟩ := ih hbefore
    rw [Monitor.observe_concat]
    refine ⟨subpackets events, ?_, fun file h => ?_, fun file h => ?_⟩
    · show (events ++ [event]).filterMap subpacketOf =
        events.filterMap subpacketOf ++ ((receiverMonitor.observe events).next event).subpacket.toList
      rw [List.filterMap_append, Observed.subpacket_next]
      cases hread : subpacketOf event with
      | none => rw [List.filterMap_cons_none hread, List.filterMap_nil, Option.toList_none]
      | some frame => rw [List.filterMap_cons_some hread, List.filterMap_nil, Option.toList_some]
    · rcases Observed.file_next h with h | h | ⟨bytes, answer, before, rfl, hopen, rfl⟩
      · rw [hearlier]
        exact (hfile file h).append
      · exact .of_empty h
      · obtain ⟨frame, header, start, file, hframe, rfl, -, -, -, hsome, hroom⟩ := hallows
        obtain rfl : before = file := Option.some.inj (hopen.symm.trans hsome)
        rw [hearlier, hframe, Option.toList_some]
        exact (hfile before hopen).concat hroom
    · rcases Observed.completed_next h with h | ⟨header, -, hopen, -⟩
      · rw [hearlier]
        exact (hcompleted file h).append
      · rw [hearlier]
        exact (hfile file hopen).append

/-- The end of every completed file was announced. -/
theorem endAnnounced_of_completed {events : List ZEvent} {file : ZmodemFileHeader × Bytes}
    (h : file ∈ (receiverMonitor.observe events).completed) : EndAnnounced events file := by
  induction events using List.reverseRecOn with
  | nil => exact nomatch h
  | append_singleton events event ih =>
    rw [Monitor.observe_concat] at h
    rcases Observed.completed_next h with h | ⟨header, rfl, hopen, hends⟩
    · obtain ⟨before, header, later, hevents, hrest⟩ := ih h
      refine ⟨before, header, later ++ [event], ?_, hrest⟩
      rw [hevents, List.append_assoc, List.cons_append]
    · exact ⟨events, header, [], rfl, hopen, hends⟩

/-! ## On the line -/

/-- An action on the line, or on a file, with its answer. -/
abbrev LineEvent := Program.Exchange (Port UInt8 FileCall) (Port.Answer UInt8 FileCall.Answer)
  ModemTransferError

/-- These steps read a subpacket with its check value, and they belong together. -/
def ReadsChecked (fuel : Nat) (useCrc32 : Bool) (maxPayload : Nat) (frame : ZDataFrame)
    (part : List LineEvent) : Prop :=
  ∃ body tail check, part = body ++ tail ∧
    Program.Runs (Program.loop (readZmodemPayloadRound maxPayload) fuel []) body
      (.done (.ok (frame.payload, frame.frameEnd))) ∧
    Program.Runs (readZescapedBytes fuel (if useCrc32 then 4 else 2)) tail (.done (.ok check)) ∧
    checksOut useCrc32 frame.payload frame.frameEnd check = true

theorem readsChecked_of_runs {fuel : Nat} {useCrc32 : Bool} {maxPayload : Nat} {frame : ZDataFrame}
    {part : List LineEvent}
    (h : Program.Runs (readZmodemData fuel useCrc32 maxPayload) part (.done (.ok frame))) :
    ReadsChecked fuel useCrc32 maxPayload frame part := by
  unfold readZmodemData at h
  obtain ⟨body, rest, ⟨payload, frameEnd⟩, rfl, hbody, hrest⟩ := Program.runs_bind_ok h
  obtain ⟨tail, final, check, rfl, htail, hfinal⟩ := Program.runs_bind_ok hrest
  split at hfinal
  · next hchecks =>
    obtain ⟨rfl, hframe⟩ := Program.runs_done hfinal
    obtain rfl : frame = { payload, frameEnd } := by simpa using hframe
    exact ⟨body, tail, check, by rw [List.append_nil], hbody, htail, hchecks⟩
  · obtain ⟨-, herror⟩ := Program.runs_done hfinal
    exact absurd herror (by simp)

/-! ## Nothing but reading -/

/-- Watches whether a program does anything but read. -/
def readingMonitor : Monitor (Port UInt8 FileCall) (Port.Answer UInt8 FileCall.Answer)
    ModemTransferError Unit where
  start := ()
  next _ _ := ()
  Allows _ event := event.1 = .read

/-- A program that only reads. -/
def OnlyReads {α : Type} (p : ZmodemIo α) : Prop :=
  readingMonitor.Meets p (fun _ => True) fun _ _ => True

section

variable {α β σ : Type}

theorem OnlyReads.bind {p : ZmodemIo α} {f : α → ZmodemIo β} (h : OnlyReads p)
    (hf : ∀ a, OnlyReads (f a)) : OnlyReads (p.bind f) := Monitor.meets_bind h hf

theorem OnlyReads.loop {body : σ → ZmodemIo (σ ⊕ α)} (h : ∀ s, OnlyReads (body s)) (fuel : Nat)
    (s : σ) : OnlyReads (Program.loop body fuel s) := by
  refine @Monitor.meets_loop _ _ _ _ _ _ _ _ _ (fun _ _ => True) (fun s => ?_) fuel s
  exact (h s).weaken (fun _ h => h) fun result _ _ => by cases result <;> trivial

theorem onlyReads_done (result : Except ModemTransferError α) : OnlyReads (.done result) :=
  (Monitor.meets_result result).weaken (fun _ h => h) fun _ _ h => h

theorem onlyReads_readByte : OnlyReads readByte :=
  Monitor.meets_call (fun _ _ _ => rfl) fun _ _ _ => trivial

/-- What a program that only reads has done. -/
theorem OnlyReads.runs {p q : ZmodemIo α} {t : List LineEvent} (h : OnlyReads p)
    (hruns : Program.Runs p t q) : ∀ event ∈ t, event.1 = .read := by
  have hall := (h () t q trivial hruns).1
  intro event hevent
  obtain ⟨before, later, rfl⟩ := List.append_of_mem hevent
  exact ((Monitor.allowsAll_append before).mp hall).2.1

theorem onlyReads_expectCancel : ∀ n, OnlyReads (expectCancel n)
  | 0 => onlyReads_done _
  | n + 1 => onlyReads_readByte.bind fun byte => by
    split
    · exact onlyReads_done _
    · exact onlyReads_expectCancel n

theorem onlyReads_decodeZescapedFollowup (escaped : UInt8) :
    OnlyReads (decodeZescapedFollowup escaped) := by
  unfold decodeZescapedFollowup
  split
  · exact onlyReads_done _
  · split
    · exact onlyReads_done _
    · split
      · exact onlyReads_done _
      · split
        · exact onlyReads_expectCancel 3
        · exact onlyReads_done _

theorem onlyReads_readZescapedByte (fuel : Nat) : OnlyReads (readZescapedByte fuel) := by
  refine .loop (fun _ => onlyReads_readByte.bind fun byte => ?_) fuel ()
  split
  · exact onlyReads_done _
  · split
    · exact onlyReads_readByte.bind fun escaped =>
        (onlyReads_decodeZescapedFollowup escaped).bind fun _ => onlyReads_done _
    · exact onlyReads_done _

theorem onlyReads_readZescapedBytes (fuel : Nat) : ∀ n, OnlyReads (readZescapedBytes fuel n)
  | 0 => onlyReads_done _
  | n + 1 => (onlyReads_readZescapedByte fuel).bind fun _ =>
    (onlyReads_readZescapedBytes fuel n).bind fun _ => onlyReads_done _

theorem onlyReads_readHexNibble : OnlyReads readHexNibble := by
  refine onlyReads_readByte.bind fun byte => ?_
  cases hexValue byte with
  | none => exact onlyReads_done _
  | some value => exact onlyReads_done _

theorem onlyReads_readHexBytes : ∀ n, OnlyReads (readHexBytes n)
  | 0 => onlyReads_done _
  | n + 1 => onlyReads_readHexNibble.bind fun _ => onlyReads_readHexNibble.bind fun _ =>
    (onlyReads_readHexBytes n).bind fun _ => onlyReads_done _

theorem onlyReads_decodedHeader (decoded : Bytes) (encoding : ZHeaderEncoding) :
    OnlyReads (decodedHeader decoded encoding) := by
  unfold decodedHeader
  split
  · exact onlyReads_done _
  · exact onlyReads_done _

theorem onlyReads_readHexZheader : OnlyReads readHexZheader := by
  refine (onlyReads_readHexBytes 7).bind fun decoded => ?_
  split
  · exact onlyReads_done _
  · refine OnlyReads.bind (onlyReads_readByte.bind fun carriageReturn => ?_) fun _ =>
      onlyReads_decodedHeader decoded .hex
    split
    · exact onlyReads_done _
    · refine onlyReads_readByte.bind fun lineFeed => ?_
      split
      · exact onlyReads_done _
      · exact onlyReads_done _

theorem onlyReads_readBinaryZheader (fuel : Nat) (encoding : ZHeaderEncoding) :
    OnlyReads (readBinaryZheader fuel encoding) := by
  refine (onlyReads_readZescapedBytes fuel _).bind fun decoded => ?_
  cases encoding with
  | bin16 =>
    dsimp only
    split
    · exact onlyReads_done _
    · exact onlyReads_decodedHeader decoded .bin16
  | bin32 =>
    dsimp only
    split
    · exact onlyReads_done _
    · exact onlyReads_decodedHeader decoded .bin32
  | hex => exact onlyReads_done _

theorem onlyReads_readZheaderAs (fuel : Nat) (encoding : UInt8) :
    OnlyReads (readZheaderAs fuel encoding) := by
  unfold readZheaderAs
  split
  · exact onlyReads_readHexZheader.bind fun _ => onlyReads_done _
  · split
    · exact (onlyReads_readBinaryZheader fuel .bin16).bind fun _ => onlyReads_done _
    · split
      · exact (onlyReads_readBinaryZheader fuel .bin32).bind fun _ => onlyReads_done _
      · exact onlyReads_done _

theorem onlyReads_readZmodemHeader (fuel : Nat) : OnlyReads (readZmodemHeader fuel) := by
  refine .loop (fun _ => onlyReads_readByte.bind fun first => ?_) fuel ()
  split
  · exact onlyReads_done _
  · refine onlyReads_readByte.bind fun next => ?_
    split
    · refine onlyReads_readByte.bind fun third => ?_
      split
      · exact onlyReads_done _
      · exact onlyReads_readByte.bind fun encoding => onlyReads_readZheaderAs fuel encoding
    · split
      · exact onlyReads_readByte.bind fun encoding => onlyReads_readZheaderAs fuel encoding
      · exact onlyReads_done _

theorem onlyReads_readZmodemData (fuel : Nat) (useCrc32 : Bool) (maxPayload : Nat) :
    OnlyReads (readZmodemData fuel useCrc32 maxPayload) := by
  refine OnlyReads.bind (.loop (fun payload => onlyReads_readByte.bind fun byte => ?_) fuel [])
    fun body => (onlyReads_readZescapedBytes fuel _).bind fun check => ?_
  · split
    · exact onlyReads_done _
    · split
      · split
        · exact onlyReads_done _
        · exact onlyReads_done _
      · refine onlyReads_readByte.bind fun escaped => ?_
        cases ZDataEnd.fromMarker escaped with
        | some frameEnd => exact onlyReads_done _
        | none =>
          dsimp only
          split
          · exact onlyReads_done _
          · exact (onlyReads_decodeZescapedFollowup escaped).bind fun _ => onlyReads_done _
  · split
    · exact onlyReads_done _
    · exact onlyReads_done _

/-- A single action is under way only before it is taken. -/
theorem nil_of_call {action : Port UInt8 FileCall} {t : List LineEvent}
    {q : ZmodemIo (Port.Answer UInt8 FileCall.Answer action)}
    (h : Program.Runs (Program.call action) t q) (hopen : ∀ answer, q ≠ .done answer) : t = [] := by
  cases h with
  | stay => rfl
  | go answer h => exact absurd (Program.runs_done h).2 (hopen answer)

/-- While an action is under way, a frame is being read. -/
theorem reads_of_underway {fuel : Nat} {p : Zmodem α} {t : List LineEvent} {q : ZmodemIo α}
    (h : Program.Underway (onLine fuel) p t q) : ∀ event ∈ t, event.1 = .read := by
  cases h with
  | between => exact fun event hevent => absurd hevent List.not_mem_nil
  | @within call next part q hpart hopen =>
    have hnone : t = [] → ∀ event ∈ t, event.1 = .read := fun h event hevent =>
      absurd (h ▸ hevent) List.not_mem_nil
    cases call with
    | readHeader => exact (onlyReads_readZmodemHeader fuel).runs hpart
    | readData useCrc32 maxPayload =>
      exact (onlyReads_readZmodemData fuel useCrc32 maxPayload).runs hpart
    | readByte => exact onlyReads_readByte.runs hpart
    | writeHeader frameType position => exact hnone (nil_of_call hpart hopen)
    | writeBinaryHeader frameType position useCrc32 escapeControl =>
      exact hnone (nil_of_call hpart hopen)
    | writeData payload frameEnd useCrc32 escapeControl => exact hnone (nil_of_call hpart hopen)
    | writeAll bytes => exact hnone (nil_of_call hpart hopen)
    | file call => exact hnone (nil_of_call hpart hopen)

/-- Every action of a transfer does something on the line. -/
theorem onLine_ne_done (fuel : Nat) (call : ZCall) (answer : Except ModemTransferError call.Answer) :
    onLine fuel call ≠ .done answer := by
  cases call with
  | readHeader => cases fuel <;> nofun
  | readData useCrc32 maxPayload => cases fuel <;> nofun
  | readByte => nofun
  | writeHeader frameType position => nofun
  | writeBinaryHeader frameType position useCrc32 escapeControl => nofun
  | writeData payload frameEnd useCrc32 escapeControl => nofun
  | writeAll bytes => nofun
  | file call => nofun

end

/-! ## Any peer -/

/-- What has happened on the line, in terms of frames: these actions have been carried out, one
after the other, and what follows is the beginning of a frame that is being read. -/
def Happened (fuel : Nat) (t : List LineEvent) (q : ZmodemIo (List ZmodemFileHeader))
    (events : List ZEvent) : Prop :=
  ∃ done rest p, t = done ++ rest ∧ Program.Runs (receiveZmodem fuel) events p ∧
    Program.Realizes (onLine fuel) events done ∧ Program.Underway (onLine fuel) p rest q

/-- What holds of these events on the line. -/
structure Reception (fuel : Nat) (t : List LineEvent) (q : ZmodemIo (List ZmodemFileHeader))
    (events : List ZEvent) : Prop where
  /-- Each payload was handed over, and each position sent, when that was allowed. -/
  safe : receiverMonitor.Safe events
  /-- What was handed over to a writer are payloads of subpackets in the order of reading. -/
  contents : ∀ file, (receiverMonitor.observe events).file = some file ∨
    file ∈ (receiverMonitor.observe events).completed → HoldsPayloads (subpackets events) file
  /-- Each subpacket was read from the line with its check value. -/
  checked : ∀ before later useCrc32 maxPayload frame,
    events = before ++ ⟨.readData useCrc32 maxPayload, .ok frame⟩ :: later →
    ∃ t₁ part t₂, t = t₁ ++ (part ++ t₂) ∧ Program.Realizes (onLine fuel) before t₁ ∧
      ReadsChecked fuel useCrc32 maxPayload frame part
  ended : ∀ file ∈ (receiverMonitor.observe events).completed, EndAnnounced events file
  returned : ∀ headers, q = .done (.ok headers) →
    headers = (receiverMonitor.observe events).completed.map fun file => file.1
  /-- What has happened on the line since is that a frame is being read. -/
  reading : ∃ done rest, t = done ++ rest ∧ Program.Realizes (onLine fuel) events done ∧
    ∀ event ∈ rest, event.1 = .read

/-- **A receiver is safe against any peer**: whatever it reads, and whatever becomes of its writes
and of its files. -/
theorem zmodem_receiver_is_safe {fuel : Nat} {t : List LineEvent}
    {q : ZmodemIo (List ZmodemFileHeader)}
    (h : Program.Runs ((receiveZmodem fuel).interpret (onLine fuel)) t q) :
    (∃ events, Happened fuel t q events) ∧
    ∀ events, Happened fuel t q events → Reception fuel t q events := by
  refine ⟨?_, ?_⟩
  · obtain ⟨events, p, done, rest, rfl, hruns, hrealizes, hunderway⟩ := Program.runs_interpret h
    exact ⟨events, done, rest, p, rfl, hruns, hrealizes, hunderway⟩
  rintro events ⟨done, rest, p, rfl, hruns, hrealizes, hunderway⟩
  obtain ⟨hsafe, hreturns⟩ := meets_receiveZmodem fuel receiverMonitor.start events p rfl hruns
  refine ⟨hsafe, fun file hfile => ?_, ?_, fun file hfile => endAnnounced_of_completed hfile,
    fun headers hheaders => ?_, done, rest, rfl, hrealizes, reads_of_underway hunderway⟩
  · obtain ⟨earlier, hearlier, hopen, hcompleted⟩ := holdsPayloads_of_safe hsafe
    rw [hearlier]
    rcases hfile with hfile | hfile
    · exact (hopen file hfile).append
    · exact (hcompleted file hfile).append
  · rintro before later useCrc32 maxPayload frame rfl
    obtain ⟨t₁, part, t₂, rfl, hbefore, hpart, -⟩ := Program.Realizes.split hrealizes
    exact ⟨t₁, part, t₂ ++ rest, by simp only [List.append_assoc], hbefore, readsChecked_of_runs hpart⟩
  · subst hheaders
    obtain ⟨-, rfl⟩ := hunderway.eq_done (onLine_ne_done fuel)
    exact (hreturns headers rfl).1.symm

/-- Surroundings in which nothing happens but reading and writing. -/
def idleSide : Surroundings UInt8 FileCall FileCall.Answer ModemTransferError Unit where
  late _ := none
  arrives _ bytes := bytes
  answer _ _ := .ok ()
  after _ _ := ()

/-- A peer announces attention bytes, of which there are none. -/
def attentionEvents : List ZEvent :=
  [⟨.writeHeader .zrInit zrinitFlags, .ok ()⟩,
    ⟨.readHeader, .ok { frameType := .zsInit, position := positionHeader 0, encoding := .bin32 }⟩,
    ⟨.readData true zmodemAttentionMaxBytes, .ok { payload := [], frameEnd := .endWithAck }⟩,
    ⟨.writeHeader .zAck (positionHeader 1), .ok ()⟩]

/-- The announcement of attention bytes, byte by byte. -/
theorem attention_happens : ∃ t q, Program.Runs ((receiveZmodem 2).interpret (onLine 2)) t q ∧
    Happened 2 t q attentionEvents := by
  have hquiet : QuietLine idleSide := ⟨fun _ => rfl, fun _ _ => rfl, fun _ => rfl, fun _ _ => rfl⟩
  have hheaderParses : Parses idleSide () (readZmodemHeader 2) _
      { frameType := .zsInit, position := positionHeader 0, encoding := .bin32 } :=
    parses_bin32Header hquiet .zsInit (positionHeader 0) true List.not_mem_nil
      (show ([] : Bytes).length < 2 by decide)
  have hdataParses : Parses idleSide () (readZmodemData 2 true zmodemAttentionMaxBytes) _
      { payload := [], frameEnd := .endWithAck } :=
    parses_readZmodemData hquiet true .endWithAck (by decide) (Nat.zero_le _)
  obtain ⟨header, hheader⟩ := hheaderParses.runs
  obtain ⟨data, hdata⟩ := hdataParses.runs
  have hevents : Program.Runs (receiveZmodem 2) attentionEvents
      (Program.loop (sessionRound 2) 1 []) :=
    .go _ (.go _ (.go _ (.go _ (.stay _))))
  have hrealizes : Program.Realizes (onLine 2) attentionEvents _ :=
    .cons (.go _ (.stay _)) (.cons hheader (.cons hdata (.cons (.go _ (.stay _)) .nil)))
  exact ⟨_, _, hevents.interpret hrealizes, _, [], _, (List.append_nil _).symm, hevents, hrealizes,
    .between _⟩

/-- The announcement of attention bytes is among the runs. -/
theorem zmodem_receiver_is_safe_attention : ∃ t q, Reception 2 t q attentionEvents := by
  obtain ⟨t, q, hruns, hhappened⟩ := attention_happens
  exact ⟨t, q, (zmodem_receiver_is_safe hruns).2 _ hhappened⟩

/-- The acknowledgement of attention bytes is no offset. -/
theorem attention_acknowledged_with_one :
    ¬ ∀ fuel t q events, Program.Runs ((receiveZmodem fuel).interpret (onLine fuel)) t q →
      Happened fuel t q events → ∀ before frameType position answer later,
      events = before ++ ⟨.writeHeader frameType position, answer⟩ :: later →
      frameType = .zRpos ∨ frameType = .zAck →
      position.value = (receiverMonitor.observe before).offset := by
  intro h
  obtain ⟨t, q, hruns, hhappened⟩ := attention_happens
  have hone := h 2 t q attentionEvents hruns hhappened (attentionEvents.take 3) .zAck
    (positionHeader 1) (.ok ()) [] rfl (.inr rfl)
  exact absurd hone (by decide)

end OxideTerm.Modem
