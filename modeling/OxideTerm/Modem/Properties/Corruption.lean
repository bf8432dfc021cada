import OxideTerm.Modem.Xymodem

/-!
# An XMODEM file on a line that damages packets

The sender and the receiver run side by side. The line may damage packets but leaves the single
bytes alone, and no packet becomes another one that passes its checks. The receiver keeps in step
with the sender as long as it can tell where packets start: a damaged marker makes it read the rest
of a packet as markers, and then whatever looks like the end of a file ends it.
-/

namespace OxideTerm.Modem

open OxideTerm.Lib

/-! ## The line -/

/-- What the line and the file of the receiver do, by the number of actions taken before. -/
structure Channel where
  /-- How a packet or a byte of the sender arrives. -/
  arrives : Nat → Bytes → Bytes
  /-- The reads of the sender that are given up. -/
  senderLate : Nat → Option ModemTransferError
  /-- The reads of the receiver that are given up. -/
  receiverLate : Nat → Option ModemTransferError
  /-- The writes to the file that fail. -/
  refuses : Nat → Option ModemTransferError

/-- What surrounds a receiver. -/
structure ReceiverHost where
  actions : Nat
  written : Bytes

namespace Channel

variable (channel : Channel)

def sender : Surroundings UInt8 Empty (fun _ => Unit) ModemTransferError Nat where
  late := channel.senderLate
  arrives := channel.arrives
  answer l := l.elim
  after _ actions := actions + 1

/-- The file after an action of the receiver. -/
def write (host : ReceiverHost) : Port UInt8 WriterCall → Bytes
  | .host (.writeAll bytes) =>
    if channel.refuses host.actions = none then host.written ++ bytes else host.written
  | _ => host.written

def receiver :
    Surroundings UInt8 WriterCall WriterCall.Answer ModemTransferError ReceiverHost where
  late host := channel.receiverLate host.actions
  arrives _ bytes := bytes
  answer _ host := match channel.refuses host.actions with
    | none => .ok ()
    | some error => .error error
  after action host := { actions := host.actions + 1, written := channel.write host action }

def network : Network UInt8 Empty WriterCall (fun _ => Unit) WriterCall.Answer ModemTransferError Nat
    ReceiverHost where
  left := channel.sender
  right := channel.receiver

/-- The line leaves the end of a file alone, keeps the length of a packet and makes no packet out of
another one. -/
structure Allowed (useCrc : Bool) : Prop where
  arrives_eot : ∀ n, channel.arrives n [eot] = [eot]
  length_arrives : ∀ n (block : XyBlock),
    (channel.arrives n (block.encode useCrc)).length = (block.encode useCrc).length
  parse_arrives : ∀ n (block other : XyBlock),
    XyBlock.parse useCrc (channel.arrives n (block.encode useCrc)) = .ok other → other = block

/-- The receiver can tell where packets start: no marker is damaged, and no read is given up. -/
structure KeepsMarkers (useCrc : Bool) : Prop where
  head_arrives : ∀ n (block : XyBlock),
    (channel.arrives n (block.encode useCrc)).head? = some block.size.marker
  receiverLate_eq : ∀ n, channel.receiverLate n = none

end Channel

/-- A file, filled up to whole blocks. -/
def paddedFile (size : XyBlockSize) (file : Bytes) : Bytes :=
  file ++ List.replicate ((size.len - file.length % size.len) % size.len) cpmeof

/-- `send_xymodem_blocks` and `finish_xymodem_send`, one after the other. -/
def sendFile {R : Type} [Read R] (fuel : Nat) (reader : R) (size : XyBlockSize) (useCrc : Bool) :
    ModemProgram Empty (fun _ => Unit) Nat := do
  let total ← sendXymodemBlocks fuel reader size useCrc
  finishXymodemSend
  return total

/-- A sender and a receiver at their starts. -/
def transferStart {R : Type} [Read R] (sendFuel receiveFuel : Nat) (reader : R) (size : XyBlockSize)
    (useCrc : Bool) : Network.Config UInt8 Empty WriterCall (fun _ => Unit) WriterCall.Answer
      ModemTransferError Nat ReceiverHost Nat Nat where
  left := { program := sendFile sendFuel reader size useCrc, state := 0, inbox := [] }
  right := { program := receiveXymodemBlocks receiveFuel useCrc none false
             state := { actions := 0, written := [] }
             inbox := [] }

/-- In every run, what a receiver that returns has written is the whole file. -/
def WritesWholeFile {R : Type} [Read R] (channel : Channel) (reader : R) (file : Bytes)
    (size : XyBlockSize) (useCrc : Bool) : Prop :=
  ∀ sendFuel receiveFuel c total,
    channel.network.Reaches (transferStart sendFuel receiveFuel reader size useCrc) c →
    c.right.program = .done (.ok total) →
      c.right.state.written = paddedFile size file ∧ total = (paddedFile size file).length

/-! ## Whole blocks -/

theorem paddedFile_nil (size : XyBlockSize) : paddedFile size [] = [] := by
  cases size <;> rfl

theorem paddedFile_cut (size : XyBlockSize) {rest : Bytes} (hrest : rest ≠ []) :
    paddedFile size rest =
      XyBlock.padded size (rest.take size.len) ++ paddedFile size (rest.drop size.len) := by
  have hpos : 0 < rest.length := List.length_pos_iff.mpr hrest
  by_cases hlast : rest.length ≤ size.len
  · have hmod : (size.len - rest.length % size.len) % size.len = size.len - rest.length := by
      rcases Nat.lt_or_eq_of_le hlast with hlt | heq
      · rw [Nat.mod_eq_of_lt hlt, Nat.mod_eq_of_lt (by omega)]
      · rw [heq, Nat.mod_self, Nat.sub_zero, Nat.mod_self, Nat.sub_self]
    rw [List.take_of_length_le hlast, List.drop_eq_nil_of_le hlast, paddedFile_nil,
      List.append_nil, paddedFile, hmod]
    rfl
  · have htake : (rest.take size.len).length = size.len := by
      rw [List.length_take]
      omega
    have hmod : (rest.drop size.len).length % size.len = rest.length % size.len := by
      rw [List.length_drop, ← Nat.mod_eq_sub_mod (by omega)]
    rw [XyBlock.padded_of_length htake, paddedFile, paddedFile, hmod, ← List.append_assoc,
      List.take_append_drop]

/-! ## The receiver reads a packet -/

section

variable {channel : Channel} {useCrc : Bool} {α : Type}

/-- What the receiver makes of a packet that arrives. -/
def received (useCrc : Bool) (packet : Bytes) : Except ModemTransferError XymodemPacket :=
  match XyBlock.parse useCrc packet with
  | .error error => .error (.protocol error)
  | .ok block => .ok (.block block)

theorem written_iterate (channel : Channel) :
    ∀ (n : Nat) (host : ReceiverHost),
      (Nat.iterate (channel.receiver.after .read) n host).written = host.written
  | 0, _ => rfl
  | n + 1, host => written_iterate channel n (channel.receiver.after .read host)

/-- A packet whose marker is intact is read to its end. -/
theorem goes_readXymodemPacket (hallowed : channel.Allowed useCrc)
    (hkeeps : channel.KeepsMarkers useCrc) (n : Nat) (block : XyBlock) (host : ReceiverHost) :
    ∃ host', host'.written = host.written ∧
      Goes channel.receiver (readXymodemPacket useCrc) host
        (channel.arrives n (block.encode useCrc)) []
        (.done (received useCrc (channel.arrives n (block.encode useCrc)))) host' := by
  have hlength := hallowed.length_arrives n block
  have hhead := hkeeps.head_arrives n block
  generalize channel.arrives n (block.encode useCrc) = packet at hlength hhead ⊢
  obtain ⟨rest, rfl⟩ := List.head?_eq_some_iff.mp hhead
  have hrest : 2 + block.size.len + (if useCrc then 2 else 1) = rest.length := by
    rw [XyBlock.encode_eq, List.length_append, List.length_append, XyBlock.length_check,
      block.length_payload, List.length_cons] at hlength
    simp only [XyBlock.head, List.length_cons, List.length_nil] at hlength
    omega
  have hmarker : block.size.marker ≠ eot ∧ block.size.marker ≠ can := by
    cases block.size <;> decide
  have hnever : ∀ host, channel.receiver.late host = none := fun host =>
    hkeeps.receiverLate_eq host.actions
  refine ⟨_, written_iterate channel rest.length (channel.receiver.after .read host), ?_⟩
  refine goes_readByte (hnever host) ?_
  rw [if_neg hmarker.1, if_neg hmarker.2, XyBlockSize.fromMarker_marker]
  refine goes_readBytes_all hnever hrest ?_
  unfold received
  cases XyBlock.parse useCrc (block.size.marker :: rest) with
  | error error => exact .stay _ _
  | ok block => exact .stay _ _

/-- What can come of a round in which the block arrives that is expected. -/
inductive Outcome (s : ReceiveState) (block : XyBlock) (before after : Bytes) :
    Except ModemTransferError (ReceiveState ⊕ Nat) → Bytes → Prop
  | accepted (hafter : after = before ++ block.payload) :
      Outcome s block before after (.ok (.inl
        { expected := s.expected + 1, total := s.total + block.payload.length, retries := 0 })) [ack]
  | again (hafter : after = before) :
      Outcome s block before after (.ok (.inl { s with retries := s.retries + 1 })) [nak]
  | failed (error : ModemTransferError) : Outcome s block before after (.error error) []

theorem length_payload_pos (block : XyBlock) : 0 < block.payload.length := by
  rw [block.length_payload]
  exact block.size.len_pos

theorem goes_receiveRound (hallowed : channel.Allowed useCrc)
    (hkeeps : channel.KeepsMarkers useCrc) (n : Nat) {s : ReceiveState} {block : XyBlock}
    (hnumber : block.number = s.expected) (host : ReceiverHost) :
    ∃ result host' sent,
      Goes channel.receiver (receiveRound useCrc none false s) host
        (channel.arrives n (block.encode useCrc)) sent (.done result) host' ∧
      Outcome s block host.written host'.written result sent := by
  obtain ⟨host₁, hwritten, hread⟩ := goes_readXymodemPacket hallowed hkeeps n block host
  have hparse := hallowed.parse_arrives n block
  unfold receiveRound
  unfold received at hread
  cases hpacket : XyBlock.parse useCrc (channel.arrives n (block.encode useCrc)) with
  | error error =>
    rw [hpacket] at hread
    by_cases hretries : s.retries < xymodemRetries
    · refine ⟨_, channel.receiver.after (.write [nak]) host₁, [nak] ++ [],
        Goes.bind_reading hread.attempt ?_, .again hwritten⟩
      simp only [reduceCtorEq, if_false, if_pos hretries]
      exact goes_writeAll (.stay _ _)
    · refine ⟨_, host₁, [], Goes.bind_reading hread.attempt ?_, .failed (.protocol error)⟩
      simp only [reduceCtorEq, if_false, if_neg hretries]
      exact .stay _ _
  | ok other =>
    obtain rfl : other = block := hparse other hpacket
    have hlength : writeLen none s.total other.payload = other.payload.length := rfl
    have hsome : 0 < writeLen none s.total other.payload := length_payload_pos other
    rw [hpacket] at hread
    cases hrefuses : channel.refuses host₁.actions with
    | some error =>
      refine ⟨_, channel.receiver.after (.host (.writeAll other.payload)) host₁, [],
        Goes.bind_reading hread.attempt ?_, .failed error⟩
      simp only [hnumber, if_true]
      rw [if_pos hsome, hlength, List.take_length]
      refine .host ?_
      simp only [Channel.receiver, hrefuses]
      exact .stay _ _
    | none =>
      refine ⟨_, channel.receiver.after (.write [ack])
        (channel.receiver.after (.host (.writeAll other.payload)) host₁), [ack] ++ [],
        Goes.bind_reading hread.attempt ?_, .accepted ?_⟩
      · have hanswer : channel.receiver.answer (.writeAll other.payload) host₁ = .ok () := by
          simp only [Channel.receiver, hrefuses]
        simp only [hnumber, if_true]
        rw [if_pos hsome, hlength, List.take_length]
        exact goes_onHost hanswer (goes_writeAll (.stay _ _))
      · simp only [Channel.receiver, Channel.write, hrefuses, if_true, hwritten]

theorem goes_receiveEot (hallowed : channel.Allowed useCrc) (hkeeps : channel.KeepsMarkers useCrc)
    (n : Nat) (s : ReceiveState) (host : ReceiverHost) :
    ∃ result host' sent,
      Goes channel.receiver (receiveRound useCrc none false s) host (channel.arrives n [eot]) sent
        (.done result) host' ∧ host'.written = host.written ∧
      (result = .ok (.inr s.total) ∧ sent = [ack] ∨ ∃ error, result = .error error ∧ sent = []) := by
  have hread : Goes channel.receiver (readXymodemPacket useCrc) host [eot] []
      (.done (.ok .endOfTransmission)) (channel.receiver.after .read host) :=
    goes_readByte (hkeeps.receiverLate_eq host.actions) (.stay _ _)
  rw [hallowed.arrives_eot]
  unfold receiveRound
  generalize hhost : channel.receiver.after .read host = host₁ at hread
  have hwritten : host₁.written = host.written := hhost ▸ rfl
  cases hrefuses : channel.refuses host₁.actions with
  | some error =>
    refine ⟨_, channel.receiver.after (.host .flush) host₁, [],
      Goes.bind_reading hread.attempt ?_, hwritten, .inr ⟨error, rfl, rfl⟩⟩
    refine .host ?_
    simp only [Channel.receiver, hrefuses]
    exact .stay _ _
  | none =>
    have hanswer : channel.receiver.answer .flush host₁ = .ok () := by
      simp only [Channel.receiver, hrefuses]
    refine ⟨_, channel.receiver.after (.write [ack]) (channel.receiver.after (.host .flush) host₁),
      [ack] ++ [], Goes.bind_reading hread.attempt ?_, hwritten, .inl ⟨rfl, rfl⟩⟩
    exact goes_onHost hanswer (goes_writeAll (.stay _ _))

/-! ## Both together -/

/-- A sender and a receiver that are connected. -/
abbrev TransferConfig := Network.Config UInt8 Empty WriterCall (fun _ => Unit) WriterCall.Answer
  ModemTransferError Nat ReceiverHost Nat Nat

/-- The transfer comes to an end where a receiver that returns has written the file. -/
def Ends (channel : Channel) (file : Bytes) (c : TransferConfig) : Prop :=
  ∃ final, channel.network.Reaches c final ∧ channel.network.Stuck final ∧
    ∀ total, final.right.program = .done (.ok total) →
      final.right.state.written = file ∧ total = file.length

variable {file : Bytes} {c d : TransferConfig}

theorem Ends.of_reaches (h : channel.network.Reaches c d) (hends : Ends channel file d) :
    Ends channel file c := by
  obtain ⟨final, hreaches, hstuck, hwhole⟩ := hends
  exact ⟨final, h.trans hreaches, hstuck, hwhole⟩

/-- Neither station can go on. -/
theorem stuck_of_none (hleft : c.left.step channel.network.left = none)
    (hright : c.right.step channel.network.right = none) : channel.network.Stuck c := by
  intro d hstep
  cases hstep with
  | left h => exact absurd (h.symm.trans hleft) (by simp)
  | right h => exact absurd (h.symm.trans hright) (by simp)

theorem ends_of_stuck (hleft : c.left.step channel.network.left = none)
    (hright : c.right.step channel.network.right = none)
    (hwhole : ∀ total, c.right.program = .done (.ok total) →
      c.right.state.written = file ∧ total = file.length) : Ends channel file c :=
  ⟨c, .refl c, stuck_of_none hleft hright, hwhole⟩

/-- The receiver before its next packet. -/
def receiverAt (useCrc : Bool) (fuel : Nat) (s : ReceiveState) (host : ReceiverHost) :
    Station UInt8 WriterCall WriterCall.Answer ModemTransferError ReceiverHost Nat where
  program := Program.loop (receiveRound useCrc none false) fuel s
  state := host
  inbox := []

/-- Without a packet the receiver waits, and has not returned. -/
theorem receiverAt_step (hkeeps : channel.KeepsMarkers useCrc) (fuel : Nat) (s : ReceiveState)
    (host : ReceiverHost) :
    (receiverAt useCrc fuel s host).step channel.network.right = none ∧
      ∀ total, (receiverAt useCrc fuel s host).program ≠ .done (.ok total) := by
  cases fuel with
  | zero => exact ⟨rfl, fun total h => by cases h⟩
  | succ fuel =>
    refine ⟨?_, fun total h => by cases h⟩
    have hlate : channel.network.right.late host = none := hkeeps.receiverLate_eq host.actions
    obtain ⟨next, hnext⟩ : ∃ next, Program.loop (receiveRound useCrc none false) (fuel + 1) s =
        .act .read next := ⟨_, rfl⟩
    simp only [receiverAt, Station.step, hnext, hlate]

/-- A sender that has failed. -/
theorem ends_failed (hkeeps : channel.KeepsMarkers useCrc) (error : ModemTransferError)
    (actions : Nat) (inbox : Bytes) (fuel : Nat) (s : ReceiveState) (host : ReceiverHost) :
    Ends channel file ⟨⟨.done (.error error), actions, inbox⟩, receiverAt useCrc fuel s host⟩ :=
  ends_of_stuck rfl (receiverAt_step hkeeps fuel s host).1 fun total h =>
    absurd h ((receiverAt_step hkeeps fuel s host).2 total)

/-- A sender that waits for a reply it will not get. -/
theorem ends_unanswered {f : UInt8 → ModemProgram Empty (fun _ => Unit) Nat} (actions : Nat)
    {right : Station UInt8 WriterCall WriterCall.Answer ModemTransferError ReceiverHost Nat}
    (hright : right.step channel.network.right = none)
    (hwhole : ∀ total, right.program = .done (.ok total) →
      right.state.written = file ∧ total = file.length) :
    Ends channel file ⟨⟨readByte.bind f, actions, []⟩, right⟩ := by
  cases hlate : channel.senderLate actions with
  | some error =>
    have hgoes : Goes channel.network.left (readByte.bind f) actions [] []
        (.done (.error error)) (actions + 1) := .late hlate (.stay _ _)
    refine .of_reaches (Network.reaches_left hgoes [] right) ?_
    rw [Station.deliver_nil]
    exact ends_of_stuck rfl hright hwhole
  | none =>
    refine ends_of_stuck ?_ hright hwhole
    have hleft : channel.network.left.late actions = none := hlate
    obtain ⟨next, hnext⟩ : ∃ next, readByte.bind f = .act .read next := ⟨_, rfl⟩
    simp only [Station.step, hnext, hleft]

/-- A sender that has a reply, which it reads unless it gives up. -/
theorem ends_answered {f : UInt8 → ModemProgram Empty (fun _ => Unit) Nat} {reply : UInt8}
    (actions : Nat)
    {right : Station UInt8 WriterCall WriterCall.Answer ModemTransferError ReceiverHost Nat}
    (hreply : ∀ actions, Ends channel file ⟨⟨f reply, actions, []⟩, right⟩)
    (hfailed : ∀ error actions inbox,
      Ends channel file ⟨⟨.done (.error error), actions, inbox⟩, right⟩) :
    Ends channel file ⟨⟨readByte.bind f, actions, [reply]⟩, right⟩ := by
  cases hlate : channel.senderLate actions with
  | some error =>
    have hgoes : Goes channel.network.left (readByte.bind f) actions [] []
        (.done (.error error)) (actions + 1) := .late hlate (.stay _ _)
    refine .of_reaches (Network.reaches_left hgoes [reply] right) ?_
    rw [Station.deliver_nil]
    exact hfailed error _ _
  | none =>
    have hgoes : Goes channel.network.left (readByte.bind f) actions [reply] [] (f reply)
        (actions + 1) := .read hlate (.stay _ _)
    refine .of_reaches (Network.reaches_left hgoes [] right) ?_
    rw [Station.deliver_nil]
    exact hreply _

/-- What is sent arrives, and the sender awaits the reply. -/
theorem reaches_awaitAck (bytes : Bytes) (again : List UInt8) (rounds : Nat)
    (f : Unit → ModemProgram Empty (fun _ => Unit) Nat) (actions : Nat)
    (right : Station UInt8 WriterCall WriterCall.Answer ModemTransferError ReceiverHost Nat) :
    channel.network.Reaches ⟨⟨(sendRounds bytes again (rounds + 1)).bind f, actions, []⟩, right⟩
      ⟨⟨(awaitAck again (sendRounds bytes again rounds)).bind f, actions + 1, []⟩,
        right.deliver (channel.arrives actions bytes)⟩ := by
  have hassoc : (sendRounds bytes again (rounds + 1)).bind f = (writeAll bytes).bind fun _ =>
      (awaitAck again (sendRounds bytes again rounds)).bind f := by
    rw [sendRounds, Program.bind_eq, Program.bind_assoc]
  have hgoes : Goes channel.network.left ((sendRounds bytes again (rounds + 1)).bind f) actions []
      (channel.arrives actions bytes ++ []) ((awaitAck again (sendRounds bytes again rounds)).bind f)
      (actions + 1) := by
    rw [hassoc]
    exact goes_writeAll (.stay _ _)
  rw [List.append_nil] at hgoes
  exact Network.reaches_left hgoes [] right

/-- The reply to what was sent, whatever it is. -/
def afterReply (again : List UInt8) (retry : ModemProgram Empty (fun _ => Unit) Unit)
    (f : Unit → ModemProgram Empty (fun _ => Unit) Nat) (reply : UInt8) :
    ModemProgram Empty (fun _ => Unit) Nat :=
  (if reply = ack then return ()
  else if reply ∈ again then retry
  else if reply = can then do
    let second ← readByte
    if second = can then Program.fail .cancelled else retry
  else Program.fail (.unexpectedByte reply)).bind f

theorem awaitAck_bind (again : List UInt8) (retry : ModemProgram Empty (fun _ => Unit) Unit)
    (f : Unit → ModemProgram Empty (fun _ => Unit) Nat) :
    (awaitAck again retry).bind f = readByte.bind (afterReply again retry f) :=
  Program.bind_assoc _ _ _

/-- The receiver takes what has arrived. -/
theorem reaches_received {s : ReceiveState} {host host' : ReceiverHost} {input sent : Bytes}
    {result : Except ModemTransferError (ReceiveState ⊕ Nat)} {fuel : Nat}
    (hgoes : Goes channel.receiver (receiveRound useCrc none false s) host input sent
      (.done result) host')
    (left : Station UInt8 Empty (fun _ => Unit) ModemTransferError Nat Nat) :
    channel.network.Reaches ⟨left, (receiverAt useCrc (fuel + 1) s host).deliver input⟩
      ⟨left.deliver sent, ⟨Program.afterRound (receiveRound useCrc none false) fuel result, host',
        []⟩⟩ := by
  have hround : Goes channel.network.right
      (Program.loop (receiveRound useCrc none false) (fuel + 1) s) host input sent
      (Program.afterRound (receiveRound useCrc none false) fuel result) host' := hgoes.loop_round
  have hreaches := Network.reaches_right hround [] left
  rw [List.append_nil] at hreaches
  exact hreaches

/-- A packet that is sent until it is acknowledged. -/
theorem ends_sendRounds (hallowed : channel.Allowed useCrc) (hkeeps : channel.KeepsMarkers useCrc)
    {block : XyBlock} {f : Unit → ModemProgram Empty (fun _ => Unit) Nat} :
    ∀ (rounds : Nat) (s : ReceiveState) (actions fuel : Nat) (host : ReceiverHost),
      block.number = s.expected →
      (∀ actions fuel host', host'.written = host.written ++ block.payload →
        Ends channel file ⟨⟨f (), actions, []⟩, receiverAt useCrc fuel
          { expected := s.expected + 1, total := s.total + block.payload.length, retries := 0 }
          host'⟩) →
      Ends channel file ⟨⟨(sendRounds (block.encode useCrc) [nak, wantCrc] rounds).bind f, actions,
        []⟩, receiverAt useCrc fuel s host⟩
  | 0, s, actions, fuel, host, hnumber, hnext => ends_failed hkeeps _ _ _ _ _ _
  | rounds + 1, s, actions, fuel, host, hnumber, hnext => by
    refine .of_reaches (reaches_awaitAck _ _ _ _ _ _) ?_
    rw [awaitAck_bind]
    cases fuel with
    | zero => exact ends_unanswered _ rfl fun total h => by cases h
    | succ fuel =>
      obtain ⟨result, host', sent, hgoes, houtcome⟩ :=
        goes_receiveRound hallowed hkeeps actions hnumber host
      refine .of_reaches (reaches_received hgoes _) ?_
      cases houtcome with
      | accepted hafter =>
        refine ends_answered _ (fun actions => ?_) fun error actions inbox =>
          ends_failed hkeeps error actions inbox fuel _ host'
        exact hnext actions fuel host' hafter
      | again hafter =>
        refine ends_answered _ (fun actions => ?_) fun error actions inbox =>
          ends_failed hkeeps error actions inbox fuel _ host'
        refine ends_sendRounds hallowed hkeeps rounds _ actions fuel host' hnumber ?_
        rw [hafter]
        exact hnext
      | failed error =>
        exact ends_unanswered _ rfl fun total h => by cases h

/-- The end of the file, when all of it is written. -/
theorem ends_finish (hallowed : channel.Allowed useCrc) (hkeeps : channel.KeepsMarkers useCrc)
    (sent : Nat) {s : ReceiveState} {host : ReceiverHost} (hwritten : host.written = file)
    (htotal : s.total = file.length) :
    ∀ (rounds actions fuel : Nat), Ends channel file
      ⟨⟨(sendRounds [eot] [nak] rounds).bind fun _ => .done (.ok sent), actions, []⟩,
        receiverAt useCrc fuel s host⟩
  | 0, actions, fuel => ends_failed hkeeps _ _ _ _ _ _
  | rounds + 1, actions, fuel => by
    refine .of_reaches (reaches_awaitAck _ _ _ _ _ _) ?_
    rw [awaitAck_bind]
    cases fuel with
    | zero => exact ends_unanswered _ rfl fun total h => by cases h
    | succ fuel =>
      obtain ⟨result, host', reply, hgoes, hsame, hresult⟩ :=
        goes_receiveEot hallowed hkeeps actions s host
      refine .of_reaches (reaches_received hgoes _) ?_
      rcases hresult with ⟨rfl, rfl⟩ | ⟨error, rfl, rfl⟩
      · have hwhole : ∀ total, Program.afterRound (receiveRound useCrc none false) fuel
            (.ok (.inr s.total)) = .done (.ok total) →
            host'.written = file ∧ total = file.length := by
          intro total h
          obtain rfl : s.total = total := Except.ok.inj (Program.done.inj h)
          exact ⟨hsame.trans hwritten, htotal⟩
        refine ends_answered _ (fun actions => ?_) fun error actions inbox => ?_
        · exact ends_of_stuck rfl rfl hwhole
        · exact ends_of_stuck rfl rfl hwhole
      · exact ends_unanswered _ rfl fun total h => by cases h

/-- A full payload makes a block. -/
theorem sendXymodemBlock_eq (number : UInt8) {size : XyBlockSize} {payload : Bytes}
    (hpayload : payload.length = size.len) :
    (sendXymodemBlock number size payload useCrc : ModemProgram Empty (fun _ => Unit) Unit) =
      sendRounds (XyBlock.encode ⟨number, size, payload, hpayload⟩ useCrc) [nak, wantCrc]
        xymodemRetries := by
  have hnew : XyBlock.new number size payload = .ok ⟨number, size, payload, hpayload⟩ := by
    unfold XyBlock.new
    rw [dif_pos (Nat.le_of_eq hpayload)]
    simp only [XyBlock.padded_of_length hpayload]
  rw [sendXymodemBlock, hnew]

variable {R : Type} [Read R]

/-- A round of the sender that has something to send. -/
theorem sendRound_bind {size : XyBlockSize} {sending : SendState R} {bytes : Bytes} {reader' : R}
    (hread : readPadded sending.reader size.len = .ok (bytes, reader')) (hbytes : bytes ≠ [])
    (hlength : bytes.length ≤ size.len) (fuel : Nat)
    (f : Nat → ModemProgram Empty (fun _ => Unit) Nat) :
    (Program.loop (sendRound size useCrc) (fuel + 1) sending).bind f =
      (sendRounds (XyBlock.encode
        ⟨sending.number, size, XyBlock.padded size bytes, XyBlock.length_padded hlength⟩ useCrc)
        [nak, wantCrc] xymodemRetries).bind fun _ =>
          (Program.loop (sendRound size useCrc) fuel
            { number := sending.number + 1, total := sending.total + bytes.length,
              reader := reader' }).bind f := by
  have hround : sendRound size useCrc sending =
      ((sendXymodemBlock sending.number size (XyBlock.padded size bytes) useCrc).bind fun _ =>
        .done (.ok (.inl { number := sending.number + 1, total := sending.total + bytes.length,
                           reader := reader' })) : ModemProgram Empty (fun _ => Unit) _) := by
    rw [sendRound, hread]
    simp only [if_neg hbytes]
    rfl
  rw [Program.loop_succ, hround, sendXymodemBlock_eq _ (XyBlock.length_padded hlength),
    Program.bind_assoc, Program.bind_assoc]
  rfl

/-- The rest of the file, when all before it is written. -/
theorem ends_sendBlocks (hallowed : channel.Allowed useCrc) (hkeeps : channel.KeepsMarkers useCrc)
    {contents : Bytes} {stands : R → Nat → Prop} (hreads : Reads contents stands)
    (size : XyBlockSize) :
    ∀ (sendFuel : Nat) (sending : SendState R) (s : ReceiveState) (position actions fuel : Nat)
      (host : ReceiverHost), stands sending.reader position → sending.number = s.expected →
      s.total = host.written.length →
      host.written ++ paddedFile size (contents.drop position) = paddedFile size contents →
      Ends channel (paddedFile size contents)
        ⟨⟨(Program.loop (sendRound size useCrc) sendFuel sending).bind fun total =>
            (finishXymodemSend).bind fun _ => .done (.ok total), actions, []⟩,
          receiverAt useCrc fuel s host⟩
  | 0, sending, s, position, actions, fuel, host, hstands, hnumber, htotal, hwritten =>
    ends_of_stuck rfl (receiverAt_step hkeeps fuel s host).1 fun total h =>
      absurd h ((receiverAt_step hkeeps fuel s host).2 total)
  | sendFuel + 1, sending, s, position, actions, fuel, host, hstands, hnumber, htotal, hwritten => by
    obtain ⟨reader', hread, hstands'⟩ := readPadded_eq hreads size.len hstands
    by_cases hend : contents.drop position = []
    · have hround : sendRound size useCrc sending =
          (.done (.ok (.inr sending.total)) : ModemProgram Empty (fun _ => Unit) _) := by
        rw [sendRound, hread]
        simp only [hend, List.take_nil, if_true]
        rfl
      rw [hend, paddedFile_nil, List.append_nil] at hwritten
      rw [Program.loop_succ, hround]
      exact ends_finish hallowed hkeeps _ hwritten (htotal.trans (congrArg _ hwritten)) _ _ _
    · have hbytes : (contents.drop position).take size.len ≠ [] := by
        rw [ne_eq, List.take_eq_nil_iff, not_or]
        exact ⟨Nat.pos_iff_ne_zero.mp size.len_pos, hend⟩
      have hlength : ((contents.drop position).take size.len).length ≤ size.len :=
        List.length_take_le _ _
      rw [sendRound_bind hread hbytes hlength]
      refine ends_sendRounds hallowed hkeeps _ _ _ _ _ hnumber fun actions fuel host' hafter => ?_
      have hlater : contents.drop (position + ((contents.drop position).take size.len).length) =
          (contents.drop position).drop size.len := by
        rw [← List.drop_drop, List.length_take]
        rcases Nat.le_total size.len (contents.drop position).length with hle | hle
        · rw [Nat.min_eq_left hle]
        · rw [Nat.min_eq_right hle, List.drop_length, List.drop_eq_nil_of_le hle]
      refine ends_sendBlocks hallowed hkeeps hreads size sendFuel _ _ _ actions fuel host' hstands'
        ?_ ?_ ?_
      · rw [hnumber]
      · rw [hafter, List.length_append, htotal]
      · rw [hafter, hlater, List.append_assoc, ← paddedFile_cut size hend]
        exact hwritten

end

/--
**A receiver that returns has written the whole file, as long as it can tell where packets start.**

However many packets are damaged behind their markers, and whenever the sender gives up, sender and
receiver stay in step: each packet has one reply, and so an acknowledgement is one of the block that
was sent last.
-/
theorem intact_markers_write_whole_file {R : Type} [Read R] {channel : Channel} {useCrc : Bool}
    {reader : R} {file : Bytes} {stands : R → Nat → Prop} (size : XyBlockSize)
    (hallowed : channel.Allowed useCrc) (hkeeps : channel.KeepsMarkers useCrc)
    (hreads : Reads file stands) (hstart : stands reader 0) :
    WritesWholeFile channel reader file size useCrc := by
  intro sendFuel receiveFuel c total hreaches hdone
  have hends : Ends channel (paddedFile size file)
      (transferStart sendFuel receiveFuel reader size useCrc) :=
    ends_sendBlocks hallowed hkeeps hreads size sendFuel _ _ 0 0 receiveFuel _ hstart rfl rfl rfl
  obtain ⟨final, hfinal, hstuck, hwhole⟩ := hends
  have hend := (hfinal.to_end hstuck hreaches).right_done hdone
  have hresult := hwhole total hend.1
  rwa [hend.2] at hresult

/-- A line that leaves everything as it is. -/
def quietChannel : Channel where
  arrives _ bytes := bytes
  senderLate _ := none
  receiverLate _ := none
  refuses _ := none

/-- A file on a line that leaves everything as it is. -/
theorem intact_markers_write_whole_file_quiet :
    WritesWholeFile quietChannel ({ contents := [0x61], position := 0 } : Cursor) [0x61] .bytes128
      true :=
  intact_markers_write_whole_file .bytes128
    ⟨fun _ => rfl, fun _ _ => rfl, fun _ block other h => by
      rw [quietChannel, XyBlock.parse_encode] at h
      exact (Except.ok.inj h).symm⟩
    ⟨fun _ block => rfl, fun _ => rfl⟩ (Cursor.seeks [0x61]).toReads ⟨rfl, rfl⟩

/-- A line that damages every marker into the end of a file. -/
def falseEnd : Channel where
  arrives _ bytes := match bytes with
    | _ :: second :: rest => eot :: second :: rest
    | single => single
  senderLate _ := none
  receiverLate _ := none
  refuses _ := none

/-- A file of one byte. -/
def oneByte : Cursor := { contents := [0x61], position := 0 }

/-- The only block of a file of one byte. -/
def onlyBlock : XyBlock where
  number := 1
  size := .bytes128
  payload := XyBlock.padded .bytes128 [0x61]
  length_payload := XyBlock.length_padded (by decide)

/-- A damaged marker ends the file before its first byte. -/
theorem damaged_marker_truncates :
    falseEnd.Allowed true ∧ ¬ WritesWholeFile falseEnd oneByte [0x61] .bytes128 true := by
  refine ⟨⟨fun _ => rfl, fun _ _ => rfl, fun _ block other h => by cases h⟩, fun hwhole => ?_⟩
  have hread : ∃ reader', readPadded oneByte XyBlockSize.bytes128.len = .ok ([0x61], reader') := by
    obtain ⟨reader', hread, -⟩ := readPadded_eq (Cursor.seeks [0x61]).toReads
      XyBlockSize.bytes128.len (⟨rfl, rfl⟩ : oneByte.contents = [0x61] ∧ oneByte.position = 0)
    rw [List.take_of_length_le (by decide)] at hread
    exact ⟨reader', hread⟩
  have hrun : ∃ c, falseEnd.network.Reaches (transferStart 1 1 oneByte .bytes128 true) c ∧
      c.right.program = .done (.ok 0) ∧ c.right.state.written = [] := by
    obtain ⟨reader', hread⟩ := hread
    obtain ⟨f, hstart⟩ : ∃ f, sendFile 1 oneByte .bytes128 true =
        (sendRounds (onlyBlock.encode true) [nak, wantCrc] (9 + 1)).bind f :=
      ⟨_, sendRound_bind hread (by decide) (by decide) 0 _⟩
    rw [transferStart, hstart]
    exact ⟨_, (reaches_awaitAck (onlyBlock.encode true) [nak, wantCrc] 9 f 0 _).trans
      (.head (.right rfl) (.head (.right rfl) (.head (.right rfl) (.refl _)))), rfl, rfl⟩
  obtain ⟨c, hreaches, hdone, -⟩ := hrun
  have hfile := (hwhole 1 1 c 0 hreaches hdone).2
  rw [paddedFile, List.length_append, List.length_singleton] at hfile
  omega

end OxideTerm.Modem
