import OxideTerm.Sftp.Scp

/-!
# Streams of SCP messages

How a stream of bytes is cut into messages does not matter: what is read depends on the bytes alone,
and so does everything that is done with it.
-/

namespace OxideTerm.Sftp.Scp

open OxideTerm.Lib OxideTerm.Lib.Text OxideTerm.Lib.Fallible ScpProgram

/-! ## States in which all has come -/

/-- The bytes of the messages up to the end. -/
def dataOf : List ChannelMsg → Bytes
  | [] => []
  | .close :: _ => []
  | .data data :: rest => data ++ dataOf rest
  | .extendedData _ _ :: rest => dataOf rest
  | .exitStatus _ :: rest => dataOf rest
  | .eof :: rest => dataOf rest
  | .other :: rest => dataOf rest

/-- What is still to be read. -/
def unread (s : ScpState) : Bytes := s.buffered ++ dataOf s.pending

/-- The state when all messages have come. -/
def settled (s : ScpState) : ScpState :=
  { s with
    pending := []
    buffered := unread s
    stderr := (drained s.pending (s.stderr, s.exitStatus)).1
    exitStatus := (drained s.pending (s.stderr, s.exitStatus)).2 }

/-- How a procedure ends when the channel does. -/
def closedStop : Stop :=
  .failed (.protocolError "Remote SCP closed the channel before completing the protocol")

/-- The state at the end of the channel. -/
def shut (s : ScpState) : ScpState := { s with closed := true }

/-- The state with other bytes to read. -/
def keep (s : ScpState) (buffered : Bytes) : ScpState := { s with buffered := buffered }

/-- A message leaves what is read in the end, until the end comes. -/
theorem receiveMessage_cases (s : ScpState) :
    (∃ s', receiveMessage s = (.ok (), s') ∧ settled s' = settled s ∧
        s'.pending.length < s.pending.length) ∨
      ∃ s', receiveMessage s = (.error closedStop, s') ∧ dataOf s.pending = [] ∧
        s'.buffered = s.buffered ∧ settled s' = shut (settled s) := by
  obtain ⟨pending, buffered, stderr, exitStatus, closed, sent, bytes, items, files, faults⟩ := s
  cases pending with
  | nil => exact .inr ⟨_, rfl, rfl, rfl, rfl⟩
  | cons message rest =>
    have hshorter : rest.length < (message :: rest).length := Nat.lt_succ_self rest.length
    cases message with
    | close => exact .inr ⟨_, rfl, rfl, rfl, rfl⟩
    | data data =>
      refine .inl ⟨_, rfl, ?_, hshorter⟩
      rw [settled, settled, unread, unread, dataOf, List.append_assoc]
      rfl
    | extendedData data ext => exact .inl ⟨_, rfl, rfl, hshorter⟩
    | exitStatus exitStatus => exact .inl ⟨_, rfl, rfl, hshorter⟩
    | eof => exact .inl ⟨_, rfl, rfl, hshorter⟩
    | other => exact .inl ⟨_, rfl, rfl, hshorter⟩

/-! ## What is read -/

/-- In the end the procedure does what `f` does with all bytes at once. -/
def Settles {α : Type} (x f : ScpProgram α) : Prop :=
  ∀ s, (x s).1 = (f (settled s)).1 ∧ settled (x s).2 = (f (settled s)).2

theorem ensureBufferedFrom_cases : ∀ (fuel : Nat) (s : ScpState), s.pending.length < fuel →
    (∃ s', ensureBufferedFrom fuel s = (.ok (), s') ∧ settled s' = settled s ∧ s'.buffered ≠ []) ∨
      unread s = [] ∧ ∃ s', ensureBufferedFrom fuel s = (.error closedStop, s') ∧
        settled s' = shut (settled s)
  | 0, _, hfuel => absurd hfuel (Nat.not_lt_zero _)
  | fuel + 1, s, hfuel => by
    rw [ensureBufferedFrom, bind_of_ok (show gets _ s = (.ok s.buffered, s) from rfl)]
    by_cases hbuffered : s.buffered ≠ []
    · rw [if_pos hbuffered]
      exact .inl ⟨s, rfl, rfl, hbuffered⟩
    · rw [if_neg hbuffered]
      rcases receiveMessage_cases s with ⟨s', hrun, hsettled, hlt⟩ | ⟨s', hrun, hdata, hsame, hsettled⟩
      · rw [bind_of_ok hrun, ← hsettled]
        have hunread : unread s = unread s' := congrArg ScpState.buffered hsettled.symm
        rw [hunread]
        exact ensureBufferedFrom_cases fuel s' (by omega)
      · rw [bind_of_error hrun]
        refine .inr ⟨?_, s', rfl, hsettled⟩
        rw [unread, not_not.mp hbuffered, hdata]
        rfl

theorem ensureBuffered_cases (s : ScpState) :
    (∃ s', ensureBuffered s = (.ok (), s') ∧ settled s' = settled s ∧ s'.buffered ≠ []) ∨
      unread s = [] ∧ ∃ s', ensureBuffered s = (.error closedStop, s') ∧
        settled s' = shut (settled s) := by
  rw [ensureBuffered, bind_of_ok (show gets _ s = (.ok s.pending, s) from rfl)]
  exact ensureBufferedFrom_cases _ s (Nat.lt_succ_self _)

/-- The next byte, when all have come. -/
def byteOf : ScpProgram UInt8 := fun s =>
  if s.buffered = [] then (.error closedStop, shut s)
  else (.ok (s.buffered.headD 0), keep s s.buffered.tail)

theorem settles_readByte : Settles readByte byteOf := by
  intro s
  rw [readByte]
  rcases ensureBuffered_cases s with ⟨s', hrun, hsettled, hne⟩ | ⟨hunread, s', hrun, hsettled⟩
  · rw [bind_of_ok hrun, ← hsettled]
    obtain ⟨byte, rest, hbuffered⟩ := List.exists_cons_of_ne_nil hne
    have hunread : (settled s').buffered = byte :: (rest ++ dataOf s'.pending) := by
      show s'.buffered ++ dataOf s'.pending = _
      rw [hbuffered]
      rfl
    rw [byteOf, if_neg (by rw [hunread]; exact List.cons_ne_nil _ _), hunread]
    dsimp only [access]
    rw [hbuffered]
    exact ⟨rfl, rfl⟩
  · rw [bind_of_error hrun, byteOf, if_pos (show (settled s).buffered = [] from hunread)]
    exact ⟨rfl, hsettled⟩

/-- What a line of a control record is, if it is text. -/
def decodedLine (line : Bytes) : Except ScpError (Option (List Char)) :=
  match ofUtf8 line with
  | some text => .ok (some text)
  | none => .error (.protocolError "SCP control line is not valid UTF-8")

def lineTooLong : ScpError := .protocolError "SCP control line exceeds the safety limit"

theorem takeControlLine_of_notMem {buffer : Bytes} (h : 10 ∉ buffer) :
    takeControlLine buffer =
      if maxControlLineBytes < buffer.length then (.error lineTooLong, buffer)
      else (.ok none, buffer) := by
  rw [takeControlLine, List.idxOf?_eq_none_iff.mpr h]
  rfl

theorem takeControlLine_line {line : Bytes} (h : 10 ∉ line) (rest : Bytes) :
    takeControlLine (line ++ 10 :: rest) =
      if maxControlLineBytes < line.length then (.error lineTooLong, line ++ 10 :: rest)
      else (decodedLine line, rest) := by
  have hindex : (line ++ 10 :: rest).idxOf? 10 = some line.length := by
    refine List.idxOf?_eq_some_iff.mpr ⟨by simp, by simp, fun j hj hten => h ?_⟩
    rw [List.getElem_append_left hj] at hten
    exact hten ▸ List.getElem_mem hj
  rw [takeControlLine, hindex]
  dsimp only
  split
  · rfl
  · rw [List.take_left, ← List.drop_drop, List.drop_left, decodedLine]
    cases ofUtf8 line with
    | none => rfl
    | some text => rfl

/-- Bytes have an end of a line, or not. -/
theorem exists_line (buffer : Bytes) :
    10 ∉ buffer ∨ ∃ line rest, 10 ∉ line ∧ buffer = line ++ 10 :: rest := by
  by_cases h : 10 ∈ buffer
  · obtain ⟨line, rest, hsplit, hfirst⟩ := List.eq_append_cons_of_mem h
    exact .inr ⟨line, rest, hfirst, hsplit⟩
  · exact .inl h

/-- What is taken out of a buffer is taken out of a longer one. -/
theorem takeControlLine_append {buffer : Bytes} (more : Bytes)
    (h : (takeControlLine buffer).1 ≠ .ok none) :
    takeControlLine (buffer ++ more) =
      ((takeControlLine buffer).1, (takeControlLine buffer).2 ++ more) := by
  rcases exists_line buffer with hmem | ⟨line, rest, hline, rfl⟩
  · rw [takeControlLine_of_notMem hmem] at h ⊢
    split at h
    next hlong =>
      rw [if_pos hlong]
      rcases exists_line more with hmore | ⟨line, rest, hline, rfl⟩
      · have hnot : 10 ∉ buffer ++ more := by
          rw [List.mem_append, not_or]
          exact ⟨hmem, hmore⟩
        rw [takeControlLine_of_notMem hnot, if_pos (by rw [List.length_append]; omega)]
      · have hnot : 10 ∉ buffer ++ line := by
          rw [List.mem_append, not_or]
          exact ⟨hmem, hline⟩
        rw [← List.append_assoc, takeControlLine_line hnot,
          if_pos (by rw [List.length_append]; omega)]
    next => exact absurd rfl h
  · rw [List.append_assoc, List.cons_append, takeControlLine_line hline, takeControlLine_line hline]
    split
    · rw [List.append_assoc, List.cons_append]
    · rfl

theorem takeControlLine_none {buffer : Bytes} (h : (takeControlLine buffer).1 = .ok none) :
    (takeControlLine buffer).2 = buffer := by
  rcases exists_line buffer with hmem | ⟨line, rest, hline, rfl⟩
  · rw [takeControlLine_of_notMem hmem]
    split <;> rfl
  · rw [takeControlLine_line hline] at h
    split at h
    · cases h
    · rw [decodedLine] at h
      split at h <;> cases h

/-- The next line, when all bytes have come. -/
def lineOf : ScpProgram (List Char) := fun s =>
  match (takeControlLine s.buffered).1 with
  | .ok (some line) => (.ok line, keep s (takeControlLine s.buffered).2)
  | .ok none => (.error closedStop, shut s)
  | .error error => (.error (.failed error), keep s (takeControlLine s.buffered).2)

theorem settles_readLineFrom : ∀ (fuel : Nat) (s : ScpState), s.pending.length < fuel →
    (readLineFrom fuel s).1 = (lineOf (settled s)).1 ∧
      settled (readLineFrom fuel s).2 = (lineOf (settled s)).2
  | 0, _, hfuel => absurd hfuel (Nat.not_lt_zero _)
  | fuel + 1, s, hfuel => by
    rw [readLineFrom, bind_of_ok (show access _ s = (.ok (takeControlLine s.buffered).1,
      { s with buffered := (takeControlLine s.buffered).2 }) from rfl)]
    have hmore := @takeControlLine_append s.buffered (dataOf s.pending)
    have hbuffered : (settled s).buffered = s.buffered ++ dataOf s.pending := rfl
    cases htaken : (takeControlLine s.buffered).1 with
    | error error =>
      rw [htaken] at hmore
      rw [lineOf, hbuffered, hmore (by simp)]
      exact ⟨rfl, rfl⟩
    | ok line =>
      cases line with
      | some line =>
        rw [htaken] at hmore
        rw [lineOf, hbuffered, hmore (by simp)]
        exact ⟨rfl, rfl⟩
      | none =>
        have hsame : { s with buffered := (takeControlLine s.buffered).2 } = s := by
          rw [takeControlLine_none htaken]
        rw [hsame]
        rw [bind_of_ok (show check (.ok none) s = (.ok none, s) from rfl)]
        dsimp only
        rcases receiveMessage_cases s with ⟨s', hrun, hsettled, hlt⟩ | ⟨s', hrun, hdata, -, hsettled⟩
        · rw [bind_of_ok hrun, ← hsettled]
          exact settles_readLineFrom fuel s' (by omega)
        · rw [bind_of_error hrun, lineOf, hbuffered, hdata, List.append_nil, htaken]
          exact ⟨rfl, hsettled⟩

theorem settles_readLine : Settles readLine lineOf := by
  intro s
  rw [readLine, bind_of_ok (show gets _ s = (.ok s.pending, s) from rfl)]
  exact settles_readLineFrom _ s (Nat.lt_succ_self _)

/-! ## What is copied -/

theorem modify_append (files : FiniteMap Path LocalNode) (path : Path) (a b : Bytes) :
    (files.modify path (LocalNode.append a)).modify path (LocalNode.append b) =
      files.modify path (LocalNode.append (a ++ b)) := by
  refine FiniteMap.ext fun p => ?_
  rw [FiniteMap.get_modify, FiniteMap.get_modify, FiniteMap.get_modify]
  by_cases hp : p = path
  · rw [if_pos hp, if_pos hp, if_pos hp, Option.map_map]
    congr 1
    funext node
    cases node with
    | directory => rfl
    | file content => exact congrArg LocalNode.file (List.append_assoc content a b)
  · rw [if_neg hp, if_neg hp, if_neg hp]

theorem modify_append_nil (files : FiniteMap Path LocalNode) (path : Path) :
    files.modify path (LocalNode.append []) = files := by
  refine FiniteMap.ext fun p => ?_
  rw [FiniteMap.get_modify]
  split
  · cases files.get p with
    | none => rfl
    | some node =>
      cases node with
      | directory => rfl
      | file content => exact congrArg (fun c => some (LocalNode.file c)) (List.append_nil content)
  · rfl

/-- The state after so many bytes went to a file. -/
def copied (s : ScpState) (path : Path) (size : Nat) : ScpState :=
  { s with
    buffered := s.buffered.drop size
    files := s.files.modify path (LocalNode.append (s.buffered.take size)) }

theorem copied_zero (s : ScpState) (path : Path) : copied s path 0 = s := by
  rw [copied, List.take_zero, modify_append_nil]
  rfl

theorem copied_copied (s : ScpState) (path : Path) (m n : Nat) :
    copied (copied s path m) path n = copied s path (m + n) := by
  rw [copied, copied, copied]
  dsimp only
  rw [modify_append, List.drop_drop, List.take_add]

/-- What is copied when all bytes have come. -/
def copyOf (path : Path) (size : Nat) : ScpProgram Unit := fun s =>
  if size ≤ s.buffered.length then (.ok (), copied s path size)
  else (.error closedStop, shut (copied s path size))

theorem outside_of_nil {s : ScpState} (h : s.faults = []) : outside s = (.ok (), s) := by
  rw [outside, h]

theorem writeAll_of_nil {s : ScpState} (h : s.faults = []) (path : Path) (data : Bytes) :
    writeAll path data s =
      (.ok (), { s with files := s.files.modify path (LocalNode.append data) }) := by
  rw [writeAll, bind_of_ok (outside_of_nil h)]
  rfl

/-- A round of the loop. -/
theorem copyExactFrom_round {path : Path} {fuel size : Nat} {s s' : ScpState} (hfaults : s.faults = [])
    (hfaults' : s'.faults = []) (hrun : ensureBuffered s = (.ok (), s')) :
    copyExactFrom path (fuel + 1) (size + 1) s =
      copyExactFrom path fuel (size + 1 - (s'.buffered.take (size + 1)).length)
        (copied s' path (size + 1)) := by
  rw [copyExactFrom, checkControl, bind_of_ok (outside_of_nil hfaults), bind_of_ok hrun,
    bind_of_ok (show access _ s' = (.ok (s'.buffered.take (size + 1)),
      { s' with buffered := s'.buffered.drop (size + 1) }) from rfl),
    bind_of_ok (writeAll_of_nil (s := { s' with buffered := s'.buffered.drop (size + 1) }) hfaults' path
      (s'.buffered.take (size + 1)))]
  rfl

theorem settled_copied (s : ScpState) (path : Path) (size : Nat) :
    settled (copied s path size) = copied (settled s) path (s.buffered.take size).length := by
  have htake : (s.buffered ++ dataOf s.pending).take (s.buffered.take size).length =
      s.buffered.take size := by
    rw [List.take_append_of_le_length (List.length_take_le' size s.buffered), List.length_take,
      ← List.take_eq_take_min]
  have hdrop : (s.buffered ++ dataOf s.pending).drop (s.buffered.take size).length =
      s.buffered.drop size ++ dataOf s.pending := by
    rw [List.drop_append_of_le_length (List.length_take_le' size s.buffered), List.length_take,
      ← List.drop_eq_drop_min]
  have hcopied : ∀ n, copied (settled s) path n =
      { settled s with
        buffered := (s.buffered ++ dataOf s.pending).drop n
        files := s.files.modify path (LocalNode.append ((s.buffered ++ dataOf s.pending).take n)) } :=
    fun _ => rfl
  rw [hcopied, htake, hdrop]
  rfl

theorem settles_copyExactFrom (path : Path) : ∀ (fuel size : Nat) (s : ScpState), size ≤ fuel →
    s.faults = [] →
      (copyExactFrom path fuel size s).1 = (copyOf path size (settled s)).1 ∧
        settled (copyExactFrom path fuel size s).2 = (copyOf path size (settled s)).2
  | fuel, 0, s, _, _ => by
    rw [copyOf, if_pos (Nat.zero_le _), copied_zero, copyExactFrom]
    exact ⟨rfl, rfl⟩
  | 0, size + 1, _, hfuel, _ => absurd hfuel (Nat.not_succ_le_zero size)
  | fuel + 1, size + 1, s, hfuel, hfaults => by
    rcases ensureBuffered_cases s with ⟨s', hrun, hsettled, hne⟩ | ⟨hunread, s', hrun, hsettled⟩
    · have hfaults' : s'.faults = [] := (congrArg ScpState.faults hsettled).trans hfaults
      have hpos : 0 < s'.buffered.length := List.length_pos_iff.mpr hne
      have hlength := List.length_take (i := size + 1) (l := s'.buffered)
      rw [copyExactFrom_round hfaults hfaults' hrun, ← hsettled]
      obtain ⟨hresult, hstate⟩ := settles_copyExactFrom path fuel
        (size + 1 - (s'.buffered.take (size + 1)).length) (copied s' path (size + 1)) (by omega) hfaults'
      rw [hresult, hstate, settled_copied, copyOf, copyOf, copied_copied]
      have hsum : (s'.buffered.take (size + 1)).length +
          (size + 1 - (s'.buffered.take (size + 1)).length) = size + 1 := by omega
      have hrest : (copied (settled s') path (s'.buffered.take (size + 1)).length).buffered.length =
          (settled s').buffered.length - (s'.buffered.take (size + 1)).length := List.length_drop
      have hmore : s'.buffered.length ≤ (settled s').buffered.length := by
        show _ ≤ (s'.buffered ++ dataOf s'.pending).length
        rw [List.length_append]
        omega
      rw [hsum, hrest]
      by_cases henough : size + 1 ≤ (settled s').buffered.length
      · rw [if_pos henough, if_pos (by omega)]
        exact ⟨rfl, rfl⟩
      · rw [if_neg henough, if_neg (by omega)]
        exact ⟨rfl, rfl⟩
    · have hempty : (settled s).buffered = [] := hunread
      have hnothing : copied (settled s) path (size + 1) = settled s := by
        rw [copied, hempty, List.take_nil, modify_append_nil, List.drop_nil, ← hempty]
      rw [copyExactFrom, checkControl, bind_of_ok (outside_of_nil hfaults), bind_of_error hrun, copyOf,
        if_neg (by rw [hempty]; exact Nat.not_succ_le_zero size), hnothing]
      exact ⟨rfl, hsettled⟩

/-! ## States that differ in their messages only -/

/-- The same comes in the end, and nothing outside fails. -/
def Alike (s t : ScpState) : Prop := settled s = settled t ∧ s.faults = [] ∧ t.faults = []

section Respects

variable {α : Type}

theorem respects_of_settles {x f : ScpProgram α}
    (hx : ∀ s, s.faults = [] → (x s).1 = (f (settled s)).1 ∧ settled (x s).2 = (f (settled s)).2)
    (hf : ∀ s, (f s).2.faults = s.faults) : Respects Alike x := by
  rintro s t ⟨hsettled, hs, ht⟩
  obtain ⟨hresult, hstate⟩ := hx s hs
  obtain ⟨hresult', hstate'⟩ := hx t ht
  have hfaults : ∀ u : ScpState, u.faults = [] → (x u).2.faults = [] := by
    intro u hu
    calc (x u).2.faults = (settled (x u).2).faults := rfl
      _ = (f (settled u)).2.faults := by rw [(hx u hu).2]
      _ = [] := (hf _).trans hu
  rw [← hsettled] at hresult' hstate'
  exact ⟨hresult.trans hresult'.symm, hstate.trans hstate'.symm, hfaults s hs, hfaults t ht⟩

theorem respects_update {f : ScpState → ScpState} (hf : ∀ s, settled (f s) = f (settled s))
    (hfaults : ∀ s, (f s).faults = s.faults) : Respects Alike (update f : ScpProgram Unit) := by
  refine Respects.update ?_
  rintro s t ⟨hsettled, hs, ht⟩
  exact ⟨by rw [hf, hf, hsettled], (hfaults s).trans hs, (hfaults t).trans ht⟩

theorem respects_gets {f : ScpState → α} (hf : ∀ s, f (settled s) = f s) :
    Respects Alike (gets f : ScpProgram α) := by
  refine Respects.gets ?_
  rintro s t ⟨hsettled, -, -⟩
  rw [← hf s, ← hf t, hsettled]

theorem respects_fail {error : ScpError} : Respects Alike (fail error : ScpProgram α) :=
  Respects.raise

theorem respects_check {r : Except ScpError α} : Respects Alike (check r : ScpProgram α) := by
  cases r with
  | error e => exact respects_fail
  | ok a => exact Respects.pure

theorem respects_outside : Respects Alike outside := by
  rintro s t ⟨hsettled, hs, ht⟩
  rw [outside_of_nil hs, outside_of_nil ht]
  exact ⟨rfl, hsettled, hs, ht⟩

end Respects

/-! ## Procedures that do not see the messages -/

theorem respects_readByte : Respects Alike readByte := by
  refine respects_of_settles (fun s _ => settles_readByte s) fun s => ?_
  rw [byteOf]
  split <;> rfl

theorem respects_readLine : Respects Alike readLine := by
  refine respects_of_settles (fun s _ => settles_readLine s) fun s => ?_
  rw [lineOf]
  split <;> rfl

theorem respects_copyExactToFile (path : Path) (size : Nat) :
    Respects Alike (copyExactToFile path size) := by
  refine respects_of_settles
    (fun s hs => settles_copyExactFrom path size size s (Nat.le_refl size) hs) fun s => ?_
  rw [copyOf]
  split <;> rfl

theorem respects_sendData (data : Bytes) : Respects Alike (sendData data) :=
  respects_outside.bind fun _ => respects_update (fun _ => rfl) fun _ => rfl

theorem respects_sendControlLine (line : List Char) : Respects Alike (sendControlLine line) := by
  rw [sendControlLine]
  exact .ite respects_fail (respects_sendData _)

theorem respects_readResponse : Respects Alike readResponse :=
  respects_readByte.bind fun _ =>
    .ite .pure (.ite (respects_readLine.bind fun _ => respects_fail) respects_fail)

theorem respects_readNextRecord : Respects Alike readNextRecord := by
  refine respects_readByte.bind fun kind => ?_
  refine .ite (respects_readLine.bind fun _ => respects_fail) ?_
  refine .ite (respects_readLine.bind fun _ => respects_check) ?_
  refine .ite (respects_readLine.bind fun line => .ite respects_fail .pure) ?_
  exact .ite (respects_readLine.bind fun _ => respects_check.bind fun _ => .pure) respects_fail

theorem respects_createDir (path : Path) : Respects Alike (createDir path) := by
  refine respects_outside.bind fun _ => (respects_gets fun _ => rfl).bind fun files => ?_
  exact .ite respects_fail (.ite respects_fail (respects_update (fun _ => rfl) fun _ => rfl))

theorem respects_createFile (path : Path) : Respects Alike (createFile path) := by
  refine respects_outside.bind fun _ => (respects_gets fun _ => rfl).bind fun files => ?_
  exact .ite respects_fail (.ite respects_fail (respects_update (fun _ => rfl) fun _ => rfl))

theorem respects_countItem : Respects Alike countItem := by
  refine .bind (respects_update (fun _ => rfl) fun _ => rfl) fun _ => ?_
  exact (respects_gets fun _ => rfl).bind fun _ => respects_check

theorem respects_checkDepth (depth : Nat) : Respects Alike (checkDepth depth) :=
  .ite respects_fail .pure

theorem respects_receiveEntries (root : Path) : ∀ (fuel : Nat) (localDirectory : Path) (depth : Nat),
    Respects Alike (receiveEntries root fuel localDirectory depth)
  | 0, _, _ => .raise
  | fuel + 1, localDirectory, depth => by
    have hrest := respects_receiveEntries root fuel
    refine respects_outside.bind fun _ => respects_readNextRecord.bind fun record => ?_
    cases record with
    | times => exact (respects_sendData _).bind fun _ => hrest localDirectory depth
    | endDirectory => exact respects_sendData _
    | directory mode name =>
      refine respects_check.bind fun _ => respects_check.bind fun child => ?_
      refine (respects_createDir child).bind fun _ => (respects_sendData _).bind fun _ => ?_
      refine (respects_checkDepth _).bind fun _ => respects_countItem.bind fun _ => ?_
      exact (hrest child (depth + 1)).bind fun _ => hrest localDirectory depth
    | file mode size name =>
      refine respects_check.bind fun _ => respects_check.bind fun child => ?_
      refine (respects_createFile child).bind fun _ => (respects_sendData _).bind fun _ => ?_
      refine (respects_copyExactToFile child size).bind fun _ => respects_outside.bind fun _ => ?_
      refine respects_readResponse.bind fun _ => (respects_sendData _).bind fun _ => ?_
      refine .bind (respects_update (fun _ => rfl) fun _ => rfl) fun _ => ?_
      exact respects_countItem.bind fun _ => hrest localDirectory depth

theorem respects_receiveDirectoryRoot (root : Path) (fuel : Nat) :
    Respects Alike (receiveDirectoryRoot root fuel) := by
  refine respects_readNextRecord.bind fun record => ?_
  cases record with
  | directory mode name =>
    refine respects_check.bind fun _ => (respects_sendData _).bind fun _ => ?_
    refine (respects_checkDepth _).bind fun _ => respects_countItem.bind fun _ => ?_
    exact respects_receiveEntries root fuel _ _
  | times => exact respects_fail
  | endDirectory => exact respects_fail
  | file mode size name => exact respects_fail

theorem respects_sendReads : ∀ reads : List Bytes, Respects Alike (sendReads reads)
  | [] => respects_outside.bind fun _ => respects_outside
  | data :: reads => by
    refine respects_outside.bind fun _ => respects_outside.bind fun _ => ?_
    refine (respects_sendData data).bind fun _ => ?_
    exact .bind (respects_update (fun _ => rfl) fun _ => rfl) fun _ => respects_sendReads reads

theorem respects_openDirectory (remoteName : List Char) (depth : Nat) :
    Respects Alike (openDirectory remoteName depth) := by
  refine (respects_checkDepth depth).bind fun _ => respects_check.bind fun _ => ?_
  refine (respects_sendControlLine _).bind fun _ => respects_readResponse.bind fun _ => ?_
  exact respects_countItem.bind fun _ => respects_outside

theorem respects_closeDirectory : Respects Alike closeDirectory :=
  (respects_sendControlLine _).bind fun _ => respects_readResponse

theorem respects_nextEntry : Respects Alike nextEntry :=
  respects_outside.bind fun _ => respects_outside.bind fun _ => respects_outside

theorem respects_uploadEntries : ∀ (entries : LocalEntries) (depth : Nat),
    Respects Alike (uploadEntries entries depth)
  | .nil, _ => respects_outside
  | .symlink _ _, _ => respects_nextEntry.bind fun _ => respects_fail
  | .other _ rest, depth => by
    refine respects_nextEntry.bind fun _ => ?_
    exact respects_check.bind fun _ => respects_uploadEntries rest depth
  | .directory _ entries rest, depth => by
    refine respects_nextEntry.bind fun _ => ?_
    refine respects_check.bind fun name => (respects_openDirectory name _).bind fun _ => ?_
    refine (respects_uploadEntries entries _).bind fun _ => respects_closeDirectory.bind fun _ => ?_
    exact respects_uploadEntries rest depth
  | .file _ len reads rest, depth => by
    refine respects_nextEntry.bind fun _ => ?_
    refine respects_check.bind fun name => (respects_sendControlLine _).bind fun _ => ?_
    refine respects_readResponse.bind fun _ => respects_outside.bind fun _ => ?_
    refine (respects_sendReads reads).bind fun _ => (respects_sendData _).bind fun _ => ?_
    refine respects_readResponse.bind fun _ => respects_countItem.bind fun _ => ?_
    exact respects_uploadEntries rest depth

theorem respects_uploadDirectoryTree (remoteName : List Char) (entries : LocalEntries) (depth : Nat) :
    Respects Alike (uploadDirectoryTree remoteName entries depth) := by
  refine (respects_openDirectory remoteName depth).bind fun _ => ?_
  exact (respects_uploadEntries entries depth).bind fun _ => respects_closeDirectory

/-! ## Whole transfers -/

/-- Two transfers end alike: with the same result, the same files and the same bytes sent. -/
structure SameOutcome (a b : Except Stop Unit × ScpState) : Prop where
  result : a.1 = b.1
  files : a.2.files = b.2.files
  sent : a.2.sent = b.2.sent
  items : a.2.items = b.2.items
  bytes : a.2.bytes = b.2.bytes

theorem SameOutcome.of_settled {a b : Except Stop Unit × ScpState} (hresult : a.1 = b.1)
    (h : settled a.2 = settled b.2) : SameOutcome a b := by
  have hsame : ∀ {β : Type} (f : ScpState → β), f (settled a.2) = f (settled b.2) := fun f =>
    congrArg f h
  exact ⟨hresult, hsame ScpState.files, hsame ScpState.sent, hsame ScpState.items,
    hsame ScpState.bytes⟩

/-- How a transfer ends when the channel has. -/
def finished (s : ScpState) : Except Stop Unit :=
  if s.exitStatus = some 0 then .ok ()
  else .error (.failed (.channelError (exitMessage s.exitStatus (trim (fromUtf8Lossy s.stderr)))))

theorem finish_of_nil {s : ScpState} (h : s.faults = []) :
    finish s = (finished (settled s), { settled s with buffered := s.buffered, closed := true }) := by
  rw [finish, bind_of_ok (outside_of_nil h), finished]
  by_cases hzero : (settled s).exitStatus = some 0
  · rw [if_pos hzero]
    exact congrFun (if_pos hzero) _
  · rw [if_neg hzero]
    exact congrFun (if_neg hzero) _

theorem sameOutcome_bind_finish {x : ScpProgram Unit} (hx : Respects Alike x) {s t : ScpState}
    (h : Alike s t) :
    SameOutcome ((x >>= fun _ => finish) s) ((x >>= fun _ => finish) t) := by
  obtain ⟨hresult, hsettled, hs, ht⟩ := hx s t h
  rcases hrun : x s with ⟨e | a, s'⟩
  · rcases hrun' : x t with ⟨e' | a', t'⟩
    · rw [hrun, hrun'] at hresult hsettled
      rw [bind_of_error hrun, bind_of_error hrun']
      exact .of_settled (by cases hresult; rfl) hsettled
    · rw [hrun, hrun'] at hresult
      cases hresult
  · rcases hrun' : x t with ⟨e' | a', t'⟩
    · rw [hrun, hrun'] at hresult
      cases hresult
    · rw [hrun] at hsettled hs
      rw [hrun'] at hsettled ht
      rw [bind_of_ok hrun, bind_of_ok hrun', finish_of_nil hs, finish_of_nil ht]
      have hsame : ∀ {β : Type} (f : ScpState → β), f (settled s') = f (settled t') := fun f =>
        congrArg f hsettled
      exact ⟨hsame finished, hsame ScpState.files, hsame ScpState.sent, hsame ScpState.items,
        hsame ScpState.bytes⟩

theorem alike_start {messages messages' : List ChannelMsg} (hdata : dataOf messages = dataOf messages')
    (hdrained : drained messages ([], none) = drained messages' ([], none)) :
    Alike (start messages []) (start messages' []) := by
  refine ⟨?_, rfl, rfl⟩
  rw [settled, settled, unread, unread]
  dsimp only [start]
  rw [hdata, hdrained]

/-- **How bytes are cut into messages does not matter**, nor where among them the error output and
the exit status come: both ends of a transfer do the same. -/
theorem transfers_of_same_bytes {messages messages' : List ChannelMsg}
    (hdata : dataOf messages = dataOf messages')
    (hdrained : drained messages ([], none) = drained messages' ([], none)) :
    (∀ root fuel, SameOutcome (receiveDirectory root fuel (start messages []))
        (receiveDirectory root fuel (start messages' []))) ∧
      ∀ rootName entries, SameOutcome (uploadDirectory rootName entries (start messages []))
        (uploadDirectory rootName entries (start messages' [])) := by
  have h := alike_start hdata hdrained
  refine ⟨fun root fuel => ?_, fun rootName entries => ?_⟩
  · have hends : Respects Alike (sendAck >>= fun _ => receiveDirectoryRoot root fuel) :=
      (respects_sendData [0]).bind fun _ => respects_receiveDirectoryRoot root fuel
    simpa only [receiveDirectory, bind_assoc] using sameOutcome_bind_finish hends h
  · have hends : Respects Alike (readResponse >>= fun _ =>
        uploadDirectoryTree rootName entries 0 >>= fun _ => outside) :=
      respects_readResponse.bind fun _ =>
        (respects_uploadDirectoryTree rootName entries 0).bind fun _ => respects_outside
    simpa only [uploadDirectory, bind_assoc] using sameOutcome_bind_finish hends h

/-- Bytes in one message or in two. -/
theorem transfers_of_same_bytes_split :
    (∀ root fuel, SameOutcome (receiveDirectory root fuel (start [.data [1, 2], .exitStatus 0] []))
        (receiveDirectory root fuel (start [.data [1], .exitStatus 0, .data [2]] []))) ∧
      ∀ rootName entries,
        SameOutcome (uploadDirectory rootName entries (start [.data [1, 2], .exitStatus 0] []))
          (uploadDirectory rootName entries (start [.data [1], .exitStatus 0, .data [2]] [])) :=
  transfers_of_same_bytes rfl rfl

end OxideTerm.Sftp.Scp
