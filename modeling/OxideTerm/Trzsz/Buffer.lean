import OxideTerm.Trzsz.PathGuard
import OxideTerm.Lib.Slice

/-!
# Received data

Chunks as they arrive, of which lines and binary data are read. A read that needs more than has
arrived waits, so the chunks that are still to arrive can be thought of as queued already; a read
that would wait for ever has no result. Stopping the buffer empties it.
-/

namespace OxideTerm.Trzsz

open OxideTerm.Lib

/-- The chunks that are queued, and the chunk that is being read with how far that has got. -/
structure BufferState where
  queue : List Bytes
  nextBuffer : Bytes := []
  nextIndex : Nat := 0
  stopped : Bool := false
deriving Repr, DecidableEq

namespace BufferState

/-- What has arrived and is still to be read. -/
def remaining (state : BufferState) : Bytes :=
  state.nextBuffer.drop state.nextIndex ++ state.queue.flatten

def stopBuffer (_ : BufferState) : BufferState := { queue := [], stopped := true }

/-! ## Chunks -/

/-- `next_buffer`: the rest of the chunk that is being read, or the first one that is not empty. -/
def next (state : BufferState) : Option (Except TrzszError Bytes × BufferState) :=
  if state.nextIndex < state.nextBuffer.length then
    some (.ok (state.nextBuffer.drop state.nextIndex), state)
  else if state.stopped then some (.error (.invalidState "Stopped"), state)
  else
    match state.queue.dropWhile (· = []) with
    | [] => none
    | chunk :: queue => some (.ok chunk, { state with queue, nextBuffer := chunk, nextIndex := 0 })

def consume (state : BufferState) (length : Nat) : BufferState :=
  { state with nextIndex := state.nextIndex + length }

def previousChunkHadNewline (state : BufferState) : Bool :=
  0 < state.nextIndex ∧ state.nextBuffer[state.nextIndex - 1]? = some 0x0a

theorem flatten_dropWhile (queue : List Bytes) :
    (queue.dropWhile (· = [])).flatten = queue.flatten := by
  induction queue with
  | nil => rfl
  | cons chunk queue ih =>
    rw [List.dropWhile_cons]
    split
    next hempty =>
      rw [decide_eq_true_eq] at hempty
      rw [ih, List.flatten_cons, hempty, List.nil_append]
    next => rfl

/-- A chunk that is read is at the front of what remains. -/
theorem next_ok {state state' : BufferState} {chunk : Bytes}
    (h : state.next = some (.ok chunk, state')) :
    chunk ≠ [] ∧ state'.nextBuffer.drop state'.nextIndex = chunk ∧
      state.remaining = state'.remaining := by
  rw [next] at h
  split at h
  next hlt =>
    cases h
    refine ⟨?_, rfl, rfl⟩
    rw [ne_eq, List.drop_eq_nil_iff]
    omega
  next hge =>
    split at h
    next => cases h
    next =>
      split at h
      next => cases h
      next queue hqueue =>
        cases h
        refine ⟨?_, List.drop_zero, ?_⟩
        · have hhead := List.head?_dropWhile_not (· = []) state.queue
          rw [hqueue] at hhead
          simpa using hhead
        · rw [remaining, List.drop_eq_nil_of_le (by omega), ← flatten_dropWhile, hqueue]
          rfl

/-- What is consumed of a chunk is gone. -/
theorem remaining_consume {state : BufferState} {chunk : Bytes} {length : Nat}
    (hchunk : state.nextBuffer.drop state.nextIndex = chunk) (hlength : length ≤ chunk.length) :
    state.remaining = chunk.take length ++ (state.consume length).remaining := by
  subst hchunk
  rw [remaining, remaining, consume, ← List.append_assoc, ← List.drop_drop, List.take_append_drop]

/-- A chunk is read, and some of it consumed. -/
theorem length_remaining_lt {state state' : BufferState} {chunk : Bytes} {length : Nat}
    (h : state.next = some (.ok chunk, state')) (hpos : 0 < length)
    (hlength : length ≤ chunk.length) :
    (state'.consume length).remaining.length < state.remaining.length := by
  obtain ⟨-, hchunk, hremaining⟩ := next_ok h
  rw [hremaining, remaining_consume hchunk hlength, List.length_append, List.length_take]
  omega

/-! ## Lines -/

/-- How much of a chunk is consumed up to a mark, what comes before the mark, and whether it is
there. -/
structure Cut where
  length : Nat
  part : Bytes
  hadMark : Bool

def cutAt (mark : UInt8) (chunk : Bytes) : Cut :=
  match chunk.idxOf? mark with
  | some index => { length := index + 1, part := chunk.take index, hadMark := true }
  | none => { length := chunk.length, part := chunk, hadMark := false }

theorem cutAt_pos {mark : UInt8} {chunk : Bytes} (hne : chunk ≠ []) :
    0 < (cutAt mark chunk).length := by
  rw [cutAt]
  split
  · exact Nat.succ_pos _
  · exact List.length_pos_of_ne_nil hne

theorem cutAt_le (mark : UInt8) (chunk : Bytes) : (cutAt mark chunk).length ≤ chunk.length := by
  rw [cutAt]
  split
  next index hindex => exact (List.findIdx?_eq_some_iff_findIdx_eq.mp hindex).1
  next => exact Nat.le_refl _

/-- The loop of `read_line`, with what has been read of the line. -/
def readLineFrom (buffer : Bytes) (state : BufferState) :
    Option (Except TrzszError (List Char) × BufferState) :=
  match hnext : state.next with
  | none => none
  | some (.error error, state) => some (.error error, state)
  | some (.ok chunk, state) =>
    let cut := cutAt 0x0a chunk
    let state := state.consume cut.length
    if 0x03 ∈ cut.part then some (.error (.invalidState "Interrupted"), state)
    else if state.previousChunkHadNewline then
      some (.ok (Text.fromUtf8Lossy (buffer ++ cut.part)), state)
    else readLineFrom (buffer ++ cut.part) state
termination_by state.remaining.length
decreasing_by
  exact length_remaining_lt hnext (cutAt_pos (next_ok hnext).1) (cutAt_le _ _)

def readLine (state : BufferState) : Option (Except TrzszError (List Char) × BufferState) :=
  readLineFrom [] state

/-! ## Binary data -/

/-- The loop of `read_binary`, with what has been read. -/
def readBinaryFrom (length : Nat) (buffer : Bytes) (state : BufferState) :
    Option (Except TrzszError Bytes × BufferState) :=
  if hmore : buffer.length < length then
    match hnext : state.next with
    | none => none
    | some (.error error, state) => some (.error error, state)
    | some (.ok chunk, state) =>
      let part := chunk.take (length - buffer.length)
      readBinaryFrom length (buffer ++ part) (state.consume part.length)
  else some (.ok buffer, state)
termination_by state.remaining.length
decreasing_by
  refine length_remaining_lt hnext ?_ (by rw [List.length_take]; exact Nat.min_le_right _ _)
  have hpos := List.length_pos_of_ne_nil (next_ok hnext).1
  rw [List.length_take]
  omega

def readBinary (length : Nat) (state : BufferState) :
    Option (Except TrzszError Bytes × BufferState) :=
  readBinaryFrom length [] state

/-! ## Lines of a Windows shell -/

def isTrzszLetter (charCode : UInt8) : Bool :=
  (0x30 ≤ charCode ∧ charCode ≤ 0x39) ∨ (0x41 ≤ charCode ∧ charCode ≤ 0x5a) ∨
    (0x61 ≤ charCode ∧ charCode ≤ 0x7a) ∨ charCode ∈ [0x23, 0x3a, 0x2b, 0x2f, 0x3d]

def isVt100End (charCode : UInt8) : Bool :=
  (0x41 ≤ charCode ∧ charCode ≤ 0x5a) ∨ (0x61 ≤ charCode ∧ charCode ≤ 0x7a)

def isAsciiDigit (charCode : UInt8) : Bool := 0x30 ≤ charCode ∧ charCode ≤ 0x39

/-- A line of a console, of which control sequences and repeated characters are left out. -/
structure WindowsLine where
  buffer : Bytes := []
  lastByte : UInt8 := 0x1b
  skipVt100 : Bool := false
  hasNewline : Bool := false
  mayDuplicate : Bool := false
  hasCursorHome : Bool := false
  previousHasCursorHome : Bool := false

namespace WindowsLine

/-- A byte within a control sequence. -/
def skip (line : WindowsLine) (charCode : UInt8) : WindowsLine :=
  let line :=
    if isVt100End charCode then
      { line with
        skipVt100 := false
        mayDuplicate := line.mayDuplicate || (charCode = 0x48 && isAsciiDigit line.lastByte) }
    else line
  { line with
    hasCursorHome := line.hasCursorHome || (line.lastByte = 0x5b && charCode = 0x48)
    lastByte := charCode }

/-- A letter of the line, which may have been shown before. -/
def letter (line : WindowsLine) (charCode : UInt8) : WindowsLine :=
  if line.mayDuplicate ∧ line.hasNewline ∧ line.buffer ≠ [] ∧
      (line.buffer.getLast? = some charCode ∨ line.previousHasCursorHome) then
    { line with mayDuplicate := false, buffer := line.buffer.dropLast ++ [charCode] }
  else
    { line with
      mayDuplicate := false
      buffer := line.buffer ++ [charCode]
      previousHasCursorHome := line.hasCursorHome
      hasCursorHome := false
      hasNewline := false }

/-- One byte; none is an interrupt. -/
def add (line : WindowsLine) (charCode : UInt8) : Option WindowsLine :=
  if charCode = 0x03 then none
  else
    let line := { line with hasNewline := line.hasNewline || charCode = 0x0a }
    if line.skipVt100 then some (line.skip charCode)
    else if charCode = 0x1b then some { line with skipVt100 := true, lastByte := charCode }
    else if ¬ isTrzszLetter charCode then some line
    else some (line.letter charCode)

end WindowsLine

/-- The loop of `read_line_on_windows`, with what has been read of the line. -/
def readLineOnWindowsFrom (line : WindowsLine) (state : BufferState) :
    Option (Except TrzszError (List Char) × BufferState) :=
  match hnext : state.next with
  | none => none
  | some (.error error, state) => some (.error error, state)
  | some (.ok chunk, state) =>
    let cut := cutAt 0x21 chunk
    let state := state.consume cut.length
    match cut.part.foldlM WindowsLine.add line with
    | none => some (.error (.invalidState "Interrupted"), state)
    | some line =>
      if cut.hadMark ∧ line.buffer ≠ [] ∧ ¬ line.skipVt100 then
        some (.ok (Text.fromUtf8Lossy line.buffer), state)
      else readLineOnWindowsFrom line state
termination_by state.remaining.length
decreasing_by
  exact length_remaining_lt hnext (cutAt_pos (next_ok hnext).1) (cutAt_le _ _)

def readLineOnWindows (state : BufferState) :
    Option (Except TrzszError (List Char) × BufferState) :=
  readLineOnWindowsFrom {} state

/-! ## What is left after a line -/

/-- A part that is cut off at a mark is followed by the mark. -/
theorem cutAt_cases (mark : UInt8) (chunk : Bytes) :
    (∃ part rest, chunk = part ++ mark :: rest ∧ mark ∉ part ∧
      cutAt mark chunk = { length := part.length + 1, part, hadMark := true }) ∨
    (mark ∉ chunk ∧ cutAt mark chunk = { length := chunk.length, part := chunk, hadMark := false }) := by
  rw [cutAt]
  cases hindex : chunk.idxOf? mark with
  | none => exact .inr ⟨List.idxOf?_eq_none_iff.mp hindex, rfl⟩
  | some index =>
    left
    obtain ⟨hlt, hmark, hbefore⟩ := List.idxOf?_eq_some_iff.mp hindex
    refine ⟨chunk.take index, chunk.drop (index + 1), ?_, ?_, ?_⟩
    · rw [← hmark, ← List.drop_eq_getElem_cons hlt, List.take_append_drop]
    · intro hmem
      obtain ⟨i, hi, hsame⟩ := List.mem_take_iff_getElem.mp hmem
      exact hbefore i (by omega) hsame
    · rw [List.length_take, Nat.min_eq_left (by omega)]

theorem previousChunkHadNewline_consume {state : BufferState} {chunk : Bytes} (k : Nat)
    (hchunk : state.nextBuffer.drop state.nextIndex = chunk) :
    (state.consume (k + 1)).previousChunkHadNewline = decide (chunk[k]? = some 0x0a) := by
  subst hchunk
  rw [List.getElem?_drop, previousChunkHadNewline, decide_eq_decide]
  exact and_iff_right (Nat.succ_pos _)

/-- What a chunk has to do with a line: it ends the line, or all of it belongs to the line. -/
theorem readLineFrom_chunk {buffer chunk : Bytes} {state state' : BufferState}
    (hnext : state.next = some (.ok chunk, state')) :
    (∃ part rest, chunk = part ++ 0x0a :: rest ∧ (0x0a : UInt8) ∉ part ∧
      readLineFrom buffer state =
        if 0x03 ∈ part then
          some (.error (.invalidState "Interrupted"), state'.consume (part.length + 1))
        else some (.ok (Text.fromUtf8Lossy (buffer ++ part)), state'.consume (part.length + 1))) ∨
    ((0x0a : UInt8) ∉ chunk ∧
      readLineFrom buffer state =
        if 0x03 ∈ chunk then
          some (.error (.invalidState "Interrupted"), state'.consume chunk.length)
        else readLineFrom (buffer ++ chunk) (state'.consume chunk.length)) := by
  obtain ⟨hne, hchunk, -⟩ := next_ok hnext
  rw [readLineFrom.eq_def, hnext]
  rcases cutAt_cases 0x0a chunk with ⟨part, rest, heq, hpart, hcut⟩ | ⟨hnot, hcut⟩
  · left
    refine ⟨part, rest, heq, hpart, ?_⟩
    have hnewline := previousChunkHadNewline_consume part.length hchunk
    rw [heq, List.getElem?_append_right (Nat.le_refl _), Nat.sub_self] at hnewline
    simp only [hcut, hnewline]
    rfl
  · right
    refine ⟨hnot, ?_⟩
    obtain ⟨k, hk⟩ : ∃ k, chunk.length = k + 1 :=
      ⟨chunk.length - 1, by have := List.length_pos_of_ne_nil hne; omega⟩
    have hlast : chunk[k]? ≠ some 0x0a := fun h => hnot (List.mem_of_getElem? h)
    have hnewline := previousChunkHadNewline_consume k hchunk
    rw [← hk, decide_eq_false hlast] at hnewline
    simp only [hcut, hnewline]
    rfl

/-- A line takes something from what remains. -/
theorem length_remaining_readLineFrom {buffer : Bytes} {state state' : BufferState}
    {line : List Char} (h : readLineFrom buffer state = some (.ok line, state')) :
    state'.remaining.length < state.remaining.length := by
  induction hn : state.remaining.length using Nat.strongRecOn generalizing buffer state with
  | ind n ih =>
    cases hnext : state.next with
    | none =>
      rw [readLineFrom.eq_def, hnext] at h
      cases h
    | some result =>
      obtain ⟨result, state₁⟩ := result
      cases result with
      | error error =>
        rw [readLineFrom.eq_def, hnext] at h
        cases h
      | ok chunk =>
        obtain ⟨hne, -, -⟩ := next_ok hnext
        rcases readLineFrom_chunk hnext with ⟨part, rest, hchunk, -, heq⟩ | ⟨-, heq⟩
        · rw [heq] at h
          split at h
          · cases h
          · cases h
            rw [← hn]
            refine length_remaining_lt hnext (Nat.succ_pos _) ?_
            rw [hchunk, List.length_append, List.length_cons]
            omega
        · rw [heq] at h
          have hless : (state₁.consume chunk.length).remaining.length < n :=
            hn ▸ length_remaining_lt hnext (List.length_pos_of_ne_nil hne) (Nat.le_refl _)
          split at h
          · cases h
          · exact (ih _ hless h rfl).trans hless

end BufferState

end OxideTerm.Trzsz
