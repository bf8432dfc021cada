import OxideTerm.Trzsz.Buffer

/-!
# Lines of the protocol

How a line is received: what a multiplexer or a console has put in between is cut away. Each slice is
one that panics where it would cut a character; `none` stands for that.
-/

namespace OxideTerm.Trzsz

open OxideTerm.Lib OxideTerm.Lib.Text

/-! ## Status lines -/

def statusBegin : List Char := ['\x1b', 'P', '=']

def statusEnd : List Char := ['\x1b', '\\']

/-- The text without the status lines of tmux, each between two beginnings and an end. One that is
not complete is cut off with all that follows. -/
def stripTmuxStatusLine (buffer : List Char) : Option (List Char) :=
  match find statusBegin buffer with
  | none => some buffer
  | some beginIndex =>
    match sliceFrom buffer (beginIndex + 3) with
    | none => none
    | some tail =>
      match find statusBegin tail with
      | none => sliceTo buffer beginIndex
      | some midIndex =>
        match sliceFrom buffer (beginIndex + 3 + midIndex + 3) with
        | none => none
        | some tail =>
          match find statusEnd tail with
          | none => sliceTo buffer beginIndex
          | some endIndex =>
            match hfront : sliceTo buffer beginIndex with
            | none => none
            | some front =>
              match hrest : sliceFrom buffer (beginIndex + 3 + midIndex + 3 + endIndex + 2) with
              | none => none
              | some rest => stripTmuxStatusLine (front ++ rest)
termination_by byteLength buffer
decreasing_by
  obtain ⟨_, _, hlength⟩ := exists_of_sliceTo _ _ hfront
  obtain ⟨_, hbuffer, hlength'⟩ := exists_of_sliceFrom _ _ hrest
  rw [hbuffer, byteLength_append, byteLength_append, hlength, hlength']
  omega

/-- **Removing status lines never cuts a character.** -/
theorem exists_stripTmuxStatusLine (buffer : List Char) :
    ∃ line, stripTmuxStatusLine buffer = some line := by
  induction hn : byteLength buffer using Nat.strongRecOn generalizing buffer with
  | ind n ih =>
    rw [stripTmuxStatusLine.eq_def]
    cases hbegin : find statusBegin buffer with
    | none => exact ⟨buffer, rfl⟩
    | some beginIndex =>
      obtain ⟨⟨front, hfront⟩, tail, htail⟩ := slices_of_find hbegin
      have htail' : sliceFrom buffer (beginIndex + 3) = some tail := htail
      simp only [htail']
      cases hmid : find statusBegin tail with
      | none => exact ⟨front, hfront⟩
      | some midIndex =>
        obtain ⟨-, after, hafter⟩ := slices_of_find hmid
        have hafter' : sliceFrom buffer (beginIndex + 3 + midIndex + 3) = some after := by
          have htrans := sliceFrom_trans htail' hafter
          rwa [← Nat.add_assoc] at htrans
        simp only [hafter']
        cases hend : find statusEnd after with
        | none => exact ⟨front, hfront⟩
        | some endIndex =>
          obtain ⟨-, rest, hrest⟩ := slices_of_find hend
          have hrest' : sliceFrom buffer (beginIndex + 3 + midIndex + 3 + endIndex + 2) =
              some rest := by
            have htrans := sliceFrom_trans hafter' hrest
            rwa [← Nat.add_assoc] at htrans
          -- What is left is shorter by what was cut out.
          have hshorter : byteLength (front ++ rest) < n := by
            obtain ⟨-, -, hlength⟩ := exists_of_sliceTo _ _ hfront
            obtain ⟨cut, hbuffer, hlength'⟩ := exists_of_sliceFrom _ _ hrest'
            rw [← hn, hbuffer, byteLength_append, byteLength_append, hlength, hlength']
            omega
          obtain ⟨line, hline⟩ := ih _ hshorter (front ++ rest) rfl
          refine ⟨line, ?_⟩
          show (match _ : sliceTo buffer beginIndex with
            | none => none
            | some front =>
              match _ : sliceFrom buffer (beginIndex + 3 + midIndex + 3 + endIndex + 2) with
              | none => none
              | some rest => stripTmuxStatusLine (front ++ rest)) = some line
          split
          next hnone => rw [hfront] at hnone; cases hnone
          next front' hfront' =>
            rw [hfront] at hfront'
            cases hfront'
            split
            next hnone => rw [hrest'] at hnone; cases hnone
            next rest' hrest'' =>
              rw [hrest'] at hrest''
              cases hrest''
              exact hline

/-! ## Receiving a line -/

/-- What has been decided about the other side. -/
structure TransferFlags where
  isWindowsShell : Bool
  remoteIsWindows : Bool
  tmuxOutputJunk : Bool
  stopped : Bool
deriving Repr, DecidableEq

/-- The loop over `read_line` that joins lines at a carriage return. -/
def joinLines (line : List Char) (state : BufferState) :
    Option (Except TrzszError (List Char) × BufferState) :=
  if line.getLast? = some '\r' then
    match hread : state.readLine with
    | none => none
    | some (.error error, state) => some (.error error, state)
    | some (.ok more, state) => joinLines (line.dropLast ++ more) state
  else some (.ok line, state)
termination_by state.remaining.length
decreasing_by
  exact BufferState.length_remaining_readLineFrom hread

/-- The beginning of what is expected, in the text of a line. -/
def lineBegin (expectType : List Char) : List Char := '#' :: (expectType ++ [':'])

/-- The line from the last beginning on, or from the last sign of one. -/
def cutJunk (expectType line : List Char) : Option (List Char) :=
  match rfind (lineBegin expectType) line with
  | some index => sliceFrom line index
  | none =>
    match rfind ['#'] line with
    | some index => if 0 < index then sliceFrom line index else some line
    | none => some line

/-- `recv_line`. The result is none while it waits; a line is none where a slice panics. -/
def recvLine (flags : TransferFlags) (expectType : List Char) (mayHaveJunk : Bool)
    (state : BufferState) : Option (Except TrzszError (Option (List Char)) × BufferState) :=
  if flags.stopped then some (.error (.invalidState "Stopped"), state)
  else if flags.isWindowsShell || flags.remoteIsWindows then
    match state.readLineOnWindows with
    | none => none
    | some (.error error, state) => some (.error error, state)
    | some (.ok line, state) => some (.ok (cutJunk expectType line), state)
  else
    match state.readLine with
    | none => none
    | some (.error error, state) => some (.error error, state)
    | some (.ok line, state) =>
      if flags.tmuxOutputJunk || mayHaveJunk then
        match joinLines line state with
        | none => none
        | some (.error error, state) => some (.error error, state)
        | some (.ok line, state) =>
          some (.ok ((cutJunk expectType line).bind stripTmuxStatusLine), state)
      else some (.ok (some line), state)

theorem exists_cutJunk (expectType line : List Char) : ∃ cut, cutJunk expectType line = some cut := by
  rw [cutJunk]
  split
  next index hindex =>
    obtain ⟨rest, hrest⟩ := sliceFrom_of_rfind hindex
    exact ⟨_, hrest⟩
  next =>
    split
    next index hindex =>
      split
      · obtain ⟨rest, hrest⟩ := sliceFrom_of_rfind hindex
        exact ⟨_, hrest⟩
      · exact ⟨line, rfl⟩
    next => exact ⟨line, rfl⟩

/-- **Receiving a line never cuts a character**, whatever has arrived. -/
theorem recvLine_ne_none {flags : TransferFlags} {expectType : List Char} {mayHaveJunk : Bool}
    {state state' : BufferState} {line : Option (List Char)}
    (h : recvLine flags expectType mayHaveJunk state = some (.ok line, state')) :
    ∃ text, line = some text := by
  rw [recvLine] at h
  split at h
  · cases h
  · split at h
    · split at h
      · cases h
      · cases h
      · cases h
        exact exists_cutJunk expectType _
    · split at h
      · cases h
      · cases h
      next text state₁ hread =>
        split at h
        · split at h
          · cases h
          · cases h
          next joined state₂ hjoin =>
            cases h
            obtain ⟨cut, hcut⟩ := exists_cutJunk expectType joined
            rw [hcut]
            exact exists_stripTmuxStatusLine cut
        · cases h
          exact ⟨text, rfl⟩

end OxideTerm.Trzsz
