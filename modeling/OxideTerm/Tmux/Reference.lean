import OxideTerm.Lib.MarkerSearch
import OxideTerm.Tmux.Stream

/-!
# Reading one byte at a time

The stream without its reads: every byte does what it does, wherever the reads are cut, and lines
may be of any length. A round of the loops that does not fail is what its bytes do, one after the
other (`round_reads`), so that reading in pieces is reading the whole (`advanceAll_reads`).
-/

namespace OxideTerm.Tmux

open OxideTerm.Lib (Bytes Marker)

/-- The marker, for which the stream is searched. -/
def marker : Marker UInt8 where
  first := 0x1b
  others := [0x50, 0x31, 0x30, 0x30, 0x30, 0x70]
  apart := by decide

@[simp] theorem marker_symbols : marker.symbols = controlModeEnter := rfl

@[simp] theorem marker_first : marker.first = escape := rfl

theorem length_controlModeEnter : controlModeEnter.length = 7 := rfl

/-! ## Events up to the cutting of the output -/

/-- A byte of output, or another event. -/
inductive Atom where
  | byte (value : UInt8)
  | event (event : StreamEvent)

def StreamEvent.atoms : StreamEvent → List Atom
  | .terminalOutput bytes => bytes.map .byte
  | event => [.event event]

/-- What events show, when it does not matter how the output is cut. -/
def atoms (events : List StreamEvent) : List Atom := events.flatMap StreamEvent.atoms

@[simp] theorem atoms_nil : atoms [] = [] := rfl

@[simp] theorem atoms_cons (event : StreamEvent) (events : List StreamEvent) :
    atoms (event :: events) = event.atoms ++ atoms events := List.flatMap_cons

@[simp] theorem atoms_append (a b : List StreamEvent) : atoms (a ++ b) = atoms a ++ atoms b :=
  List.flatMap_append

/-- Puts an event in front. Output is joined to output, and empty output is dropped. -/
def joinEvent : StreamEvent → List StreamEvent → List StreamEvent
  | .terminalOutput [], events => events
  | .terminalOutput bytes, .terminalOutput more :: events => .terminalOutput (bytes ++ more) :: events
  | event, events => event :: events

/-- Events with adjacent output joined and empty output dropped. -/
def joined (events : List StreamEvent) : List StreamEvent := events.foldr joinEvent []

def regroup (atoms : List Atom) : List StreamEvent :=
  atoms.foldr (fun atom events =>
    match atom with
    | .byte value => joinEvent (.terminalOutput [value]) events
    | .event event => joinEvent event events) []

theorem joinEvent_cons (value : UInt8) (bytes : Bytes) (events : List StreamEvent) :
    joinEvent (.terminalOutput (value :: bytes)) events =
      joinEvent (.terminalOutput [value]) (joinEvent (.terminalOutput bytes) events) := by
  cases bytes with
  | nil => rfl
  | cons next bytes =>
    match events with
    | [] => rfl
    | .terminalOutput more :: events => rfl
    | .controlModeEntered :: events => rfl
    | .control event :: events => rfl
    | .controlModeExited :: events => rfl

theorem joined_eq_regroup (events : List StreamEvent) : joined events = regroup (atoms events) := by
  induction events with
  | nil => rfl
  | cons event events ih =>
    have hstep : joined (event :: events) = joinEvent event (regroup (atoms events)) := by
      rw [← ih]
      rfl
    rw [hstep, atoms_cons]
    cases event with
    | terminalOutput bytes =>
      induction bytes with
      | nil => rfl
      | cons value bytes ihBytes =>
        rw [joinEvent_cons, ihBytes]
        · rfl
        · exact congrArg (joinEvent _) ih
    | controlModeEntered => rfl
    | control event => rfl
    | controlModeExited => rfl

/-- Events that show the same are the same once they are joined. -/
theorem joined_eq_of_atoms {a b : List StreamEvent} (h : atoms a = atoms b) :
    joined a = joined b := by
  rw [joined_eq_regroup, joined_eq_regroup, h]

/-! ## What the rounds look for -/

/-- How far two strings agree. -/
def agreement (a b : Bytes) : Nat := ((a.zip b).takeWhile fun p => p.1 = p.2).length

theorem take_zip_take (a b : Bytes) (n : Nat) (hn : n = min b.length a.length) :
    (a.take n).zip (b.take n) = a.zip b := by
  subst hn
  induction a generalizing b with
  | nil => simp
  | cons x a ih =>
    cases b with
    | nil => simp
    | cons y b => simpa [Nat.succ_min_succ] using ih b

/-- The search with something matched, by how far the input agrees with the rest of the marker. -/
theorem scan_agreement (input : Bytes) (k : Nat) (hk : k < controlModeEnter.length) :
    let matched := agreement (controlModeEnter.drop k) input
    marker.scan k input =
      if k + matched = controlModeEnter.length then .found [] (input.drop matched)
      else if matched < min input.length (controlModeEnter.length - k) then
        (marker.scan 0 (input.drop matched)).release (controlModeEnter.take (k + matched))
      else .pending [] (k + matched) := by
  induction input generalizing k with
  | nil =>
    simp only [agreement, List.zip_nil_right, List.takeWhile_nil, List.length_nil, Nat.add_zero,
      Nat.zero_min, Nat.lt_irrefl, if_false]
    rw [if_neg (by omega), Marker.scan]
  | cons byte rest ih =>
    have hdrop := List.drop_eq_getElem_cons hk
    by_cases hmatch : controlModeEnter[k] = byte
    · have hsome : marker.symbols[k]? = some byte := by
        rw [marker_symbols, List.getElem?_eq_getElem hk, hmatch]
      have hmatched : agreement (controlModeEnter.drop k) (byte :: rest) =
          agreement (controlModeEnter.drop (k + 1)) rest + 1 := by
        unfold agreement
        rw [hdrop, List.zip_cons_cons, List.takeWhile_cons_of_pos (by simpa using hmatch)]
        rfl
      by_cases hlast : k + 1 = controlModeEnter.length
      · have hzero : agreement (controlModeEnter.drop (k + 1)) rest = 0 := by
          rw [List.drop_eq_nil_of_le (by omega)]
          rfl
        dsimp only
        rw [hmatched, hzero, Nat.zero_add, if_pos hlast, Marker.scan_last hsome hlast]
        rfl
      · have hnext := ih (k + 1) (by omega)
        dsimp only at hnext ⊢
        rw [hmatched, Marker.scan_match hsome (by rw [marker_symbols]; omega), hnext]
        simp only [List.length_cons, List.drop_succ_cons, Nat.add_right_comm k 1, ← Nat.add_assoc]
        congr 1
        have hbound : agreement (controlModeEnter.drop (k + 1)) rest <
            min rest.length (controlModeEnter.length - (k + 1)) ↔
              agreement (controlModeEnter.drop (k + 1)) rest + 1 <
                min (rest.length + 1) (controlModeEnter.length - k) := by omega
        simp only [hbound]
    · have hnone : marker.symbols[k]? ≠ some byte := by
        rw [marker_symbols, List.getElem?_eq_getElem hk]
        simpa using hmatch
      have hmatched : agreement (controlModeEnter.drop k) (byte :: rest) = 0 := by
        unfold agreement
        rw [hdrop, List.zip_cons_cons, List.takeWhile_cons_of_neg (by simpa using hmatch)]
        rfl
      dsimp only
      rw [hmatched, if_neg (by omega), if_pos (by simp only [List.length_cons]; omega),
        Marker.scan_mismatch hnone (by decide)]
      rfl

/-- Where the marker starts first. -/
theorem findMarker_some {input : Bytes} {offset : Nat} (h : findMarker input = some offset) :
    ∃ rest, input = input.take offset ++ (controlModeEnter ++ rest) ∧
      input.drop (offset + controlModeEnter.length) = rest ∧
      ∀ y z, input.take offset = y ++ z → z ≠ [] →
        ¬ controlModeEnter <+: z ++ (controlModeEnter ++ rest) := by
  induction input generalizing offset with
  | nil => cases h
  | cons byte input ih =>
    rw [findMarker] at h
    split at h
    · next hfront =>
      obtain rfl := Option.some.inj h
      obtain ⟨rest, hrest⟩ := List.isPrefixOf_iff_prefix.mp hfront
      refine ⟨rest, hrest.symm, ?_, fun y z hyz hz => ?_⟩
      · rw [← hrest, Nat.zero_add, List.drop_left]
      · simp only [List.take_zero, List.nil_eq_append_iff] at hyz
        exact absurd hyz.2 hz
    · next hfront =>
      obtain ⟨offset, hoffset, rfl⟩ := Option.map_eq_some_iff.mp h
      obtain ⟨rest, hinput, hdrop, hbefore⟩ := ih hoffset
      refine ⟨rest, ?_, ?_, fun y z hyz hz => ?_⟩
      · rw [List.take_succ_cons, List.cons_append, ← hinput]
      · rw [Nat.add_right_comm, List.drop_succ_cons]
        exact hdrop
      · cases y with
        | nil =>
          rw [List.take_succ_cons, List.nil_append] at hyz
          rw [← hyz, List.cons_append, ← hinput]
          exact fun hstarts => hfront (List.isPrefixOf_iff_prefix.mpr hstarts)
        | cons a y =>
          rw [List.take_succ_cons, List.cons_append, List.cons.injEq] at hyz
          exact hbefore y z hyz.2 hz

theorem findMarker_none {input : Bytes} (h : findMarker input = none) {y z : Bytes}
    (hsplit : input = y ++ z) : ¬ controlModeEnter <+: z := by
  induction input generalizing y with
  | nil =>
    obtain ⟨-, rfl⟩ := List.append_eq_nil_iff.mp hsplit.symm
    decide
  | cons byte input ih =>
    rw [findMarker] at h
    split at h
    · cases h
    · next hfront =>
      cases y with
      | nil =>
        rw [List.nil_append] at hsplit
        rw [← hsplit]
        exact fun hstarts => hfront (List.isPrefixOf_iff_prefix.mpr hstarts)
      | cons a y =>
        rw [List.cons_append, List.cons.injEq] at hsplit
        exact ih (by simpa using h) hsplit.2

/-- The bytes end with so much of the marker, and with no more of it. -/
theorem trailingEntryPrefixLen_spec (bytes : Bytes) :
    controlModeEnter.take (trailingEntryPrefixLen bytes) <:+ bytes ∧
      trailingEntryPrefixLen bytes ≤ min bytes.length (controlModeEnter.length - 1) ∧
      ∀ length, trailingEntryPrefixLen bytes < length →
        length ≤ min bytes.length (controlModeEnter.length - 1) →
          ¬ controlModeEnter.take length <:+ bytes := by
  unfold trailingEntryPrefixLen
  dsimp only
  generalize hmaximum : min bytes.length (controlModeEnter.length - 1) = maximum
  cases hfind : (List.range' 1 maximum).reverse.find? fun length =>
      (controlModeEnter.take length).isSuffixOf bytes with
  | none =>
    rw [Option.getD_none]
    refine ⟨List.nil_suffix, Nat.zero_le _, fun length hpos hle hsuffix => ?_⟩
    rw [List.find?_eq_none] at hfind
    refine hfind length ?_ (List.isSuffixOf_iff_suffix.mpr hsuffix)
    rw [List.mem_reverse, List.mem_range'_1]
    omega
  | some found =>
    rw [Option.getD_some]
    obtain ⟨hsuffix, front, back, hsplit, hfront⟩ := List.find?_eq_some_iff_append.mp hfind
    have hmem : found ∈ List.range' 1 maximum := by
      rw [← List.mem_reverse, hsplit]
      simp
    rw [List.mem_range'_1] at hmem
    refine ⟨List.isSuffixOf_iff_suffix.mp hsuffix, by omega, fun length hlt hle hlonger => ?_⟩
    -- A longer one would come first.
    have hmemLonger : length ∈ front ++ found :: back := by
      rw [← hsplit, List.mem_reverse, List.mem_range'_1]
      omega
    have hsorted : (front ++ found :: back).Pairwise (· > ·) := by
      rw [← hsplit, List.pairwise_reverse]
      exact List.pairwise_lt_range'
    rcases List.mem_append.mp hmemLonger with hin | hin
    · have hnot := hfront length hin
      rw [List.isSuffixOf_iff_suffix.mpr hlonger] at hnot
      cases hnot
    · rcases List.mem_cons.mp hin with rfl | hin
      · omega
      · have hgt := (List.pairwise_cons.mp (List.pairwise_append.mp hsorted).2.1).1 length hin
        omega

/-- The search from the start, where the marker is found. -/
theorem scan_findMarker_some {input : Bytes} {offset : Nat} (h : findMarker input = some offset) :
    marker.scan 0 input =
      .found (input.take offset) (input.drop (offset + controlModeEnter.length)) := by
  obtain ⟨rest, hinput, hdrop, hbefore⟩ := findMarker_some h
  rw [hdrop]
  conv_lhs => rw [hinput]
  rw [Marker.scan_append (by decide), ← marker_symbols, Marker.scan_symbols]
  · simp [Marker.Scan.release]
  · intro y z hyz hz
    refine ⟨hbefore y z hyz hz, fun hheld => ?_⟩
    have hlength := hheld.length_le
    have hpos := List.length_pos_iff.mpr hz
    simp only [marker_symbols, List.length_append] at hlength
    omega

/-- The search from the start, where the marker is not found. -/
theorem scan_findMarker_none {input : Bytes} (h : findMarker input = none) :
    marker.scan 0 input =
      .pending (input.take (input.length - trailingEntryPrefixLen input))
        (trailingEntryPrefixLen input) := by
  obtain ⟨⟨front, hfront⟩, hle, hlongest⟩ := trailingEntryPrefixLen_spec input
  generalize trailingEntryPrefixLen input = held at hfront hle hlongest ⊢
  have hheld : (controlModeEnter.take held).length = held := by
    rw [List.length_take]
    omega
  have hlength : input.length - held = front.length := by
    rw [← hfront, List.length_append, hheld]
    omega
  have htake : input.take (input.length - held) = front := by
    rw [hlength, ← hfront, List.take_left]
  rw [htake]
  conv_lhs => rw [← hfront]
  have hne : controlModeEnter.take held ≠ marker.symbols := by
    intro heq
    have hall := congrArg List.length heq
    rw [hheld, marker_symbols, length_controlModeEnter] at hall
    rw [length_controlModeEnter] at hle
    omega
  have hstarts : marker.scan 0 (controlModeEnter.take held) =
      .pending [] (controlModeEnter.take held).length :=
    Marker.scan_prefix (List.take_prefix _ _) hne
  rw [Marker.scan_append (by decide), hstarts]
  · simp [Marker.Scan.release, hheld]
  · intro y z hyz hz
    have hsplit : input = y ++ (z ++ controlModeEnter.take held) := by
      rw [← hfront, hyz, List.append_assoc]
    refine ⟨findMarker_none h hsplit, fun hstart => ?_⟩
    -- The input would end with more of the marker.
    have hsuffix : z ++ controlModeEnter.take held <:+ input := ⟨y, hsplit.symm⟩
    have hpos := List.length_pos_iff.mpr hz
    have hstartLength := hstart.length_le
    have hnot : (z ++ controlModeEnter.take held).length ≠ controlModeEnter.length := fun heq =>
      findMarker_none h hsplit (hstart.eq_of_length heq ▸ List.prefix_refl _)
    rw [List.prefix_iff_eq_take.mp hstart] at hsuffix
    refine hlongest _ ?_ ?_ hsuffix
    · rw [List.length_append, hheld]
      omega
    · have hinputLength := hsuffix.length_le
      rw [marker_symbols, List.length_take] at hinputLength
      rw [marker_symbols] at hstartLength
      omega

/-! ## One byte -/

namespace ControlStream

/-- The pending line is complete. -/
def endLine (stream : ControlStream) : ControlStream × List StreamEvent :=
  let (stream', events) := stream.emitLine (trimCarriageReturn stream.pendingLine)
  ({ stream' with pendingLine := [] }, events)

/-- The control section is over. -/
def leave (stream : ControlStream) : ControlStream × List StreamEvent :=
  let (stream', events) := stream.emitPendingLine
  ({ stream' with
      pendingControlEscape := false
      exitAnnounced := false
      mode := .terminal
      parser := stream'.parser.reset },
    events ++ [.controlModeExited])

/-- What a byte of a line does. -/
def takeInLine (stream : ControlStream) (byte : UInt8) : ControlStream × List StreamEvent :=
  if byte = newline then stream.endLine
  else if byte = escape then ({ stream with pendingControlEscape := true }, [])
  else ({ stream with pendingLine := stream.pendingLine ++ [byte] }, [])

/-- The escape that is pending belongs to the line. -/
def keepEscape (stream : ControlStream) : ControlStream :=
  { stream with pendingLine := stream.pendingLine ++ [escape], pendingControlEscape := false }

/-- What a byte does. -/
def take (stream : ControlStream) (byte : UInt8) : ControlStream × List StreamEvent :=
  match stream.mode with
  | .terminal =>
    let matched := stream.enterMatchBytes
    if controlModeEnter[matched]? = some byte then
      if matched + 1 = controlModeEnter.length then (stream.enter, [.controlModeEntered])
      else ({ stream with enterMatchBytes := matched + 1 }, [])
    else if byte = escape then
      ({ stream with enterMatchBytes := 1 }, [.terminalOutput (controlModeEnter.take matched)])
    else
      ({ stream with enterMatchBytes := 0 },
        [.terminalOutput (controlModeEnter.take matched ++ [byte])])
  | .control =>
    if stream.pendingControlEscape then
      if byte = backslash ∧ stream.exitAnnounced then stream.leave
      else stream.keepEscape.takeInLine byte
    else stream.takeInLine byte

/-- What bytes do, one after the other. -/
def read : ControlStream → Bytes → ControlStream × List StreamEvent
  | stream, [] => (stream, [])
  | stream, byte :: rest =>
    let (stream', events) := stream.take byte
    let (stream'', later) := read stream' rest
    (stream'', events ++ later)

theorem read_cons (stream : ControlStream) (byte : UInt8) (rest : Bytes) :
    stream.read (byte :: rest) = (((stream.take byte).1.read rest).1,
      (stream.take byte).2 ++ ((stream.take byte).1.read rest).2) := rfl

theorem read_append (stream : ControlStream) (a b : Bytes) :
    stream.read (a ++ b) = (((stream.read a).1.read b).1,
      (stream.read a).2 ++ ((stream.read a).1.read b).2) := by
  induction a generalizing stream with
  | nil => rfl
  | cons byte a ih => rw [List.cons_append, read_cons, read_cons, ih, List.append_assoc]

/-- Reading shows these events, and goes on like this. -/
def Shows (result : ControlStream × List StreamEvent) (events : List StreamEvent)
    (later : ControlStream × List StreamEvent) : Prop :=
  result.1 = later.1 ∧ atoms result.2 = atoms events ++ atoms later.2

/-! ## Outside of control sections -/

/-- What a search for the marker comes to. -/
def searched (stream : ControlStream) : Marker.Scan UInt8 → ControlStream × List StreamEvent
  | .found released rest =>
    ((stream.enter.read rest).1,
      .terminalOutput released :: .controlModeEntered :: (stream.enter.read rest).2)
  | .pending released matched =>
    ({ stream with enterMatchBytes := matched }, [.terminalOutput released])

theorem shows_release (stream : ControlStream) (released : Bytes) (scan : Marker.Scan UInt8) :
    Shows (stream.searched (scan.release released)) [.terminalOutput released]
      (stream.searched scan) := by
  cases scan with
  | found x rest => simp [Shows, searched, Marker.Scan.release, StreamEvent.atoms]
  | pending x k => simp [Shows, searched, Marker.Scan.release, StreamEvent.atoms]

/-- **Outside of control sections the stream is searched for the marker.** -/
theorem read_terminal {stream : ControlStream} (hmode : stream.mode = .terminal)
    (input : Bytes) (k : Nat) (hk : k < controlModeEnter.length) :
    Shows ({ stream with enterMatchBytes := k }.read input) []
      (stream.searched (marker.scan k input)) := by
  induction input generalizing k with
  | nil => exact ⟨rfl, rfl⟩
  | cons byte rest ih =>
    rw [read_cons]
    by_cases hmatch : controlModeEnter[k]? = some byte
    · by_cases hlast : k + 1 = controlModeEnter.length
      · rw [Marker.scan_last hmatch hlast]
        have htake : { stream with enterMatchBytes := k }.take byte =
            (stream.enter, [.controlModeEntered]) := by
          simp only [take, hmode, if_pos hmatch, if_pos hlast]
          rfl
        rw [htake]
        exact ⟨rfl, rfl⟩
      · rw [Marker.scan_match hmatch (by rw [marker_symbols]; omega)]
        have htake : { stream with enterMatchBytes := k }.take byte =
            ({ stream with enterMatchBytes := k + 1 }, []) := by
          simp only [take, hmode, if_pos hmatch, if_neg hlast]
        rw [htake]
        exact ih (k + 1) (by omega)
    · -- What has matched is released, and the byte is searched anew.
      by_cases hescape : byte = escape
      · subst hescape
        rw [Marker.scan, marker_symbols, marker_first, if_neg hmatch, if_pos rfl]
        have htake : { stream with enterMatchBytes := k }.take escape =
            ({ stream with enterMatchBytes := 1 },
              [.terminalOutput (controlModeEnter.take k)]) := by
          simp only [take, hmode, if_neg hmatch, if_true]
        rw [htake]
        obtain ⟨hstate, hatoms⟩ := ih 1 (by decide)
        obtain ⟨hstate', hatoms'⟩ := shows_release stream (controlModeEnter.take k)
          (marker.scan 1 rest)
        refine ⟨hstate.trans hstate'.symm, ?_⟩
        rw [atoms_append, hatoms, atoms_nil, List.nil_append]
        exact hatoms'.symm
      · rw [Marker.scan, marker_symbols, marker_first, if_neg hmatch, if_neg hescape]
        have htake : { stream with enterMatchBytes := k }.take byte =
            ({ stream with enterMatchBytes := 0 },
              [.terminalOutput (controlModeEnter.take k ++ [byte])]) := by
          simp only [take, hmode, if_neg hmatch, if_neg hescape]
        rw [htake]
        obtain ⟨hstate, hatoms⟩ := ih 0 (by decide)
        obtain ⟨hstate', hatoms'⟩ := shows_release stream (controlModeEnter.take k ++ [byte])
          (marker.scan 0 rest)
        refine ⟨hstate.trans hstate'.symm, ?_⟩
        rw [atoms_append, hatoms, atoms_nil, List.nil_append]
        exact hatoms'.symm

/-! ## Rounds -/

theorem Shows.symm {a b : ControlStream × List StreamEvent} (h : Shows a [] b) : Shows b [] a :=
  ⟨h.1.symm, h.2.symm⟩

theorem Shows.trans {a b c : ControlStream × List StreamEvent} {events more : List StreamEvent}
    (hab : Shows a events b) (hbc : Shows b more c) : Shows a (events ++ more) c :=
  ⟨hab.1.trans hbc.1, by rw [hab.2, hbc.2, atoms_append, List.append_assoc]⟩

theorem Shows.after {a b c : ControlStream × List StreamEvent} {events : List StreamEvent}
    (hab : Shows a [] b) (hbc : Shows b events c) : Shows a events c := hab.trans hbc

/-- The marker is not complete. -/
def Aligned (stream : ControlStream) : Prop :=
  stream.enterMatchBytes < controlModeEnter.length

/-- Whether something is pending that a round can settle without using a byte. -/
def weight (stream : ControlStream) : Nat :=
  match stream.mode with
  | .terminal => if stream.enterMatchBytes = 0 then 0 else 1
  | .control => if stream.pendingControlEscape then 1 else 0

theorem weight_le (stream : ControlStream) : stream.weight ≤ 1 := by
  unfold weight
  split <;> split <;> omega

/-- What a round must do: show what its bytes show, and get closer to the end of the input. -/
structure Reads (stream : ControlStream) (input : Bytes) (round : Round) : Prop where
  shows : Shows (stream.read input) round.events (round.stream.read round.rest)
  aligned : round.stream.Aligned
  closer : round.stream.weight + 2 * round.rest.length < stream.weight + 2 * input.length

/-- A round that uses some of the input gets closer to its end. -/
theorem closer_of_shorter (stream later : ControlStream) {input rest : Bytes}
    (h : rest.length < input.length) :
    later.weight + 2 * rest.length < stream.weight + 2 * input.length := by
  have hlater := weight_le later
  omega

/-- Output is emitted unless it is empty. -/
theorem atoms_output (input : Bytes) (n : Nat) :
    atoms (if n ≠ 0 then [StreamEvent.terminalOutput (input.take n)] else []) =
      atoms [.terminalOutput (input.take n)] := by
  by_cases h : n = 0
  · subst h
    rfl
  · rw [if_pos h]

theorem agreement_le (a b : Bytes) : agreement a b ≤ min a.length b.length := by
  unfold agreement
  exact (List.takeWhile_sublist _).length_le.trans (by rw [List.length_zip])

theorem terminalRound_reads {stream : ControlStream} (hmode : stream.mode = .terminal)
    (haligned : stream.Aligned) {input : Bytes} (hinput : input ≠ []) :
    stream.Reads input (stream.terminalRound input) := by
  have hk : stream.enterMatchBytes < controlModeEnter.length := haligned
  have hpos := List.length_pos_iff.mpr hinput
  have hread : Shows (stream.read input) [] (stream.searched (marker.scan stream.enterMatchBytes
      input)) := read_terminal hmode input stream.enterMatchBytes haligned
  have hweight : stream.weight = if stream.enterMatchBytes = 0 then 0 else 1 := by
    unfold weight
    rw [hmode]
  unfold terminalRound
  split
  · next hmatching =>
    have hmatched : agreement (controlModeEnter.drop stream.enterMatchBytes) input =
        ((((controlModeEnter.drop stream.enterMatchBytes).take (min input.length
          (controlModeEnter.length - stream.enterMatchBytes))).zip (input.take (min input.length
            (controlModeEnter.length - stream.enterMatchBytes)))).takeWhile
              fun p => p.1 = p.2).length := by
      rw [take_zip_take _ _ _ (by rw [List.length_drop]), agreement]
    have hle := agreement_le (controlModeEnter.drop stream.enterMatchBytes) input
    have hscan := scan_agreement input stream.enterMatchBytes haligned
    dsimp only at hscan ⊢
    rw [← hmatched]
    rw [List.length_drop] at hle
    generalize agreement (controlModeEnter.drop stream.enterMatchBytes) input = matched at *
    rw [hscan] at hread
    rw [if_neg hmatching] at hweight
    split
    · -- The marker is complete.
      next hcomplete =>
      rw [if_pos hcomplete] at hread
      refine ⟨hread.after ⟨rfl, rfl⟩, Nat.zero_lt_succ _, closer_of_shorter _ _ ?_⟩
      rw [List.length_drop]
      omega
    · next hincomplete =>
      rw [if_neg hincomplete] at hread
      split
      · -- The input goes on in another way.
        next hdiffers =>
        rw [if_pos hdiffers] at hread
        refine ⟨?_, Nat.zero_lt_succ _, ?_⟩
        · exact (hread.trans (shows_release _ _ _)).trans
            (read_terminal hmode _ 0 (by decide)).symm
        · have hzero : weight { stream with enterMatchBytes := 0 } = 0 := by
            unfold weight
            simp only [hmode, if_true]
          rw [hzero, List.length_drop]
          omega
      · next hagrees =>
        rw [if_neg hagrees] at hread
        have hall : input.drop matched = [] := List.drop_eq_nil_of_le (by omega)
        rw [hall]
        refine ⟨hread.after ⟨rfl, rfl⟩, ?_, closer_of_shorter _ _ hpos⟩
        show stream.enterMatchBytes + matched < controlModeEnter.length
        omega
  · next hstart =>
    have hzero : stream.enterMatchBytes = 0 := by simpa using hstart
    rw [hzero] at hread hweight
    split
    · next offset hfind =>
      rw [scan_findMarker_some hfind] at hread
      refine ⟨hread.after ⟨rfl, ?_⟩, Nat.zero_lt_succ _, closer_of_shorter _ _ ?_⟩
      · simp only [searched, atoms_append, atoms_output, atoms_cons, atoms_nil, List.append_nil,
          List.append_assoc]
      · rw [List.length_drop, length_controlModeEnter]
        omega
    · next hfind =>
      rw [scan_findMarker_none hfind] at hread
      have hheld := (trailingEntryPrefixLen_spec input).2.1
      generalize trailingEntryPrefixLen input = held at *
      dsimp only
      refine ⟨hread.after ⟨rfl, ?_⟩, ?_, closer_of_shorter _ _ hpos⟩
      · rw [atoms_output]
        exact (List.append_nil _).symm
      · show held < controlModeEnter.length
        rw [length_controlModeEnter] at hheld ⊢
        omega

theorem take_line (stream : ControlStream) (hmode : stream.mode = .control)
    (hescape : stream.pendingControlEscape = false) (byte : UInt8) :
    stream.take byte = stream.takeInLine byte := by
  simp only [take, hmode, hescape, Bool.false_eq_true, if_false]

/-- A line up to its first newline or escape. -/
theorem exists_line (input : Bytes) :
    ∃ text tail, input = text ++ tail ∧
      input.takeWhile (fun byte => byte ≠ newline ∧ byte ≠ escape) = text ∧
      (∀ byte ∈ text, byte ≠ newline ∧ byte ≠ escape) ∧
      ∀ byte rest, tail = byte :: rest → byte ≠ newline → byte = escape := by
  induction input with
  | nil => exact ⟨[], [], rfl, rfl, by simp, fun _ _ h => by cases h⟩
  | cons byte input ih =>
    by_cases hbyte : byte ≠ newline ∧ byte ≠ escape
    · obtain ⟨text, tail, rfl, htake, htext, htail⟩ := ih
      refine ⟨byte :: text, tail, rfl, ?_, List.forall_mem_cons.mpr ⟨hbyte, htext⟩, htail⟩
      rw [List.takeWhile_cons_of_pos (by simpa using hbyte), htake]
    · refine ⟨[], byte :: input, rfl, List.takeWhile_cons_of_neg (by simpa using hbyte), by simp, ?_⟩
      rintro b rest h hnewline
      obtain ⟨rfl, -⟩ := List.cons.inj h
      by_contra hescape
      exact hbyte ⟨hnewline, hescape⟩

/-- The stream with more text in the pending line. -/
def extend (stream : ControlStream) (text : Bytes) : ControlStream :=
  { stream with pendingLine := stream.pendingLine ++ text }

/-- Bytes of a line are added to it. -/
theorem read_text (stream : ControlStream) (hmode : stream.mode = .control)
    (hescape : stream.pendingControlEscape = false) (text rest : Bytes)
    (htext : ∀ byte ∈ text, byte ≠ newline ∧ byte ≠ escape) :
    stream.read (text ++ rest) = (stream.extend text).read rest := by
  induction text generalizing stream with
  | nil =>
    unfold extend
    rw [List.append_nil]
    rfl
  | cons byte text ih =>
    obtain ⟨hnewline, hnot⟩ := htext byte List.mem_cons_self
    rw [List.cons_append, read_cons, take_line stream hmode hescape, takeInLine, if_neg hnewline,
      if_neg hnot]
    have hnext := ih (stream.extend [byte]) hmode hescape fun b hb =>
      htext b (List.mem_cons_of_mem byte hb)
    have hboth : (stream.extend [byte]).extend text = stream.extend (byte :: text) := by
      unfold extend
      dsimp only
      rw [List.append_assoc]
      rfl
    rw [hboth] at hnext
    exact hnext

/-- Adding to the pending line, if it does not fail. -/
theorem appendPending_ok {stream stream' : ControlStream} {bytes : Bytes}
    (h : stream.appendPending bytes = (stream', none)) :
    stream' = stream.extend bytes := by
  unfold appendPending at h
  split at h
  · exact (Prod.mk.inj h).1.symm
  · cases (Prod.mk.inj h).2

theorem emitPendingLine_eq (stream : ControlStream) (h : stream.pendingLine ≠ []) :
    stream.emitPendingLine = stream.endLine := if_neg h

theorem emitPendingLine_matched (stream : ControlStream) :
    stream.emitPendingLine.1.enterMatchBytes = stream.enterMatchBytes := by
  unfold emitPendingLine
  split <;> rfl

theorem escapeRound_reads {stream : ControlStream} (hmode : stream.mode = .control)
    (hescape : stream.pendingControlEscape = true) (haligned : stream.Aligned) (byte : UInt8) (rest : Bytes)
    (hok : (stream.escapeRound byte rest).error = none) :
    stream.Reads (byte :: rest) (stream.escapeRound byte rest) := by
  unfold escapeRound at hok ⊢
  split
  · next hexit =>
    have htake : stream.take byte = stream.leave := by
      simp only [take, hmode, hescape, if_true, if_pos hexit]
    refine ⟨⟨?_, ?_⟩, ?_, closer_of_shorter _ _ (Nat.lt_succ_self _)⟩
    · rw [read_cons, htake]
      rfl
    · rw [read_cons, htake, atoms_append]
      rfl
    · show stream.emitPendingLine.1.enterMatchBytes < _
      rw [emitPendingLine_matched]
      exact haligned
  · next hkept =>
    rw [if_neg hkept] at hok
    split
    · next stream' error happend =>
      rw [happend] at hok
      cases hok
    · next stream' happend =>
      obtain rfl := appendPending_ok happend
      have htake : stream.take byte = stream.keepEscape.take byte := by
        rw [take_line stream.keepEscape hmode rfl]
        simp only [take, hmode, hescape, if_true, if_neg hkept]
      refine ⟨⟨?_, ?_⟩, haligned, ?_⟩
      · rw [read_cons, htake]
        rfl
      · rw [read_cons, htake]
        rfl
      · have hone : stream.weight = 1 := by
          unfold weight
          simp only [hmode, hescape, if_true]
        have hzero : stream.keepEscape.weight = 0 := by
          unfold weight
          simp only [keepEscape, hmode, Bool.false_eq_true, if_false]
        show stream.keepEscape.weight + 2 * (byte :: rest).length < _
        omega

theorem lineRound_reads {stream : ControlStream} (hmode : stream.mode = .control)
    (hescape : stream.pendingControlEscape = false) (haligned : stream.Aligned) {input : Bytes}
    (hinput : input ≠ [])
    (hok : (stream.lineRound input).error = none) :
    stream.Reads input (stream.lineRound input) := by
  obtain ⟨text, tail, rfl, htake, htext, hhead⟩ := exists_line input
  unfold lineRound at hok ⊢
  rw [htake] at hok ⊢
  dsimp only at hok ⊢
  rw [List.drop_left] at hok ⊢
  have hread := read_text stream hmode hescape text tail htext
  cases tail with
  | nil =>
    dsimp only at hok ⊢
    rcases happend : stream.appendPending text with ⟨stream', _ | error⟩
    · obtain rfl := appendPending_ok happend
      refine ⟨⟨?_, ?_⟩, haligned, closer_of_shorter _ _ (List.length_pos_iff.mpr hinput)⟩
      · rw [hread]
      · rw [hread]
        rfl
    · simp only [happend] at hok
      cases hok
  | cons delimiter rest =>
    have hshorter : rest.length < (text ++ delimiter :: rest).length := by
      rw [List.length_append, List.length_cons]
      omega
    dsimp only at hok ⊢
    by_cases hdelimiter : delimiter = newline
    · subst hdelimiter
      rw [if_pos rfl] at hok ⊢
      rw [read_cons, take_line (stream.extend text) hmode hescape, takeInLine, if_pos rfl] at hread
      by_cases hempty : stream.pendingLine = []
      · -- The line is in the input.
        rw [if_pos hempty] at hok ⊢
        cases hcheck : stream.checkLineLength text.length with
        | some error =>
          rw [hcheck] at hok
          cases hok
        | none =>
          refine ⟨?_, haligned, closer_of_shorter _ _ hshorter⟩
          have hline : (stream.extend text).endLine =
              stream.emitLine (trimCarriageReturn text) := by
            unfold extend
            rw [hempty, List.nil_append]
            conv_rhs => rw [show stream = { stream with pendingLine := [] } by rw [← hempty]]
            rfl
          rw [hline] at hread
          exact ⟨by rw [hread], by rw [hread, atoms_append]⟩
      · rw [if_neg hempty] at hok ⊢
        rcases happend : stream.appendPending text with ⟨stream', _ | error⟩
        · obtain rfl := appendPending_ok happend
          have hline := emitPendingLine_eq (stream.extend text) (by simp [extend, hempty])
          dsimp only
          rw [hline]
          refine ⟨?_, haligned, closer_of_shorter _ _ hshorter⟩
          exact ⟨by rw [hread], by rw [hread, atoms_append]⟩
        · simp only [happend] at hok
          cases hok
    · rw [if_neg hdelimiter] at hok ⊢
      obtain rfl := hhead delimiter rest rfl hdelimiter
      rw [read_cons, take_line (stream.extend text) hmode hescape, takeInLine, if_neg hdelimiter,
        if_pos rfl] at hread
      rcases happend : stream.appendPending text with ⟨stream', _ | error⟩
      · obtain rfl := appendPending_ok happend
        refine ⟨?_, haligned, closer_of_shorter _ _ hshorter⟩
        exact ⟨by rw [hread], by rw [hread]; rfl⟩
      · simp only [happend] at hok
        cases hok

/-- **A round that does not fail is what its bytes do.** -/
theorem round_reads {stream : ControlStream} (haligned : stream.Aligned) (byte : UInt8)
    (rest : Bytes) (hok : (stream.round byte rest).error = none) :
    stream.Reads (byte :: rest) (stream.round byte rest) := by
  unfold round at hok ⊢
  split
  · next hmode => exact terminalRound_reads hmode haligned (List.cons_ne_nil byte rest)
  · next hmode =>
    rw [hmode] at hok
    dsimp only at hok
    split
    · next hescape =>
      rw [if_pos hescape] at hok
      exact escapeRound_reads hmode hescape haligned byte rest hok
    · next hescape =>
      rw [if_neg hescape] at hok
      exact lineRound_reads hmode (by simpa using hescape) haligned (List.cons_ne_nil byte rest) hok

/-- Rounds use up the input, or one of them fails. -/
theorem rounds_reads {stream : ControlStream} (haligned : stream.Aligned) (fuel : Nat)
    (input : Bytes) (hfuel : stream.weight + 2 * input.length ≤ fuel)
    (hok : (rounds fuel stream input).error = none) :
    (rounds fuel stream input).rest = [] ∧ (rounds fuel stream input).stream.Aligned ∧
      Shows (stream.read input) (rounds fuel stream input).events
        ((rounds fuel stream input).stream, []) := by
  induction fuel generalizing stream input with
  | zero =>
    obtain rfl : input = [] := List.length_eq_zero_iff.mp (by omega)
    exact ⟨rfl, haligned, rfl, rfl⟩
  | succ fuel ih =>
    cases input with
    | nil => exact ⟨rfl, haligned, rfl, rfl⟩
    | cons byte rest =>
      simp only [rounds] at hok ⊢
      cases herror : (stream.round byte rest).error with
      | some error =>
        rw [herror] at hok
        dsimp only at hok
        rw [herror] at hok
        cases hok
      | none =>
        rw [herror] at hok
        obtain ⟨hshows, haligned', hcloser⟩ := round_reads haligned byte rest herror
        obtain ⟨hrest, hend, hlater⟩ := ih haligned' _ (by omega) hok
        exact ⟨hrest, hend, hshows.trans hlater⟩

/-- **A read that does not fail is what its bytes do.** -/
theorem advance_reads {stream : ControlStream} (haligned : stream.Aligned) (input : Bytes)
    (hok : (stream.advance input).error = none) :
    (stream.advance input).rest = [] ∧ (stream.advance input).stream.Aligned ∧
      Shows (stream.read input) (stream.advance input).events ((stream.advance input).stream, []) :=
  rounds_reads haligned _ input (by have := stream.weight_le; omega) hok

/-- **Reading in pieces is reading the whole**, where no piece fails. -/
theorem advanceAll_reads {stream : ControlStream} (haligned : stream.Aligned)
    (inputs : List Bytes) (hok : (advanceAll stream inputs).error = none) :
    Shows (stream.read inputs.flatten) (advanceAll stream inputs).events
      ((advanceAll stream inputs).stream, []) := by
  induction inputs generalizing stream with
  | nil => exact ⟨rfl, rfl⟩
  | cons input inputs ih =>
    simp only [advanceAll] at hok ⊢
    cases herror : (stream.advance input).error with
    | some error =>
      rw [herror] at hok
      dsimp only at hok
      rw [herror] at hok
      cases hok
    | none =>
      rw [herror] at hok
      obtain ⟨-, haligned', hstate, hatoms⟩ := advance_reads haligned input herror
      obtain ⟨hstate', hatoms'⟩ := ih haligned' hok
      rw [List.flatten_cons, read_append, show (stream.read input).1 = _ from hstate]
      refine ⟨hstate', ?_⟩
      rw [atoms_append, hatoms, hatoms', atoms_append, atoms_nil, List.append_nil, List.append_nil,
        List.append_nil]

end ControlStream

end OxideTerm.Tmux
