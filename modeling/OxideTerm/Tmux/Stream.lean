import OxideTerm.Tmux.Protocol

/-!
# Terminal output with control sections

A `tmux -CC` session is embedded in the output of a terminal: it starts with a marker, goes on with
lines and ends with an escape sequence. The stream is read in pieces that may be cut anywhere, so
that a marker, a line or an escape may continue in the next piece.
-/

namespace OxideTerm.Tmux

open OxideTerm.Lib (Bytes)

/-- The marker: escape, `P1000p`. -/
def controlModeEnter : Bytes := [0x1b, 0x50, 0x31, 0x30, 0x30, 0x30, 0x70]

inductive ControlStreamMode where
  | terminal
  | control
deriving DecidableEq

inductive StreamEvent where
  | terminalOutput (bytes : Bytes)
  | controlModeEntered
  | control (event : ControlEvent)
  | controlModeExited
deriving DecidableEq

structure ControlStreamError where
  lineBytes : Nat
  maximumLineBytes : Nat
deriving DecidableEq

structure ControlStream where
  mode : ControlStreamMode
  enterMatchBytes : Nat
  pendingLine : Bytes
  pendingControlEscape : Bool
  exitAnnounced : Bool
  maximumLineBytes : Nat
  parser : ControlParser
deriving DecidableEq

/-- What a round of one of the loops does: it uses some of the input and emits events, or fails. -/
structure Round where
  stream : ControlStream
  rest : Bytes
  events : List StreamEvent
  error : Option ControlStreamError
deriving DecidableEq

/-- Where the marker starts first. -/
def findMarker : Bytes → Option Nat
  | [] => none
  | byte :: rest =>
    if controlModeEnter.isPrefixOf (byte :: rest) then some 0 else (findMarker rest).map (· + 1)

/-- How much of the marker the bytes end with. -/
def trailingEntryPrefixLen (bytes : Bytes) : Nat :=
  let maximum := min bytes.length (controlModeEnter.length - 1)
  ((List.range' 1 maximum).reverse.find? fun length =>
    (controlModeEnter.take length).isSuffixOf bytes).getD 0

def trimCarriageReturn (line : Bytes) : Bytes :=
  if line.getLast? = some carriageReturn then line.dropLast else line

def isExit : ControlEvent → Bool
  | .notification (.exit _) => true
  | _ => false

namespace ControlStream

def withMaximumLineBytes (maximumLineBytes : Nat) : ControlStream :=
  { mode := .terminal
    enterMatchBytes := 0
    pendingLine := []
    pendingControlEscape := false
    exitAnnounced := false
    maximumLineBytes := max maximumLineBytes 1
    parser := .new }

variable (stream : ControlStream)

/-! ## Lines -/

def checkLineLength (lineBytes : Nat) : Option ControlStreamError :=
  if lineBytes ≤ stream.maximumLineBytes then none
  else some { lineBytes, maximumLineBytes := stream.maximumLineBytes }

/-- Adds to the pending line, if it does not get too long. -/
def appendPending (bytes : Bytes) : ControlStream × Option ControlStreamError :=
  match stream.checkLineLength (stream.pendingLine.length + bytes.length) with
  | none => ({ stream with pendingLine := stream.pendingLine ++ bytes }, none)
  | some error => (stream, some error)

def emitLine (line : Bytes) : ControlStream × List StreamEvent :=
  let (parser, event) := stream.parser.parseLine line
  ({ stream with parser, exitAnnounced := stream.exitAnnounced || isExit event },
    [.control event])

def emitPendingLine : ControlStream × List StreamEvent :=
  if stream.pendingLine = [] then (stream, [])
  else
    let (stream', events) := stream.emitLine (trimCarriageReturn stream.pendingLine)
    ({ stream' with pendingLine := [] }, events)

/-! ## Rounds -/

/-- A control section starts. -/
def enter : ControlStream :=
  { stream with
    enterMatchBytes := 0
    mode := .control
    parser := stream.parser.reset
    exitAnnounced := false }

/-- A round of the loop outside of control sections. -/
def terminalRound (input : Bytes) : Round :=
  if stream.enterMatchBytes ≠ 0 then
    let candidateStart := stream.enterMatchBytes
    let compareLen := min input.length (controlModeEnter.length - candidateStart)
    let continuation := (controlModeEnter.drop candidateStart).take compareLen
    let inputPrefix := input.take compareLen
    let matched := ((continuation.zip inputPrefix).takeWhile fun p => p.1 = p.2).length
    let stream' := { stream with enterMatchBytes := candidateStart + matched }
    let rest := input.drop matched
    if stream'.enterMatchBytes = controlModeEnter.length then
      { stream := stream'.enter, rest, events := [.controlModeEntered], error := none }
    else if matched < compareLen then
      { stream := { stream' with enterMatchBytes := 0 }
        rest
        events := [.terminalOutput (controlModeEnter.take stream'.enterMatchBytes)]
        error := none }
    else { stream := stream', rest, events := [], error := none }
  else
    match findMarker input with
    | some markerOffset =>
      let output :=
        if markerOffset ≠ 0 then [StreamEvent.terminalOutput (input.take markerOffset)] else []
      { stream := stream.enter
        rest := input.drop (markerOffset + controlModeEnter.length)
        events := output ++ [.controlModeEntered]
        error := none }
    | none =>
      let partialLen := trailingEntryPrefixLen input
      let terminalLen := input.length - partialLen
      let output :=
        if terminalLen ≠ 0 then [StreamEvent.terminalOutput (input.take terminalLen)] else []
      { stream := { stream with enterMatchBytes := partialLen }
        rest := []
        events := output
        error := none }

/-- A round after an escape within a control section, at the byte that follows. -/
def escapeRound (byte : UInt8) (rest : Bytes) : Round :=
  if byte = backslash ∧ stream.exitAnnounced then
    let (stream', events) := stream.emitPendingLine
    { stream :=
        { stream' with
          pendingControlEscape := false
          exitAnnounced := false
          mode := .terminal
          parser := stream'.parser.reset }
      rest
      events := events ++ [.controlModeExited]
      error := none }
  else
    match stream.appendPending [escape] with
    | (stream', some error) => { stream := stream', rest := byte :: rest, events := [], error }
    | (stream', none) =>
      { stream := { stream' with pendingControlEscape := false }
        rest := byte :: rest
        events := []
        error := none }

/-- A round within a control section, up to the next newline or escape. -/
def lineRound (input : Bytes) : Round :=
  let text := input.takeWhile fun byte => byte ≠ newline ∧ byte ≠ escape
  match input.drop text.length with
  | [] =>
    match stream.appendPending text with
    | (stream', some error) => { stream := stream', rest := input, events := [], error }
    | (stream', none) => { stream := stream', rest := [], events := [], error := none }
  | delimiter :: rest =>
    if delimiter = newline then
      if stream.pendingLine = [] then
        match stream.checkLineLength text.length with
        | some error => { stream, rest := input, events := [], error }
        | none =>
          let (stream', events) := stream.emitLine (trimCarriageReturn text)
          { stream := stream', rest, events, error := none }
      else
        match stream.appendPending text with
        | (stream', some error) => { stream := stream', rest := input, events := [], error }
        | (stream', none) =>
          let (stream'', events) := stream'.emitPendingLine
          { stream := stream'', rest, events, error := none }
    else
      match stream.appendPending text with
      | (stream', some error) => { stream := stream', rest := input, events := [], error }
      | (stream', none) =>
        { stream := { stream' with pendingControlEscape := true }, rest, events := [], error := none }

/-- A round of the loop that the mode selects. -/
def round (byte : UInt8) (rest : Bytes) : Round :=
  match stream.mode with
  | .terminal => stream.terminalRound (byte :: rest)
  | .control =>
    if stream.pendingControlEscape then stream.escapeRound byte rest
    else stream.lineRound (byte :: rest)

/-- Rounds until the input is used up or a round fails. -/
def rounds : Nat → ControlStream → Bytes → Round
  | _, stream, [] => { stream, rest := [], events := [], error := none }
  | 0, stream, input => { stream, rest := input, events := [], error := none }
  | fuel + 1, stream, byte :: input =>
    let first := stream.round byte input
    match first.error with
    | some _ => first
    | none =>
      let later := rounds fuel first.stream first.rest
      { later with events := first.events ++ later.events }

/-- Reads a piece of the stream. A round uses some of the input, or settles what is pending. -/
def advance (input : Bytes) : Round := rounds (2 * input.length + 1) stream input

/-- Reads pieces of the stream one after another, up to the first failure. -/
def advanceAll : ControlStream → List Bytes → Round
  | stream, [] => { stream, rest := [], events := [], error := none }
  | stream, input :: inputs =>
    let first := stream.advance input
    match first.error with
    | some _ => first
    | none =>
      let later := advanceAll first.stream inputs
      { later with events := first.events ++ later.events }

end ControlStream

end OxideTerm.Tmux
