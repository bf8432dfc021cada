import OxideTerm.Lib.Machine
import OxideTerm.Lib.Utf8

/-!
# Prediction overlays

A `PredictionOverlay` draws what the user types before the server has said so, and takes it back
later. It keeps the predicted cells of one line, the line they were drawn on, and how many cells
must be deleted to undo them.

Frames, times and counters are natural numbers; additions that saturate in the source saturate
here. The context of an offer holds what the host says about the line.
-/

namespace OxideTerm.Predict

open OxideTerm.Lib

def saturatingAdd (a b : Nat) : Nat := min (a + b) (2 ^ 64 - 1)

theorem saturatingAdd_of_lt {a b : Nat} (h : a + b < 2 ^ 64) : saturatingAdd a b = a + b :=
  Nat.min_eq_left (Nat.le_sub_one_of_lt h)

/-- The bytes of an ASCII text. -/
def ascii (text : String) : Bytes := text.toList.map fun c => UInt8.ofNat c.toNat

def escape : Bytes := [0x1b]
def underlineRendition : Bytes := escape ++ ascii "[4m"
def noUnderlineRendition : Bytes := escape ++ ascii "[24m"
def insertCharacter : Bytes := escape ++ ascii "[@"
def deleteCharacter : Bytes := escape ++ ascii "[P"
def cursorLeft : Bytes := escape ++ ascii "[D"
def cursorRight : Bytes := escape ++ ascii "[C"
def adaptiveDisplayMilliseconds : Nat := 20
def stalePredictionMilliseconds : Nat := 500
def maximumPendingPredictions : Nat := 1024

inductive PredictionDisplay where
  | adaptive
  | always
  | never
deriving DecidableEq

inductive InputKind where
  | key
  | paste
  | mouse
  | focus
deriving DecidableEq

inductive PredictionAction where
  | printableAscii (byte : UInt8)
  | printableUtf8 (character : Char)
  | backspace
  | left
  | right
  | barrier
deriving DecidableEq

structure PredictionMetrics where
  offered : Nat
  displayed : Nat
  latestAcknowledgement : Option Nat
  reconciled : Nat
deriving DecidableEq

structure PredictionEntry where
  frameId : Nat
  action : PredictionAction
deriving DecidableEq

structure PredictedCell where
  frameId : Nat
  acknowledged : Bool
deriving DecidableEq

/-- Coordinates and rendition captured before a prediction is displayed. -/
structure PredictionContext where
  row : UInt16
  column : UInt16
  columns : UInt16
  attributes : Bytes
  cursorState : Bytes
deriving DecidableEq

inductive LineConfidence where
  | tentative
  | acknowledged
deriving DecidableEq

structure PredictionLineStatus where
  row : UInt16
  confidence : LineConfidence
deriving DecidableEq

/-- The smallest safe operation for removing a prediction overlay. -/
inductive PredictionReconciliation where
  | none
  | localEdit (bytes : Bytes)
  | redraw
deriving DecidableEq

structure PredictionOverlay where
  display : PredictionDisplay
  overwrite : Bool
  roundTripMilliseconds : Option Nat
  pending : List PredictionEntry
  predictedAscii : List PredictedCell
  cursorOffset : Nat
  highestFrameId : Option Nat
  displayedCells : Nat
  rollbackCells : Nat
  overlayActive : Bool
  reconciliationRequired : Bool
  oldestPredictionMilliseconds : Option Nat
  lineContext : Option PredictionContext
  metrics : PredictionMetrics
deriving DecidableEq

/-- `char::is_control`. -/
def isControl (c : Char) : Bool := c.toNat < 0x20 ∨ (0x7f ≤ c.toNat ∧ c.toNat < 0xa0)

/-- `u8::is_ascii_graphic`, or a space. -/
def isGraphicOrSpace (byte : UInt8) : Bool := 0x20 ≤ byte.toNat ∧ byte.toNat ≤ 0x7e

/-- The only character of a text, if these bytes are one. -/
def singleCharacter (bytes : Bytes) : Option Char :=
  match bytes.toByteArray.utf8DecodeChar? 0 with
  | some c => if bytes.length = c.utf8Size then some c else none
  | none => none

def singlePrintableAction (bytes : Bytes) : Option PredictionAction :=
  match singleCharacter bytes with
  | none => none
  | some character =>
    if isControl character then none
    else if character.toNat < 128 then some (.printableAscii (UInt8.ofNat character.toNat))
    else some (.printableUtf8 character)

namespace PredictionContext

/-- The last column of the line, or behind it, as far as `offset` columns further. -/
def atEdge (context : PredictionContext) (offset : Nat) : Bool :=
  context.columns.toNat - 1 ≤ saturatingAdd context.column.toNat offset

/-- Two contexts are not of one cursor. -/
def disagrees (anchor context : PredictionContext) : Bool :=
  anchor.row ≠ context.row || anchor.column ≠ context.column || anchor.columns ≠ context.columns

end PredictionContext

/-- `u16::saturating_add`. -/
def saturatingSucc (n : UInt16) : Nat := min (n.toNat + 1) (2 ^ 16 - 1)

theorem saturatingSucc_of_lt {n : UInt16} (h : n.toNat + 1 < 2 ^ 16) :
    saturatingSucc n = n.toNat + 1 := Nat.min_eq_left (Nat.le_sub_one_of_lt h)

/-- A number in decimal. -/
def decimal (n : Nat) : Bytes := ascii (toString n)

namespace PredictionOverlay

def new (display : PredictionDisplay) (overwrite : Bool) : PredictionOverlay where
  display
  overwrite
  roundTripMilliseconds := none
  pending := []
  predictedAscii := []
  cursorOffset := 0
  highestFrameId := none
  displayedCells := 0
  rollbackCells := 0
  overlayActive := false
  reconciliationRequired := false
  oldestPredictionMilliseconds := none
  lineContext := none
  metrics := { offered := 0, displayed := 0, latestAcknowledgement := none, reconciled := 0 }

def setRoundTripMilliseconds (s : PredictionOverlay) (milliseconds : Option Nat) :
    PredictionOverlay :=
  { s with roundTripMilliseconds := milliseconds }

def invalidateSpan (s : PredictionOverlay) : PredictionOverlay :=
  { s with
    pending := []
    predictedAscii := []
    cursorOffset := 0
    oldestPredictionMilliseconds := none
    reconciliationRequired := s.reconciliationRequired || s.overlayActive }

/-- One more predicted cell, once the context agrees. -/
def pushPrintable (s : PredictionOverlay) (frameId : Nat) (bytes : Bytes)
    (context : Option PredictionContext) : PredictionOverlay × Option Bytes :=
  ({ s with
      predictedAscii := s.predictedAscii ++ [{ frameId, acknowledged := false }]
      cursorOffset := saturatingAdd s.cursorOffset 1
      displayedCells := saturatingAdd s.displayedCells 1
      rollbackCells := saturatingAdd s.rollbackCells 1
      overlayActive := true },
    some ((if s.overwrite then [] else insertCharacter) ++ underlineRendition ++ bytes ++
      context.elim noUnderlineRendition PredictionContext.attributes))

def predictPrintable (s : PredictionOverlay) (frameId : Nat) (bytes : Bytes)
    (context : Option PredictionContext) : PredictionOverlay × Option Bytes :=
  if s.cursorOffset ≠ s.predictedAscii.length then (s, none)
  else
    match context with
    | none => s.pushPrintable frameId bytes none
    | some context =>
      let anchor := s.lineContext.getD context
      let s := { s with lineContext := some anchor }
      if anchor.disagrees context || anchor.atEdge s.cursorOffset then (s.invalidateSpan, none)
      else s.pushPrintable frameId bytes (some context)

def predictBackspace (s : PredictionOverlay) : PredictionOverlay × Option Bytes :=
  if s.cursorOffset = 0 ∨ s.cursorOffset ≠ s.predictedAscii.length then (s, none)
  else if s.predictedAscii.getLast?.any fun cell =>
      s.metrics.latestAcknowledgement.any fun acknowledgement => cell.frameId ≤ acknowledgement then
    (s, none)
  else if s.overwrite then (s.invalidateSpan, none)
  else
    ({ s with
        predictedAscii := s.predictedAscii.dropLast
        cursorOffset := s.cursorOffset - 1
        displayedCells := s.displayedCells - 1
        rollbackCells := s.rollbackCells - 1
        overlayActive := true }, some (cursorLeft ++ deleteCharacter))

def predictLeft (s : PredictionOverlay) : PredictionOverlay × Option Bytes :=
  if s.cursorOffset = 0 then (s, none)
  else ({ s with cursorOffset := s.cursorOffset - 1, overlayActive := true }, some cursorLeft)

def predictRight (s : PredictionOverlay) : PredictionOverlay × Option Bytes :=
  if s.predictedAscii.length ≤ s.cursorOffset then (s, none)
  else ({ s with cursorOffset := s.cursorOffset + 1, overlayActive := true }, some cursorRight)

def displayEnabled (s : PredictionOverlay) : Bool :=
  match s.display with
  | .adaptive => s.roundTripMilliseconds.any fun milliseconds =>
      adaptiveDisplayMilliseconds ≤ milliseconds
  | .always => true
  | .never => false

/-- The edit an action asks for. -/
def predict (s : PredictionOverlay) (frameId : Nat) (action : PredictionAction)
    (context : Option PredictionContext) : PredictionOverlay × Option Bytes :=
  match action with
  | .printableAscii byte =>
    if isGraphicOrSpace byte then s.predictPrintable frameId [byte] context
    else (s.invalidateSpan, none)
  | .printableUtf8 character =>
    if isControl character then (s.invalidateSpan, none)
    else s.predictPrintable frameId (String.utf8EncodeChar character) context
  | .backspace => s.predictBackspace
  | .left => s.predictLeft
  | .right => s.predictRight
  | .barrier => (s, none)

/-- Notes an edit that is displayed. -/
def noteDisplayed (s : PredictionOverlay) (frameId : Nat) (action : PredictionAction)
    (offeredAtMilliseconds : Option Nat) : PredictionOverlay :=
  { s with
    pending := s.pending ++ [{ frameId, action }]
    oldestPredictionMilliseconds := s.oldestPredictionMilliseconds.or offeredAtMilliseconds
    metrics := { s.metrics with displayed := saturatingAdd s.metrics.displayed 1 } }

def offerForFrameWithContextInner (s : PredictionOverlay) (frameId : Nat)
    (action : PredictionAction) (context : Option PredictionContext)
    (offeredAtMilliseconds : Option Nat) : PredictionOverlay × Option Bytes :=
  let s := { s with metrics := { s.metrics with offered := saturatingAdd s.metrics.offered 1 } }
  if s.highestFrameId.any fun highest => frameId < highest then (s, none)
  else
    let s := { s with highestFrameId := some frameId }
    if action = .barrier then (s.invalidateSpan, none)
    else if !s.displayEnabled then (s, none)
    else if s.reconciliationRequired then (s, none)
    else if maximumPendingPredictions ≤ s.pending.length ∨
        maximumPendingPredictions ≤ s.predictedAscii.length then (s.invalidateSpan, none)
    else
      let (s, output) := s.predict frameId action context
      if output.isSome then (s.noteDisplayed frameId action offeredAtMilliseconds, output)
      else (s, output)

def offerForFrameWithContext (s : PredictionOverlay) (frameId : Nat) (action : PredictionAction)
    (context : Option PredictionContext) : PredictionOverlay × Option Bytes :=
  s.offerForFrameWithContextInner frameId action context none

def offerForFrameWithContextAt (s : PredictionOverlay) (frameId : Nat) (action : PredictionAction)
    (context : Option PredictionContext) (offeredAtMilliseconds : Nat) :
    PredictionOverlay × Option Bytes :=
  s.offerForFrameWithContextInner frameId action context (some offeredAtMilliseconds)

def offerForFrame (s : PredictionOverlay) (frameId : Nat) (action : PredictionAction) :
    PredictionOverlay × Option Bytes :=
  s.offerForFrameWithContext frameId action none

/-- The frame that follows the highest one. -/
def nextFrameId (s : PredictionOverlay) : Option Nat :=
  match s.highestFrameId with
  | some highest => if highest + 1 < 2 ^ 64 then some (highest + 1) else none
  | none => some 0

def offer (s : PredictionOverlay) (kind : InputKind) (bytes : Bytes) :
    PredictionOverlay × Option Bytes :=
  match s.nextFrameId with
  | none => (s, none)
  | some frameId =>
    let action := if kind = .key then (singlePrintableAction bytes).getD .barrier else .barrier
    s.offerForFrame frameId action

/-- Invalidates a span older than the timeout, and tells whether it must be taken back. -/
def expireStale (s : PredictionOverlay) (nowMilliseconds : Nat) : PredictionOverlay × Bool :=
  match s.oldestPredictionMilliseconds with
  | none => (s, false)
  | some oldest =>
    if nowMilliseconds - oldest < stalePredictionMilliseconds then (s, false)
    else (s.invalidateSpan, s.invalidateSpan.reconciliationRequired)

/-- The bytes that delete the predicted cells and restore the cursor. -/
def localReconciliation (s : PredictionOverlay) : Option Bytes :=
  match s.lineContext with
  | none => none
  | some context =>
    some ((if s.rollbackCells ≠ 0 then
        escape ++ ascii "[" ++ decimal (saturatingSucc context.row) ++ ascii ";" ++
          decimal (saturatingSucc context.column) ++ ascii "H" ++
          (escape ++ ascii "[" ++ decimal s.rollbackCells ++ ascii "P")
      else []) ++ context.cursorState)

def takeReconciliation (s : PredictionOverlay) : PredictionOverlay × PredictionReconciliation :=
  if !s.overlayActive && !s.reconciliationRequired then (s, .none)
  else
    let localEdit := if s.overwrite then none else s.localReconciliation
    ({ s with
        displayedCells := 0
        metrics := { s.metrics with
          reconciled := saturatingAdd s.metrics.reconciled s.displayedCells }
        pending := []
        predictedAscii := []
        cursorOffset := 0
        overlayActive := false
        reconciliationRequired := false
        rollbackCells := 0
        oldestPredictionMilliseconds := none
        lineContext := none },
      localEdit.elim .redraw .localEdit)

def reconcile (s : PredictionOverlay) : PredictionOverlay × Bool :=
  (s.takeReconciliation.1, decide (s.takeReconciliation.2 ≠ .none))

/-- Records the newest acknowledgement of the server. -/
def acknowledge (s : PredictionOverlay) (acknowledgement : Nat) : PredictionOverlay :=
  match s.highestFrameId with
  | none => s
  | some highest =>
    if highest < acknowledgement ∨
        s.metrics.latestAcknowledgement.any (fun current => acknowledgement ≤ current) then s
    else
      { s with
        metrics := { s.metrics with latestAcknowledgement := some acknowledgement }
        pending := s.pending.dropWhile fun entry => entry.frameId ≤ acknowledgement
        predictedAscii := s.predictedAscii.map fun cell =>
          if cell.frameId ≤ acknowledgement then { cell with acknowledged := true } else cell }

def lineConfidence (s : PredictionOverlay) : Option LineConfidence :=
  if s.predictedAscii.isEmpty then none
  else if s.predictedAscii.all PredictedCell.acknowledged then some .acknowledged
  else some .tentative

def lineStatus (s : PredictionOverlay) : Option PredictionLineStatus :=
  match s.lineContext, s.lineConfidence with
  | some context, some confidence => some { row := context.row, confidence }
  | _, _ => none

/-! ## Calls -/

/-- The calls of a host, with what it passes to them. -/
inductive Call where
  | setRoundTripMilliseconds (milliseconds : Option Nat)
  | offer (kind : InputKind) (bytes : Bytes)
  | offerForFrame (frameId : Nat) (action : PredictionAction)
  | offerForFrameWithContext (frameId : Nat) (action : PredictionAction)
      (context : Option PredictionContext)
  | offerForFrameWithContextAt (frameId : Nat) (action : PredictionAction)
      (context : Option PredictionContext) (offeredAtMilliseconds : Nat)
  | expireStale (nowMilliseconds : Nat)
  | takeReconciliation
  | reconcile
  | acknowledge (acknowledgement : Nat)
deriving DecidableEq

inductive Answer where
  | nothing
  | output (bytes : Option Bytes)
  | reconciliation (reconciliation : PredictionReconciliation)
  | flag (value : Bool)
deriving DecidableEq

def step (s : PredictionOverlay) : Call → PredictionOverlay × Answer
  | .setRoundTripMilliseconds milliseconds => (s.setRoundTripMilliseconds milliseconds, .nothing)
  | .offer kind bytes => (s.offer kind bytes).map id .output
  | .offerForFrame frameId action => (s.offerForFrame frameId action).map id .output
  | .offerForFrameWithContext frameId action context =>
    (s.offerForFrameWithContext frameId action context).map id .output
  | .offerForFrameWithContextAt frameId action context offeredAtMilliseconds =>
    (s.offerForFrameWithContextAt frameId action context offeredAtMilliseconds).map id .output
  | .expireStale nowMilliseconds => (s.expireStale nowMilliseconds).map id .flag
  | .takeReconciliation => s.takeReconciliation.map id .reconciliation
  | .reconcile => s.reconcile.map id .flag
  | .acknowledge acknowledgement => (s.acknowledge acknowledgement, .nothing)

/-- An overlay and the calls made on it. -/
def machine (display : PredictionDisplay) (overwrite : Bool) :
    Machine PredictionOverlay Call Answer where
  init := new display overwrite
  step := step

end PredictionOverlay

end OxideTerm.Predict
