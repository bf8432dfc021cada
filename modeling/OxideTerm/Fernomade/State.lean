import Mathlib.Data.List.Infix
import OxideTerm.Fernomade.Message

/-!
# Cloneable remote terminal state

A state update is applied to a clone of the state it is based on. So that a clone behaves
like the original, also in the middle of an escape sequence, a state keeps the operations its
parser has processed. What a host must still be shown is read off two such histories
(`diffFrom`). When a history would outgrow its limits it is replaced by a snapshot of the
screen (`compactedHistory`), provided that the parser is at a ground boundary.

The screen emulator and the escape sequence parser are from outside the repository: they are
the parameters `Vt100` and `Vte`.
-/

namespace OxideTerm.Fernomade

open OxideTerm.Lib

/-- Maximum `HostBytes` retained by one logical terminal history. -/
def maxRetainedHostBytes : Nat := 16 * 1024 * 1024

/-- Maximum parser-affecting operations retained by one logical terminal history. -/
def maxRetainedOperations : Nat := 65536

/-- The screen emulator, without scrollback. -/
structure Vt100 where
  Parser : Type
  /-- A blank screen of so many rows and columns. -/
  new : UInt16 → UInt16 → Parser
  process : Parser → Bytes → Parser
  setSize : Parser → UInt16 → UInt16 → Parser
  /-- The bytes that draw this screen on a blank one. -/
  stateFormatted : Parser → Bytes
  /-- The bytes that turn the second screen into the first. -/
  stateDiff : Parser → Parser → Bytes

/-- What the escape sequence parser reports, as far as it is listened to. -/
inductive VteAction where
  | print (character : Char)
  | execute (byte : UInt8)
  | hook
  | put
  | unhook
  | oscDispatch
  | csiDispatch
  | escDispatch
deriving DecidableEq

/-- The escape sequence parser. -/
structure Vte where
  Parser : Type
  new : Parser
  advance : Parser → Bytes → Parser × List VteAction

/-- A terminal-state operation retained so parser state can be reconstructed exactly. -/
inductive StateOperation where
  | hostBytes (bytes : Bytes)
  | resize (columns rows : UInt16)
  | sessionControl (control : SessionControl)
deriving DecidableEq

inductive StateError where
  | invalidViewport
  | historyLimitExceeded
  | divergedHistory
  | echoAckRegression
deriving DecidableEq

/-- The nodes are linked from the newest to the oldest. -/
structure StateHistory where
  nodes : List StateOperation
  operationCount : Nat
  retainedBytes : Nat
deriving DecidableEq

namespace StateHistory

def empty : StateHistory := { nodes := [], operationCount := 0, retainedBytes := 0 }

def push (history : StateHistory) (operation : StateOperation) : StateHistory :=
  { history with
    nodes := operation :: history.nodes
    operationCount := history.operationCount + 1 }

/-- The operations, oldest first. -/
def operations (history : StateHistory) : List StateOperation := history.nodes.reverse

/-- Appends an operation, joining host bytes to host bytes before them. -/
def canonicalPush (canonical : List StateOperation) (operation : StateOperation) :
    List StateOperation :=
  match canonical.getLast?, operation with
  | some (.hostBytes previous), .hostBytes bytes =>
    canonical.dropLast ++ [.hostBytes (previous ++ bytes)]
  | _, _ => canonical ++ [operation]

def canonicalOperations (history : StateHistory) : List StateOperation :=
  history.operations.foldl canonicalPush []

end StateHistory

/-- A cloneable logical terminal state, including incomplete parser input. -/
structure RemoteTerminalState (T : Vt100) where
  initialColumns : UInt16
  initialRows : UInt16
  parser : T.Parser
  history : StateHistory
  viewport : ViewportSize
  echoAck : Option UInt64

/-- `u16::try_from`. -/
def u16TryFrom (v : UInt64) : Option UInt16 :=
  if v.toNat < 2 ^ 16 then some (UInt16.ofNat v.toNat) else none

def validateViewport (columns rows : UInt64) : Except StateError Unit :=
  if columns = 0 ∨ rows = 0 ∨ (u16TryFrom columns).isNone ∨ (u16TryFrom rows).isNone then
    .error .invalidViewport
  else .ok ()

/-! ## History limits -/

/-- The loop of `history_growth`: bytes and operations added so far, and the viewport. -/
def historyGrowthFrom (additionalBytes additionalOperations : Nat) (viewport : ViewportSize) :
    List Instruction → Except StateError (Nat × Nat)
  | [] => .ok (additionalBytes, additionalOperations)
  | instruction :: rest =>
    let byteCount := (instruction.bytes.map fun bytes => bytes.value.length).getD 0
    match checkedAdd additionalBytes byteCount with
    | none => .error .historyLimitExceeded
    | some additionalBytes =>
      let additionalOperations := additionalOperations + if byteCount = 0 then 0 else 1
      let nextViewport := instruction.viewport.getD viewport
      let additionalOperations := additionalOperations + if viewport ≠ nextViewport then 1 else 0
      let additionalOperations :=
        additionalOperations + if instruction.sessionControl.isSome then 1 else 0
      historyGrowthFrom additionalBytes additionalOperations nextViewport rest

def historyGrowth (batch : InstructionBatch) (initialViewport : ViewportSize) :
    Except StateError (Nat × Nat) := historyGrowthFrom 0 0 initialViewport batch.instructions

def validateHistorySize (retainedBytes operationCount additionalBytes additionalOperations : Nat) :
    Except StateError Unit :=
  match checkedAdd retainedBytes additionalBytes with
  | none => .error .historyLimitExceeded
  | some retainedBytes =>
    match checkedAdd operationCount additionalOperations with
    | none => .error .historyLimitExceeded
    | some operationCount =>
      if retainedBytes > maxRetainedHostBytes ∨ operationCount > maxRetainedOperations then
        .error .historyLimitExceeded
      else .ok ()

/-! ## Ground boundaries -/

structure ScreenDiffAudit where
  reconstructible : Bool
  auditing : Bool
  probing : Bool
  probePrints : Nat
  probeOtherActions : Nat
deriving DecidableEq

namespace ScreenDiffAudit

def default : ScreenDiffAudit where
  reconstructible := true
  auditing := false
  probing := false
  probePrints := 0
  probeOtherActions := 0

def beginTailAudit (audit : ScreenDiffAudit) : ScreenDiffAudit :=
  { audit with auditing := true, reconstructible := true }

def beginBoundaryProbe (audit : ScreenDiffAudit) : ScreenDiffAudit :=
  { audit with probing := true, probePrints := 0, probeOtherActions := 0 }

def probeIsGround (audit : ScreenDiffAudit) : Bool :=
  audit.probePrints = 1 && audit.probeOtherActions = 0

def recordOtherAction (audit : ScreenDiffAudit) : ScreenDiffAudit :=
  if audit.probing then { audit with probeOtherActions := audit.probeOtherActions + 1 }
  else if audit.auditing then { audit with reconstructible := false }
  else audit

def print (audit : ScreenDiffAudit) (character : Char) : ScreenDiffAudit :=
  if audit.probing then
    { audit with
      probePrints := audit.probePrints + if character = '~' then 1 else 0
      probeOtherActions := audit.probeOtherActions + if character ≠ '~' then 1 else 0 }
  else audit

def execute (audit : ScreenDiffAudit) (byte : UInt8) : ScreenDiffAudit :=
  if audit.probing then { audit with probeOtherActions := audit.probeOtherActions + 1 }
  else if audit.auditing && !([0x08, 0x09, 0x0a, 0x0d].contains byte) then
    { audit with reconstructible := false }
  else audit

/-- `impl vte::Perform`. -/
def perform (audit : ScreenDiffAudit) : VteAction → ScreenDiffAudit
  | .print character => audit.print character
  | .execute byte => audit.execute byte
  | _ => audit.recordOtherAction

end ScreenDiffAudit

/-- `parser.advance(&mut audit, bytes)`. -/
def auditAdvance (E : Vte) (s : E.Parser × ScreenDiffAudit) (bytes : Bytes) :
    E.Parser × ScreenDiffAudit :=
  let (parser, actions) := E.advance s.1 bytes
  (parser, actions.foldl ScreenDiffAudit.perform s.2)

/-- Feeds the host bytes of an operation to the audit. -/
def auditOperation (E : Vte) (s : E.Parser × ScreenDiffAudit) :
    StateOperation → E.Parser × ScreenDiffAudit
  | .hostBytes bytes => auditAdvance E s bytes
  | _ => s

/-- The byte of a printable probe. -/
def probe : Bytes := [0x7e]

def historyEndsAtGround (E : Vte) (operations : List StateOperation) : Bool :=
  let (parser, audit) := operations.foldl (auditOperation E) (E.new, .default)
  (auditAdvance E (parser, audit.beginBoundaryProbe) probe).2.probeIsGround

/-- The second loop of `history_tail_is_screen_diff_safe`, which a resize leaves. -/
def auditTail (E : Vte) (s : E.Parser × ScreenDiffAudit) :
    List StateOperation → Option (E.Parser × ScreenDiffAudit)
  | [] => some s
  | .hostBytes bytes :: rest => auditTail E (auditAdvance E s bytes) rest
  | .resize _ _ :: _ => none
  | .sessionControl _ :: rest => auditTail E s rest

def historyTailIsScreenDiffSafe (E : Vte) (common tail : List StateOperation) : Bool :=
  let (parser, audit) := common.foldl (auditOperation E) (E.new, .default)
  match auditTail E (parser, audit.beginTailAudit) tail with
  | none => false
  | some (parser, audit) =>
    (auditAdvance E (parser, audit.beginBoundaryProbe) probe).2.probeIsGround

/-! ## Comparing histories -/

/-- The loop of `history_suffix_start`, at operation `index` of both histories. -/
def historySuffixStartFrom (index : Nat) :
    List StateOperation → List StateOperation → Except StateError (Nat × Nat)
  | _, [] => .ok (index, 0)
  | [], _ :: _ => .error .divergedHistory
  | .hostBytes target :: targets, .hostBytes delivered :: rest =>
    if delivered.isPrefixOf target then
      if target.length ≠ delivered.length then
        if rest ≠ [] then .error .divergedHistory else .ok (index, delivered.length)
      else historySuffixStartFrom (index + 1) targets rest
    else .error .divergedHistory
  | target :: targets, delivered :: rest =>
    if target = delivered then historySuffixStartFrom (index + 1) targets rest
    else .error .divergedHistory

/-- Where in the target history the delivered one ends: an operation and a byte offset. -/
def historySuffixStart (target delivered : List StateOperation) : Except StateError (Nat × Nat) :=
  historySuffixStartFrom 0 target delivered

/-- The length of the longest common prefix. -/
def commonBytes : Bytes → Bytes → Nat
  | a :: as, b :: bs => if a = b then commonBytes as bs + 1 else 0
  | _, _ => 0

/-- Host bytes as an operation, left out when empty. -/
def hostBytesOperation (bytes : Bytes) : List StateOperation :=
  if bytes = [] then [] else [.hostBytes bytes]

/-- The common part of two histories and what each has after it. -/
def splitCommonHistory : List StateOperation → List StateOperation →
    List StateOperation × List StateOperation × List StateOperation
  | target :: targets, delivered :: rest =>
    if target = delivered then
      let (common, targetTail, deliveredTail) := splitCommonHistory targets rest
      (target :: common, targetTail, deliveredTail)
    else
      match target, delivered with
      | .hostBytes targetBytes, .hostBytes deliveredBytes =>
        let count := commonBytes targetBytes deliveredBytes
        (hostBytesOperation (targetBytes.take count),
          hostBytesOperation (targetBytes.drop count) ++ targets,
          hostBytesOperation (deliveredBytes.drop count) ++ rest)
      | _, _ => ([], target :: targets, delivered :: rest)
  | target, delivered => ([], target, delivered)

def divergedHistoriesAreScreenDiffSafe (E : Vte) (target delivered : List StateOperation) : Bool :=
  let (common, targetTail, deliveredTail) := splitCommonHistory target delivered
  historyTailIsScreenDiffSafe E common targetTail &&
    historyTailIsScreenDiffSafe E common deliveredTail

/-! ## Instructions for a host -/

def hostBytesInstruction (value : Bytes) : Instruction where
  bytes := some ⟨value⟩
  viewport := none
  marker := none
  sessionControl := none

def viewportInstruction (columns rows : UInt16) : Instruction where
  bytes := none
  viewport := some { columns := columns.toUInt64, rows := rows.toUInt64 }
  marker := none
  sessionControl := none

def sessionControlInstruction (control : SessionControl) : Instruction where
  bytes := none
  viewport := none
  marker := none
  sessionControl := some control

def markerInstruction (value : UInt64) : Instruction where
  bytes := none
  viewport := none
  marker := some ⟨value⟩
  sessionControl := none

/-- The instruction for an operation, from byte `offset` on if these are host bytes. -/
def suffixInstruction (offset : Nat) : StateOperation → Option Instruction
  | .hostBytes value =>
    let value := value.drop offset
    if value = [] then none else some (hostBytesInstruction value)
  | .resize columns rows => some (viewportInstruction columns rows)
  | .sessionControl control => some (sessionControlInstruction control)

/-- The instructions for a history suffix; only its first operation has an offset. -/
def suffixInstructions (firstByteOffset : Nat) : List StateOperation → List Instruction
  | [] => []
  | operation :: rest =>
    (suffixInstruction firstByteOffset operation).toList ++
      rest.filterMap (suffixInstruction 0)

namespace RemoteTerminalState

variable {T : Vt100}

/-- The state behind `new`, whose viewport must be nonzero. -/
def create (columns rows : UInt16) : RemoteTerminalState T where
  initialColumns := columns
  initialRows := rows
  parser := T.new rows columns
  history := .empty
  viewport := { columns := columns.toUInt64, rows := rows.toUInt64 }
  echoAck := none

/-- Creates an empty state with a nonzero initial viewport. -/
def new (columns rows : UInt16) : Except StateError (RemoteTerminalState T) :=
  match validateViewport columns.toUInt64 rows.toUInt64 with
  | .error e => .error e
  | .ok () => .ok (create columns rows)

def applyHostBytes (s : RemoteTerminalState T) (bytes : Bytes) : RemoteTerminalState T :=
  let s := { s with parser := T.process s.parser bytes }
  if bytes = [] then s
  else
    let history := { s.history with retainedBytes := s.history.retainedBytes + bytes.length }
    { s with history := history.push (.hostBytes bytes) }

def applyResize (s : RemoteTerminalState T) (columns rows : UInt16) : RemoteTerminalState T :=
  if s.viewport.columns = columns.toUInt64 ∧ s.viewport.rows = rows.toUInt64 then s
  else
    { s with
      parser := T.setSize s.parser rows columns
      viewport := { columns := columns.toUInt64, rows := rows.toUInt64 }
      history := s.history.push (.resize columns rows) }

def validateHistoryGrowth (s : RemoteTerminalState T) (batch : InstructionBatch) :
    Except StateError Unit :=
  match historyGrowth batch s.viewport with
  | .error e => .error e
  | .ok (additionalBytes, additionalOperations) =>
    validateHistorySize s.history.retainedBytes s.history.operationCount additionalBytes
      additionalOperations

/-- A history that holds a snapshot of the screen, and the initial viewport that goes with it. -/
def compactedHistory (E : Vte) (s : RemoteTerminalState T) (batch : InstructionBatch) :
    Except StateError (StateHistory × UInt16 × UInt16) :=
  if !historyEndsAtGround E s.history.canonicalOperations then .error .historyLimitExceeded
  else
    let snapshot := T.stateFormatted s.parser
    match historyGrowth batch s.viewport with
    | .error e => .error e
    | .ok (additionalBytes, additionalOperations) =>
      let snapshotOperations := if snapshot = [] then 0 else 1
      match validateHistorySize snapshot.length snapshotOperations additionalBytes
          additionalOperations with
      | .error e => .error e
      | .ok () =>
        match u16TryFrom s.viewport.columns, u16TryFrom s.viewport.rows with
        | some columns, some rows =>
          .ok ({ nodes := hostBytesOperation snapshot
                 operationCount := snapshotOperations
                 retainedBytes := snapshot.length }, columns, rows)
        | _, _ => .error .invalidViewport

/-- The host bytes of an instruction. -/
def applyByteRun (s : RemoteTerminalState T) : Option ByteRun → RemoteTerminalState T
  | some bytes => s.applyHostBytes bytes.value
  | none => s

/-- The viewport of an instruction. -/
def applyViewport (s : RemoteTerminalState T) :
    Option ViewportSize → RemoteTerminalState T × Except StateError Unit
  | none => (s, .ok ())
  | some viewport =>
    match u16TryFrom viewport.columns, u16TryFrom viewport.rows with
    | some columns, some rows => (s.applyResize columns rows, .ok ())
    | _, _ => (s, .error .invalidViewport)

/-- The marker of an instruction. -/
def applyMarker (s : RemoteTerminalState T) : Option Marker → RemoteTerminalState T
  | some marker => { s with echoAck := some marker.value }
  | none => s

/-- The session control of an instruction. -/
def applySessionControl (s : RemoteTerminalState T) :
    Option SessionControl → RemoteTerminalState T
  | some control => { s with history := s.history.push (.sessionControl control) }
  | none => s

/-- The body of the last loop of `apply`. -/
def applyInstruction (s : RemoteTerminalState T) (instruction : Instruction) :
    RemoteTerminalState T × Except StateError Unit :=
  match (s.applyByteRun instruction.bytes).applyViewport instruction.viewport with
  | (s, .error e) => (s, .error e)
  | (s, .ok ()) =>
    ((s.applyMarker instruction.marker).applySessionControl instruction.sessionControl, .ok ())

def applyInstructions (s : RemoteTerminalState T) :
    List Instruction → RemoteTerminalState T × Except StateError Unit
  | [] => (s, .ok ())
  | instruction :: rest =>
    match s.applyInstruction instruction with
    | (s, .error e) => (s, .error e)
    | (s, .ok ()) => s.applyInstructions rest

/-- Every viewport of the batch is valid. -/
def validateViewports : List Instruction → Except StateError Unit
  | [] => .ok ()
  | instruction :: rest =>
    match instruction.viewport with
    | none => validateViewports rest
    | some viewport =>
      match validateViewport viewport.columns viewport.rows with
      | .error e => .error e
      | .ok () => validateViewports rest

/-- The markers of the batch do not decrease, starting from the current acknowledgement. -/
def validateMarkers (echoAck : Option UInt64) : List Instruction → Except StateError Unit
  | [] => .ok ()
  | instruction :: rest =>
    match instruction.marker with
    | none => validateMarkers echoAck rest
    | some marker =>
      if echoAck.any (fun current => marker.value < current) then .error .echoAckRegression
      else validateMarkers (some marker.value) rest

/-- Applies one decoded instruction batch in instruction order. -/
def apply (E : Vte) (s : RemoteTerminalState T) (batch : InstructionBatch) :
    RemoteTerminalState T × Except StateError Unit :=
  match validateViewports batch.instructions with
  | .error e => (s, .error e)
  | .ok () =>
    match validateMarkers s.echoAck batch.instructions with
    | .error e => (s, .error e)
    | .ok () =>
      match s.validateHistoryGrowth batch with
      | .ok () => s.applyInstructions batch.instructions
      | .error _ =>
        match s.compactedHistory E batch with
        | .error e => (s, .error e)
        | .ok (history, initialColumns, initialRows) =>
          { s with history, initialColumns, initialRows }.applyInstructions batch.instructions

/-- Effects required to advance a host from one delivered state to another. -/
def diffFrom (E : Vte) (s delivered : RemoteTerminalState T) :
    Except StateError InstructionBatch :=
  let targetOperations := s.history.canonicalOperations
  let deliveredOperations := delivered.history.canonicalOperations
  let instructions : Except StateError (List Instruction) :=
    match historySuffixStart targetOperations deliveredOperations with
    | .ok (suffixStart, firstByteOffset) =>
      .ok (suffixInstructions firstByteOffset (targetOperations.drop suffixStart))
    | .error .divergedHistory =>
      if s.viewport = delivered.viewport ∧
          divergedHistoriesAreScreenDiffSafe E targetOperations deliveredOperations then
        let value := T.stateDiff s.parser delivered.parser
        .ok (if value = [] then [] else [hostBytesInstruction value])
      else .error .divergedHistory
    | .error e => .error e
  match instructions with
  | .error e => .error e
  | .ok instructions =>
    let marker : List Instruction := match s.echoAck with
      | some value => if s.echoAck ≠ delivered.echoAck then [markerInstruction value] else []
      | none => []
    .ok { instructions := marker ++ instructions }

/-- Rebuilds the parser by processing an operation of the history again. -/
def replay (parser : T.Parser) : StateOperation → T.Parser
  | .hostBytes bytes => T.process parser bytes
  | .resize columns rows => T.setSize parser rows columns
  | .sessionControl _ => parser

/-- `impl Clone`. -/
def clone (s : RemoteTerminalState T) : RemoteTerminalState T :=
  { s with
    parser := s.history.operations.foldl replay (T.new s.initialRows s.initialColumns) }

end RemoteTerminalState

end OxideTerm.Fernomade
