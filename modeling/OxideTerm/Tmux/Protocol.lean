import OxideTerm.Lib.Bytes

/-!
# Lines of the tmux control protocol

A line is a guard of a command block, output of an open command, a notification or plain text.
Fields stay bytes, since what panes print need not be text.
-/

namespace OxideTerm.Tmux

open OxideTerm.Lib (Bytes)

/-- The bytes of an ASCII literal. -/
def ascii (s : String) : Bytes := s.toList.map fun c => UInt8.ofNat c.toNat

def space : UInt8 := 0x20
def newline : UInt8 := 0x0a
def carriageReturn : UInt8 := 0x0d
def escape : UInt8 := 0x1b
def backslash : UInt8 := 0x5c

/-! ## Fields -/

/-- A 64-bit number in decimal. -/
def parseDecimal (token : Bytes) : Option Nat :=
  if token = [] then none
  else token.foldlM (fun value byte => do
    let digit ← if 0x30 ≤ byte then some (byte - 0x30).toNat else none
    let value ← if digit ≤ 9 then some value else none
    let value ← if value * 10 < 2 ^ 64 then some (value * 10) else none
    if value + digit < 2 ^ 64 then some (value + digit) else none) 0

def parsePrefixedDecimal (token : Bytes) (first : UInt8) : Option Nat :=
  match token with
  | [] => none
  | byte :: digits => if byte = first then parseDecimal digits else none

structure PaneId where
  id : Nat
deriving DecidableEq

structure WindowId where
  id : Nat
deriving DecidableEq

structure SessionId where
  id : Nat
deriving DecidableEq

def PaneId.parse (token : Bytes) : Option PaneId := (parsePrefixedDecimal token 0x25).map PaneId.mk

def WindowId.parse (token : Bytes) : Option WindowId :=
  (parsePrefixedDecimal token 0x40).map WindowId.mk

def SessionId.parse (token : Bytes) : Option SessionId :=
  (parsePrefixedDecimal token 0x24).map SessionId.mk

/-- What stands before the first delimiter and what stands behind it. -/
def splitOnce (bytes : Bytes) (delimiter : UInt8) : Bytes × Bytes :=
  (bytes.takeWhile (· ≠ delimiter), (bytes.dropWhile (· ≠ delimiter)).tail)

def firstField (bytes : Bytes) : Bytes := (splitOnce bytes space).1

def parseOptional {α : Type} (field : Bytes) (parse : Bytes → Option α) : Option (Option α) :=
  if field = ascii "-" then some none else (parse field).map some

/-- What stands behind the first colon between spaces. -/
def payloadAfterInnerColon : Bytes → Option Bytes
  | [] => none
  | byte :: rest =>
    if (ascii " : ").isPrefixOf (byte :: rest) then some ((byte :: rest).drop 3)
    else payloadAfterInnerColon rest

def payloadAfterColon (fields : Bytes) : Option Bytes :=
  if fields = ascii ":" then some []
  else if (ascii ": ").isPrefixOf fields then some (fields.drop 2)
  else if (ascii " :").isSuffixOf fields then some []
  else payloadAfterInnerColon fields

def decodeOctalByte (digits : Bytes) : Option UInt8 := do
  let value ← digits.foldlM (fun value digit => do
    let digit ← if 0x30 ≤ digit then some (digit - 0x30).toNat else none
    if digit ≤ 7 then some (value * 8 + digit) else none) 0
  if value < 256 then some (UInt8.ofNat value) else none

/-- Undoes the escapes of what a pane prints; an unknown one stays as it is. -/
def decodeOutput : Bytes → Bytes
  | [] => []
  | byte :: rest =>
    if byte ≠ backslash then byte :: decodeOutput rest
    else match rest with
      | [] => [backslash]
      | a :: rest' =>
        if a = backslash then backslash :: decodeOutput rest'
        else match rest' with
          | b :: c :: rest'' =>
            match decodeOctalByte [a, b, c] with
            | some value => value :: decodeOutput rest''
            | none => backslash :: decodeOutput (a :: b :: c :: rest'')
          | [b] => backslash :: decodeOutput [a, b]
          | [] => backslash :: decodeOutput [a]

/-! ## Notifications -/

inductive Notification where
  | output (pane : PaneId) (bytes : Bytes)
  | extendedOutput (pane : PaneId) (millisecondsBehind : Nat) (bytes : Bytes)
  | pause (pane : PaneId)
  | continue (pane : PaneId)
  | paneModeChanged (pane : PaneId)
  | layoutChanged (window : WindowId) (layout : Bytes) (visibleLayout flags : Option Bytes)
  | windowAdded (window : WindowId)
  | windowClosed (window : WindowId)
  | windowRenamed (window : WindowId) (name : Bytes)
  | windowPaneChanged (window : WindowId) (pane : PaneId)
  | unlinkedWindowAdded (window : WindowId)
  | unlinkedWindowClosed (window : WindowId)
  | unlinkedWindowRenamed (window : WindowId) (name : Bytes)
  | sessionChanged (session : SessionId) (name : Bytes)
  | sessionRenamed (session : SessionId) (name : Bytes)
  | sessionWindowChanged (session : SessionId) (window : WindowId)
  | sessionsChanged
  | clientDetached (client : Bytes)
  | clientSessionChanged (client : Bytes) (session : SessionId) (name : Bytes)
  | pasteBufferChanged (name : Bytes)
  | pasteBufferDeleted (name : Bytes)
  | subscriptionChanged (name : Bytes) (session : SessionId) (window : Option WindowId)
      (windowIndex : Option Nat) (pane : Option PaneId) (value : Bytes)
  | configError (message : Bytes)
  | message (message : Bytes)
  | exit (reason : Option Bytes)
  | other (name arguments : Bytes)
deriving DecidableEq

def parseOutput (arguments : Bytes) : Option Notification := do
  let (pane, bytes) := splitOnce arguments space
  let pane ← PaneId.parse pane
  some (.output pane (decodeOutput bytes))

def parseExtendedOutput (arguments : Bytes) : Option Notification := do
  let (pane, remaining) := splitOnce arguments space
  let (millisecondsBehind, extensionFields) := splitOnce remaining space
  let pane ← PaneId.parse pane
  let millisecondsBehind ← parseDecimal millisecondsBehind
  let payload ← payloadAfterColon extensionFields
  some (.extendedOutput pane millisecondsBehind (decodeOutput payload))

def parsePane (arguments : Bytes) : Option PaneId := PaneId.parse (firstField arguments)

def parseWindow (arguments : Bytes) : Option WindowId := WindowId.parse (firstField arguments)

/-- A field that may be empty. -/
def nonempty (field : Bytes) : Option Bytes := if field = [] then none else some field

def parseLayoutChanged (arguments : Bytes) : Option Notification := do
  let (window, remaining) := splitOnce arguments space
  let (layout, remaining) := splitOnce remaining space
  if layout = [] then none
  else do
    let (visibleLayout, flags) := splitOnce remaining space
    let window ← WindowId.parse window
    some (.layoutChanged window layout (nonempty visibleLayout) (nonempty flags))

def parseWindowName (arguments : Bytes) (unlinked : Bool) : Option Notification := do
  let (window, name) := splitOnce arguments space
  let window ← WindowId.parse window
  some (if unlinked then .unlinkedWindowRenamed window name else .windowRenamed window name)

def parseWindowPane (arguments : Bytes) : Option Notification := do
  let (window, pane) := splitOnce arguments space
  let window ← WindowId.parse window
  let pane ← PaneId.parse (firstField pane)
  some (.windowPaneChanged window pane)

def parseSessionName (arguments : Bytes) (renamed : Bool) : Option Notification := do
  let (session, name) := splitOnce arguments space
  let session ← SessionId.parse session
  some (if renamed then .sessionRenamed session name else .sessionChanged session name)

def parseSessionWindow (arguments : Bytes) : Option Notification := do
  let (session, window) := splitOnce arguments space
  let session ← SessionId.parse session
  let window ← WindowId.parse (firstField window)
  some (.sessionWindowChanged session window)

def parseClientSession (arguments : Bytes) : Option Notification := do
  let (client, remaining) := splitOnce arguments space
  let (session, name) := splitOnce remaining space
  let session ← SessionId.parse session
  some (.clientSessionChanged client session name)

def parseSubscription (arguments : Bytes) : Option Notification := do
  let (name, remaining) := splitOnce arguments space
  let (session, remaining) := splitOnce remaining space
  let (window, remaining) := splitOnce remaining space
  let (windowIndex, remaining) := splitOnce remaining space
  let (pane, extensionFields) := splitOnce remaining space
  let session ← SessionId.parse session
  let window ← parseOptional window WindowId.parse
  let windowIndex ← parseOptional windowIndex parseDecimal
  let pane ← parseOptional pane PaneId.parse
  let value ← payloadAfterColon extensionFields
  some (.subscriptionChanged name session window windowIndex pane value)

/-- The notification of a name, if its arguments are well formed. -/
def parseNamed (name arguments : Bytes) : Option Notification :=
  if name = ascii "output" then parseOutput arguments
  else if name = ascii "extended-output" then parseExtendedOutput arguments
  else if name = ascii "pause" then (parsePane arguments).map .pause
  else if name = ascii "continue" then (parsePane arguments).map .continue
  else if name = ascii "pane-mode-changed" then (parsePane arguments).map .paneModeChanged
  else if name = ascii "layout-change" then parseLayoutChanged arguments
  else if name = ascii "window-add" then (parseWindow arguments).map .windowAdded
  else if name = ascii "window-close" then (parseWindow arguments).map .windowClosed
  else if name = ascii "window-renamed" then parseWindowName arguments false
  else if name = ascii "window-pane-changed" then parseWindowPane arguments
  else if name = ascii "unlinked-window-add" then (parseWindow arguments).map .unlinkedWindowAdded
  else if name = ascii "unlinked-window-close" then
    (parseWindow arguments).map .unlinkedWindowClosed
  else if name = ascii "unlinked-window-renamed" then parseWindowName arguments true
  else if name = ascii "session-changed" then parseSessionName arguments false
  else if name = ascii "session-renamed" then parseSessionName arguments true
  else if name = ascii "session-window-changed" then parseSessionWindow arguments
  else if name = ascii "sessions-changed" then
    if arguments = [] then some .sessionsChanged else none
  else if name = ascii "client-detached" then some (.clientDetached arguments)
  else if name = ascii "client-session-changed" then parseClientSession arguments
  else if name = ascii "paste-buffer-changed" then some (.pasteBufferChanged arguments)
  else if name = ascii "paste-buffer-deleted" then some (.pasteBufferDeleted arguments)
  else if name = ascii "subscription-changed" then parseSubscription arguments
  else if name = ascii "config-error" then some (.configError arguments)
  else if name = ascii "message" then some (.message arguments)
  else if name = ascii "exit" then some (.exit (nonempty arguments))
  else none

def parseNotification (line : Bytes) : Option Notification :=
  match line with
  | [] => none
  | byte :: rest =>
    if byte = 0x25 then
      let (name, arguments) := splitOnce rest space
      some ((parseNamed name arguments).getD (.other name arguments))
    else none

/-! ## Command blocks -/

structure CommandGuard where
  timestamp : Nat
  number : Nat
  flags : Nat
deriving DecidableEq

inductive ControlEvent where
  | begin (guard : CommandGuard)
  | end (guard : CommandGuard)
  | error (guard : CommandGuard)
  | commandOutput (line : Bytes)
  | notification (notification : Notification)
  | text (line : Bytes)
deriving DecidableEq

structure ControlParser where
  openCommand : Option CommandGuard
deriving DecidableEq

inductive GuardKind where
  | begin
  | end
  | error
deriving DecidableEq

def parseGuard (line : Bytes) : Option (GuardKind × CommandGuard) :=
  match line.splitOn space with
  | [kind, timestamp, number, flags] => do
    let kind ← if kind = ascii "%begin" then some GuardKind.begin
      else if kind = ascii "%end" then some GuardKind.end
      else if kind = ascii "%error" then some GuardKind.error
      else none
    let timestamp ← parseDecimal timestamp
    let number ← parseDecimal number
    let flags ← parseDecimal flags
    some (kind, { timestamp, number, flags })
  | _ => none

namespace ControlParser

def new : ControlParser := { openCommand := none }

def reset (_ : ControlParser) : ControlParser := { openCommand := none }

/-- The guard that closes the open command. -/
def closing (line : Bytes) (command : CommandGuard) : Option ControlEvent :=
  match parseGuard line with
  | some (.end, guard) => if guard.number = command.number then some (.end guard) else none
  | some (.error, guard) => if guard.number = command.number then some (.error guard) else none
  | _ => none

/-- What a line is: within a command, anything but its own guard is output. -/
def parseLine (parser : ControlParser) (line : Bytes) : ControlParser × ControlEvent :=
  match parser.openCommand with
  | some command =>
    match closing line command with
    | some event => ({ openCommand := none }, event)
    | none => (parser, .commandOutput line)
  | none =>
    match parseGuard line with
    | some (.begin, guard) => ({ openCommand := some guard }, .begin guard)
    | some (.end, guard) => (parser, .end guard)
    | some (.error, guard) => (parser, .error guard)
    | none =>
      match parseNotification line with
      | some notification => (parser, .notification notification)
      | none => (parser, .text line)

end ControlParser

example : (ControlParser.new.parseLine (ascii "%begin 10 7 1")).2 =
    .begin { timestamp := 10, number := 7, flags := 1 } := by decide +kernel

end OxideTerm.Tmux
