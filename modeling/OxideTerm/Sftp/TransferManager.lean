import Mathlib.Data.Finset.Option
import Mathlib.Logic.Function.Basic
import OxideTerm.Lib.FiniteMap
import OxideTerm.Lib.Machine

/-!
# The transfers of a session

The manager keeps a control block for each registered transfer and a snapshot for each background
transfer, under two locks, and whether the session is shutting down, in an atomic. A call takes one
step for every section under a lock and for every other access to an atomic or to a control block,
and the steps of other threads may come in between.
-/

namespace OxideTerm.Sftp

open OxideTerm.Lib

inductive BackgroundTransferState where
  | pending
  | active
  | paused
  | completed
  | cancelled
  | error
deriving DecidableEq

def BackgroundTransferState.isFinished : BackgroundTransferState → Bool
  | .completed | .cancelled | .error => true
  | .pending | .active | .paused => false

/-- What callers finish a transfer with. -/
structure FinishedState where
  state : BackgroundTransferState
  isFinished : state.isFinished = true
deriving DecidableEq

structure BackgroundTransferSnapshot (K : Type) where
  id : K
  state : BackgroundTransferState
  size : Nat
  transferred : Nat
  backendSpeed : Option Nat
  error : Option String
  endTime : Option Nat
  itemCount : Option Nat
deriving DecidableEq

structure SftpTransferControl where
  cancelled : Bool
  paused : Bool
  interruptReason : Option String
deriving DecidableEq

namespace SftpTransferControl

def new : SftpTransferControl := { cancelled := false, paused := false, interruptReason := none }

def cancel (control : SftpTransferControl) : SftpTransferControl := { control with cancelled := true }

def pause (control : SftpTransferControl) : SftpTransferControl := { control with paused := true }

def resume (control : SftpTransferControl) : SftpTransferControl := { control with paused := false }

def interrupt (control : SftpTransferControl) (reason : String) : SftpTransferControl :=
  { control with interruptReason := some reason }

end SftpTransferControl

/-- A control block is shared, so it is known by its address. -/
structure RegisteredTransferControl where
  control : Nat
  ownerCount : Nat
  nodeId : Option String
deriving DecidableEq

inductive ShutdownState where
  | running
  | shuttingDown
  | stopped
deriving DecidableEq

inductive SftpError where
  | transferShutdown
  | transferCancelled
  | transferInterrupted (reason : String)
deriving DecidableEq

/-! ## Points within a call -/

/-- What `check_control` reads next of the control block. -/
inductive CheckPoint where
  | cancelled
  | shutdown
  | interrupt
  | pause
deriving DecidableEq

/-- Where a thread is. -/
inductive CallPoint (K : Type) where
  | idle
  /-- `register_background_transfer` is about to read whether the session is shutting down. -/
  | registering (snapshot : BackgroundTransferSnapshot K)
  /-- It is about to insert the snapshot. -/
  | inserting (snapshot : BackgroundTransferSnapshot K) (accepted : Bool)
  /-- It is about to finish a transfer that came too late. -/
  | finishing (id : K)
  | pausing (id : K) (control : Option Nat)
  | resuming (id : K) (control : Option Nat)
  | interrupting (id : K) (reason : String) (control : Option Nat)
  /-- `check_control` found this control block, after the sweep of the shutdown or before. -/
  | checking (control : Nat) (late : Bool) (point : CheckPoint)
deriving DecidableEq

/-- Where the only call of `shutdown_session_transfers` is that does anything. -/
inductive ShutdownPoint where
  | notStarted
  | collecting
  /-- These control blocks have been collected and not been cancelled yet. -/
  | cancelling (controls : Finset Nat)
  | sweeping
  | draining
  | finished
deriving DecidableEq

/-- The background transfers have been swept. -/
def ShutdownPoint.swept : ShutdownPoint → Bool
  | .draining | .finished => true
  | _ => false

/-! ## The manager -/

structure SftpTransferManager (T K : Type) where
  controls : FiniteMap K RegisteredTransferControl
  /-- The control block at an address. -/
  block : Nat → SftpTransferControl
  nextBlock : Nat
  backgroundTransfers : FiniteMap K (BackgroundTransferSnapshot K)
  shutdownState : ShutdownState
  shutdown : ShutdownPoint
  calls : T → CallPoint K

def finishedBackgroundTransferRetentionMs : Nat := 5 * 60 * 1000

namespace SftpTransferManager

variable {T K : Type} [DecidableEq T] [DecidableEq K]

def new : SftpTransferManager T K where
  controls := .empty
  block _ := .new
  nextBlock := 0
  backgroundTransfers := .empty
  shutdownState := .running
  shutdown := .notStarted
  calls _ := .idle

/-! ### Sections under a lock -/

def getControl (s : SftpTransferManager T K) (id : K) : Option Nat :=
  (s.controls.get id).map RegisteredTransferControl.control

def registerOwned (s : SftpTransferManager T K) (id : K) (nodeId : Option String) :
    SftpTransferManager T K :=
  match s.controls.get id with
  | some registered =>
    { s with
      controls := s.controls.insert id { registered with
        ownerCount := registered.ownerCount + 1
        nodeId := registered.nodeId.or nodeId } }
  | none =>
    -- A producer racing final session shutdown must not start new work.
    let control :=
      if s.shutdownState ≠ .running then SftpTransferControl.new.cancel else SftpTransferControl.new
    { s with
      block := Function.update s.block s.nextBlock control
      nextBlock := s.nextBlock + 1
      controls := s.controls.insert id { control := s.nextBlock, ownerCount := 1, nodeId } }

def unregister (s : SftpTransferManager T K) (id : K) : SftpTransferManager T K :=
  match s.controls.get id with
  | some registered =>
    if registered.ownerCount - 1 = 0 then { s with controls := s.controls.erase id }
    else { s with
      controls := s.controls.insert id { registered with ownerCount := registered.ownerCount - 1 } }
  | none => s

/-- Finished transfers are forgotten after a while. -/
def cleanupBackgroundTransfers (s : SftpTransferManager T K) (now : Nat) :
    SftpTransferManager T K :=
  { s with
    backgroundTransfers := s.backgroundTransfers.retain fun id =>
      match s.backgroundTransfers.get id with
      | some snapshot => !snapshot.state.isFinished ||
          (snapshot.endTime.map fun endTime =>
            decide (now - endTime ≤ finishedBackgroundTransferRetentionMs)).getD true
      | none => false }

/-- The snapshot that is registered, depending on what was read of the shutdown. -/
def registeredSnapshot (snapshot : BackgroundTransferSnapshot K) (accepted : Bool) (now : Nat) :
    BackgroundTransferSnapshot K :=
  if accepted then { snapshot with state := .pending }
  else { snapshot with state := .cancelled, backendSpeed := some 0, endTime := some now }

def insertBackgroundTransfer (s : SftpTransferManager T K)
    (snapshot : BackgroundTransferSnapshot K) : SftpTransferManager T K :=
  { s with backgroundTransfers := s.backgroundTransfers.insert snapshot.id snapshot }

def markActive (snapshot : BackgroundTransferSnapshot K) : BackgroundTransferSnapshot K :=
  if snapshot.state.isFinished then snapshot else { snapshot with state := .active }

def markBackgroundTransferActive (s : SftpTransferManager T K) (id : K) : SftpTransferManager T K :=
  { s with backgroundTransfers := s.backgroundTransfers.modify id markActive }

def updateProgress (transferred total speed : Nat) (snapshot : BackgroundTransferSnapshot K) :
    BackgroundTransferSnapshot K :=
  if snapshot.state.isFinished then snapshot
  else { snapshot with
    transferred
    size := if 0 < total then total else snapshot.size
    backendSpeed := some speed
    state := .active }

def updateBackgroundTransferProgress (s : SftpTransferManager T K) (id : K)
    (transferred total speed : Nat) : SftpTransferManager T K :=
  { s with
    backgroundTransfers := s.backgroundTransfers.modify id (updateProgress transferred total speed) }

def finish (shutdownState : ShutdownState) (state : BackgroundTransferState)
    (error : Option String) (itemCount : Option Nat) (now : Nat)
    (snapshot : BackgroundTransferSnapshot K) : BackgroundTransferSnapshot K :=
  let shutdownCancelled := shutdownState ≠ .running ∧ snapshot.state = .cancelled
  { snapshot with
    state := if shutdownCancelled then .cancelled else state
    error := if shutdownCancelled then none else error
    itemCount
    endTime := some now }

def finishBackgroundTransfer (s : SftpTransferManager T K) (id : K)
    (state : BackgroundTransferState) (error : Option String) (itemCount : Option Nat) (now : Nat) :
    SftpTransferManager T K :=
  { s with
    backgroundTransfers :=
      s.backgroundTransfers.modify id (finish s.shutdownState state error itemCount now) }

def pauseSnapshot (snapshot : BackgroundTransferSnapshot K) : BackgroundTransferSnapshot K :=
  if snapshot.state.isFinished then snapshot
  else { snapshot with state := .paused, backendSpeed := some 0 }

def resumeSnapshot (snapshot : BackgroundTransferSnapshot K) : BackgroundTransferSnapshot K :=
  if snapshot.state = .paused then { snapshot with state := .pending } else snapshot

def interruptSnapshot (reason : String) (now : Nat) (snapshot : BackgroundTransferSnapshot K) :
    BackgroundTransferSnapshot K :=
  if snapshot.state.isFinished then snapshot
  else { snapshot with
    state := .error
    error := some reason
    backendSpeed := some 0
    endTime := some now }

/-- Session exit is an explicit cancellation, not a resumable transport error. -/
def sweepSnapshot (shutdownTime : Nat) (snapshot : BackgroundTransferSnapshot K) :
    BackgroundTransferSnapshot K :=
  if snapshot.state.isFinished then snapshot
  else { snapshot with
    state := .cancelled
    backendSpeed := some 0
    error := none
    endTime := some shutdownTime }

/-- The control blocks of all registered transfers. -/
def registeredBlocks (s : SftpTransferManager T K) : Finset Nat :=
  s.controls.keys.biUnion fun id => (s.getControl id).toFinset

def setBlock (s : SftpTransferManager T K) (control : Nat)
    (f : SftpTransferControl → SftpTransferControl) : SftpTransferManager T K :=
  { s with block := Function.update s.block control (f (s.block control)) }

def setCall (s : SftpTransferManager T K) (t : T) (point : CallPoint K) : SftpTransferManager T K :=
  { s with calls := Function.update s.calls t point }

end SftpTransferManager

/-! ## Steps -/

/-- Calls with more than one step. -/
inductive TransferCall (K : Type) where
  | registerBackgroundTransfer (snapshot : BackgroundTransferSnapshot K)
  | pause (id : K)
  | resume (id : K)
  | interrupt (id : K) (reason : String)
  | checkControl (id : K)
deriving DecidableEq

inductive TransferStep (T K : Type) where
  | register (id : K) (nodeId : Option String)
  | unregister (id : K)
  | markBackgroundTransferActive (id : K)
  | updateBackgroundTransferProgress (id : K) (transferred total speed : Nat)
  | finishBackgroundTransfer (id : K) (state : FinishedState) (error : Option String)
      (itemCount : Option Nat) (now : Nat)
  /-- A thread starts a call and takes its first step. -/
  | call (t : T) (call : TransferCall K) (now : Nat)
  /-- It takes the next step of the call. -/
  | next (t : T) (now : Nat)
  | shutdownSessionTransfers
  | cancelCollected (control : Nat)
  /-- The shutdown takes its next step. -/
  | nextOfShutdown (now : Nat)
deriving DecidableEq

/-- What `check_control` returns, for the control block it found. -/
inductive TransferOutcome where
  | checked (control : Option Nat) (late : Bool) (result : Except SftpError Unit)
  | other
deriving DecidableEq

namespace SftpTransferManager

variable {T K : Type} [DecidableEq T] [DecidableEq K]

def startCall (s : SftpTransferManager T K) (t : T) (now : Nat) :
    TransferCall K → SftpTransferManager T K × TransferOutcome
  | .registerBackgroundTransfer snapshot =>
    ((s.cleanupBackgroundTransfers now).setCall t (.registering snapshot), .other)
  | .pause id =>
    match s.getControl id with
    | some control => (s.setCall t (.pausing id (some control)), .other)
    | none => (s, .other)
  | .resume id =>
    match s.getControl id with
    | some control => (s.setCall t (.resuming id (some control)), .other)
    | none => (s, .other)
  | .interrupt id reason => (s.setCall t (.interrupting id reason (s.getControl id)), .other)
  | .checkControl id =>
    match s.getControl id with
    | some control => (s.setCall t (.checking control s.shutdown.swept .cancelled), .other)
    | none => (s, .checked none s.shutdown.swept (.ok ()))

/-- The next step of `check_control`. A paused transfer is looked at again after a while. -/
def checkNext (s : SftpTransferManager T K) (t : T) (control : Nat) (late : Bool) :
    CheckPoint → SftpTransferManager T K × TransferOutcome
  | .cancelled =>
    if (s.block control).cancelled then (s.setCall t (.checking control late .shutdown), .other)
    else (s.setCall t (.checking control late .interrupt), .other)
  | .shutdown =>
    (s.setCall t .idle, .checked (some control) late
      (.error (if s.shutdownState ≠ .running then .transferShutdown else .transferCancelled)))
  | .interrupt =>
    match (s.block control).interruptReason with
    | some reason =>
      (s.setCall t .idle, .checked (some control) late (.error (.transferInterrupted reason)))
    | none => (s.setCall t (.checking control late .pause), .other)
  | .pause =>
    if (s.block control).paused then (s.setCall t (.checking control late .cancelled), .other)
    else (s.setCall t .idle, .checked (some control) late (.ok ()))

def nextOf (s : SftpTransferManager T K) (t : T) (now : Nat) :
    CallPoint K → SftpTransferManager T K × TransferOutcome
  | .idle => (s, .other)
  | .registering snapshot =>
    let accepted := decide (s.shutdownState = .running)
    (s.setCall t (.inserting (registeredSnapshot snapshot accepted now) accepted), .other)
  | .inserting snapshot accepted =>
    let s := s.insertBackgroundTransfer snapshot
    (s.setCall t (if accepted then .idle else .finishing snapshot.id), .other)
  | .finishing id =>
    ((s.finishBackgroundTransfer id .cancelled none none now).setCall t .idle, .other)
  | .pausing id (some control) =>
    ((s.setBlock control SftpTransferControl.pause).setCall t (.pausing id none), .other)
  | .pausing id none =>
    ({ s with backgroundTransfers := s.backgroundTransfers.modify id pauseSnapshot }.setCall t .idle,
      .other)
  | .resuming id (some control) =>
    ((s.setBlock control SftpTransferControl.resume).setCall t (.resuming id none), .other)
  | .resuming id none =>
    ({ s with backgroundTransfers := s.backgroundTransfers.modify id resumeSnapshot }.setCall t .idle,
      .other)
  | .interrupting id reason (some control) =>
    ((s.setBlock control (SftpTransferControl.interrupt · reason)).setCall t
      (.interrupting id reason none), .other)
  | .interrupting id reason none =>
    ({ s with
        backgroundTransfers :=
          s.backgroundTransfers.modify id (interruptSnapshot reason now) }.setCall t .idle, .other)
  | .checking control late point => s.checkNext t control late point

def nextOfShutdown (s : SftpTransferManager T K) (now : Nat) : SftpTransferManager T K :=
  match s.shutdown with
  | .notStarted | .finished => s
  | .collecting => { s with shutdown := .cancelling s.registeredBlocks }
  | .cancelling controls => if controls = ∅ then { s with shutdown := .sweeping } else s
  | .sweeping =>
    { s with
      backgroundTransfers := s.backgroundTransfers.mapValues (sweepSnapshot now)
      shutdown := .draining }
  | .draining => { s with shutdownState := .stopped, shutdown := .finished }

/-- A step. Collected control blocks are cancelled in any order. -/
def step (s : SftpTransferManager T K) :
    TransferStep T K → SftpTransferManager T K × TransferOutcome
  | .register id nodeId => (s.registerOwned id nodeId, .other)
  | .unregister id => (s.unregister id, .other)
  | .markBackgroundTransferActive id => (s.markBackgroundTransferActive id, .other)
  | .updateBackgroundTransferProgress id transferred total speed =>
    (s.updateBackgroundTransferProgress id transferred total speed, .other)
  | .finishBackgroundTransfer id state error itemCount now =>
    (s.finishBackgroundTransfer id state.state error itemCount now, .other)
  | .call t call now => if s.calls t = .idle then s.startCall t now call else (s, .other)
  | .next t now => s.nextOf t now (s.calls t)
  | .shutdownSessionTransfers =>
    if s.shutdownState = .running then
      ({ s with shutdownState := .shuttingDown, shutdown := .collecting }, .other)
    else (s, .other)
  | .cancelCollected control =>
    match s.shutdown with
    | .cancelling controls =>
      if control ∈ controls then
        ({ s.setBlock control SftpTransferControl.cancel with
            shutdown := .cancelling (controls.erase control) }, .other)
      else (s, .other)
    | _ => (s, .other)
  | .nextOfShutdown now => (s.nextOfShutdown now, .other)

variable (T K) in
def machine : Machine (SftpTransferManager T K) (TransferStep T K) TransferOutcome where
  init := new
  step := step

end SftpTransferManager

end OxideTerm.Sftp
