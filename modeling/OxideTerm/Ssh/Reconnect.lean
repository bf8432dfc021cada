import Mathlib.Data.String.Basic
import OxideTerm.Lib.FiniteMap
import OxideTerm.Lib.Machine

/-!
# Reconnect jobs

The store of the reconnect orchestrator. A node has at most one job, and workers and the user act
on it by the name of the node. Finished jobs are kept for a while, up to a cap.

What the clock shows, the identifiers that are drawn and the order in which the map of jobs is
visited are given with each call. So is the delay before a retry, which the source draws at random
with floating-point arithmetic. Auditing is left out, and so is what a snapshot restores.
-/

namespace OxideTerm.Ssh

open OxideTerm.Lib

/-! ## Jobs -/

/-- Nanoseconds from the epoch. -/
abbrev SystemTime := Int

/-- The readings of the clock in one call, in order. -/
abbrev Clock := Nat → SystemTime

inductive ReconnectPhase where
  | queued
  | snapshot
  | gracePeriod
  | sshConnect
  | awaitTerminal
  | restoreForwards
  | resumeTransfers
  | restoreIde
  | verify
  | done
  | failed
  | cancelled
deriving DecidableEq

inductive PhaseResult where
  | running
  | ok
  | failed
  | skipped
deriving DecidableEq

structure PhaseEvent where
  phase : ReconnectPhase
  startedAt : SystemTime
  endedAt : Option SystemTime
  result : PhaseResult
  detail : Option String
deriving DecidableEq

structure ReconnectSnapshot where
  nodeId : String
  snapshotAt : Option SystemTime
deriving DecidableEq

structure ReconnectJob where
  jobId : String
  nodeId : String
  nodeName : String
  status : ReconnectPhase
  attempt : Nat
  maxAttempts : Nat
  startedAt : SystemTime
  endedAt : Option SystemTime
  error : Option String
  snapshot : ReconnectSnapshot
  restoredCount : Nat
  phaseHistory : List PhaseEvent
deriving DecidableEq

/-- A delay, and how it is printed. -/
structure RetryDelay where
  millis : Nat
  text : String
deriving DecidableEq

structure ReconnectRetry where
  attempt : Nat
  maxAttempts : Nat
  delay : RetryDelay
deriving DecidableEq

def isTerminalPhase : ReconnectPhase → Bool
  | .done => true
  | .failed => true
  | .cancelled => true
  | _ => false

/-- The largest number of attempts that can be counted. -/
def u32Max : Nat := 2 ^ 32 - 1

namespace ReconnectJob

/-- Enters a phase in the history, which holds the last 64. -/
def pushPhase (job : ReconnectJob) (phase : ReconnectPhase) (result : PhaseResult)
    (detail : Option String) (clock : Clock) : ReconnectJob :=
  let event : PhaseEvent :=
    { phase
      startedAt := clock 0
      endedAt := if result ≠ .running then some (clock 1) else none
      result
      detail }
  let history := job.phaseHistory ++ [event]
  { job with phaseHistory := if 64 < history.length then history.tail else history }

/-- The phase that was entered last is over. -/
def completeLastPhase (job : ReconnectJob) (result : PhaseResult) (detail : Option String)
    (clock : Clock) : ReconnectJob :=
  match job.phaseHistory.getLast? with
  | none => job
  | some event =>
    { job with
      phaseHistory := job.phaseHistory.dropLast ++
        [{ event with endedAt := some (clock 0), result, detail }] }

end ReconnectJob

/-! ## The store -/

structure ReconnectOrchestratorStore where
  jobs : FiniteMap String ReconnectJob
  maxAttempts : Nat

/-- What is compared to find the oldest finished jobs. -/
structure TerminalJob where
  nodeId : String
  endedAt : SystemTime
  startedAt : SystemTime

/-- The order of the finished jobs: by their end, then by their start. -/
def TerminalJob.le (a b : TerminalJob) : Bool :=
  a.endedAt < b.endedAt || a.endedAt = b.endedAt && a.startedAt ≤ b.startedAt

namespace ReconnectOrchestratorStore

/-- A new store. -/
def new (maxAttempts : Nat) : ReconnectOrchestratorStore :=
  { jobs := .empty, maxAttempts := max maxAttempts 1 }

def configure (store : ReconnectOrchestratorStore) (maxAttempts : Nat) :
    ReconnectOrchestratorStore :=
  { store with maxAttempts := max maxAttempts 1 }

/-- Changes the job of a node, if there is one, and returns it. -/
def modify (store : ReconnectOrchestratorStore) (nodeId : String)
    (change : ReconnectJob → ReconnectJob) : ReconnectOrchestratorStore × Option ReconnectJob :=
  match store.jobs.get nodeId with
  | none => (store, none)
  | some job => ({ store with jobs := store.jobs.insert nodeId (change job) }, some (change job))

/-- Schedules a job, unless the node has one that has not ended. -/
def schedule (store : ReconnectOrchestratorStore) (nodeId nodeName jobId : String) (clock : Clock) :
    ReconnectOrchestratorStore × ReconnectJob :=
  let snapshot : ReconnectSnapshot := { nodeId, snapshotAt := some (clock 0) }
  let fresh : ReconnectJob :=
    { jobId, nodeId, nodeName
      status := .queued
      attempt := 0
      maxAttempts := store.maxAttempts
      startedAt := clock 1
      endedAt := none
      error := none
      snapshot
      restoredCount := 0
      phaseHistory := [] }
  let job := fresh.pushPhase .queued .running none fun i => clock (i + 2)
  match store.jobs.get nodeId with
  | none => ({ store with jobs := store.jobs.insert nodeId job }, job)
  | some old =>
    if old.endedAt.isNone then (store, old)
    else ({ store with jobs := (store.jobs.erase nodeId).insert nodeId job }, job)

/-- A worker enters a phase. -/
def advance (store : ReconnectOrchestratorStore) (nodeId : String) (phase : ReconnectPhase)
    (clock : Clock) : ReconnectOrchestratorStore × Option ReconnectJob :=
  store.modify nodeId fun job => { job with status := phase }.pushPhase phase .running none clock

def completePhase (store : ReconnectOrchestratorStore) (nodeId : String) (result : PhaseResult)
    (detail : Option String) (clock : Clock) : ReconnectOrchestratorStore × Option ReconnectJob :=
  store.modify nodeId fun job => job.completeLastPhase result detail clock

/-- A worker has restored so much, or failed. -/
def finish (store : ReconnectOrchestratorStore) (nodeId : String) (result : Except String Nat)
    (clock : Clock) : ReconnectOrchestratorStore × Option ReconnectJob :=
  store.modify nodeId fun job =>
    match result with
    | .ok restoredCount =>
      { job with endedAt := some (clock 0), status := .done, restoredCount }.pushPhase .done .ok none
        fun i => clock (i + 1)
    | .error error =>
      { job with endedAt := some (clock 0), status := .failed, error := some error }.pushPhase
        .failed .failed (some error) fun i => clock (i + 1)

/-- The user gives up. -/
def cancel (store : ReconnectOrchestratorStore) (nodeId : String) (clock : Clock) :
    ReconnectOrchestratorStore × Option ReconnectJob :=
  store.modify nodeId fun job =>
    { job with status := .cancelled, endedAt := some (clock 0) }.pushPhase .cancelled .ok none
      fun i => clock (i + 1)

def beginSshAttempt (store : ReconnectOrchestratorStore) (nodeId : String) :
    ReconnectOrchestratorStore × Option ReconnectJob :=
  match store.jobs.get nodeId with
  | none => (store, none)
  | some job =>
    if job.endedAt.isSome then (store, none)
    else store.modify nodeId fun job =>
      { job with attempt := min (min (job.attempt + 1) u32Max) job.maxAttempts }

def scheduleRetry (store : ReconnectOrchestratorStore) (nodeId : String) (delay : RetryDelay)
    (clock : Clock) : ReconnectOrchestratorStore × Option ReconnectRetry :=
  match store.jobs.get nodeId with
  | none => (store, none)
  | some job =>
    if job.endedAt.isSome || job.maxAttempts ≤ job.attempt then (store, none)
    else
      let detail := s!"retry {job.attempt + 1}/{job.maxAttempts} in {delay.text}"
      ((store.modify nodeId fun job =>
          { job with status := .queued }.pushPhase .queued .running (some detail) clock).1,
        some { attempt := job.attempt + 1, maxAttempts := job.maxAttempts, delay })

/-- Forgets a finished job, named by its start. -/
def cleanupTerminalJob (store : ReconnectOrchestratorStore) (nodeId : String)
    (startedAt : SystemTime) : ReconnectOrchestratorStore × Bool :=
  let shouldRemove := (store.jobs.get nodeId).any fun job =>
    isTerminalPhase job.status && job.startedAt = startedAt
  (if shouldRemove then { store with jobs := store.jobs.erase nodeId } else store, shouldRemove)

/-- The nodes with jobs, in the order in which the map is visited. -/
def visit (store : ReconnectOrchestratorStore) (rank : String → Nat) : List String :=
  (inOrder store.jobs.keys).mergeSort fun a b => rank a ≤ rank b

/-- The finished jobs, in the order in which the map is visited. -/
def terminalJobs (store : ReconnectOrchestratorStore) (rank : String → Nat) : List TerminalJob :=
  (store.visit rank).filterMap fun nodeId => (store.jobs.get nodeId).bind fun job =>
    if isTerminalPhase job.status then
      some { nodeId, endedAt := job.endedAt.getD job.startedAt, startedAt := job.startedAt }
    else none

/-- Forgets the oldest finished jobs beyond the cap. -/
def enforceTerminalJobCap (store : ReconnectOrchestratorStore) (maxRetained : Nat)
    (rank : String → Nat) : ReconnectOrchestratorStore :=
  let terminalJobs := store.terminalJobs rank
  if terminalJobs.length ≤ maxRetained then store
  else
    let toRemove := terminalJobs.length - maxRetained
    let oldest := (terminalJobs.mergeSort TerminalJob.le).take toRemove
    { store with jobs := oldest.foldl (fun jobs job => jobs.erase job.nodeId) store.jobs }

def job (store : ReconnectOrchestratorStore) (nodeId : String) : Option ReconnectJob :=
  store.jobs.get nodeId

def isActive (store : ReconnectOrchestratorStore) (nodeId : String) : Bool :=
  (store.jobs.get nodeId).any fun job => job.endedAt.isNone

/-- Whether the job with this identifier is the one to go on with. -/
def isCurrent (store : ReconnectOrchestratorStore) (nodeId jobId : String) : Bool :=
  (store.jobs.get nodeId).any fun job => job.endedAt.isNone && job.jobId = jobId

def activeJobId (store : ReconnectOrchestratorStore) (nodeId : String) : Option String :=
  (store.jobs.get nodeId).bind fun job => if job.endedAt.isNone then some job.jobId else none

/-! ## Calls -/

/-- A call to the store, with what the environment contributes to it. -/
inductive Call where
  | configure (maxAttempts : Nat)
  | schedule (nodeId nodeName jobId : String) (clock : Clock)
  | advance (nodeId : String) (phase : ReconnectPhase) (clock : Clock)
  | completePhase (nodeId : String) (result : PhaseResult) (detail : Option String) (clock : Clock)
  | finish (nodeId : String) (result : Except String Nat) (clock : Clock)
  | cancel (nodeId : String) (clock : Clock)
  | beginSshAttempt (nodeId : String)
  | scheduleRetry (nodeId : String) (delay : RetryDelay) (clock : Clock)
  | cleanupTerminalJob (nodeId : String) (startedAt : SystemTime)
  | enforceTerminalJobCap (maxRetained : Nat) (rank : String → Nat)

/-- What a call returns. -/
inductive Answer where
  | none
  | job (job : Option ReconnectJob)
  | retry (retry : Option ReconnectRetry)
  | removed (removed : Bool)

/-- What a call does. -/
def step (store : ReconnectOrchestratorStore) : Call → ReconnectOrchestratorStore × Answer
  | .configure maxAttempts => (store.configure maxAttempts, .none)
  | .schedule nodeId nodeName jobId clock =>
    let result := store.schedule nodeId nodeName jobId clock
    (result.1, .job (some result.2))
  | .advance nodeId phase clock =>
    let result := store.advance nodeId phase clock
    (result.1, .job result.2)
  | .completePhase nodeId result detail clock =>
    let result := store.completePhase nodeId result detail clock
    (result.1, .job result.2)
  | .finish nodeId result clock =>
    let result := store.finish nodeId result clock
    (result.1, .job result.2)
  | .cancel nodeId clock =>
    let result := store.cancel nodeId clock
    (result.1, .job result.2)
  | .beginSshAttempt nodeId =>
    let result := store.beginSshAttempt nodeId
    (result.1, .job result.2)
  | .scheduleRetry nodeId delay clock =>
    let result := store.scheduleRetry nodeId delay clock
    (result.1, .retry result.2)
  | .cleanupTerminalJob nodeId startedAt =>
    let result := store.cleanupTerminalJob nodeId startedAt
    (result.1, .removed result.2)
  | .enforceTerminalJobCap maxRetained rank => (store.enforceTerminalJobCap maxRetained rank, .none)

/-- A store under calls in any order. -/
def machine (maxAttempts : Nat) : Machine ReconnectOrchestratorStore Call Answer where
  init := new maxAttempts
  step := step

end ReconnectOrchestratorStore

end OxideTerm.Ssh
