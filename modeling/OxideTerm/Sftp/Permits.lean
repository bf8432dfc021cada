import OxideTerm.Lib.Machine

/-!
# The limit on concurrent transfers

A call of `acquire_permit` first compares the count of active transfers with the limit, then waits
for a semaphore of fixed size, then counts itself. These are separate steps, and those of other
calls may come in between. Dropping a permit counts down first and then gives back the permit of
the semaphore. Any number of calls is under way, each named by its caller.
-/

namespace OxideTerm.Sftp

open OxideTerm.Lib

def defaultSftpConcurrentTransfers : Nat := 3
def maxSftpConcurrentTransfers : Nat := 10

/-- What `acquire_permit` reads and writes, with the calls at each of its points. -/
structure PermitState (T : Type) where
  maxConcurrentTransfers : Nat
  activeCount : Nat
  /-- What is left of the semaphore. -/
  available : Nat
  /-- These calls passed the check and wait for the semaphore. -/
  waiting : List T
  /-- These have a permit of the semaphore and are not counted yet. -/
  acquired : List T
  /-- These callers hold a permit. -/
  outstanding : List T
  /-- These permits are counted down, and their permit of the semaphore is not given back yet. -/
  releasing : List T

inductive PermitStep (T : Type) where
  /-- A call compares the count with the limit. It goes to sleep when there is no room. -/
  | check (caller : T)
  /-- A call that waits for the semaphore is dropped. -/
  | giveUp (caller : T)
  | acquire (caller : T)
  /-- The call counts itself and returns. -/
  | count (caller : T)
  | drop (caller : T)
  | release (caller : T)
  | setMaxConcurrent (max : Nat)
deriving DecidableEq

inductive PermitOutcome (T : Type) where
  | granted (caller : T)
  | dropped (caller : T)
  | other
deriving DecidableEq

namespace PermitState

/-- `usize::clamp`. -/
def clamp (value low high : Nat) : Nat := max low (min value high)

variable {T : Type} [DecidableEq T]

def setMaxConcurrent (s : PermitState T) (max : Nat) : PermitState T :=
  { s with maxConcurrentTransfers := clamp max 1 maxSftpConcurrentTransfers }

/-- A step that its caller is not ready for changes nothing. -/
def step (s : PermitState T) : PermitStep T → PermitState T × PermitOutcome T
  | .check caller =>
    if s.activeCount < s.maxConcurrentTransfers then
      ({ s with waiting := caller :: s.waiting }, .other)
    else (s, .other)
  | .giveUp caller => ({ s with waiting := s.waiting.erase caller }, .other)
  | .acquire caller =>
    if caller ∈ s.waiting ∧ 0 < s.available then
      ({ s with
        waiting := s.waiting.erase caller
        available := s.available - 1
        acquired := caller :: s.acquired }, .other)
    else (s, .other)
  | .count caller =>
    if caller ∈ s.acquired then
      ({ s with
        acquired := s.acquired.erase caller
        activeCount := s.activeCount + 1
        outstanding := caller :: s.outstanding }, .granted caller)
    else (s, .other)
  | .drop caller =>
    if caller ∈ s.outstanding then
      ({ s with
        outstanding := s.outstanding.erase caller
        activeCount := s.activeCount - 1
        releasing := caller :: s.releasing }, .dropped caller)
    else (s, .other)
  | .release caller =>
    if caller ∈ s.releasing then
      ({ s with
        releasing := s.releasing.erase caller
        available := s.available + 1 }, .other)
    else (s, .other)
  | .setMaxConcurrent max => (s.setMaxConcurrent max, .other)

variable (T) in
/-- A new manager. -/
def machine : Machine (PermitState T) (PermitStep T) (PermitOutcome T) where
  init := {
    maxConcurrentTransfers := defaultSftpConcurrentTransfers
    activeCount := 0
    available := maxSftpConcurrentTransfers
    waiting := []
    acquired := []
    outstanding := []
    releasing := [] }
  step := step

end PermitState

end OxideTerm.Sftp
