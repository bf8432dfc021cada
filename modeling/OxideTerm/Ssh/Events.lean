import Mathlib.Data.PNat.Basic
import OxideTerm.Lib.Mailbox

/-!
# Node events and their mailboxes

What is told about a node, and the bounded mailbox through which a subscriber learns of it. The
emitter dispatches an event to every mailbox; the owner of a mailbox polls it.
-/

namespace OxideTerm.Ssh

open OxideTerm.Lib

/-! ## Events -/

inductive NodeReadiness where
  | ready
  | connecting
  | error
  | disconnected
deriving DecidableEq

inductive NodeStateEvent where
  | connectionStatusChanged (connectionId status : String) (affectedChildren : List String)
      (timestamp : UInt64)
  | connectionStateChanged (nodeId : String) (generation : UInt64) (state : NodeReadiness)
      (reason : String)
  | sftpReady (nodeId : String) (generation : UInt64) (ready : Bool) (cwd : Option String)
  | sharedSftpSessionChanged (nodeId : String) (generation : UInt64) (connectionId : String)
      (sessionGeneration : Option UInt64) (ready : Bool)
  | terminalEndpointChanged (nodeId : String) (generation : UInt64) (available : Bool)
deriving DecidableEq

/-- What an event is about. -/
def nodeEventCoalesceKey : NodeStateEvent → String × UInt8
  | .connectionStatusChanged connectionId _ _ _ => (connectionId, 0)
  | .connectionStateChanged nodeId _ _ _ => (nodeId, 1)
  | .sftpReady nodeId _ _ _ => (nodeId, 2)
  | .terminalEndpointChanged nodeId _ _ => (nodeId, 3)
  | .sharedSftpSessionChanged nodeId _ _ _ _ => (nodeId, 4)

/-- Whether the subscriber acts on the event itself, not only on the level it reports. -/
def nodeEventRequiresReliableDelivery : NodeStateEvent → Bool
  | .connectionStatusChanged _ status _ _ => status = "link_down" || status = "disconnected"
  | .connectionStateChanged _ _ state _ => state = .error || state = .disconnected
  | .sharedSftpSessionChanged .. => true
  | .sftpReady .. => false
  | .terminalEndpointChanged .. => false

/-! ## The mailbox -/

/-- A bounded mailbox, oldest event first. -/
structure NodeEventMailbox where
  queue : List NodeStateEvent
  capacity : Nat
  /-- Whether the subscriber wants to be woken. -/
  wake : Bool
  /-- The source asserts this when a mailbox is created. -/
  positive : 0 < capacity

/-- What a dispatch does to one mailbox. -/
structure Dispatched where
  mailbox : NodeEventMailbox
  outcome : Mailbox.Outcome NodeStateEvent
  woken : Bool

/-- The mailbox of a new subscription. -/
def subscribeBoundedWithWake (capacity : ℕ+) (wake : Bool) : NodeEventMailbox :=
  { queue := [], capacity := capacity, wake, positive := capacity.pos }

namespace NodeEventMailbox

/-- Whether an event replaces a queued one. -/
def coalesces (event queued : NodeStateEvent) : Bool :=
  !nodeEventRequiresReliableDelivery queued &&
    nodeEventCoalesceKey queued = nodeEventCoalesceKey event

/-- What the emitter does to a mailbox for one event. -/
def dispatch (mailbox : NodeEventMailbox) (event : NodeStateEvent) : Dispatched :=
  if mailbox.queue.any (fun queued => queued = event) then
    { mailbox, outcome := .duplicate, woken := false }
  else
    let replaced :=
      if !nodeEventRequiresReliableDelivery event then mailbox.queue.find? (coalesces event)
      else none
    let queue :=
      if !nodeEventRequiresReliableDelivery event then mailbox.queue.eraseP (coalesces event)
      else mailbox.queue
    let level := fun queued => !nodeEventRequiresReliableDelivery queued
    let evicted := if mailbox.capacity ≤ queue.length then queue.find? level else none
    let room := if mailbox.capacity ≤ queue.length then queue.eraseP level else queue
    { mailbox := { mailbox with queue := room ++ [event] }
      outcome := .queued replaced evicted
      woken := mailbox.wake }

/-- Takes the oldest event, if there is one. -/
def tryRecv (mailbox : NodeEventMailbox) : NodeEventMailbox × Option NodeStateEvent :=
  match mailbox.queue with
  | [] => (mailbox, none)
  | event :: queue => ({ mailbox with queue }, some event)

/-- How events share a mailbox. -/
def rules : Mailbox.Rules NodeStateEvent (String × UInt8) where
  key := nodeEventCoalesceKey
  reliable := nodeEventRequiresReliableDelivery

/-- A mailbox under dispatches and polls. -/
def machine (capacity : ℕ+) (wake : Bool) :
    Machine NodeEventMailbox (Mailbox.Action NodeStateEvent) (Mailbox.Observation NodeStateEvent) where
  init := subscribeBoundedWithWake capacity wake
  step mailbox action :=
    match action with
    | .put event => ((mailbox.dispatch event).mailbox, .put (mailbox.dispatch event).outcome)
    | .take => (mailbox.tryRecv.1, .taken mailbox.tryRecv.2)

/-! ## The mailbox follows the rules of a coalescing mailbox -/

variable {mailbox : NodeEventMailbox} {event : NodeStateEvent}

@[simp] theorem tryRecv_queue : mailbox.tryRecv.1.queue = mailbox.queue.tail := by
  unfold tryRecv
  split
  · next h => rw [h]; rfl
  · next h => rw [h]; rfl

@[simp] theorem tryRecv_event : mailbox.tryRecv.2 = mailbox.queue.head? := by
  unfold tryRecv
  split
  · next h => rw [h]; rfl
  · next h => rw [h]; rfl

/-- Polling changes nothing but the queue. -/
theorem tryRecv_capacity : mailbox.tryRecv.1.capacity = mailbox.capacity := by
  unfold tryRecv
  split <;> rfl

theorem replaces_of_level (h : nodeEventRequiresReliableDelivery event = false) :
    rules.replaces id event = coalesces event := by
  funext queued
  show (!nodeEventRequiresReliableDelivery event && _ && _) = _
  rw [h]
  rfl

theorem replaces_of_reliable (h : nodeEventRequiresReliableDelivery event = true)
    (queued : NodeStateEvent) : rules.replaces id event queued = false := by
  simp [Mailbox.Rules.replaces, rules, h]

/-- **A dispatch is a put**, and wakes the subscriber when it is not dropped as a duplicate. -/
theorem dispatch_eq_put :
    (mailbox.dispatch event).mailbox = { mailbox with
        queue := (Mailbox.put rules mailbox.capacity id mailbox.queue event).1 } ∧
      (mailbox.dispatch event).outcome =
        (Mailbox.put rules mailbox.capacity id mailbox.queue event).2 ∧
      (mailbox.dispatch event).woken = (mailbox.wake && (mailbox.dispatch event).outcome.accepts) := by
  unfold dispatch
  by_cases hdup : event ∈ mailbox.queue
  · rw [if_pos (by simpa using hdup), Mailbox.put_duplicate (by simpa using hdup)]
    exact ⟨rfl, rfl, (Bool.and_false _).symm⟩
  · rw [if_neg (by simpa using hdup), Mailbox.put_queued (by simpa using hdup)]
    unfold Mailbox.coalesced
    cases hlevel : nodeEventRequiresReliableDelivery event with
    | false =>
      rw [replaces_of_level hlevel]
      exact ⟨rfl, rfl, (Bool.and_true _).symm⟩
    | true =>
      have hnone : mailbox.queue.eraseP (rules.replaces id event) = mailbox.queue :=
        List.eraseP_of_forall_not fun queued _ => by simp [replaces_of_reliable hlevel]
      have hfind : mailbox.queue.find? (rules.replaces id event) = none :=
        List.find?_eq_none.mpr fun queued _ => by simp [replaces_of_reliable hlevel]
      rw [hnone, hfind]
      exact ⟨rfl, rfl, (Bool.and_true _).symm⟩

variable (capacity : ℕ+) (wake : Bool)

/-- What a run of the mailbox shows, and where it ends, is as the rules say. -/
theorem machine_refines (labels : List (Mailbox.Action NodeStateEvent)) :
    ((machine capacity wake).final labels).queue = (Mailbox.mailbox rules capacity).final labels ∧
      ((machine capacity wake).final labels).capacity = capacity ∧
      ((machine capacity wake).trace labels).map (fun e => (e.pre.queue, e.label, e.output)) =
        ((Mailbox.mailbox rules capacity).trace labels).map fun e => (e.pre, e.label, e.output) := by
  induction labels using List.reverseRecOn with
  | nil => exact ⟨rfl, rfl, rfl⟩
  | append_singleton labels action ih =>
    obtain ⟨hqueue, hcapacity, htrace⟩ := ih
    simp only [Machine.final_snoc, Machine.trace_snoc, List.map_append, htrace]
    generalize (machine capacity wake).final labels = mailbox at hqueue hcapacity ⊢
    rw [← hqueue]
    cases action with
    | put event =>
      obtain ⟨hmailbox, houtcome, -⟩ := @dispatch_eq_put mailbox event
      simp only [machine, Machine.event, Mailbox.mailbox_put, hmailbox, houtcome, hcapacity,
        List.map_cons, List.map_nil]
      exact ⟨trivial, trivial, trivial⟩
    | take =>
      simp only [machine, Machine.event, Mailbox.mailbox_take, tryRecv_queue, tryRecv_event,
        tryRecv_capacity, hcapacity, List.map_cons, List.map_nil]
      exact ⟨trivial, trivial, trivial⟩

end NodeEventMailbox

end OxideTerm.Ssh
