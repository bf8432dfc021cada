import OxideTerm.Ssh.Events

/-!
# What a subscriber misses

A subscriber who polls late misses levels that were replaced or gave way to the limit. It misses
no event that it acts on, and learns of the events in the order in which they were dispatched.
-/

namespace OxideTerm.Ssh

open OxideTerm.Lib
open OxideTerm.Lib.Mailbox (Action Observation takenItems putItems acceptedItems lastOf
  NothingEvicted)

namespace NodeEventMailbox

variable (capacity : ℕ+) (wake : Bool) (labels : List (Action NodeStateEvent))

/-- The dispatches and polls, and then as many polls as there are events left. -/
def drained : List (Action NodeStateEvent) :=
  labels ++ List.replicate ((machine capacity wake).final labels).queue.length .take

/-- Whatever was dropped as a duplicate is the last queued event about the same thing. -/
def DuplicatesAreLatest : Prop :=
  ∀ e ∈ (machine capacity wake).trace labels, ∀ event, e.label = .put event →
    e.output.accepts = false →
      lastOf rules (nodeEventCoalesceKey event) e.pre.queue = some event

/-! ## What is seen of the mailbox is what is seen of the rules -/

theorem takenItems_machine : takenItems ((machine capacity wake).trace labels) =
    takenItems ((Mailbox.mailbox rules capacity).trace labels) := by
  have h := congrArg (List.filterMap fun t => t.2.2.taken?) (machine_refines capacity wake labels).2.2
  rw [List.filterMap_map, List.filterMap_map] at h
  exact h

theorem acceptedItems_machine : acceptedItems ((machine capacity wake).trace labels) =
    acceptedItems ((Mailbox.mailbox rules capacity).trace labels) := by
  have h := congrArg (List.filterMap fun t => if t.2.2.accepts then t.2.1.put? else none)
    (machine_refines capacity wake labels).2.2
  rw [List.filterMap_map, List.filterMap_map] at h
  exact h

theorem drained_machine : drained capacity wake labels = Mailbox.drained rules capacity labels := by
  unfold drained Mailbox.drained
  rw [(machine_refines capacity wake labels).1]

/-- Every step of the rules is a step of the mailbox, with the same queue before it. -/
theorem exists_mem_trace {e} (he : e ∈ (Mailbox.mailbox rules capacity).trace labels) :
    ∃ d ∈ (machine capacity wake).trace labels,
      d.pre.queue = e.pre ∧ d.label = e.label ∧ d.output = e.output := by
  have h := (machine_refines capacity wake labels).2.2
  have hmem : (e.pre, e.label, e.output) ∈
      ((machine capacity wake).trace labels).map fun e => (e.pre.queue, e.label, e.output) := by
    rw [h]
    exact List.mem_map.mpr ⟨e, he, rfl⟩
  obtain ⟨d, hd, heq⟩ := List.mem_map.mp hmem
  obtain ⟨hpre, hrest⟩ := Prod.mk.inj heq
  obtain ⟨hlabel, houtput⟩ := Prod.mk.inj hrest
  exact ⟨d, hd, hpre, hlabel, houtput⟩

theorem nothingEvicted_machine (h : NothingEvicted ((machine capacity wake).trace labels)) :
    NothingEvicted ((Mailbox.mailbox rules capacity).trace labels) := by
  intro e he
  obtain ⟨d, hd, -, -, houtput⟩ := exists_mem_trace capacity wake labels he
  rw [← houtput]
  exact h d hd

theorem duplicatesAreLatest_machine (h : DuplicatesAreLatest capacity wake labels) :
    Mailbox.DuplicatesAreLatest rules ((Mailbox.mailbox rules capacity).trace labels) := by
  intro e he event hevent haccepts
  obtain ⟨d, hd, hpre, hlabel, houtput⟩ := exists_mem_trace capacity wake labels he
  rw [← hpre]
  exact h d hd event (hlabel.trans hevent) (houtput ▸ haccepts)

end NodeEventMailbox

end OxideTerm.Ssh
