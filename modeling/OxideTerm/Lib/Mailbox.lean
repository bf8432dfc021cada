import Mathlib.Data.List.Basic
import OxideTerm.Lib.Machine

/-!
# Coalescing mailboxes

A queue between a writer and a reader who may fall behind. An item that is already queued is not
queued twice. A level item (one that is not reliable) replaces a queued level item of its key,
and gives way when the queue is full; a reliable item stays until it is taken.

Queues hold items of any type that carry contents, so that the same rules run on items with a
number attached. The numbers say which put an item that is taken came from.
-/

namespace OxideTerm.Lib.Mailbox

/-- How items are told apart: the key under which they replace each other, and whether they must
reach the reader. -/
structure Rules (α κ : Type) where
  key : α → κ
  reliable : α → Bool

/-- What became of an item that was put. -/
inductive Outcome (β : Type) where
  | duplicate
  | queued (replaced evicted : Option β)
deriving DecidableEq

/-- Whether an item had to give way to the limit. -/
def Outcome.evicts {β : Type} : Outcome β → Bool
  | duplicate => false
  | queued _ evicted => evicted.isSome

/-- Whether the item is now in the queue on its own account. -/
def Outcome.accepts {β : Type} : Outcome β → Bool
  | duplicate => false
  | queued _ _ => true

variable {α β κ : Type} {rules : Rules α κ} {capacity : Nat} {content : β → α}
variable {queue : List β} {item : β}

/-- How many items of a queue must still reach the reader. -/
def pending (rules : Rules α κ) (content : β → α) (queue : List β) : Nat :=
  queue.countP fun b => rules.reliable (content b)

theorem countP_eraseP_of_not {p q : β → Bool} (h : ∀ b, q b = true → p b = false) :
    (l : List β) → (l.eraseP q).countP p = l.countP p
  | [] => rfl
  | b :: l => by
    rw [List.eraseP_cons]
    cases hq : q b with
    | true => simp [h b hq]
    | false => simp [List.countP_cons, countP_eraseP_of_not h l]

/-! ## Giving way to the limit -/

/-- The item that gives way when the queue is full. -/
def evictable (rules : Rules α κ) (capacity : Nat) (content : β → α) (queue : List β) : Option β :=
  if capacity ≤ queue.length then queue.find? fun b => !rules.reliable (content b) else none

/-- The queue without the item that gives way. -/
def trimmed (rules : Rules α κ) (capacity : Nat) (content : β → α) (queue : List β) : List β :=
  if capacity ≤ queue.length then queue.eraseP fun b => !rules.reliable (content b) else queue

theorem trimmed_sublist : (trimmed rules capacity content queue).Sublist queue := by
  unfold trimmed
  split
  · exact List.eraseP_sublist
  · exact List.Sublist.refl _

theorem mem_trimmed_of_reliable {b : β} (hb : b ∈ queue) (hr : rules.reliable (content b)) :
    b ∈ trimmed rules capacity content queue := by
  unfold trimmed
  split
  · exact (List.mem_eraseP_of_neg (by simp [hr])).mpr hb
  · exact hb

theorem pending_trimmed :
    pending rules content (trimmed rules capacity content queue) = pending rules content queue := by
  unfold trimmed
  split
  · exact countP_eraseP_of_not (fun b hb => by simpa using hb) queue
  · rfl

/-- Trimming makes room unless all that is queued must be delivered. -/
theorem length_trimmed :
    (trimmed rules capacity content queue).length < max capacity queue.length ∨
      (trimmed rules capacity content queue).length = pending rules content queue := by
  unfold trimmed
  split
  · next hfull =>
    by_cases h : ∃ b ∈ queue, rules.reliable (content b) = false
    · obtain ⟨b, hb, hr⟩ := h
      have hnonempty := List.length_pos_of_mem hb
      rw [List.length_eraseP_of_mem hb (by simp [hr])]
      omega
    · have hall : ∀ b ∈ queue, rules.reliable (content b) = true := by simpa using h
      rw [List.eraseP_of_forall_not (by simpa using hall), pending, List.countP_eq_length.mpr hall]
      exact Or.inr rfl
  · omega

/-- Where nothing gives way, nothing is taken out. -/
theorem trimmed_of_evictable (h : evictable rules capacity content queue = none) :
    trimmed rules capacity content queue = queue := by
  unfold trimmed
  unfold evictable at h
  split
  · next hfull =>
    rw [if_pos hfull, List.find?_eq_none] at h
    exact List.eraseP_of_forall_not h
  · rfl

/-! ## Replacing -/

section Replacing

variable [DecidableEq κ]

/-- Whether a new item replaces a queued one. -/
def Rules.replaces (rules : Rules α κ) (content : β → α) (item queued : β) : Bool :=
  !rules.reliable (content item) && !rules.reliable (content queued) &&
    rules.key (content queued) = rules.key (content item)

/-- The queue without the item that a new item replaces. -/
def coalesced (rules : Rules α κ) (content : β → α) (queue : List β) (item : β) : List β :=
  queue.eraseP (rules.replaces content item)

theorem coalesced_sublist : (coalesced rules content queue item).Sublist queue :=
  List.eraseP_sublist

theorem mem_coalesced_of_reliable {b : β} (hb : b ∈ queue) (hr : rules.reliable (content b)) :
    b ∈ coalesced rules content queue item :=
  (List.mem_eraseP_of_neg (by simp [Rules.replaces, hr])).mpr hb

theorem pending_coalesced :
    pending rules content (coalesced rules content queue item) = pending rules content queue := by
  refine countP_eraseP_of_not (fun b hb => ?_) queue
  simp only [Rules.replaces, Bool.and_eq_true] at hb
  simpa using hb.1.2

/-- Items of other keys are not replaced. -/
theorem filter_coalesced {k : κ} (hk : rules.key (content item) ≠ k) :
    (coalesced rules content queue item).filter (fun b => rules.key (content b) = k) =
      queue.filter fun b => rules.key (content b) = k := by
  induction queue with
  | nil => rfl
  | cons b queue ih =>
    unfold coalesced at ih ⊢
    rw [List.eraseP_cons]
    cases hb : rules.replaces content item b with
    | true =>
      have hsame : rules.key (content b) = rules.key (content item) := by
        simp only [Rules.replaces, Bool.and_eq_true, decide_eq_true_eq] at hb
        exact hb.2
      rw [List.filter_cons_of_neg (by simpa [hsame] using hk)]
      rfl
    | false => simp only [cond_false, List.filter_cons, ih]

end Replacing

/-! ## Putting -/

variable [DecidableEq α] [DecidableEq κ]

/-- Puts an item. -/
def put (rules : Rules α κ) (capacity : Nat) (content : β → α) (queue : List β) (item : β) :
    List β × Outcome β :=
  if content item ∈ queue.map content then (queue, .duplicate)
  else
    let room := coalesced rules content queue item
    (trimmed rules capacity content room ++ [item],
      .queued (queue.find? (rules.replaces content item)) (evictable rules capacity content room))

theorem put_duplicate (h : content item ∈ queue.map content) :
    put rules capacity content queue item = (queue, .duplicate) := if_pos h

theorem put_queued (h : content item ∉ queue.map content) :
    put rules capacity content queue item =
      (trimmed rules capacity content (coalesced rules content queue item) ++ [item],
        .queued (queue.find? (rules.replaces content item))
          (evictable rules capacity content (coalesced rules content queue item))) := if_neg h

/-- A put adds the item at the end, and takes away at most some others. -/
theorem put_sublist : (put rules capacity content queue item).1.Sublist (queue ++ [item]) := by
  by_cases h : content item ∈ queue.map content
  · rw [put_duplicate h]
    exact List.sublist_append_left _ _
  · rw [put_queued h]
    exact (trimmed_sublist.trans coalesced_sublist).append_right _

/-- **A reliable item stays**, whatever is put after it. -/
theorem mem_put_of_reliable {b : β} (hb : b ∈ queue) (hr : rules.reliable (content b)) :
    b ∈ (put rules capacity content queue item).1 := by
  by_cases h : content item ∈ queue.map content
  · rw [put_duplicate h]
    exact hb
  · rw [put_queued h]
    exact List.mem_append_left _ (mem_trimmed_of_reliable (mem_coalesced_of_reliable hb hr) hr)

/-- After a put there is an item with its contents: itself, or one that was there before. -/
theorem exists_mem_put :
    ∃ b ∈ (put rules capacity content queue item).1,
      content b = content item ∧ (b ∈ queue ∨ b = item) := by
  by_cases h : content item ∈ queue.map content
  · rw [put_duplicate h]
    obtain ⟨b, hb, hsame⟩ := List.mem_map.mp h
    exact ⟨b, hb, hsame, Or.inl hb⟩
  · rw [put_queued h]
    exact ⟨item, List.mem_append_right _ List.mem_cons_self, rfl, Or.inr rfl⟩

/-- **The queue stays within the larger of the limit and one more than what must be delivered.** -/
theorem length_put (h : queue.length ≤ max capacity (pending rules content queue + 1)) :
    (put rules capacity content queue item).1.length ≤
      max capacity (pending rules content (put rules capacity content queue item).1 + 1) := by
  by_cases hdup : content item ∈ queue.map content
  · rwa [put_duplicate hdup]
  · rw [put_queued hdup]
    have hshorter : (coalesced rules content queue item).length ≤ queue.length :=
      coalesced_sublist.length_le
    have hkept : pending rules content (coalesced rules content queue item) =
        pending rules content queue := pending_coalesced
    generalize coalesced rules content queue item = room at hshorter hkept ⊢
    have hpending : pending rules content (trimmed rules capacity content room ++ [item]) =
        pending rules content room + pending rules content [item] := by
      unfold pending
      rw [List.countP_append]
      exact congrArg (· + _) pending_trimmed
    have hlength : (trimmed rules capacity content room).length < max capacity room.length ∨
        (trimmed rules capacity content room).length = pending rules content room := length_trimmed
    rw [hpending, List.length_append, List.length_singleton]
    omega

/-- The contents of the queue do not depend on what else the items carry. -/
theorem map_put {γ : Type} {inner : γ → α} {f : β → γ} (hf : ∀ b, inner (f b) = content b) :
    ((put rules capacity content queue item).1.map f =
      (put rules capacity inner (queue.map f) (f item)).1) ∧
    ((put rules capacity content queue item).2.evicts =
      (put rules capacity inner (queue.map f) (f item)).2.evicts) ∧
    ((put rules capacity content queue item).2.accepts =
      (put rules capacity inner (queue.map f) (f item)).2.accepts) := by
  have hinner : inner ∘ f = content := funext hf
  have hreplaces : rules.replaces inner (f item) ∘ f = rules.replaces content item := by
    funext b
    simp [Rules.replaces, hf]
  have hcoalesced : (coalesced rules content queue item).map f =
      coalesced rules inner (queue.map f) (f item) := by
    unfold coalesced
    rw [List.eraseP_map, hreplaces]
  have hlevel : (fun c => !rules.reliable (inner c)) ∘ f = fun b => !rules.reliable (content b) := by
    funext b
    simp [hf]
  by_cases h : content item ∈ queue.map content
  · have h' : inner (f item) ∈ (queue.map f).map inner := by rwa [List.map_map, hinner, hf]
    rw [put_duplicate h, put_duplicate h']
    exact ⟨rfl, rfl, rfl⟩
  · have h' : inner (f item) ∉ (queue.map f).map inner := by rwa [List.map_map, hinner, hf]
    rw [put_queued h, put_queued h', ← hcoalesced]
    refine ⟨?_, ?_, rfl⟩
    · unfold trimmed
      rw [List.length_map]
      split
      · rw [List.map_append, List.eraseP_map, hlevel]
        rfl
      · rw [List.map_append]
        rfl
    · unfold evictable
      rw [List.length_map]
      split
      · simp only [Outcome.evicts, List.find?_map, hlevel, Option.isSome_map]
      · rfl

/-! ## Runs -/

/-- What is done with a mailbox. -/
inductive Action (α : Type) where
  | put (item : α)
  | take
deriving DecidableEq

/-- What is seen of it. -/
inductive Observation (β : Type) where
  | put (outcome : Outcome β)
  | taken (item : Option β)

/-- The item that was taken. -/
def Observation.taken? : Observation β → Option β
  | put _ => none
  | taken item => item

/-- Whether an item had to give way to the limit. -/
def Observation.evicts : Observation β → Bool
  | put outcome => outcome.evicts
  | taken _ => false

/-- Whether an item was put and queued. -/
def Observation.accepts : Observation β → Bool
  | put outcome => outcome.accepts
  | taken _ => false

/-- A mailbox that is empty at first. -/
def mailbox (rules : Rules α κ) (capacity : Nat) : Machine (List α) (Action α) (Observation α) where
  init := []
  step queue action :=
    match action with
    | .put item => ((put rules capacity id queue item).1, .put (put rules capacity id queue item).2)
    | .take => (queue.tail, .taken queue.head?)

/-- The same mailbox, with every item under the number of its put. -/
def numbered (rules : Rules α κ) (capacity : Nat) :
    Machine (Nat × List (Nat × α)) (Action α) (Observation (Nat × α)) where
  init := (0, [])
  step state action :=
    match action with
    | .put item =>
      let result := put rules capacity Prod.snd state.2 (state.1, item)
      ((state.1 + 1, result.1), .put result.2)
    | .take => ((state.1, state.2.tail), .taken state.2.head?)

theorem numbered_put (count : Nat) (queue : List (Nat × α)) (item : α) :
    (numbered rules capacity).step (count, queue) (.put item) =
      ((count + 1, (put rules capacity Prod.snd queue (count, item)).1),
        .put (put rules capacity Prod.snd queue (count, item)).2) := rfl

theorem numbered_take (count : Nat) (queue : List (Nat × α)) :
    (numbered rules capacity).step (count, queue) .take =
      ((count, queue.tail), .taken queue.head?) := rfl

theorem mailbox_put (queue : List α) (item : α) :
    (mailbox rules capacity).step queue (.put item) =
      ((put rules capacity id queue item).1, .put (put rules capacity id queue item).2) := rfl

theorem mailbox_take (queue : List α) :
    (mailbox rules capacity).step queue .take = (queue.tail, .taken queue.head?) := rfl

/-! ## What was put, taken and kept -/

/-- The item that an action puts. -/
def Action.put? : Action α → Option α
  | put item => some item
  | take => none

/-- All that was put, in order. -/
def putItems (labels : List (Action α)) : List α := labels.filterMap Action.put?

section Trace

variable {σ : Type}

/-- All that was taken, in order. -/
def takenItems (trace : List (Event σ (Action α) (Observation β))) : List β :=
  trace.filterMap fun e => e.output.taken?

/-- All that was put and queued, in order. -/
def acceptedItems (trace : List (Event σ (Action α) (Observation β))) : List α :=
  trace.filterMap fun e => if e.output.accepts then e.label.put? else none

theorem filterMap_singleton {γ δ : Type} (f : γ → Option δ) (c : γ) :
    [c].filterMap f = (f c).toList := by
  rw [List.filterMap_cons]
  cases f c <;> rfl

omit [DecidableEq α] in
theorem takenItems_snoc (m : Machine σ (Action α) (Observation β)) (labels : List (Action α))
    (action : Action α) :
    takenItems (m.trace (labels ++ [action])) =
      takenItems (m.trace labels) ++ (m.step (m.final labels) action).2.taken?.toList := by
  unfold takenItems
  rw [Machine.trace_snoc, List.filterMap_append, filterMap_singleton]
  rfl

omit [DecidableEq α] in
theorem acceptedItems_snoc (m : Machine σ (Action α) (Observation β)) (labels : List (Action α))
    (action : Action α) :
    acceptedItems (m.trace (labels ++ [action])) = acceptedItems (m.trace labels) ++
      (if (m.step (m.final labels) action).2.accepts then action.put? else none).toList := by
  unfold acceptedItems
  rw [Machine.trace_snoc, List.filterMap_append, filterMap_singleton]
  rfl

/-- Nothing gave way to the limit. -/
def NothingEvicted (trace : List (Event σ (Action α) (Observation β))) : Prop :=
  ∀ e ∈ trace, e.output.evicts = false

/-- The last item of a key. -/
def lastOf (rules : Rules α κ) (k : κ) (items : List α) : Option α :=
  (items.filter fun a => rules.key a = k).getLast?

end Trace

/-- The actions, and then as many takes as there are items left. -/
def drained (rules : Rules α κ) (capacity : Nat) (labels : List (Action α)) : List (Action α) :=
  labels ++ List.replicate ((mailbox rules capacity).final labels).length .take

omit [DecidableEq α] in
@[simp] theorem putItems_append (xs ys : List (Action α)) :
    putItems (xs ++ ys) = putItems xs ++ putItems ys := List.filterMap_append

omit [DecidableEq α] in
theorem lastOf_append (k : κ) (xs ys : List α) :
    lastOf rules k (xs ++ ys) = (lastOf rules k ys).or (lastOf rules k xs) := by
  unfold lastOf
  rw [List.filter_append, List.getLast?_append]

/-! ## The numbers say where an item came from -/

variable (rules capacity)

/-- A numbered run is a run of the mailbox. -/
theorem numbered_simulates (labels : List (Action α)) :
    ((numbered rules capacity).final labels).2.map Prod.snd =
        (mailbox rules capacity).final labels ∧
      (takenItems ((numbered rules capacity).trace labels)).map Prod.snd =
        takenItems ((mailbox rules capacity).trace labels) := by
  induction labels using List.reverseRecOn with
  | nil => exact ⟨rfl, rfl⟩
  | append_singleton labels action ih =>
    obtain ⟨hqueue, htaken⟩ := ih
    rw [Machine.final_snoc, Machine.final_snoc, takenItems_snoc, takenItems_snoc, List.map_append,
      htaken, ← hqueue]
    generalize (numbered rules capacity).final labels = state
    obtain ⟨count, queue⟩ := state
    cases action with
    | put item =>
      have hput : (put rules capacity Prod.snd queue (count, item)).1.map Prod.snd =
          (put rules capacity id (queue.map Prod.snd) item).1 :=
        (@map_put _ _ _ rules capacity Prod.snd queue (count, item) _ _ _ id Prod.snd fun _ => rfl).1
      rw [numbered_put, mailbox_put]
      exact ⟨hput, rfl⟩
    | take =>
      rw [numbered_take, mailbox_take]
      refine ⟨List.map_tail, congrArg (_ ++ ·) ?_⟩
      cases queue <;> rfl

/-- Every item carries the number of its put, and the numbers ascend. -/
structure Numbered (items : List α) (count : Nat) (log : List (Nat × α)) : Prop where
  count : count = items.length
  ascending : (log.map Prod.fst).Pairwise (· < ·)
  origin : ∀ i a, (i, a) ∈ log → items[i]? = some a

omit [DecidableEq α] in
theorem Numbered.lt {items : List α} {count : Nat} {log : List (Nat × α)}
    (h : Numbered items count log) {p : Nat × α} (hp : p ∈ log) : p.1 < items.length := by
  have hsome := h.origin p.1 p.2 hp
  exact (List.getElem?_eq_some_iff.mp hsome).1

/-- What is taken, followed by what is queued, is in the order of the puts. -/
theorem numbered_run (labels : List (Action α)) :
    Numbered (putItems labels) ((numbered rules capacity).final labels).1
      (takenItems ((numbered rules capacity).trace labels) ++
        ((numbered rules capacity).final labels).2) := by
  induction labels using List.reverseRecOn with
  | nil => exact ⟨rfl, List.Pairwise.nil, fun i a h => absurd h List.not_mem_nil⟩
  | append_singleton labels action ih =>
    rw [Machine.final_snoc, takenItems_snoc, putItems_append]
    generalize takenItems ((numbered rules capacity).trace labels) = taken at ih ⊢
    generalize (numbered rules capacity).final labels = state at ih ⊢
    obtain ⟨count, queue⟩ := state
    obtain ⟨hcount, hascending, horigin⟩ := ih
    dsimp only at hcount hascending horigin
    cases action with
    | take =>
      have hlog : taken ++ queue.head?.toList ++ queue.tail = taken ++ queue := by
        cases queue <;> simp
      have hputs : putItems labels ++ putItems [Action.take] = putItems labels := List.append_nil _
      rw [numbered_take, hputs]
      simp only [Observation.taken?]
      rw [hlog]
      exact ⟨hcount, hascending, horigin⟩
    | put item =>
      -- The queue gained at most the item under the next number.
      have hsublist : (taken ++ [] ++ (put rules capacity Prod.snd queue (count, item)).1).Sublist
          ((taken ++ queue) ++ [(count, item)]) := by
        rw [List.append_nil, List.append_assoc]
        exact put_sublist.append_left taken
      have hsmaller : ∀ p ∈ taken ++ queue, p.1 < count := fun p hp => by
        rw [hcount]
        exact Numbered.lt ⟨hcount, hascending, horigin⟩ hp
      have hputs : putItems [Action.put item] = [item] := rfl
      rw [numbered_put, hputs]
      refine ⟨by simp [hcount], ?_, fun i a hia => ?_⟩
      · refine (List.Pairwise.sublist (hsublist.map Prod.fst) ?_)
        rw [List.map_append, List.pairwise_append]
        refine ⟨hascending, List.pairwise_singleton _ _, fun i hi j hj => ?_⟩
        obtain ⟨p, hp, rfl⟩ := List.mem_map.mp hi
        obtain rfl : j = count := by simpa using hj
        exact hsmaller p hp
      · rcases List.mem_append.mp (hsublist.subset hia) with hold | hnew
        · have hsome := horigin i a hold
          rw [List.getElem?_append_left (List.getElem?_eq_some_iff.mp hsome).1]
          exact hsome
        · obtain ⟨rfl, rfl⟩ : i = count ∧ a = item := by simpa using hnew
          rw [hcount, List.getElem?_concat_length]

/-! ## Reliable items are taken -/

theorem takenItems_take (labels : List (Action α)) :
    takenItems ((numbered rules capacity).trace (labels ++ [.take])) =
      takenItems ((numbered rules capacity).trace labels) ++
        ((numbered rules capacity).final labels).2.head?.toList :=
  takenItems_snoc _ _ _

theorem takenItems_put (labels : List (Action α)) (item : α) :
    takenItems ((numbered rules capacity).trace (labels ++ [.put item])) =
      takenItems ((numbered rules capacity).trace labels) :=
  (takenItems_snoc _ _ _).trans (List.append_nil _)

/-- What was taken stays taken. -/
theorem takenItems_starts (labels more : List (Action α)) :
    takenItems ((numbered rules capacity).trace labels) <+:
      takenItems ((numbered rules capacity).trace (labels ++ more)) := by
  induction more using List.reverseRecOn with
  | nil => simp
  | append_singleton more action ih =>
    rw [← List.append_assoc, takenItems_snoc]
    exact ih.trans (List.prefix_append _ _)

/-- From the moment it is queued on, a reliable item is queued or taken. -/
theorem mem_taken_or_queued {p : Nat × α} (hr : rules.reliable p.2) (labels more : List (Action α))
    (hp : p ∈ ((numbered rules capacity).final labels).2) :
    p ∈ (takenItems ((numbered rules capacity).trace (labels ++ more))).drop
        (takenItems ((numbered rules capacity).trace labels)).length ∨
      p ∈ ((numbered rules capacity).final (labels ++ more)).2 := by
  induction more using List.reverseRecOn with
  | nil => exact Or.inr (by rwa [List.append_nil])
  | append_singleton more action ih =>
    have hlength := (takenItems_starts rules capacity labels more).length_le
    rw [← List.append_assoc, Machine.final_snoc]
    cases action with
    | put item =>
      rw [takenItems_put]
      exact ih.imp_right fun h => mem_put_of_reliable h hr
    | take =>
      rw [takenItems_take, List.drop_append_of_le_length hlength]
      rcases ih with h | h
      · exact Or.inl (List.mem_append_left _ h)
      · generalize (numbered rules capacity).final (labels ++ more) = state at h ⊢
        obtain ⟨count, queue⟩ := state
        cases queue with
        | nil => exact absurd h List.not_mem_nil
        | cons b queue =>
          rcases List.mem_cons.mp h with rfl | h
          · exact Or.inl (List.mem_append_right _ List.mem_cons_self)
          · exact Or.inr h

/-- As many takes as there are items leave nothing behind. -/
theorem take_all (labels : List (Action α)) :
    (n : Nat) → ((mailbox rules capacity).final labels).length = n →
      (mailbox rules capacity).final (labels ++ List.replicate n .take) = [] ∧
        takenItems ((mailbox rules capacity).trace (labels ++ List.replicate n .take)) =
          takenItems ((mailbox rules capacity).trace labels) ++ (mailbox rules capacity).final labels
  | 0, h => by
    have hempty := List.length_eq_zero_iff.mp h
    rw [List.replicate_zero, List.append_nil, hempty, List.append_nil]
    exact ⟨rfl, rfl⟩
  | n + 1, h => by
    rw [List.replicate_succ, List.append_cons]
    have hfinal : (mailbox rules capacity).final (labels ++ [.take]) =
        ((mailbox rules capacity).final labels).tail := Machine.final_snoc _ _ _
    have htaken : takenItems ((mailbox rules capacity).trace (labels ++ [.take])) =
        takenItems ((mailbox rules capacity).trace labels) ++
          ((mailbox rules capacity).final labels).head?.toList := takenItems_snoc _ _ _
    have hlength : ((mailbox rules capacity).final (labels ++ [.take])).length = n := by
      rw [hfinal, List.length_tail, h]
      rfl
    obtain ⟨hend, hall⟩ := take_all (labels ++ [.take]) n hlength
    refine ⟨hend, ?_⟩
    rw [hall, htaken, hfinal, List.append_assoc]
    refine congrArg (_ ++ ·) ?_
    cases (mailbox rules capacity).final labels <;> rfl

/-- **Draining hands out what was queued**, in order. -/
theorem takenItems_drained (labels : List (Action α)) :
    takenItems ((mailbox rules capacity).trace (drained rules capacity labels)) =
      takenItems ((mailbox rules capacity).trace labels) ++ (mailbox rules capacity).final labels :=
  (take_all rules capacity labels _ rfl).2

/-- **Order and reliability.** -/
theorem order_and_reliability (labels : List (Action α)) :
    ∃ log : List (Nat × α),
      log.map Prod.snd = takenItems ((mailbox rules capacity).trace (drained rules capacity labels)) ∧
      (log.map Prod.fst).Pairwise (· < ·) ∧
      (∀ i a, (i, a) ∈ log → (putItems labels)[i]? = some a) ∧
      ∀ pre item post, labels = pre ++ .put item :: post → rules.reliable item →
        ∃ i ≤ (putItems pre).length,
          (i, item) ∈ log.drop (takenItems ((mailbox rules capacity).trace pre)).length := by
  obtain ⟨hqueue, htaken⟩ := numbered_simulates rules capacity labels
  have hnumbered := numbered_run rules capacity labels
  refine ⟨_, ?_, hnumbered.ascending, hnumbered.origin, ?_⟩
  · rw [List.map_append, htaken, hqueue, takenItems_drained]
  · rintro pre item post rfl hr
    have hbefore := numbered_run rules capacity pre
    obtain ⟨hqueue', htaken'⟩ := numbered_simulates rules capacity pre
    have hcount := hbefore.count
    -- After the put there is such an item in the queue, under a number that is not higher.
    obtain ⟨p, hp, hsame, hfrom⟩ : ∃ p ∈ ((numbered rules capacity).final (pre ++ [.put item])).2,
        p.2 = item ∧ p.1 ≤ (putItems pre).length := by
      rw [Machine.final_snoc]
      generalize (numbered rules capacity).final pre = state at hbefore hcount ⊢
      obtain ⟨p, hp, hsame, hfrom⟩ : ∃ p ∈ (put rules capacity Prod.snd state.2 (state.1, item)).1,
          p.2 = item ∧ (p ∈ state.2 ∨ p = (state.1, item)) := exists_mem_put
      refine ⟨p, hp, hsame, ?_⟩
      rcases hfrom with hold | rfl
      · exact Nat.le_of_lt (hbefore.lt (List.mem_append_right _ hold))
      · exact Nat.le_of_eq hcount
    subst hsame
    refine ⟨p.1, hfrom, ?_⟩
    have hlength : (takenItems ((mailbox rules capacity).trace pre)).length =
        (takenItems ((numbered rules capacity).trace (pre ++ [.put p.2]))).length := by
      rw [takenItems_put, ← htaken', List.length_map]
    have hlater := mem_taken_or_queued rules capacity hr (pre ++ [.put p.2]) post hp
    have hstarts := (takenItems_starts rules capacity (pre ++ [.put p.2]) post).length_le
    rw [← List.append_cons] at hlater hstarts
    rw [hlength, List.drop_append_of_le_length hstarts]
    exact List.mem_append.mpr hlater

/-! ## The limit -/

omit [DecidableEq α] [DecidableEq κ] in
theorem length_tail_le (queue : List α)
    (h : queue.length ≤ max capacity (pending rules id queue + 1)) :
    queue.tail.length ≤ max capacity (pending rules id queue.tail + 1) := by
  cases queue with
  | nil => exact h
  | cons a queue =>
    simp only [pending, List.countP_cons, List.length_cons, List.tail_cons, id_eq] at h ⊢
    split at h <;> omega

theorem length_final_le (labels : List (Action α)) :
    ((mailbox rules capacity).final labels).length ≤
      max capacity (pending rules id ((mailbox rules capacity).final labels) + 1) := by
  refine Machine.final_invariant _ (P := fun queue => queue.length ≤
    max capacity (pending rules id queue + 1)) (Nat.zero_le _) (fun queue action h => ?_) labels
  cases action with
  | put item => exact length_put h
  | take => exact length_tail_le rules capacity queue h

/-! ## The last item of a key -/

/-- **What was accepted last under a key is the last to be taken**, where nothing gave way. -/
theorem lastOf_taken (labels : List (Action α))
    (hkept : NothingEvicted ((mailbox rules capacity).trace labels)) (k : κ) :
    lastOf rules k (takenItems ((mailbox rules capacity).trace labels) ++
        (mailbox rules capacity).final labels) =
      lastOf rules k (acceptedItems ((mailbox rules capacity).trace labels)) := by
  induction labels using List.reverseRecOn with
  | nil => rfl
  | append_singleton labels action ih =>
    rw [Machine.trace_snoc] at hkept
    have ih := ih fun e he => hkept e (List.mem_append_left _ he)
    have hlast := hkept _ (List.mem_append_right _ List.mem_cons_self)
    rw [Machine.final_snoc, takenItems_snoc, acceptedItems_snoc]
    generalize takenItems ((mailbox rules capacity).trace labels) = taken at ih ⊢
    generalize acceptedItems ((mailbox rules capacity).trace labels) = accepted at ih ⊢
    generalize (mailbox rules capacity).final labels = queue at ih hlast ⊢
    cases action with
    | take =>
      have hall : taken ++ queue.head?.toList ++ queue.tail = taken ++ queue := by
        cases queue <;> simp
      rw [mailbox_take]
      simp only [Observation.taken?, Observation.accepts]
      rw [hall, ih]
      exact congrArg _ (List.append_nil _).symm
    | put item =>
      rw [mailbox_put]
      simp only [Observation.taken?, Observation.accepts, Action.put?, Option.toList_none,
        List.append_nil]
      rw [Machine.event_output, mailbox_put] at hlast
      by_cases hdup : id item ∈ queue.map id
      · rw [put_duplicate hdup]
        simpa [Outcome.accepts] using ih
      · rw [put_queued hdup] at hlast ⊢
        have hnone : evictable rules capacity id (coalesced rules id queue item) = none := by
          simpa [Observation.evicts, Outcome.evicts] using hlast
        rw [trimmed_of_evictable hnone]
        simp only [Outcome.accepts, if_true, Option.toList_some]
        rw [← List.append_assoc, lastOf_append, lastOf_append k accepted]
        by_cases hk : rules.key item = k
        · have hitem : lastOf rules k [item] = some item := by simp [lastOf, hk]
          rw [hitem]
          rfl
        · have hitem : lastOf rules k [item] = none := by simp [lastOf, hk]
          have hothers : lastOf rules k (taken ++ coalesced rules id queue item) =
              lastOf rules k (taken ++ queue) := by
            have hsame : (coalesced rules id queue item).filter (fun a => rules.key a = k) =
                queue.filter fun a => rules.key a = k := filter_coalesced hk
            unfold lastOf
            rw [List.filter_append, List.filter_append, hsame]
          rw [hitem, hothers, ih]

/-- Whatever was dropped as a duplicate is the last queued item of its key. -/
def DuplicatesAreLatest (rules : Rules α κ)
    (trace : List (Event (List α) (Action α) (Observation α))) : Prop :=
  ∀ e ∈ trace, ∀ item, e.label = .put item → e.output.accepts = false →
    lastOf rules (rules.key item) e.pre = some item

/-- Then what is accepted last under a key is what is put last. -/
theorem lastOf_accepted (labels : List (Action α))
    (hkept : NothingEvicted ((mailbox rules capacity).trace labels))
    (hlatest : DuplicatesAreLatest rules ((mailbox rules capacity).trace labels)) (k : κ) :
    lastOf rules k (acceptedItems ((mailbox rules capacity).trace labels)) =
      lastOf rules k (putItems labels) := by
  induction labels using List.reverseRecOn with
  | nil => rfl
  | append_singleton labels action ih =>
    rw [Machine.trace_snoc] at hkept hlatest
    have hkept' : NothingEvicted ((mailbox rules capacity).trace labels) :=
      fun e he => hkept e (List.mem_append_left _ he)
    have ih := ih hkept' fun e he => hlatest e (List.mem_append_left _ he)
    have hlast := hlatest _ (List.mem_append_right _ List.mem_cons_self)
    rw [acceptedItems_snoc, putItems_append]
    cases action with
    | take =>
      have hputs : putItems [(Action.take : Action α)] = [] := rfl
      rw [mailbox_take, hputs, List.append_nil, ← ih]
      exact congrArg _ (List.append_nil _)
    | put item =>
      have hputs : putItems [Action.put item] = [item] := rfl
      rw [hputs, lastOf_append, lastOf_append k (putItems labels), ← ih]
      by_cases hk : rules.key item = k
      · have hitem : lastOf rules k [item] = some item := by simp [lastOf, hk]
        rw [hitem]
        cases haccepts : ((mailbox rules capacity).step ((mailbox rules capacity).final labels)
            (.put item)).2.accepts with
        | true => simp [Action.put?, hitem]
        | false =>
          -- The duplicate is the last of what was accepted before it, too.
          have hqueued := hlast item rfl haccepts
          rw [Machine.event_pre, hk] at hqueued
          rw [← lastOf_taken rules capacity labels hkept', lastOf_append, hqueued]
          rfl
      · have hitem : lastOf rules k [item] = none := by simp [lastOf, hk]
        rw [hitem]
        split
        · simp [Action.put?, hitem]
        · rfl

end OxideTerm.Lib.Mailbox
