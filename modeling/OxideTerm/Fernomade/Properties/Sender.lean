import OxideTerm.Lib.Replication
import OxideTerm.Fernomade.Client
import OxideTerm.Fernomade.Reference

/-!
# What the client seals

The local queue is a ledger: every state the client creates is a cut point of it. The sent
states are some of these cut points, with offsets into what is left of the queue after
acknowledgements (`SenderInvariant`). So every delta the client seals, fresh or again, is
exact about the ledger, and a peer that applies deltas holds prefixes of the queue.
-/

namespace OxideTerm.Fernomade

open OxideTerm.Lib

/-! ## The bounded history of sent states -/

theorem head?_eraseIdx {α : Type} {l : List α} {i : Nat} (h : 0 < i) :
    (l.eraseIdx i).head? = l.head? := by
  cases l with
  | nil => rfl
  | cons a l =>
    obtain ⟨j, rfl⟩ := Nat.exists_eq_add_of_lt h
    simp

theorem getLast?_eraseIdx {α : Type} {l : List α} {i : Nat} (h : i + 1 < l.length) :
    (l.eraseIdx i).getLast? = l.getLast? := by
  rw [List.getLast?_eq_getElem?, List.getLast?_eq_getElem?, List.length_eraseIdx_of_lt (by omega),
    List.getElem?_eraseIdx_of_ge (by omega)]
  congr 1
  omega

/-- **The bound keeps the confirmed front, the newest state and the order.** -/
theorem limitSentStates_spec (l : List SentState) :
    (limitSentStates l).Sublist l ∧ (limitSentStates l).head? = l.head? ∧
      (limitSentStates l).getLast? = l.getLast? := by
  fun_induction limitSentStates l with
  | case1 l h ih =>
    rw [maximumSentStates] at h
    refine ⟨ih.1.trans (List.eraseIdx_sublist ..), ?_, ?_⟩
    · rw [ih.2.1, head?_eraseIdx (by omega)]
    · rw [ih.2.2, getLast?_eraseIdx (by omega)]
  | case2 l h => exact ⟨List.Sublist.refl _, rfl, rfl⟩

/-! ## Acknowledgements -/

/-- Offsets counted from a later start. -/
def SentState.rebase (start : Nat) (s : SentState) : SentState :=
  { s with instructionEnd := s.instructionEnd - start }

theorem map_rebase_zero (l : List SentState) : l.map (SentState.rebase 0) = l := by
  rw [show SentState.rebase 0 = id from funext fun _ => rfl, List.map_id]

namespace ClientProtocol

variable {X : Externals}

/-- An acknowledgement of a sent state drops what is before it and rebases the rest. -/
theorem processAcknowledgement_cases (p : ClientProtocol X) (a : UInt64) :
    p.processAcknowledgement a = p ∨
    ∃ before front after, p.sentStates = before ++ front :: after ∧ front.stateId = a ∧
      p.processAcknowledgement a = { p with
        localInstructions := p.localInstructions.drop front.instructionEnd
        sentStates := (front :: after).map (SentState.rebase front.instructionEnd) } := by
  unfold processAcknowledgement
  split
  · exact Or.inl rfl
  · next i hi =>
    obtain ⟨hlt, hfront, -⟩ := List.findIdx?_eq_some_iff_getElem.mp hi
    have hdrop : p.sentStates.drop i = p.sentStates[i] :: p.sentStates.drop (i + 1) :=
      List.drop_eq_getElem_cons hlt
    refine Or.inr ⟨p.sentStates.take i, p.sentStates[i], p.sentStates.drop (i + 1), ?_,
      by simpa using hfront, ?_⟩
    · rw [← hdrop, List.take_append_drop]
    · simp only [hdrop, List.head?_cons, Option.map_some, Option.getD_some]
      split
      · next hzero => rw [hzero, map_rebase_zero, List.drop_zero]
      · rfl

/-! ## The parts of the state the sender uses -/

/-- Two states that differ in nothing the sender uses. -/
structure SameSender (p q : ClientProtocol X) : Prop where
  nextLocalState : q.nextLocalState = p.nextLocalState
  localInstructions : q.localInstructions = p.localInstructions
  sentStates : q.sentStates = p.sentStates

theorem SameSender.refl (p : ClientProtocol X) : SameSender p p := ⟨rfl, rfl, rfl⟩

theorem SameSender.trans {p q r : ClientProtocol X} (h₁ : SameSender p q) (h₂ : SameSender q r) :
    SameSender p r :=
  ⟨h₂.nextLocalState.trans h₁.nextLocalState, h₂.localInstructions.trans h₁.localInstructions,
    h₂.sentStates.trans h₁.sentStates⟩

theorem sameSender_sealUpdate (p : ClientProtocol X) (t : UInt16) (u : StateUpdate) :
    SameSender p (p.sealUpdate t u).1 := by
  obtain ⟨channel, h⟩ := p.sealUpdate_fst t u
  rw [h]
  exact ⟨rfl, rfl, rfl⟩

theorem sameSender_deliver (p : ClientProtocol X) (u : StateUpdate)
    (target : RemoteTerminalState X.vt100) : SameSender p (p.deliver u target).1 := by
  rcases p.deliver_cases u target with ⟨h, -⟩ | ⟨diff, -, -, h⟩ <;> rw [h] <;>
    exact ⟨rfl, rfl, rfl⟩

theorem sameSender_acceptRemoteUpdate (p : ClientProtocol X) (u : StateUpdate) :
    SameSender p (p.acceptRemoteUpdate u).1 := by
  rcases p.acceptRemoteUpdate_cases u with
    ⟨h, -⟩ | ⟨e, h⟩ | ⟨base, target, -, h⟩ | ⟨base, target, -, -, h⟩
  · rw [h]; exact SameSender.refl p
  · rw [h]; exact SameSender.refl p
  · rw [h]; exact ⟨rfl, rfl, rfl⟩
  · rw [h]
    have hstored : SameSender p (p.stored u target) := ⟨rfl, rfl, rfl⟩
    exact hstored.trans (sameSender_deliver _ u target)

theorem sender_ingestMessage (p : ClientProtocol X) (c : UInt64) (header : FragmentHeader)
    (compressed : Bytes) :
    SameSender p (p.ingestMessage c header compressed).1 ∨
      ∃ a, SameSender (p.processAcknowledgement a) (p.ingestMessage c header compressed).1 := by
  unfold ingestMessage
  split
  · exact Or.inl (SameSender.refl p)
  · next u _ =>
    have h := sameSender_acceptRemoteUpdate (p.processAcknowledgement u.acknowledgedState) u
    refine Or.inr ⟨u.acknowledgedState, ?_⟩
    dsimp only
    split
    · next hr => rwa [hr] at h
    · next hr =>
      rw [hr] at h
      split <;> exact ⟨h.nextLocalState, h.localInstructions, h.sentStates⟩

/-- **Ingesting a packet acknowledges at most one state**, as far as the sender is concerned. -/
theorem sender_ingestPacket (p : ClientProtocol X) (packet : Bytes) :
    SameSender p (p.ingestPacket packet).1 ∨
      ∃ a, SameSender (p.processAcknowledgement a) (p.ingestPacket packet).1 := by
  rcases p.ingestPacket_cases packet with
    ⟨w, t, as, h, -⟩ | ⟨w, t, as, c, header, compressed, receipt, h⟩
  · rw [h]
    exact Or.inl ⟨rfl, rfl, rfl⟩
  · rw [h]
    have hrebook : SameSender p (p.rebook w t as) := ⟨rfl, rfl, rfl⟩
    rcases sender_ingestMessage (p.rebook w t as) c header compressed with hs | ⟨a, hs⟩
    · exact Or.inl (hrebook.trans hs)
    · refine Or.inr ⟨a, ?_⟩
      -- acknowledging looks at the sender's part of the state only
      have hack : SameSender (p.processAcknowledgement a)
          ((p.rebook w t as).processAcknowledgement a) := by
        unfold processAcknowledgement rebook
        dsimp only
        split
        · exact ⟨rfl, rfl, rfl⟩
        · split <;> exact ⟨rfl, rfl, rfl⟩
      exact hack.trans hs

end ClientProtocol

/-! ## The queue of a run -/

/-- The state a call created, with the instructions that were queued with it. -/
def created {X : Externals} (e : Event (ClientProtocol X) ClientCall ClientReply) :
    Option (UInt64 × List Instruction) :=
  if e.output.sent.isSome then
    match e.label with
    | .buildUpdate _ is => some (e.pre.nextLocalState, is.instructions)
    | .buildShutdown _ is => some (shutdownState, is.instructions)
    | _ => none
  else none

/-- Everything queued in a run, cut at the states created. Both peers start from state zero. -/
def queueOf {X : Externals} (trace : List (Event (ClientProtocol X) ClientCall ClientReply)) :
    Ledger UInt64 Instruction := (0, []) :: trace.filterMap created

/-- No input is queued once the shutdown state has been sent. -/
def NoUpdateAfterShutdown {X : Externals} (p : ClientProtocol X) : ClientCall → Prop
  | .buildUpdate _ _ => p.localShutdownSent = false
  | _ => True

/-- What ties the sender's state to the queue. -/
structure SenderInvariant {X : Externals} (p : ClientProtocol X) (queue : Ledger UInt64 Instruction) :
    Prop where
  /-- Every state is created once. -/
  nodup : queue.states.Nodup
  /-- Fresh state numbers are above the created ones. -/
  below : ∀ t ∈ queue.states, t < p.nextLocalState ∨ t = shutdownState
  /-- After the shutdown state nothing else is created. -/
  shutdown : shutdownState ∈ queue.states → p.localShutdownSent = true
  /-- The sent states are cut points, by their offset into the unconfirmed rest of the queue. -/
  offsets : ∃ confirmed, queue.items = confirmed ++ p.localInstructions ∧
    ∀ s ∈ p.sentStates, s.instructionEnd ≤ p.localInstructions.length ∧
      queue.upTo s.stateId = some (confirmed ++ p.localInstructions.take s.instructionEnd)
  ordered : p.sentStates.Pairwise fun s t => s.instructionEnd ≤ t.instructionEnd
  front : ∃ s, p.sentStates.head? = some s ∧ s.instructionEnd = 0
  back : ∃ s, p.sentStates.getLast? = some s ∧ s.instructionEnd = p.localInstructions.length

namespace SenderInvariant

variable {X : Externals} {p q : ClientProtocol X} {queue : Ledger UInt64 Instruction}

theorem init : SenderInvariant (ClientProtocol.new (X := X)) (queueOf (X := X) []) where
  nodup := by simp [queueOf, Ledger.states]
  below := by
    intro t ht
    obtain rfl : t = 0 := by simpa [queueOf, Ledger.states] using ht
    exact Or.inl (show (0 : UInt64) < 1 by decide)
  shutdown := by
    intro h
    have : shutdownState = 0 := by simpa [queueOf, Ledger.states] using h
    exact absurd this (by decide)
  offsets := ⟨[], rfl, by simp [ClientProtocol.new, queueOf, Ledger.upTo]⟩
  ordered := List.pairwise_singleton _ _
  front := ⟨_, rfl, rfl⟩
  back := ⟨_, rfl, rfl⟩

theorem congr (h : SenderInvariant p queue) (hsame : p.SameSender q) : SenderInvariant q queue := by
  obtain ⟨hnext, hinstr, hsent⟩ := hsame
  have hshut : q.localShutdownSent = p.localShutdownSent := by
    unfold ClientProtocol.localShutdownSent
    rw [hsent]
  exact
    { nodup := h.nodup
      below := by rw [hnext]; exact h.below
      shutdown := by rw [hshut]; exact h.shutdown
      offsets := by rw [hinstr, hsent]; exact h.offsets
      ordered := by rw [hsent]; exact h.ordered
      front := by rw [hsent]; exact h.front
      back := by rw [hsent, hinstr]; exact h.back }

/-- Acknowledging a state moves the start of the offsets along the queue. -/
theorem acknowledge (h : SenderInvariant p queue) (a : UInt64) :
    SenderInvariant (p.processAcknowledgement a) queue := by
  rcases p.processAcknowledgement_cases a with heq | ⟨before, front, after, hsplit, -, heq⟩
  · rw [heq]; exact h
  · rw [heq]
    obtain ⟨confirmed, hitems, hoff⟩ := h.offsets
    have hord := h.ordered
    rw [hsplit, List.pairwise_append, List.pairwise_cons] at hord
    obtain ⟨-, ⟨hfront, hafter⟩, -⟩ := hord
    have hmem : ∀ s ∈ front :: after, s ∈ p.sentStates ∧ front.instructionEnd ≤ s.instructionEnd := by
      intro s hs
      refine ⟨by rw [hsplit]; exact List.mem_append_right _ hs, ?_⟩
      rcases List.mem_cons.mp hs with rfl | hs
      · exact le_refl _
      · exact hfront s hs
    have hlast : (front :: after).getLast? = p.sentStates.getLast? := by
      rw [hsplit, List.getLast?_append_of_ne_nil _ (List.cons_ne_nil _ _)]
    obtain ⟨back, hback, hbackEnd⟩ := h.back
    refine
      { nodup := h.nodup
        below := h.below
        shutdown := ?_
        offsets := ⟨confirmed ++ p.localInstructions.take front.instructionEnd, ?_, ?_⟩
        ordered := ?_
        front := ⟨_, rfl, Nat.sub_self _⟩
        back := ⟨back.rebase front.instructionEnd, ?_, ?_⟩ }
    · intro hs
      have hsent := h.shutdown hs
      unfold ClientProtocol.localShutdownSent at hsent ⊢
      rw [List.getLast?_map, hlast, hback] at *
      exact hsent
    · rw [List.append_assoc, List.take_append_drop, hitems]
    · intro s hs
      obtain ⟨s', hs', rfl⟩ := List.mem_map.mp hs
      obtain ⟨hsent, hle⟩ := hmem s' hs'
      obtain ⟨hlen, hup⟩ := hoff s' hsent
      have hsum : s'.instructionEnd =
          front.instructionEnd + (s'.instructionEnd - front.instructionEnd) := by omega
      refine ⟨by simp only [SentState.rebase, List.length_drop]; omega, ?_⟩
      rw [List.append_assoc, SentState.rebase, ← List.take_add, ← hsum]
      exact hup
    · rw [List.pairwise_map]
      exact (List.pairwise_cons.mpr ⟨hfront, hafter⟩).imp
        fun hle => Nat.sub_le_sub_right hle _
    · rw [List.getLast?_map, hlast, hback, Option.map_some]
    · simp only [SentState.rebase, List.length_drop, hbackEnd]

/-- Creating a fresh state adds a cut point at the end of the queue. -/
theorem create (h : SenderInvariant p queue) {target : UInt64} {is : List Instruction}
    (hfresh : target ∉ queue.states)
    (hnext : (target < q.nextLocalState ∨ target = shutdownState) ∧
      p.nextLocalState ≤ q.nextLocalState)
    (hshutdown : shutdownState ∈ queue.states → target = shutdownState)
    (hinstr : q.localInstructions = p.localInstructions ++ is)
    (hsent : q.sentStates = limitSentStates (p.sentStates ++
      [{ stateId := target, instructionEnd := p.localInstructions.length + is.length }])) :
    SenderInvariant q (queue ++ [(target, is)]) := by
  obtain ⟨hsub, hhead, hlast⟩ := limitSentStates_spec (p.sentStates ++
    [{ stateId := target, instructionEnd := p.localInstructions.length + is.length }])
  rw [← hsent] at hsub hhead hlast
  obtain ⟨confirmed, hitems, hoff⟩ := h.offsets
  obtain ⟨front, hfront, hzero⟩ := h.front
  have hlen : q.localInstructions.length = p.localInstructions.length + is.length := by
    rw [hinstr, List.length_append]
  refine
    { nodup := ?_
      below := ?_
      shutdown := ?_
      offsets := ⟨confirmed, ?_, ?_⟩
      ordered := ?_
      front := ⟨front, ?_, hzero⟩
      back := ⟨_, by rw [hlast, List.getLast?_concat], hlen.symm⟩ }
  · rw [Ledger.states_append, List.nodup_append]
    refine ⟨h.nodup, by simp [Ledger.states], ?_⟩
    rintro a ha b hb rfl
    obtain rfl : a = target := by simpa [Ledger.states] using hb
    exact hfresh ha
  · intro t ht
    rw [Ledger.states_append, List.mem_append] at ht
    rcases ht with ht | ht
    · exact (h.below t ht).imp_left fun hlt => UInt64.lt_of_lt_of_le hlt hnext.2
    · obtain rfl : t = target := by simpa [Ledger.states] using ht
      exact hnext.1
  · intro hs
    have htarget : target = shutdownState := by
      rw [Ledger.states_append, List.mem_append] at hs
      rcases hs with hs | hs
      · exact hshutdown hs
      · exact (show shutdownState = target by simpa [Ledger.states] using hs).symm
    simp [ClientProtocol.localShutdownSent, hlast, htarget]
  · rw [Ledger.items_append, hitems, hinstr]
    simp [Ledger.items]
  · intro s hs
    rcases List.mem_append.mp (hsub.subset hs) with hm | hm
    · obtain ⟨hle, hup⟩ := hoff s hm
      refine ⟨by omega, Ledger.upTo_append_of_some ?_⟩
      rw [hinstr, List.take_append_of_le_length hle]
      exact hup
    · obtain rfl := List.mem_singleton.mp hm
      refine ⟨hlen.ge, ?_⟩
      rw [Ledger.upTo_snoc_self hfresh, hitems, List.append_assoc, ← hinstr, ← hlen,
        List.take_length]
  · refine List.Pairwise.sublist hsub ?_
    rw [List.pairwise_append]
    refine ⟨h.ordered, List.pairwise_singleton _ _, ?_⟩
    intro s hs t ht
    obtain rfl := List.mem_singleton.mp ht
    have := (hoff s hs).1
    show s.instructionEnd ≤ p.localInstructions.length + is.length
    omega
  · rw [hhead, List.head?_append, hfront]
    rfl

end SenderInvariant

/-! ## Exact updates -/

/-- The delta of an update is what the queue has between its base and its target. -/
def ExactUpdate (queue : Ledger UInt64 Instruction) (u : StateUpdate) : Prop :=
  ∃ is : List Instruction, u.delta = InstructionBatch.encodeBytes { instructions := is } ∧
    Delta.Exact (fun t => queue.upTo t) { base := u.baseState, target := u.targetState, items := is }

theorem ExactUpdate.append {queue : Ledger UInt64 Instruction} {u : StateUpdate}
    (h : ExactUpdate queue u) (more : Ledger UInt64 Instruction) :
    ExactUpdate (queue ++ more) u := by
  obtain ⟨is, hdelta, log, hbase, htarget⟩ := h
  exact ⟨is, hdelta, log, Ledger.upTo_append_of_some hbase, Ledger.upTo_append_of_some htarget⟩

/-- An update without a delta is exact at any created state. -/
theorem ExactUpdate.empty {queue : Ledger UInt64 Instruction} {u : StateUpdate}
    {log : List Instruction} (hdelta : u.delta = []) (hsame : u.targetState = u.baseState)
    (hlog : queue.upTo u.baseState = some log) : ExactUpdate queue u :=
  ⟨[], hdelta, log, hlog, by simpa [hsame] using hlog⟩

namespace SenderInvariant

variable {X : Externals} {p : ClientProtocol X} {queue : Ledger UInt64 Instruction}

/-- Every sent state is a cut point of the queue. -/
theorem upTo_sent (h : SenderInvariant p queue) {s : SentState} (hs : s ∈ p.sentStates) :
    ∃ log, queue.upTo s.stateId = some log :=
  let ⟨_, _, hoff⟩ := h.offsets
  ⟨_, (hoff s hs).2⟩

/-- The newest state stands for the whole queue. -/
theorem upTo_back (h : SenderInvariant p queue) {s : SentState}
    (hs : p.sentStates.getLast? = some s) : queue.upTo s.stateId = some queue.items := by
  obtain ⟨confirmed, hitems, hoff⟩ := h.offsets
  obtain ⟨s', hs', hend⟩ := h.back
  obtain rfl : s' = s := by rw [hs] at hs'; exact (Option.some.inj hs').symm
  rw [(hoff s' (List.mem_of_getLast? hs)).2, hend, List.take_length, hitems]

/-- **The slice taken for a retransmission is in range.** -/
theorem slice_in_range (h : SenderInvariant p queue) {front back : SentState}
    (hf : p.sentStates.head? = some front) (hb : p.sentStates.getLast? = some back) :
    front.instructionEnd ≤ back.instructionEnd ∧
      back.instructionEnd ≤ p.localInstructions.length := by
  obtain ⟨f, hf', hzero⟩ := h.front
  obtain ⟨b, hb', hlen⟩ := h.back
  obtain rfl : f = front := by rw [hf] at hf'; exact (Option.some.inj hf').symm
  obtain rfl : b = back := by rw [hb] at hb'; exact (Option.some.inj hb').symm
  omega

theorem stateUpdate_exact (h : SenderInvariant p queue) {is : InstructionBatch} {target : UInt64}
    {u : StateUpdate} {n : Nat} (hu : p.stateUpdate is target = .ok (u, n))
    (hfresh : target ∉ queue.states) :
    ExactUpdate (queue ++ [(target, is.instructions)]) u := by
  obtain ⟨front, back, -, hback, rfl, -⟩ := ClientProtocol.stateUpdate_ok hu
  refine ⟨is.instructions, rfl, queue.items, ?_, ?_⟩
  · exact Ledger.upTo_append_of_some (h.upTo_back hback)
  · exact Ledger.upTo_snoc_self hfresh

theorem pendingUpdate_exact (h : SenderInvariant p queue) {u : StateUpdate}
    (hu : p.pendingUpdate = .ok u) : ExactUpdate queue u := by
  unfold ClientProtocol.pendingUpdate at hu
  split at hu
  · simp at hu
  · split at hu
    · next front back hf hb =>
      simp only [Except.ok.injEq] at hu
      subst hu
      obtain ⟨confirmed, hitems, hoff⟩ := h.offsets
      obtain ⟨f, hf', hzero⟩ := h.front
      obtain ⟨b, hb', hlen⟩ := h.back
      obtain rfl : f = front := by rw [hf] at hf'; exact (Option.some.inj hf').symm
      obtain rfl : b = back := by rw [hb] at hb'; exact (Option.some.inj hb').symm
      refine ⟨_, rfl, confirmed, ?_, ?_⟩
      · show queue.upTo f.stateId = some confirmed
        rw [(hoff f (List.mem_of_head? hf)).2, hzero, List.take_zero, List.append_nil]
      · show queue.upTo b.stateId = some _
        rw [(hoff b (List.mem_of_getLast? hb)).2, hzero, List.drop_zero, Nat.sub_zero]
    · simp at hu

theorem acknowledgementUpdate_exact (h : SenderInvariant p queue) {u : StateUpdate}
    (hu : p.acknowledgementUpdate = .ok u) : ExactUpdate queue u := by
  unfold ClientProtocol.acknowledgementUpdate at hu
  split at hu
  · next front back hf hb =>
    simp only [Except.ok.injEq] at hu
    subst hu
    exact ExactUpdate.empty rfl rfl (h.upTo_back hb)
  · simp at hu

theorem shutdownAckUpdate_exact (h : SenderInvariant p queue) {u : StateUpdate}
    (hu : p.shutdownAckUpdate = .ok u) : ExactUpdate queue u := by
  unfold ClientProtocol.shutdownAckUpdate at hu
  split at hu
  · simp at hu
  · next hack =>
    simp only [Except.ok.injEq] at hu
    subst hu
    simp only [ClientProtocol.localShutdownAcknowledged, Bool.not_eq_true', Bool.not_eq_false,
      Option.any_eq_true, decide_eq_true_eq] at hack
    obtain ⟨s, hs, hid⟩ := hack
    obtain ⟨log, hlog⟩ := h.upTo_sent (List.mem_of_head? hs)
    rw [hid] at hlog
    exact ExactUpdate.empty rfl rfl hlog

end SenderInvariant

/-! ## Steps -/

section steps

variable {X : Externals} {p : ClientProtocol X} {queue : Ledger UInt64 Instruction}

/-- What one step of a run keeps: the invariant, and the exactness of what was sent. -/
def SenderStepOk (queue : Ledger UInt64 Instruction)
    (e : Event (ClientProtocol X) ClientCall ClientReply) : Prop :=
  SenderInvariant e.post (queue ++ (created e).toList) ∧
    ∀ u, emitted e = some u → ExactUpdate (queue ++ (created e).toList) u

/-- A step that creates no state and sends nothing new to the queue. -/
theorem senderStepOk_of_same {e : Event (ClientProtocol X) ClientCall ClientReply}
    (hinv : SenderInvariant e.post queue) (hcreated : created e = none)
    (hsent : ∀ u, emitted e = some u → ExactUpdate queue u) : SenderStepOk queue e := by
  unfold SenderStepOk
  rw [hcreated, Option.toList_none, List.append_nil]
  exact ⟨hinv, hsent⟩

theorem emitted_outgoing {e : Event (ClientProtocol X) ClientCall ClientReply} {u : StateUpdate}
    (h : emitted e = some u) : e.pre.outgoing e.label = some u := by
  unfold emitted at h
  split at h
  · exact h
  · simp at h

theorem toOption_eq_some {ε α : Type} {x : Except ε α} {a : α} (h : x.toOption = some a) :
    x = .ok a := by
  cases x with
  | error e => simp [Except.toOption] at h
  | ok b => simpa [Except.toOption] using h

/-- Building a state adds it to the queue, or fails and changes nothing the sender uses. -/
theorem senderStepOk_buildState (h : SenderInvariant p queue)
    {e : Event (ClientProtocol X) ClientCall ClientReply} (t : UInt16) (is : InstructionBatch)
    (target next : UInt64) (hpre : e.pre = p)
    (hfresh : target ∉ queue.states)
    (hnext : (target < next ∨ target = shutdownState) ∧ p.nextLocalState ≤ next)
    (hshutdown : shutdownState ∈ queue.states → target = shutdownState)
    (hout : p.outgoing e.label = (p.stateUpdate is target).toOption.map Prod.fst)
    (hfail : ∀ err, (p.buildStateUpdate t is target).2 = .error err →
      e.output = .datagrams (.error err) ∧ e.post = (p.buildStateUpdate t is target).1)
    (hok : ∀ packets, (p.buildStateUpdate t is target).2 = .ok packets →
      created e = some (target, is.instructions) ∧
        e.post = { (p.buildStateUpdate t is target).1 with nextLocalState := next }) :
    SenderStepOk queue e := by
  rcases p.buildStateUpdate_cases t is target with
    ⟨channel, err, hres⟩ | ⟨channel, packets, u, n, hu, -, hres⟩
  · obtain ⟨houtput, hpost⟩ := hfail err (by rw [hres])
    rw [hres] at hpost
    refine senderStepOk_of_same ?_ (by simp [created, houtput, ClientReply.sent]) ?_
    · rw [hpost]
      exact h.congr ⟨rfl, rfl, rfl⟩
    · intro u hu
      simp [emitted, houtput, ClientReply.sent] at hu
  · obtain ⟨hcreated, hpost⟩ := hok packets (by rw [hres])
    rw [hres] at hpost
    obtain ⟨front, back, -, -, -, hn⟩ := ClientProtocol.stateUpdate_ok hu
    unfold SenderStepOk
    rw [hcreated, Option.toList_some]
    refine ⟨?_, ?_⟩
    · refine h.create hfresh ?_ hshutdown ?_ ?_
      · rw [hpost]; exact hnext
      · rw [hpost]
      · rw [hpost, hn]
    · intro v hv
      have hv' := emitted_outgoing hv
      rw [hpre, hout, hu] at hv'
      simp only [Except.toOption, Option.map_some, Option.some.injEq] at hv'
      subst hv'
      exact h.stateUpdate_exact hu hfresh

theorem shutdown_not_created (h : SenderInvariant p queue) (hsent : p.localShutdownSent = false) :
    shutdownState ∉ queue.states := by
  intro hmem
  rw [h.shutdown hmem] at hsent
  simp at hsent

theorem senderStepOk_buildUpdate (h : SenderInvariant p queue) (hsent : p.localShutdownSent = false)
    (t : UInt16) (is : InstructionBatch) :
    SenderStepOk queue ((clientMachine X).event p (.buildUpdate t is)) := by
  by_cases hmax : p.nextLocalState = shutdownState
  · have hcall : p.call (.buildUpdate t is) = (p, .datagrams (.error .stateExhausted)) := by
      simp [ClientProtocol.call, ClientProtocol.buildUpdate, hmax]
    refine senderStepOk_of_same ?_ ?_ ?_
    · simpa [clientMachine, hcall] using h
    · simp [created, clientMachine, hcall, ClientReply.sent]
    · intro u hu
      simp [emitted, clientMachine, hcall, ClientReply.sent] at hu
  · have hlt : p.nextLocalState < p.nextLocalState + 1 := by
      have hle : p.nextLocalState.toNat ≠ shutdownState.toNat := fun he => hmax (UInt64.toNat_inj.mp he)
      have hbound := p.nextLocalState.toNat_lt
      have hval : shutdownState.toNat = 2 ^ 64 - 1 := by decide
      rw [UInt64.lt_iff_toNat_lt, UInt64.toNat_add]
      simp only [UInt64.reduceToNat]
      omega
    have hfresh : p.nextLocalState ∉ queue.states := by
      intro hmem
      rcases h.below _ hmem with hself | hself
      · exact absurd hself (UInt64.lt_irrefl _)
      · exact hmax hself
    have hcallError : ∀ q err, p.buildStateUpdate t is p.nextLocalState = (q, .error err) →
        p.call (.buildUpdate t is) = (q, .datagrams (.error err)) := by
      intro q err hr
      simp [ClientProtocol.call, ClientProtocol.buildUpdate, hmax, hr]
    have hcallOk : ∀ q packets, p.buildStateUpdate t is p.nextLocalState = (q, .ok packets) →
        p.call (.buildUpdate t is) =
          ({ q with nextLocalState := p.nextLocalState + 1 }, .datagrams (.ok packets)) := by
      intro q packets hr
      simp [ClientProtocol.call, ClientProtocol.buildUpdate, hmax, hr]
    refine senderStepOk_buildState h t is p.nextLocalState (p.nextLocalState + 1) rfl hfresh
      ⟨Or.inl hlt, UInt64.le_of_lt hlt⟩ ?_ ?_ ?_ ?_
    · exact fun hmem => absurd hmem (shutdown_not_created h hsent)
    · simp [ClientProtocol.outgoing, hmax]
    · intro err herr
      have hcall := hcallError _ err (Prod.ext rfl herr)
      exact ⟨congrArg Prod.snd hcall, congrArg Prod.fst hcall⟩
    · intro packets hpackets
      have hcall := hcallOk _ packets (Prod.ext rfl hpackets)
      refine ⟨?_, congrArg Prod.fst hcall⟩
      simp [created, clientMachine, hcall, ClientReply.sent]

theorem senderStepOk_buildShutdown (h : SenderInvariant p queue) (t : UInt16)
    (is : InstructionBatch) :
    SenderStepOk queue ((clientMachine X).event p (.buildShutdown t is)) := by
  by_cases hsent : p.localShutdownSent = true
  · have hcall : p.call (.buildShutdown t is) = (p, .datagrams (.error .shutdownAlreadySent)) := by
      simp [ClientProtocol.call, ClientProtocol.buildShutdown, hsent]
    refine senderStepOk_of_same ?_ ?_ ?_
    · simpa [clientMachine, hcall] using h
    · simp [created, clientMachine, hcall, ClientReply.sent]
    · intro u hu
      simp [emitted, clientMachine, hcall, ClientReply.sent] at hu
  · have hcall : p.call (.buildShutdown t is) =
        Prod.map id .datagrams (p.buildStateUpdate t is shutdownState) := by
      simp [ClientProtocol.call, ClientProtocol.buildShutdown, hsent]
    have hframe := p.buildStateUpdate_cases t is shutdownState
    refine senderStepOk_buildState h t is shutdownState p.nextLocalState rfl (shutdown_not_created h (by simpa using hsent))
      ⟨Or.inr rfl, UInt64.le_refl _⟩ (fun _ => rfl) ?_ ?_ ?_
    · simp [ClientProtocol.outgoing, hsent]
    · intro err herr
      simp only [clientMachine, Machine.event, hcall, Prod.map, herr]
      exact ⟨trivial, rfl⟩
    · intro packets hpackets
      simp only [clientMachine, Machine.event, hcall, Prod.map, hpackets, created]
      refine ⟨rfl, ?_⟩
      rcases hframe with ⟨channel, err, hres⟩ | ⟨channel, packets', u, n, -, -, hres⟩ <;> rw [hres] <;>
        rfl

/-- Calls that seal an update without creating a state. -/
theorem senderStepOk_seal (h : SenderInvariant p queue)
    {e : Event (ClientProtocol X) ClientCall ClientReply} {t : UInt16}
    {update : Except SessionError StateUpdate} (hpre : e.pre = p)
    (hout : p.outgoing e.label = update.toOption) (hcreated : created e = none)
    (hexact : ∀ u, update = .ok u → ExactUpdate queue u)
    (hpost : e.post = (p.sealBuilt t update).1) : SenderStepOk queue e := by
  refine senderStepOk_of_same ?_ hcreated ?_
  · rw [hpost]
    cases update with
    | error err => exact h
    | ok u => exact h.congr (p.sameSender_sealUpdate t u)
  · intro u hu
    have hu' := emitted_outgoing hu
    rw [hpre, hout] at hu'
    exact hexact u (toOption_eq_some hu')

theorem created_eq_none {e : Event (ClientProtocol X) ClientCall ClientReply}
    (hu : ∀ t is, e.label ≠ .buildUpdate t is) (hs : ∀ t is, e.label ≠ .buildShutdown t is) :
    created e = none := by
  unfold created
  split
  · split
    · next heq => exact absurd heq (hu _ _)
    · next heq => exact absurd heq (hs _ _)
    · rfl
  · rfl

/-- **Every step keeps the queue and sends exact updates only.** -/
theorem senderStepOk (h : SenderInvariant p queue) {i : ClientCall}
    (hc : NoUpdateAfterShutdown p i) : SenderStepOk queue ((clientMachine X).event p i) := by
  cases i with
  | buildUpdate t is => exact senderStepOk_buildUpdate h hc t is
  | buildShutdown t is => exact senderStepOk_buildShutdown h t is
  | retransmitPending t =>
    exact senderStepOk_seal (t := t) h rfl rfl (created_eq_none (by simp) (by simp))
      (fun u => h.pendingUpdate_exact) rfl
  | buildAcknowledgement t =>
    exact senderStepOk_seal (t := t) h rfl rfl (created_eq_none (by simp) (by simp))
      (fun u => h.acknowledgementUpdate_exact) rfl
  | buildAssociation t =>
    exact senderStepOk_seal (t := t) h rfl rfl (created_eq_none (by simp) (by simp))
      (fun u => h.acknowledgementUpdate_exact) rfl
  | buildShutdownAck t =>
    exact senderStepOk_seal (t := t) h rfl rfl (created_eq_none (by simp) (by simp))
      (fun u => h.shutdownAckUpdate_exact) rfl
  | ingestPacket packet =>
    refine senderStepOk_of_same ?_ (created_eq_none (by simp) (by simp)) ?_
    · rcases p.sender_ingestPacket packet with hs | ⟨a, hs⟩
      · exact h.congr hs
      · exact (h.acknowledge a).congr hs
    · intro u hu
      have := emitted_outgoing hu
      simp [ClientProtocol.outgoing] at this
  | setLocalCapabilities capabilities =>
    refine senderStepOk_of_same (h.congr ⟨rfl, rfl, rfl⟩) (created_eq_none (by simp) (by simp)) ?_
    intro u hu
    have := emitted_outgoing hu
    simp [ClientProtocol.outgoing] at this
  | setInitialRemoteViewport columns rows =>
    refine senderStepOk_of_same (h.congr ?_) (created_eq_none (by simp) (by simp)) ?_
    · simp only [clientMachine, Machine.event, ClientProtocol.call,
        ClientProtocol.setInitialRemoteViewport]
      split
      · exact ClientProtocol.SameSender.refl p
      · split <;> exact ⟨rfl, rfl, rfl⟩
    · intro u hu
      have := emitted_outgoing hu
      simp [ClientProtocol.outgoing] at this

end steps

/-! ## Runs -/

theorem queueOf_snoc {X : Externals} (tr : List (Event (ClientProtocol X) ClientCall ClientReply))
    (e : Event (ClientProtocol X) ClientCall ClientReply) :
    queueOf (tr ++ [e]) = queueOf tr ++ (created e).toList := by
  unfold queueOf
  rw [List.filterMap_append, List.cons_append]
  cases h : created e <;> simp [h]

/-- A peer's logs, updated by what an update decodes to. -/
def peerReceive (P : Prost) (logs : Store UInt64 Instruction) (u : StateUpdate) :
    Store UInt64 Instruction :=
  match P.decodeBatch u.delta with
  | none => logs
  | some batch =>
    logs.receive { base := u.baseState, target := u.targetState, items := batch.instructions }

/-- What a peer holds that starts from state zero and receives these updates. -/
def peerLogs (P : Prost) (received : List StateUpdate) : Store UInt64 Instruction :=
  received.foldl (peerReceive P) (Function.update (fun _ => none) 0 (some []))

/-- What a run keeps: the invariant, exact updates, and slices in range. -/
structure SenderRunOk {X : Externals} (p : ClientProtocol X)
    (tr : List (Event (ClientProtocol X) ClientCall ClientReply)) : Prop where
  invariant : SenderInvariant p (queueOf tr)
  exact_updates : ∀ e ∈ tr, ∀ u, emitted e = some u → ExactUpdate (queueOf tr) u
  slices : ∀ e ∈ tr, ∀ front back, e.pre.sentStates.head? = some front →
    e.pre.sentStates.getLast? = some back → front.instructionEnd ≤ back.instructionEnd ∧
      back.instructionEnd ≤ e.pre.localInstructions.length

theorem senderRunOk (X : Externals) {calls : List ClientCall}
    (h : (clientMachine X).Along NoUpdateAfterShutdown calls) :
    SenderRunOk ((clientMachine X).final calls) ((clientMachine X).trace calls) := by
  refine (clientMachine X).run_invariant_along (P := SenderRunOk) ?_ ?_ h
  · exact ⟨SenderInvariant.init, by simp, by simp⟩
  · intro p tr i hrun hc
    obtain ⟨hinv, hexact⟩ := senderStepOk hrun.invariant hc
    refine ⟨by rw [queueOf_snoc]; exact hinv, ?_, ?_⟩
    · intro e he u hu
      rw [queueOf_snoc]
      rcases List.mem_append.mp he with he | he
      · exact (hrun.exact_updates e he u hu).append _
      · obtain rfl := List.mem_singleton.mp he
        exact hexact u hu
    · intro e he
      rcases List.mem_append.mp he with he | he
      · exact hrun.slices e he
      · obtain rfl := List.mem_singleton.mp he
        exact fun front back hf hb => hrun.invariant.slice_in_range hf hb

/-- Decoded exact updates are exact deltas, so a peer's logs are prefixes of the queue. -/
theorem peerLogs_le {P : Prost} (hP : P.Lawful) {queue : Ledger UInt64 Instruction}
    (hzero : queue.upTo 0 = some []) {received : List StateUpdate}
    (h : ∀ u ∈ received, ExactUpdate queue u) :
    (peerLogs P received).Le fun t => queue.upTo t := by
  have hstep : ∀ (us : List StateUpdate) (logs : Store UInt64 Instruction),
      logs.Le (fun t => queue.upTo t) → (∀ u ∈ us, ExactUpdate queue u) →
      (us.foldl (peerReceive P) logs).Le fun t => queue.upTo t := by
    intro us
    induction us with
    | nil => exact fun _ hle _ => hle
    | cons u us ih =>
      intro logs hle hex
      refine ih _ ?_ fun v hv => hex v (List.mem_cons_of_mem _ hv)
      obtain ⟨is, hdelta, hd⟩ := hex u List.mem_cons_self
      have hdecode := hP.decodeBatch_encode { instructions := is }
      unfold peerReceive
      rw [hdelta, hdecode]
      exact Store.receive_le hle hd
  refine hstep received _ ?_ h
  intro t log ht
  by_cases htz : t = 0
  · subst htz
    simp only [Function.update_self, Option.some.injEq] at ht
    rw [← ht]
    exact hzero
  · rw [Function.update_of_ne htz] at ht
    simp at ht

/--
**Sender exactness.**

In every run, all datagrams the client sends are an update that is exact about the queue of the
run, the slice of a retransmission is in range, and a peer that receives any of the updates, in
any order and any number of times, holds prefixes of the queue only.
-/
theorem client_sends_exact_deltas (X : Externals) (hP : X.prost.Lawful) {calls : List ClientCall}
    (h : (clientMachine X).Along NoUpdateAfterShutdown calls) :
    let trace := (clientMachine X).trace calls
    (∀ e ∈ trace, ∀ packets, e.output.sent = some packets →
      ∃ u, emitted e = some u ∧ (e.pre.sealUpdate e.label.sentTimestamp u).2 = .ok packets ∧
        ExactUpdate (queueOf trace) u) ∧
    (∀ e ∈ trace, ∀ front back, e.pre.sentStates.head? = some front →
      e.pre.sentStates.getLast? = some back → front.instructionEnd ≤ back.instructionEnd ∧
        back.instructionEnd ≤ e.pre.localInstructions.length) ∧
    (∀ received : List StateUpdate, (∀ u ∈ received, ∃ e ∈ trace, emitted e = some u) →
      ∀ t log, peerLogs X.prost received t = some log → (queueOf trace).upTo t = some log) := by
  have hrun := senderRunOk X h
  refine ⟨?_, hrun.slices, ?_⟩
  · intro e he packets hpackets
    obtain ⟨u, hemit, hseal⟩ := emitted_of_sent he hpackets
    exact ⟨u, hemit, hseal, hrun.exact_updates e he u hemit⟩
  · intro received hreceived
    refine peerLogs_le hP (by simp [queueOf, Ledger.upTo]) ?_
    intro u hu
    obtain ⟨e, he, hemit⟩ := hreceived u hu
    exact hrun.exact_updates e he u hemit

/-- The run that queues one key press and sends it twice. -/
theorem client_sends_exact_deltas_key_press :
    let calls : List ClientCall :=
      [.buildUpdate 0 { instructions := [hostBytesInstruction [0x61]] }, .retransmitPending 1]
    let trace := (clientMachine Reference.externals).trace calls
    (∀ e ∈ trace, ∀ packets, e.output.sent = some packets →
      ∃ u, emitted e = some u ∧ (e.pre.sealUpdate e.label.sentTimestamp u).2 = .ok packets ∧
        ExactUpdate (queueOf trace) u) ∧
    (∀ e ∈ trace, ∀ front back, e.pre.sentStates.head? = some front →
      e.pre.sentStates.getLast? = some back → front.instructionEnd ≤ back.instructionEnd ∧
        back.instructionEnd ≤ e.pre.localInstructions.length) ∧
    (∀ received : List StateUpdate, (∀ u ∈ received, ∃ e ∈ trace, emitted e = some u) →
      ∀ t log, peerLogs Reference.prost received t = some log →
        (queueOf trace).upTo t = some log) :=
  client_sends_exact_deltas Reference.externals Reference.prost_lawful
    ((@Machine.along_snoc _ _ _ _ _ [_] _).mpr
      ⟨(@Machine.along_snoc _ _ _ _ _ [] _).mpr ⟨Machine.along_nil _ _, rfl⟩, trivial⟩)

end OxideTerm.Fernomade
