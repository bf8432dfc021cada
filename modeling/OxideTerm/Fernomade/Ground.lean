import OxideTerm.Fernomade.History

/-!
# Ground boundaries and diverged histories

Whether a parser is between two escape sequences is found out by a printable probe. All that is
assumed of the parser is stated in these terms (`Vte.Lawful`). The checks on histories are then
properties of their effects: the bytes must end at a ground boundary, and what two histories do
not share must contain no resize (`divergedHistoriesAreScreenDiffSafe_iff`).
-/

namespace OxideTerm.Fernomade

open OxideTerm.Lib

/-- The parser after some runs of bytes. -/
def Vte.feed (E : Vte) (parser : E.Parser) (runs : List Bytes) : E.Parser :=
  runs.foldl (fun parser bytes => (E.advance parser bytes).1) parser

/-- The probe is reported as one printed character. -/
def Vte.atGround (E : Vte) (parser : E.Parser) : Prop :=
  (E.advance parser probe).2 = [.print '~']

/-- A new parser ends at a ground boundary after these runs of bytes. -/
def Vte.EndsAtGround (E : Vte) (runs : List Bytes) : Prop := E.atGround (E.feed E.new runs)

/-- What the ground checks rely on: the bytes decide, however they are cut into runs, and at a
ground boundary a parser goes on like a new one. -/
structure Vte.Lawful (E : Vte) : Prop where
  flatten : ∀ runs, E.EndsAtGround runs ↔ E.EndsAtGround [runs.flatten]
  restart : ∀ before after, E.EndsAtGround [before] →
    (E.EndsAtGround [before ++ after] ↔ E.EndsAtGround [after])

theorem Vte.feed_append (E : Vte) (parser : E.Parser) (xs ys : List Bytes) :
    E.feed parser (xs ++ ys) = E.feed (E.feed parser xs) ys := List.foldl_append

/-! ## The probe -/

/-- While probing, every action is counted on one of the two sides. -/
theorem ScreenDiffAudit.perform_probing {audit : ScreenDiffAudit} (h : audit.probing = true)
    (action : VteAction) :
    (audit.perform action).probing = true ∧
      (audit.perform action).probePrints = audit.probePrints +
        (if action = .print '~' then 1 else 0) ∧
      (audit.perform action).probeOtherActions = audit.probeOtherActions +
        (if action = .print '~' then 0 else 1) := by
  cases action with
  | print c =>
    by_cases hc : c = '~' <;> simp [perform, ScreenDiffAudit.print, h, hc]
  | execute b => simp [perform, ScreenDiffAudit.execute, h]
  | _ => simp [perform, recordOtherAction, h]

theorem ScreenDiffAudit.foldl_perform_probing : ∀ (actions : List VteAction)
    {audit : ScreenDiffAudit}, audit.probing = true →
    (actions.foldl perform audit).probePrints = audit.probePrints + actions.count (.print '~') ∧
    (actions.foldl perform audit).probeOtherActions =
      audit.probeOtherActions + (actions.length - actions.count (.print '~'))
  | [], _, _ => by simp
  | action :: rest, audit, h => by
    obtain ⟨hprobing, hprints, hothers⟩ := perform_probing h action
    obtain ⟨ihp, iho⟩ := foldl_perform_probing rest hprobing
    have hle : rest.count (.print '~') ≤ rest.length := List.count_le_length
    rw [List.foldl_cons, ihp, iho, hprints, hothers, List.count_cons, List.length_cons]
    by_cases ha : action = .print '~'
    · simp only [ha, if_true, beq_self_eq_true]
      omega
    · simp only [ha, if_false, beq_eq_false_iff_ne.mpr ha, Bool.false_eq_true]
      omega

/-- **The probe finds ground exactly when it is reported as itself.** -/
theorem probeIsGround_iff (E : Vte) (parser : E.Parser) (audit : ScreenDiffAudit) :
    (auditAdvance E (parser, audit.beginBoundaryProbe) probe).2.probeIsGround = true ↔
      E.atGround parser := by
  obtain ⟨hprints, hothers⟩ := ScreenDiffAudit.foldl_perform_probing (E.advance parser probe).2
    (show audit.beginBoundaryProbe.probing = true from rfl)
  have hstart : audit.beginBoundaryProbe.probePrints = 0 ∧
      audit.beginBoundaryProbe.probeOtherActions = 0 := ⟨rfl, rfl⟩
  rw [hstart.1, Nat.zero_add] at hprints
  rw [hstart.2, Nat.zero_add] at hothers
  simp only [auditAdvance, ScreenDiffAudit.probeIsGround, Vte.atGround, hprints, hothers,
    Bool.and_eq_true, decide_eq_true_eq]
  constructor
  · rintro ⟨hone, hnone⟩
    have hle := List.count_le_length (a := VteAction.print '~') (l := (E.advance parser probe).2)
    have hlen : (E.advance parser probe).2.length = 1 := by omega
    obtain ⟨action, heq⟩ := List.length_eq_one_iff.mp hlen
    rw [heq] at hone ⊢
    have hmem := List.count_pos_iff.mp (hone ▸ Nat.one_pos)
    rw [List.mem_singleton.mp hmem]
  · intro h
    simp [h]

/-! ## The bytes of a history -/

/-- The runs of host bytes in a history. -/
def hostRuns (operations : List StateOperation) : List Bytes :=
  operations.filterMap fun
    | .hostBytes bytes => some bytes
    | _ => none

/-- The host bytes among some effects. -/
def effectBytes (effects : List HostEffect) : Bytes :=
  effects.filterMap fun
    | .byte b => some b
    | _ => none

@[simp] theorem hostRuns_append (xs ys : List StateOperation) :
    hostRuns (xs ++ ys) = hostRuns xs ++ hostRuns ys := List.filterMap_append

@[simp] theorem effectBytes_append (xs ys : List HostEffect) :
    effectBytes (xs ++ ys) = effectBytes xs ++ effectBytes ys := List.filterMap_append

@[simp] theorem effectBytes_map_byte (bytes : Bytes) :
    effectBytes (bytes.map .byte) = bytes := by
  rw [effectBytes, List.filterMap_map]
  exact List.filterMap_some

theorem flatten_hostRuns : ∀ operations : List StateOperation,
    (hostRuns operations).flatten = effectBytes (effectsOf operations)
  | [] => rfl
  | operation :: rest => by
    rw [effectsOf_cons, effectBytes_append, ← flatten_hostRuns rest]
    cases operation with
    | hostBytes bytes => rw [StateOperation.effects, effectBytes_map_byte]; rfl
    | resize c r => rfl
    | sessionControl c => rfl

theorem mem_resize_iff {c r : UInt16} : ∀ {operations : List StateOperation},
    .resize c r ∈ operations ↔ .resize c r ∈ effectsOf operations
  | [] => by simp
  | operation :: rest => by
    have ih : .resize c r ∈ rest ↔ .resize c r ∈ effectsOf rest := mem_resize_iff
    rw [effectsOf_cons, List.mem_cons, List.mem_append, ih]
    cases operation <;> simp [StateOperation.effects]

/-- The parser after the host bytes of a history. -/
theorem foldl_auditOperation (E : Vte) : ∀ (operations : List StateOperation)
    (s : E.Parser × ScreenDiffAudit),
    (operations.foldl (auditOperation E) s).1 = E.feed s.1 (hostRuns operations)
  | [], _ => rfl
  | operation :: rest, s => by
    rw [List.foldl_cons, foldl_auditOperation E rest]
    cases operation <;> rfl

/-- **A history ends at ground when its bytes do.** -/
theorem historyEndsAtGround_iff (E : Vte) (operations : List StateOperation) :
    historyEndsAtGround E operations = true ↔ E.EndsAtGround (hostRuns operations) := by
  have hfeed := foldl_auditOperation E operations (E.new, .default)
  unfold historyEndsAtGround Vte.EndsAtGround
  generalize operations.foldl (auditOperation E) (E.new, .default) = s at hfeed ⊢
  obtain ⟨parser, audit⟩ := s
  simp only at hfeed
  rw [← hfeed]
  exact probeIsGround_iff E parser audit

/-! ## Diverged histories -/

theorem auditTail_cases (E : Vte) : ∀ (tail : List StateOperation)
    (s : E.Parser × ScreenDiffAudit),
    (auditTail E s tail = none ∧ ∃ c r, .resize c r ∈ tail) ∨
    (∃ s', auditTail E s tail = some s' ∧ s'.1 = E.feed s.1 (hostRuns tail) ∧
      ∀ c r, .resize c r ∉ tail)
  | [], s => Or.inr ⟨s, rfl, rfl, by simp⟩
  | .resize c r :: rest, s => Or.inl ⟨rfl, c, r, List.mem_cons_self⟩
  | .hostBytes bytes :: rest, s => by
    rcases auditTail_cases E rest (auditAdvance E s bytes) with
      ⟨hnone, c, r, hmem⟩ | ⟨s', hsome, hparser, hno⟩
    · exact Or.inl ⟨hnone, c, r, List.mem_cons_of_mem _ hmem⟩
    · exact Or.inr ⟨s', hsome, hparser, fun c r hmem => by simp [hno c r] at hmem⟩
  | .sessionControl control :: rest, s => by
    rcases auditTail_cases E rest s with ⟨hnone, c, r, hmem⟩ | ⟨s', hsome, hparser, hno⟩
    · exact Or.inl ⟨hnone, c, r, List.mem_cons_of_mem _ hmem⟩
    · exact Or.inr ⟨s', hsome, hparser, fun c r hmem => by simp [hno c r] at hmem⟩

/-- A tail is safe when it has no resize and ends at ground. -/
theorem historyTailIsScreenDiffSafe_iff (E : Vte) (common tail : List StateOperation) :
    historyTailIsScreenDiffSafe E common tail = true ↔
      (∀ c r, .resize c r ∉ tail) ∧ E.EndsAtGround (hostRuns (common ++ tail)) := by
  have hfeed := foldl_auditOperation E common (E.new, .default)
  unfold historyTailIsScreenDiffSafe Vte.EndsAtGround
  rw [hostRuns_append, Vte.feed_append]
  generalize common.foldl (auditOperation E) (E.new, .default) = s at hfeed ⊢
  obtain ⟨parser, audit⟩ := s
  simp only at hfeed
  rw [← hfeed]
  dsimp only
  rcases auditTail_cases E tail (parser, audit.beginTailAudit) with
    ⟨hnone, c, r, hmem⟩ | ⟨⟨parser', audit'⟩, hsome, hparser, hno⟩
  · rw [hnone]
    exact ⟨fun h => by simp at h, fun h => absurd hmem (h.1 c r)⟩
  · rw [hsome, ← hparser]
    simp only [probeIsGround_iff]
    exact ⟨fun h => ⟨hno, h⟩, fun h => h.2⟩

theorem commonBytes_take : ∀ as bs : Bytes,
    as.take (commonBytes as bs) = bs.take (commonBytes as bs)
  | [], _ => by simp [commonBytes]
  | _ :: _, [] => by simp [commonBytes]
  | a :: as, b :: bs => by
    unfold commonBytes
    split
    · next h => rw [List.take_succ_cons, List.take_succ_cons, h, commonBytes_take as bs]
    · simp

/-- **Splitting two histories keeps the effects of both.** -/
theorem effectsOf_splitCommonHistory : ∀ target delivered : List StateOperation,
    effectsOf (splitCommonHistory target delivered).1 ++
        effectsOf (splitCommonHistory target delivered).2.1 = effectsOf target ∧
      effectsOf (splitCommonHistory target delivered).1 ++
        effectsOf (splitCommonHistory target delivered).2.2 = effectsOf delivered
  | [], _ => by simp [splitCommonHistory]
  | _ :: _, [] => by simp [splitCommonHistory]
  | target :: targets, delivered :: rest => by
    have ih := effectsOf_splitCommonHistory targets rest
    unfold splitCommonHistory
    split
    · next h =>
      subst h
      simp only [effectsOf_cons, List.append_assoc, ih.1, ih.2, and_self]
    · split
      · next targetBytes deliveredBytes =>
        simp only [effectsOf_append, effectsOf_hostBytesOperation, effectsOf_cons,
          StateOperation.effects, ← List.append_assoc, ← List.map_append]
        rw [List.take_append_drop, commonBytes_take, List.take_append_drop]
        exact ⟨rfl, rfl⟩
      · simp

section

variable {E : Vte} (hE : E.Lawful)
include hE

/-- Where a parser ends is decided by the effects of a history. -/
theorem Vte.Lawful.endsAtGround_effects (operations : List StateOperation) :
    E.EndsAtGround (hostRuns operations) ↔
      E.EndsAtGround [effectBytes (effectsOf operations)] := by
  rw [hE.flatten, flatten_hostRuns]

/-- **Diverged histories are safe when both end at ground and neither has a resize of its own.** -/
theorem divergedHistoriesAreScreenDiffSafe_iff (target delivered : List StateOperation) :
    divergedHistoriesAreScreenDiffSafe E target delivered = true ↔
      (∀ c r, .resize c r ∉ (splitCommonHistory target delivered).2.1) ∧
      (∀ c r, .resize c r ∉ (splitCommonHistory target delivered).2.2) ∧
      E.EndsAtGround [effectBytes (effectsOf target)] ∧
      E.EndsAtGround [effectBytes (effectsOf delivered)] := by
  obtain ⟨htarget, hdelivered⟩ := effectsOf_splitCommonHistory target delivered
  rw [← htarget, ← hdelivered, ← effectsOf_append, ← effectsOf_append,
    ← hE.endsAtGround_effects, ← hE.endsAtGround_effects]
  unfold divergedHistoriesAreScreenDiffSafe
  simp only [Bool.and_eq_true, historyTailIsScreenDiffSafe_iff]
  tauto

/-- Histories without resizes that end at ground are safe. -/
theorem divergedHistoriesAreScreenDiffSafe_of_no_resize {target delivered : List StateOperation}
    (htarget : ∀ c r, .resize c r ∉ target) (hdelivered : ∀ c r, .resize c r ∉ delivered)
    (hground : E.EndsAtGround (hostRuns target)) (hground' : E.EndsAtGround (hostRuns delivered)) :
    divergedHistoriesAreScreenDiffSafe E target delivered = true := by
  obtain ⟨heff, heff'⟩ := effectsOf_splitCommonHistory target delivered
  rw [hE.endsAtGround_effects] at hground hground'
  refine (divergedHistoriesAreScreenDiffSafe_iff hE target delivered).mpr
    ⟨fun c r hmem => htarget c r ?_, fun c r hmem => hdelivered c r ?_, hground, hground'⟩
  · rw [mem_resize_iff, ← heff, List.mem_append]
    exact Or.inr (mem_resize_iff.mp hmem)
  · rw [mem_resize_iff, ← heff', List.mem_append]
    exact Or.inr (mem_resize_iff.mp hmem)

end

/-- A resize that only the delivered history has makes the two unsafe. -/
theorem divergedHistoriesAreScreenDiffSafe_of_resize {E : Vte} {target delivered : List StateOperation}
    (htarget : ∀ c r, .resize c r ∉ target) {c r : UInt16} (hdelivered : .resize c r ∈ delivered) :
    divergedHistoriesAreScreenDiffSafe E target delivered = false := by
  obtain ⟨heff, heff'⟩ := effectsOf_splitCommonHistory target delivered
  have hmem : .resize c r ∈ (splitCommonHistory target delivered).2.2 := by
    rw [mem_resize_iff] at hdelivered ⊢
    rw [← heff', List.mem_append] at hdelivered
    refine hdelivered.resolve_left fun hcommon => htarget c r ?_
    rw [mem_resize_iff, ← heff, List.mem_append]
    exact Or.inl hcommon
  rw [Bool.eq_false_iff]
  intro hsafe
  unfold divergedHistoriesAreScreenDiffSafe at hsafe
  simp only [Bool.and_eq_true, historyTailIsScreenDiffSafe_iff] at hsafe
  exact hsafe.2.1 c r hmem

end OxideTerm.Fernomade
