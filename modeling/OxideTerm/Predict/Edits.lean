import OxideTerm.Predict.Overlay

/-!
# What an offer does

Either nothing happens to the predicted cells, or the span is given up, or the action is one of
four edits (`Edited`). All that is proved of overlays is read off these cases.
-/

namespace OxideTerm.Predict

open OxideTerm.Lib

/-- The bytes of a printable action. -/
def PredictionAction.printed : PredictionAction → Option Bytes
  | .printableAscii byte => if isGraphicOrSpace byte then some [byte] else none
  | .printableUtf8 character =>
    if isControl character then none else some (String.utf8EncodeChar character)
  | _ => none

namespace PredictionOverlay

/-- The context can be drawn on at the cursor. -/
def Agrees (s : PredictionOverlay) (context : PredictionContext) : Prop :=
  (s.lineContext.getD context).disagrees context = false ∧
    (s.lineContext.getD context).atEdge s.cursorOffset = false

/-- The outcomes of one action. -/
inductive Edited (s : PredictionOverlay) (frameId : Nat) (action : PredictionAction)
    (context : Option PredictionContext) : PredictionOverlay × Option Bytes → Prop where
  | refused : Edited s frameId action context (s, none)
  | invalidated : Edited s frameId action context (s.invalidateSpan, none)
  | disagreed {bytes : Bytes} {c : PredictionContext} : action.printed = some bytes →
      context = some c → s.cursorOffset = s.predictedAscii.length → ¬ s.Agrees c →
      Edited s frameId action context
        (({ s with lineContext := s.lineContext.or context } : PredictionOverlay).invalidateSpan,
          none)
  | printed {bytes : Bytes} : action.printed = some bytes →
      s.cursorOffset = s.predictedAscii.length → (∀ c, context = some c → s.Agrees c) →
      Edited s frameId action context
        (({ s with lineContext := s.lineContext.or context } : PredictionOverlay).pushPrintable
          frameId bytes context)
  | erased : s.cursorOffset ≠ 0 → s.cursorOffset = s.predictedAscii.length →
      s.overwrite = false →
      Edited s frameId action context
        ({ s with
            predictedAscii := s.predictedAscii.dropLast
            cursorOffset := s.cursorOffset - 1
            displayedCells := s.displayedCells - 1
            rollbackCells := s.rollbackCells - 1
            overlayActive := true }, some (cursorLeft ++ deleteCharacter))
  | movedLeft : s.cursorOffset ≠ 0 →
      Edited s frameId action context
        ({ s with cursorOffset := s.cursorOffset - 1, overlayActive := true }, some cursorLeft)
  | movedRight : s.cursorOffset < s.predictedAscii.length →
      Edited s frameId action context
        ({ s with cursorOffset := s.cursorOffset + 1, overlayActive := true }, some cursorRight)

theorem getD_eq_or {α : Type} (o : Option α) (x : α) : some (o.getD x) = o.or (some x) := by
  cases o with
  | none => rfl
  | some y => rfl

theorem predictPrintable_edited {s : PredictionOverlay} {frameId : Nat} {action : PredictionAction}
    {bytes : Bytes} (h : action.printed = some bytes) (context : Option PredictionContext) :
    Edited s frameId action context (s.predictPrintable frameId bytes context) := by
  unfold predictPrintable
  split
  · exact .refused
  next hcursor =>
  rw [ne_eq, not_not] at hcursor
  cases context with
  | none =>
    have hsame : ({ s with lineContext := s.lineContext.or none } : PredictionOverlay) = s := by
      rw [Option.or_none]
    have hprinted : Edited s frameId action none
        (({ s with lineContext := s.lineContext.or none } : PredictionOverlay).pushPrintable
          frameId bytes none) := .printed h hcursor fun c hc => by cases hc
    rw [hsame] at hprinted
    exact hprinted
  | some c =>
    simp only [getD_eq_or]
    split
    · next hrefused =>
      refine .disagreed h rfl hcursor fun hagrees => ?_
      rw [hagrees.1, hagrees.2] at hrefused
      cases hrefused
    · next hagrees =>
      refine .printed h hcursor fun c' hc => ?_
      obtain rfl := Option.some.inj hc
      rw [Bool.not_eq_true, Bool.or_eq_false_iff] at hagrees
      exact hagrees

theorem predict_edited (s : PredictionOverlay) (frameId : Nat) (action : PredictionAction)
    (context : Option PredictionContext) :
    Edited s frameId action context (s.predict frameId action context) := by
  cases action with
  | printableAscii byte =>
    unfold predict
    simp only
    split
    · next hprintable =>
      have hbytes : (PredictionAction.printableAscii byte).printed = some [byte] :=
        if_pos hprintable
      exact predictPrintable_edited hbytes context
    · exact .invalidated
  | printableUtf8 character =>
    unfold predict
    simp only
    split
    · exact .invalidated
    · next hprintable =>
      have hbytes : (PredictionAction.printableUtf8 character).printed =
          some (String.utf8EncodeChar character) := if_neg hprintable
      exact predictPrintable_edited hbytes context
  | backspace =>
    show Edited s frameId .backspace context s.predictBackspace
    unfold predictBackspace
    split
    · exact .refused
    next hcursor =>
    rw [not_or, ne_eq, not_not] at hcursor
    split
    · exact .refused
    split
    · exact .invalidated
    next hinsert =>
    exact .erased hcursor.1 hcursor.2 (Bool.eq_false_iff.mpr hinsert)
  | left =>
    show Edited s frameId .left context s.predictLeft
    unfold predictLeft
    split
    · exact .refused
    next hcursor => exact .movedLeft hcursor
  | right =>
    show Edited s frameId .right context s.predictRight
    unfold predictRight
    split
    · exact .refused
    next hcursor => exact .movedRight (Nat.not_le.mp hcursor)
  | barrier => exact .refused

/-- Bookkeeping that no prediction depends on, but the order of frames. -/
def noted (s : PredictionOverlay) (metrics : PredictionMetrics) (highestFrameId : Option Nat) :
    PredictionOverlay :=
  { s with metrics, highestFrameId }

/-- **What an offer does.** -/
theorem offered_cases (s : PredictionOverlay) (frameId : Nat) (action : PredictionAction)
    (context : Option PredictionContext) (offeredAtMilliseconds : Option Nat) :
    (∃ metrics highest, s.offerForFrameWithContextInner frameId action context
      offeredAtMilliseconds = (s.noted metrics highest, none)) ∨
    (∃ metrics highest, s.offerForFrameWithContextInner frameId action context
      offeredAtMilliseconds = ((s.noted metrics highest).invalidateSpan, none)) ∨
    ((∀ highest, s.highestFrameId = some highest → highest ≤ frameId) ∧
      s.reconciliationRequired = false ∧
      ∃ metrics result, Edited (s.noted metrics (some frameId)) frameId action context result ∧
        s.offerForFrameWithContextInner frameId action context offeredAtMilliseconds =
          (if result.2.isSome then result.1.noteDisplayed frameId action offeredAtMilliseconds
            else result.1, result.2)) := by
  unfold offerForFrameWithContextInner
  simp only
  split
  · exact .inl ⟨_, s.highestFrameId, rfl⟩
  next hframe =>
  split
  · exact .inr (.inl ⟨_, some frameId, rfl⟩)
  split
  · exact .inl ⟨_, some frameId, rfl⟩
  split
  · exact .inl ⟨_, some frameId, rfl⟩
  next hrequired =>
  split
  · exact .inr (.inl ⟨_, some frameId, rfl⟩)
  refine .inr (.inr ⟨fun highest hhighest => ?_, Bool.eq_false_iff.mpr hrequired,
    { s.metrics with offered := saturatingAdd s.metrics.offered 1 }, _,
    predict_edited _ frameId action context, ?_⟩)
  · by_contra hlt
    exact hframe (Option.any_eq_true _ _ |>.mpr
      ⟨highest, hhighest, decide_eq_true (Nat.not_le.mp hlt)⟩)
  · unfold noted
    split
    · rfl
    · rfl

/-! ## Idle overlays -/

/-- What holds whatever calls are made: an overlay that shows nothing predicts nothing, and where it
is anchored all the same, there is no room. -/
structure Tidy (s : PredictionOverlay) : Prop where
  required_active : s.reconciliationRequired = true → s.overlayActive = true
  predicted_nil : s.overlayActive = false → s.predictedAscii = []
  pending_nil : s.overlayActive = false → s.pending = []
  cursor_zero : s.overlayActive = false → s.cursorOffset = 0
  rollback_zero : s.overlayActive = false → s.rollbackCells = 0
  anchor_edge : s.overlayActive = false →
    ∀ anchor, s.lineContext = some anchor → anchor.atEdge 0 = true

variable {s : PredictionOverlay}

theorem tidy_new (display : PredictionDisplay) (overwrite : Bool) : (new display overwrite).Tidy where
  required_active := by
    intro h
    cases h
  predicted_nil := fun _ => rfl
  pending_nil := fun _ => rfl
  cursor_zero := fun _ => rfl
  rollback_zero := fun _ => rfl
  anchor_edge := by
    intro _ anchor h
    cases h

theorem tidy_of_active (h : s.overlayActive = true) : s.Tidy where
  required_active := fun _ => h
  predicted_nil := fun hidle => absurd hidle (by rw [h]; decide)
  pending_nil := fun hidle => absurd hidle (by rw [h]; decide)
  cursor_zero := fun hidle => absurd hidle (by rw [h]; decide)
  rollback_zero := fun hidle => absurd hidle (by rw [h]; decide)
  anchor_edge := fun hidle => absurd hidle (by rw [h]; decide)

theorem Tidy.noted (h : s.Tidy) (metrics : PredictionMetrics) (highest : Option Nat) :
    (s.noted metrics highest).Tidy := ⟨h.1, h.2, h.3, h.4, h.5, h.6⟩

theorem Tidy.invalidateSpan (h : s.Tidy) : s.invalidateSpan.Tidy where
  required_active := by
    intro hrequired
    rcases Bool.or_eq_true _ _ |>.mp hrequired with hrequired | hactive
    · exact h.required_active hrequired
    · exact hactive
  predicted_nil := fun _ => rfl
  pending_nil := fun _ => rfl
  cursor_zero := fun _ => rfl
  rollback_zero := h.rollback_zero
  anchor_edge := h.anchor_edge

theorem disagrees_self (context : PredictionContext) : context.disagrees context = false := by
  simp [PredictionContext.disagrees]

theorem Tidy.edited {frameId : Nat} {action : PredictionAction} {context : Option PredictionContext}
    {result : PredictionOverlay × Option Bytes} (h : s.Tidy)
    (hedit : Edited s frameId action context result) :
    result.1.Tidy ∧ (result.2.isSome = true → result.1.overlayActive = true) := by
  cases hedit with
  | refused => exact ⟨h, by intro hsome; cases hsome⟩
  | invalidated => exact ⟨h.invalidateSpan, by intro hsome; cases hsome⟩
  | @disagreed bytes c hbytes hcontext hcursor hrefused =>
    refine ⟨Tidy.invalidateSpan ⟨h.1, h.2, h.3, h.4, h.5, ?_⟩, by intro hsome; cases hsome⟩
    intro hidle anchor hanchor
    rw [hcontext] at hanchor
    cases hline : s.lineContext with
    | some old =>
      rw [hline] at hanchor
      exact h.anchor_edge hidle anchor (hline.trans hanchor)
    | none =>
      rw [hline] at hanchor
      obtain rfl : c = anchor := Option.some.inj hanchor
      by_contra hroom
      refine hrefused ⟨?_, ?_⟩
      · rw [hline]
        exact disagrees_self c
      · rw [hline, h.cursor_zero hidle]
        exact Bool.eq_false_iff.mpr hroom
  | printed => exact ⟨tidy_of_active rfl, fun _ => rfl⟩
  | erased => exact ⟨tidy_of_active rfl, fun _ => rfl⟩
  | movedLeft => exact ⟨tidy_of_active rfl, fun _ => rfl⟩
  | movedRight => exact ⟨tidy_of_active rfl, fun _ => rfl⟩

theorem Tidy.offered (h : s.Tidy) (frameId : Nat) (action : PredictionAction)
    (context : Option PredictionContext) (offeredAtMilliseconds : Option Nat) :
    (s.offerForFrameWithContextInner frameId action context offeredAtMilliseconds).1.Tidy := by
  rcases offered_cases s frameId action context offeredAtMilliseconds with
    ⟨metrics, highest, heq⟩ | ⟨metrics, highest, heq⟩ | ⟨-, -, metrics, result, hedit, heq⟩
  · rw [heq]
    exact h.noted metrics highest
  · rw [heq]
    exact (h.noted metrics highest).invalidateSpan
  · obtain ⟨htidy, hactive⟩ := (h.noted metrics (some frameId)).edited hedit
    rw [heq]
    simp only
    split
    · next hsome => exact tidy_of_active (hactive hsome)
    · exact htidy

theorem Tidy.expireStale (h : s.Tidy) (nowMilliseconds : Nat) :
    (s.expireStale nowMilliseconds).1.Tidy := by
  unfold PredictionOverlay.expireStale
  split
  · exact h
  split
  · exact h
  · exact h.invalidateSpan

theorem Tidy.acknowledge (h : s.Tidy) (acknowledgement : Nat) :
    (s.acknowledge acknowledgement).Tidy := by
  unfold PredictionOverlay.acknowledge
  split
  · exact h
  split
  · exact h
  · refine ⟨h.1, fun hidle => ?_, fun hidle => ?_, h.4, h.5, h.6⟩
    · rw [h.predicted_nil hidle]
      rfl
    · rw [h.pending_nil hidle]
      rfl

/-- What taking an overlay back leaves. -/
theorem takeReconciliation_cases (s : PredictionOverlay) :
    (s.overlayActive = false ∧ s.reconciliationRequired = false ∧
      s.takeReconciliation = (s, .none)) ∨
    ((s.overlayActive = true ∨ s.reconciliationRequired = true) ∧
      s.takeReconciliation.2 =
        (if s.overwrite then none else s.localReconciliation).elim .redraw .localEdit ∧
      s.takeReconciliation.1.Tidy ∧ s.takeReconciliation.1.lineContext = none ∧
      s.takeReconciliation.1.overlayActive = false ∧
      s.takeReconciliation.1.display = s.display ∧
      s.takeReconciliation.1.overwrite = s.overwrite) := by
  unfold takeReconciliation
  split
  · next hnone =>
    rw [Bool.and_eq_true, Bool.not_eq_true', Bool.not_eq_true'] at hnone
    exact .inl ⟨hnone.1, hnone.2, rfl⟩
  · next hsome =>
    refine .inr ⟨?_, rfl, ⟨(by intro h; cases h), fun _ => rfl, fun _ => rfl, fun _ => rfl,
      fun _ => rfl, (by intro _ _ h; cases h)⟩, rfl, rfl, rfl, rfl⟩
    by_contra hidle
    rw [not_or, Bool.not_eq_true, Bool.not_eq_true] at hidle
    rw [hidle.1, hidle.2] at hsome
    exact hsome rfl

theorem Tidy.takeReconciliation (h : s.Tidy) : s.takeReconciliation.1.Tidy := by
  rcases takeReconciliation_cases s with ⟨-, -, heq⟩ | ⟨-, -, htidy, -⟩
  · rw [heq]
    exact h
  · exact htidy

theorem Tidy.offer (h : s.Tidy) (kind : InputKind) (bytes : Bytes) : (s.offer kind bytes).1.Tidy := by
  unfold PredictionOverlay.offer
  split
  · exact h
  · exact h.offered _ _ _ _

theorem Tidy.step (h : s.Tidy) (call : Call) : (s.step call).1.Tidy := by
  cases call with
  | setRoundTripMilliseconds milliseconds => exact ⟨h.1, h.2, h.3, h.4, h.5, h.6⟩
  | offer kind bytes => exact h.offer kind bytes
  | offerForFrame frameId action => exact h.offered _ _ _ _
  | offerForFrameWithContext frameId action context => exact h.offered _ _ _ _
  | offerForFrameWithContextAt frameId action context offeredAt => exact h.offered _ _ _ _
  | expireStale nowMilliseconds => exact h.expireStale nowMilliseconds
  | takeReconciliation => exact h.takeReconciliation
  | reconcile => exact h.takeReconciliation
  | acknowledge acknowledgement => exact h.acknowledge acknowledgement

theorem tidy_final (display : PredictionDisplay) (overwrite : Bool) (calls : List Call) :
    ((machine display overwrite).final calls).Tidy :=
  (machine display overwrite).final_invariant (tidy_new display overwrite)
    (fun _ call h => h.step call) calls

/-! ## Settings -/

theorem Edited.settings {frameId : Nat} {action : PredictionAction}
    {context : Option PredictionContext} {result : PredictionOverlay × Option Bytes}
    (hedit : Edited s frameId action context result) :
    result.1.display = s.display ∧ result.1.overwrite = s.overwrite := by
  cases hedit with
  | refused => exact ⟨rfl, rfl⟩
  | invalidated => exact ⟨rfl, rfl⟩
  | disagreed => exact ⟨rfl, rfl⟩
  | printed => exact ⟨rfl, rfl⟩
  | erased => exact ⟨rfl, rfl⟩
  | movedLeft => exact ⟨rfl, rfl⟩
  | movedRight => exact ⟨rfl, rfl⟩

theorem offered_settings (s : PredictionOverlay) (frameId : Nat) (action : PredictionAction)
    (context : Option PredictionContext) (at? : Option Nat) :
    (s.offerForFrameWithContextInner frameId action context at?).1.display = s.display ∧
      (s.offerForFrameWithContextInner frameId action context at?).1.overwrite = s.overwrite := by
  rcases offered_cases s frameId action context at? with
    ⟨metrics, highest, heq⟩ | ⟨metrics, highest, heq⟩ | ⟨-, -, metrics, result, hedit, heq⟩
  · rw [heq]
    exact ⟨rfl, rfl⟩
  · rw [heq]
    exact ⟨rfl, rfl⟩
  · rw [heq]
    simp only
    split
    · exact hedit.settings
    · exact hedit.settings

/-- No call changes how predictions are displayed. -/
theorem step_settings (s : PredictionOverlay) (call : Call) :
    (s.step call).1.display = s.display ∧ (s.step call).1.overwrite = s.overwrite := by
  have htake : s.takeReconciliation.1.display = s.display ∧
      s.takeReconciliation.1.overwrite = s.overwrite := by
    rcases takeReconciliation_cases s with ⟨-, -, heq⟩ | ⟨-, -, -, -, -, hdisplay, hoverwrite⟩
    · rw [heq]
      exact ⟨rfl, rfl⟩
    · exact ⟨hdisplay, hoverwrite⟩
  cases call with
  | setRoundTripMilliseconds milliseconds => exact ⟨rfl, rfl⟩
  | offer kind bytes =>
    show (s.offer kind bytes).1.display = _ ∧ (s.offer kind bytes).1.overwrite = _
    unfold PredictionOverlay.offer
    split
    · exact ⟨rfl, rfl⟩
    · exact offered_settings s _ _ _ _
  | offerForFrame frameId action => exact offered_settings s _ _ _ _
  | offerForFrameWithContext frameId action context => exact offered_settings s _ _ _ _
  | offerForFrameWithContextAt frameId action context offeredAt => exact offered_settings s _ _ _ _
  | expireStale nowMilliseconds =>
    show (s.expireStale nowMilliseconds).1.display = _ ∧
      (s.expireStale nowMilliseconds).1.overwrite = _
    unfold PredictionOverlay.expireStale
    split
    · exact ⟨rfl, rfl⟩
    split
    · exact ⟨rfl, rfl⟩
    · exact ⟨rfl, rfl⟩
  | takeReconciliation => exact htake
  | reconcile => exact htake
  | acknowledge acknowledgement =>
    show (s.acknowledge acknowledgement).display = _ ∧ (s.acknowledge acknowledgement).overwrite = _
    unfold PredictionOverlay.acknowledge
    split
    · exact ⟨rfl, rfl⟩
    split
    · exact ⟨rfl, rfl⟩
    · exact ⟨rfl, rfl⟩

theorem settings_final (display : PredictionDisplay) (overwrite : Bool) (calls : List Call) :
    ((machine display overwrite).final calls).display = display ∧
      ((machine display overwrite).final calls).overwrite = overwrite := by
  refine (machine display overwrite).final_invariant
    (P := fun s => s.display = display ∧ s.overwrite = overwrite) ⟨rfl, rfl⟩ ?_ calls
  intro s call h
  exact ⟨(step_settings s call).1.trans h.1, (step_settings s call).2.trans h.2⟩

end PredictionOverlay

end OxideTerm.Predict
