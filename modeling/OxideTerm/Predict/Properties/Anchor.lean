import OxideTerm.Predict.Edits

/-!
# Anchors that are left behind

A printable character anchors an idle overlay to the line before it is known whether there is room
for it. At the edge of the line it is refused, and nothing takes the anchor away again: whatever is
offered with another context disagrees with it.
-/

namespace OxideTerm.Predict

open OxideTerm.Lib

namespace PredictionOverlay

variable {s : PredictionOverlay}

/-- Frames do not go back. -/
def FrameFollows (s : PredictionOverlay) (frameId : Nat) : Prop :=
  ∀ highest, s.highestFrameId = some highest → highest ≤ frameId

/-- An idle overlay takes every printable character for which there is room. -/
def NeverStuck (s : PredictionOverlay) : Prop :=
  s.overlayActive = false → s.reconciliationRequired = false →
    ∀ (frameId : Nat) (byte : UInt8) (context : PredictionContext) (offeredAt : Option Nat),
      isGraphicOrSpace byte = true → s.FrameFollows frameId →
      context.column.toNat < context.columns.toNat - 1 →
      (s.offerForFrameWithContextInner frameId (.printableAscii byte) (some context)
        offeredAt).2.isSome = true

/-- The frame, the action and the context that are offered. -/
def offeredBy : Call → Option (Nat × PredictionAction × PredictionContext)
  | .offerForFrameWithContext frameId action (some context) => some (frameId, action, context)
  | .offerForFrameWithContextAt frameId action (some context) _ => some (frameId, action, context)
  | _ => none

/-- A printable character is offered to an idle overlay at the edge of the line. -/
def OfferedAtEdge (s : PredictionOverlay) (call : Call) : Prop :=
  ∃ frameId action context bytes, offeredBy call = some (frameId, action, context) ∧
    action.printed = some bytes ∧ s.FrameFollows frameId ∧ s.overlayActive = false ∧
    context.columns.toNat - 1 ≤ context.column.toNat

theorem saturatingAdd_zero (n : UInt16) : saturatingAdd n.toNat 0 = n.toNat := by
  have hlt := n.toNat_lt
  rw [saturatingAdd]
  omega

theorem atEdge_zero {context : PredictionContext} :
    context.atEdge 0 = true ↔ context.columns.toNat - 1 ≤ context.column.toNat := by
  rw [PredictionContext.atEdge, saturatingAdd_zero, decide_eq_true_eq]

/-! ## An idle overlay -/

theorem printed_ne_barrier {action : PredictionAction} {bytes : Bytes}
    (h : action.printed = some bytes) : action ≠ .barrier := by
  rintro rfl
  cases h

theorem predict_of_printed {frameId : Nat} {action : PredictionAction} {bytes : Bytes}
    (h : action.printed = some bytes) (context : Option PredictionContext) :
    s.predict frameId action context = s.predictPrintable frameId bytes context := by
  cases action with
  | printableAscii byte =>
    unfold PredictionAction.printed at h
    unfold predict
    simp only at h ⊢
    split at h
    · next hprintable =>
      obtain rfl := Option.some.inj h
      rw [if_pos hprintable]
    · cases h
  | printableUtf8 character =>
    unfold PredictionAction.printed at h
    unfold predict
    simp only at h ⊢
    split at h
    · cases h
    · next hprintable =>
      obtain rfl := Option.some.inj h
      rw [if_neg hprintable]
  | backspace => cases h
  | left => cases h
  | right => cases h
  | barrier => cases h

/-- A printable character that reaches the line. -/
theorem offered_printable {frameId : Nat} {action : PredictionAction} {bytes : Bytes}
    (hbytes : action.printed = some bytes) (hframe : s.FrameFollows frameId)
    (hdisplay : s.displayEnabled = true) (hrequired : s.reconciliationRequired = false)
    (hpending : s.pending = []) (hpredicted : s.predictedAscii = [])
    (context : Option PredictionContext) (offeredAt : Option Nat) :
    ∃ metrics, s.offerForFrameWithContextInner frameId action context offeredAt =
      (if ((s.noted metrics (some frameId)).predictPrintable frameId bytes context).2.isSome then
          ((s.noted metrics (some frameId)).predictPrintable frameId bytes context).1.noteDisplayed
            frameId action offeredAt
        else ((s.noted metrics (some frameId)).predictPrintable frameId bytes context).1,
        ((s.noted metrics (some frameId)).predictPrintable frameId bytes context).2) := by
  refine ⟨{ s.metrics with offered := saturatingAdd s.metrics.offered 1 }, ?_⟩
  have hfollows : s.highestFrameId.any (fun highest => decide (frameId < highest)) = false := by
    rw [Option.any_eq_false]
    intro highest hhighest
    exact decide_eq_false (Nat.not_lt.mpr (hframe highest hhighest))
  have hroom : ¬ (maximumPendingPredictions ≤ s.pending.length ∨
      maximumPendingPredictions ≤ s.predictedAscii.length) := by
    rw [hpending, hpredicted]
    decide
  unfold offerForFrameWithContextInner
  simp only
  rw [if_neg (Bool.eq_false_iff.mp hfollows), if_neg (printed_ne_barrier hbytes),
    if_neg (by
      rw [show ({ s with
        metrics := { s.metrics with offered := saturatingAdd s.metrics.offered 1 }
        highestFrameId := some frameId } : PredictionOverlay).displayEnabled = true from hdisplay]
      decide), if_neg (Bool.eq_false_iff.mp hrequired), if_neg hroom, predict_of_printed hbytes]
  unfold noted
  split
  · rfl
  · rfl

/-- **What an idle overlay answers** depends on its anchor only. -/
theorem idle_offered (htidy : s.Tidy) (hdisplay : s.display = .always)
    (hidle : s.overlayActive = false) {frameId : Nat} {action : PredictionAction} {bytes : Bytes}
    (hbytes : action.printed = some bytes) (hframe : s.FrameFollows frameId)
    (context : PredictionContext) (offeredAt : Option Nat) :
    (s.Agrees context ∧ (s.offerForFrameWithContextInner frameId action (some context)
      offeredAt).2.isSome = true) ∨
    (¬ s.Agrees context ∧
      (s.offerForFrameWithContextInner frameId action (some context) offeredAt).2 = none ∧
      (s.offerForFrameWithContextInner frameId action (some context)
        offeredAt).1.overlayActive = false ∧
      (s.offerForFrameWithContextInner frameId action (some context) offeredAt).1.lineContext =
        some (s.lineContext.getD context)) := by
  have henabled : s.displayEnabled = true := by
    rw [displayEnabled, hdisplay]
  have hrequired : s.reconciliationRequired = false := by
    by_contra hrequired
    rw [htidy.required_active (Bool.not_eq_false _ |>.mp hrequired)] at hidle
    cases hidle
  obtain ⟨metrics, heq⟩ := offered_printable hbytes hframe henabled hrequired
    (htidy.pending_nil hidle) (htidy.predicted_nil hidle) (some context) offeredAt
  have hcursor : (s.noted metrics (some frameId)).cursorOffset =
      (s.noted metrics (some frameId)).predictedAscii.length := by
    show s.cursorOffset = s.predictedAscii.length
    rw [htidy.cursor_zero hidle, htidy.predicted_nil hidle, List.length_nil]
  rw [heq]
  by_cases hagrees : s.Agrees context
  · refine .inl ⟨hagrees, ?_⟩
    have hprinted : (s.noted metrics (some frameId)).predictPrintable frameId bytes (some context) =
        ({ s.noted metrics (some frameId) with lineContext := some (s.lineContext.getD context) } :
          PredictionOverlay).pushPrintable frameId bytes (some context) := by
      unfold predictPrintable
      rw [if_neg (not_not.mpr hcursor)]
      refine if_neg ?_
      rw [Bool.not_eq_true, Bool.or_eq_false_iff]
      exact hagrees
    rw [hprinted]
    rfl
  · refine .inr ⟨hagrees, ?_⟩
    have hrefused : (s.noted metrics (some frameId)).predictPrintable frameId bytes (some context) =
        (({ s.noted metrics (some frameId) with lineContext := some (s.lineContext.getD context) } :
          PredictionOverlay).invalidateSpan, none) := by
      unfold predictPrintable
      rw [if_neg (not_not.mpr hcursor)]
      refine if_pos ?_
      by_contra hboth
      rw [Bool.not_eq_true, Bool.or_eq_false_iff] at hboth
      exact hagrees hboth
    rw [hrefused]
    exact ⟨rfl, hidle, rfl⟩

/-! ## Stuck -/

theorem agrees_of_unanchored (htidy : s.Tidy) (hidle : s.overlayActive = false)
    (hline : s.lineContext = none) (context : PredictionContext) :
    s.Agrees context ↔ context.column.toNat < context.columns.toNat - 1 := by
  rw [Agrees, hline, htidy.cursor_zero hidle, ← Nat.not_le, ← atEdge_zero, Bool.not_eq_true]
  exact and_iff_right (disagrees_self context)

/-- **Without an anchor an idle overlay is not stuck.** -/
theorem neverStuck_of_unanchored (htidy : s.Tidy) (hdisplay : s.display = .always)
    (hline : s.overlayActive = false → s.lineContext = none) : s.NeverStuck := by
  intro hidle _ frameId byte context offeredAt hbyte hframe hroom
  have hbytes : (PredictionAction.printableAscii byte).printed = some [byte] := if_pos hbyte
  rcases idle_offered htidy hdisplay hidle hbytes hframe context offeredAt with
    ⟨-, hsome⟩ | ⟨hrefused, -⟩
  · exact hsome
  · exact absurd ((agrees_of_unanchored htidy hidle (hline hidle) context).mpr hroom) hrefused

/-- **An anchor that is left behind** refuses all other contexts. -/
theorem stuck_of_anchored (htidy : s.Tidy) (hdisplay : s.display = .always)
    (hidle : s.overlayActive = false) {anchor : PredictionContext}
    (hline : s.lineContext = some anchor) : ¬ s.NeverStuck := by
  intro hfree
  have hrequired : s.reconciliationRequired = false := by
    by_contra hrequired
    rw [htidy.required_active (Bool.not_eq_false _ |>.mp hrequired)] at hidle
    cases hidle
  have hframe : s.FrameFollows (s.highestFrameId.getD 0) := by
    intro highest hhighest
    rw [hhighest, Option.getD_some]
  have hbytes : (PredictionAction.printableAscii 97).printed = some [97] := by decide
  have hsome := hfree hidle hrequired (s.highestFrameId.getD 0) 97
    { row := 0, column := 0, columns := 2, attributes := [], cursorState := [] } none (by decide)
    hframe (by decide)
  rcases idle_offered htidy hdisplay hidle hbytes hframe
    { row := 0, column := 0, columns := 2, attributes := [], cursorState := [] } none with
    ⟨hagrees, -⟩ | ⟨-, hnone, -⟩
  · obtain ⟨hsame, -⟩ := hagrees
    rw [hline, Option.getD_some, PredictionContext.disagrees, Bool.or_eq_false_iff,
      Bool.or_eq_false_iff, decide_eq_false_iff_not, decide_eq_false_iff_not,
      decide_eq_false_iff_not, not_not, not_not, not_not] at hsame
    obtain ⟨⟨-, hcolumn⟩, hcolumns⟩ := hsame
    have hedge := atEdge_zero.mp (htidy.anchor_edge hidle anchor hline)
    rw [hcolumn, hcolumns] at hedge
    exact absurd hedge (by decide)
  · rw [hnone] at hsome
    cases hsome

/-! ## Where the anchor comes from -/

/-- An idle overlay has no anchor. -/
def Unanchored (s : PredictionOverlay) : Prop := s.overlayActive = false → s.lineContext = none

theorem Unanchored.offered (htidy : s.Tidy) (h : s.Unanchored) {frameId : Nat}
    {action : PredictionAction} {context : Option PredictionContext} (offeredAt : Option Nat)
    (hroom : ∀ c bytes, context = some c → action.printed = some bytes → s.FrameFollows frameId →
      s.overlayActive = false → c.column.toNat < c.columns.toNat - 1) :
    (s.offerForFrameWithContextInner frameId action context offeredAt).1.Unanchored := by
  rcases offered_cases s frameId action context offeredAt with
    ⟨metrics, highest, heq⟩ | ⟨metrics, highest, heq⟩ | ⟨hframe, -, metrics, result, hedit, heq⟩
  · rw [heq]
    exact h
  · rw [heq]
    exact h
  rw [heq]
  simp only
  split
  · next hsome =>
    intro hidle
    have hactive := ((htidy.noted metrics (some frameId)).edited hedit).2 hsome
    exact absurd (hactive.symm.trans hidle) (by decide)
  · next hnone =>
    cases hedit with
    | refused => exact h
    | invalidated => exact h
    | @disagreed bytes c hbytes hcontext hcursor hrefused =>
      intro hidle
      have hidle' : s.overlayActive = false := hidle
      refine absurd ?_ hrefused
      exact (agrees_of_unanchored (htidy.noted metrics (some frameId)) hidle (h hidle') c).mpr
        (hroom c bytes hcontext hbytes hframe hidle')
    | printed => exact absurd rfl hnone
    | erased => exact absurd rfl hnone
    | movedLeft => exact absurd rfl hnone
    | movedRight => exact absurd rfl hnone

theorem Unanchored.step (htidy : s.Tidy) (h : s.Unanchored) {call : Call}
    (hcall : ¬ s.OfferedAtEdge call) : (s.step call).1.Unanchored := by
  have htake : s.takeReconciliation.1.Unanchored := by
    rcases takeReconciliation_cases s with ⟨-, -, heq⟩ | ⟨-, -, -, hline, -⟩
    · rw [heq]
      exact h
    · exact fun _ => hline
  have hroom : ∀ {frameId : Nat} {action : PredictionAction} {context : PredictionContext},
      offeredBy call = some (frameId, action, context) → ∀ c bytes, some context = some c →
      action.printed = some bytes → s.FrameFollows frameId → s.overlayActive = false →
      c.column.toNat < c.columns.toNat - 1 := by
    intro frameId action context hoffered c bytes hc hbytes hframe hidle
    obtain rfl := Option.some.inj hc
    by_contra hedge
    exact hcall ⟨frameId, action, context, bytes, hoffered, hbytes, hframe, hidle,
      Nat.not_lt.mp hedge⟩
  cases call with
  | setRoundTripMilliseconds milliseconds => exact h
  | offer kind bytes =>
    show (s.offer kind bytes).1.Unanchored
    unfold PredictionOverlay.offer
    split
    · exact h
    · exact h.offered htidy none fun c bytes hc => by cases hc
  | offerForFrame frameId action => exact h.offered htidy none fun c bytes hc => by cases hc
  | offerForFrameWithContext frameId action context =>
    cases context with
    | none => exact h.offered htidy none fun c bytes hc => by cases hc
    | some context => exact h.offered htidy none (hroom rfl)
  | offerForFrameWithContextAt frameId action context offeredAt =>
    cases context with
    | none => exact h.offered htidy (some offeredAt) fun c bytes hc => by cases hc
    | some context => exact h.offered htidy (some offeredAt) (hroom rfl)
  | expireStale nowMilliseconds =>
    show (s.expireStale nowMilliseconds).1.Unanchored
    unfold PredictionOverlay.expireStale
    split
    · exact h
    split
    · exact h
    · exact h
  | takeReconciliation => exact htake
  | reconcile => exact htake
  | acknowledge acknowledgement =>
    show (s.acknowledge acknowledgement).Unanchored
    unfold PredictionOverlay.acknowledge
    split
    · exact h
    split
    · exact h
    · exact h

/-- A printable character at the edge leaves its anchor. -/
theorem anchored_of_offeredAtEdge (htidy : s.Tidy) (hdisplay : s.display = .always) {call : Call}
    (hcall : s.OfferedAtEdge call) :
    (s.step call).1.overlayActive = false ∧ ∃ anchor, (s.step call).1.lineContext = some anchor := by
  obtain ⟨frameId, action, context, bytes, hoffered, hbytes, hframe, hidle, hedge⟩ := hcall
  have hrefused : ¬ s.Agrees context := by
    rintro ⟨-, hroom⟩
    rw [htidy.cursor_zero hidle, Bool.eq_false_iff] at hroom
    cases hline : s.lineContext with
    | none =>
      rw [hline, Option.getD_none] at hroom
      exact hroom (atEdge_zero.mpr hedge)
    | some anchor =>
      rw [hline, Option.getD_some] at hroom
      exact hroom (htidy.anchor_edge hidle anchor hline)
  have hleft : ∀ offeredAt, (s.offerForFrameWithContextInner frameId action (some context)
      offeredAt).1.overlayActive = false ∧ ∃ anchor, (s.offerForFrameWithContextInner frameId action
        (some context) offeredAt).1.lineContext = some anchor := by
    intro offeredAt
    rcases idle_offered htidy hdisplay hidle hbytes hframe context offeredAt with
      ⟨hagrees, -⟩ | ⟨-, -, hidle', hline⟩
    · exact absurd hagrees hrefused
    · exact ⟨hidle', _, hline⟩
  cases call with
  | offerForFrameWithContext frameId' action' context' =>
    cases context' with
    | none => cases hoffered
    | some context' =>
      cases hoffered
      exact hleft none
  | offerForFrameWithContextAt frameId' action' context' offeredAt =>
    cases context' with
    | none => cases hoffered
    | some context' =>
      cases hoffered
      exact hleft (some offeredAt)
  | setRoundTripMilliseconds => cases hoffered
  | offer => cases hoffered
  | offerForFrame => cases hoffered
  | expireStale => cases hoffered
  | takeReconciliation => cases hoffered
  | reconcile => cases hoffered
  | acknowledge => cases hoffered

/-- **Prediction never gets stuck iff no printable character is offered to an idle overlay at the
edge of the line.** -/
theorem never_stuck_iff (overwrite : Bool) (calls : List Call) :
    (∀ pre post, calls = pre ++ post → ((machine .always overwrite).final pre).NeverStuck) ↔
      (machine .always overwrite).Along (fun s call => ¬ s.OfferedAtEdge call) calls := by
  constructor
  · rintro hfree pre call post rfl hedge
    have htidy := tidy_final .always overwrite pre
    have hdisplay := (settings_final .always overwrite pre).1
    obtain ⟨hidle, anchor, hline⟩ := anchored_of_offeredAtEdge htidy hdisplay hedge
    have hstuck := stuck_of_anchored (htidy.step call)
      ((step_settings _ call).1.trans hdisplay) hidle hline
    have hnext := hfree (pre ++ [call]) post (by rw [List.append_assoc, List.singleton_append])
    rw [(machine .always overwrite).final_snoc pre call] at hnext
    exact hstuck hnext
  · rintro halong pre post rfl
    have hpre := (machine .always overwrite).along_append halong
    have hline : ((machine .always overwrite).final pre).Tidy ∧
        ((machine .always overwrite).final pre).Unanchored := by
      refine (machine .always overwrite).run_invariant_along
        (P := fun s _ => s.Tidy ∧ s.Unanchored) ⟨tidy_new .always overwrite, fun _ => rfl⟩ ?_ hpre
      intro s _ call h hcall
      exact ⟨h.1.step call, h.2.step h.1 hcall⟩
    exact neverStuck_of_unanchored hline.1 (settings_final .always overwrite pre).1 hline.2

/-- A line of 80 columns, with the cursor in the last one. -/
def lastColumn : PredictionContext where
  row := 0
  column := 79
  columns := 80
  attributes := []
  cursorState := []

theorem stuck_after_last_column : ¬ ∀ calls : List Call,
    ((machine .always false).final calls).NeverStuck := by
  intro hfree
  have htidy := tidy_final .always false [.offerForFrameWithContext 1 (.printableAscii 97)
    (some lastColumn)]
  exact stuck_of_anchored htidy (by decide +kernel) (by decide +kernel)
    (show _ = some lastColumn by decide +kernel) (hfree _)

end PredictionOverlay

end OxideTerm.Predict
