import OxideTerm.Fernomade.Properties.Compaction

/-!
# Session controls in a diff

A diff between histories that extend one another carries every session control that is missing. A
screen diff carries none: the audit of diverged histories passes over session controls, and nothing
else puts them into the instructions.
-/

namespace OxideTerm.Fernomade

open OxideTerm.Lib

/-! ## Behind the longest common prefix -/

section CommonPrefix

variable {α : Type} [DecidableEq α]

/-- What is left of the first list behind the longest common prefix of the two. -/
def afterCommon : List α → List α → List α
  | [], _ => []
  | x :: xs, [] => x :: xs
  | x :: xs, y :: ys => if x = y then afterCommon xs ys else x :: xs

theorem afterCommon_append : ∀ xs more : List α, afterCommon (xs ++ more) xs = more
  | [], [] => rfl
  | [], _ :: _ => rfl
  | x :: xs, more => by
    rw [List.cons_append, afterCommon, if_pos rfl]
    exact afterCommon_append xs more

end CommonPrefix

/-! ## Controls -/

/-- The session controls among some effects. -/
def effectControls (effects : List HostEffect) : List SessionControl :=
  effects.filterMap fun
    | .control control => some control
    | _ => none

/-- The session controls of some instructions. -/
def instructionControls (instructions : List Instruction) : List SessionControl :=
  instructions.filterMap Instruction.sessionControl

theorem effectControls_append (xs ys : List HostEffect) :
    effectControls (xs ++ ys) = effectControls xs ++ effectControls ys := List.filterMap_append

theorem effectControls_map_byte (bytes : Bytes) : effectControls (bytes.map .byte) = [] := by
  rw [effectControls, List.filterMap_map]
  exact List.filterMap_eq_nil_iff.mpr fun _ _ => rfl

theorem effectControls_instruction (i : Instruction) :
    effectControls i.effects = i.sessionControl.toList := by
  unfold Instruction.effects
  rw [effectControls_append, effectControls_append, effectControls_map_byte]
  cases i.viewport <;> cases i.sessionControl <;> rfl

theorem effectControls_instructions : ∀ is : List Instruction,
    effectControls (instructionEffects is) = instructionControls is
  | [] => rfl
  | i :: rest => by
    rw [instructionEffects_cons, effectControls_append, effectControls_instruction,
      effectControls_instructions rest, instructionControls, instructionControls]
    cases h : i.sessionControl with
    | none => rw [List.filterMap_cons_none h]; rfl
    | some control => rw [List.filterMap_cons_some h]; rfl

namespace RemoteTerminalState

variable {T : Vt100} {E : Vte} {s delivered : RemoteTerminalState T}

/-- The controls that the delivered state does not share. -/
def missingControls (s delivered : RemoteTerminalState T) : List SessionControl :=
  effectControls
    (afterCommon (effectsOf s.history.operations) (effectsOf delivered.history.operations))

/-- The history of the delivered state is the beginning of the history of the target. -/
def Extends (s delivered : RemoteTerminalState T) : Prop :=
  effectsOf delivered.history.operations <+: effectsOf s.history.operations

theorem controls_of_extends (hs : Reachable E s) (hd : Reachable E delivered)
    (hextends : s.Extends delivered) {diff : InstructionBatch}
    (h : s.diffFrom E delivered = .ok diff) :
    instructionControls diff.instructions = s.missingControls delivered := by
  obtain ⟨diff', hdiff, heffects⟩ := diffFrom_of_extends E hs.noEmptyBytes hd.noEmptyBytes hextends
  obtain rfl : diff' = diff := Except.ok.inj (hdiff.symm.trans h)
  rw [missingControls, heffects, afterCommon_append, effectControls_instructions]

theorem controls_of_diverged (hdiverged : ¬ s.Extends delivered) {diff : InstructionBatch}
    (h : s.diffFrom E delivered = .ok diff) : instructionControls diff.instructions = [] := by
  have hmarker (value : UInt64) : (markerInstruction value).sessionControl = none := rfl
  unfold diffFrom at h
  dsimp only at h
  cases hstart : historySuffixStart s.history.canonicalOperations
      delivered.history.canonicalOperations with
  | ok r =>
    obtain ⟨start, offset⟩ := r
    have heffects := historySuffixStart_ok hstart
    rw [effectsOf_canonicalOperations, effectsOf_canonicalOperations] at heffects
    exact absurd ⟨_, heffects.symm⟩ hdiverged
  | error e =>
    obtain rfl := historySuffixStartFrom_error hstart
    rw [hstart] at h
    dsimp only at h
    split at h
    · exact nomatch h
    · next instructions hinstructions =>
      split at hinstructions
      · -- A screen diff is host bytes, and a marker may stand before them.
        have hscreen : instructionControls instructions = [] := by
          obtain rfl := Except.ok.inj hinstructions
          split <;> rfl
        obtain rfl := Except.ok.inj h
        show instructionControls (_ ++ instructions) = []
        rw [instructionControls, List.filterMap_append]
        rw [instructionControls] at hscreen
        rw [hscreen, List.append_nil]
        split
        · split
          · rfl
          · rfl
        · rfl
      · exact nomatch hinstructions

/--
**A diff loses no session control if and only if the target extends the delivered state, or has no
session control behind what they share.**
-/
theorem diff_carries_controls_iff (hs : Reachable E s) (hd : Reachable E delivered)
    {diff : InstructionBatch} (h : s.diffFrom E delivered = .ok diff) :
    (s.missingControls delivered).Sublist (instructionControls diff.instructions) ↔
      s.Extends delivered ∨ s.missingControls delivered = [] := by
  by_cases hextends : s.Extends delivered
  · rw [controls_of_extends hs hd hextends h]
    exact ⟨fun _ => .inl hextends, fun _ => List.Sublist.refl _⟩
  · rw [controls_of_diverged hextends h, List.sublist_nil]
    exact ⟨.inr, fun h => h.resolve_left hextends⟩

/-- The target is `x` and a session control, the delivered state is `y`. -/
def controlState : RemoteTerminalState Reference.vt100 :=
  ((create 80 24 : RemoteTerminalState Reference.vt100).apply Reference.vte
    { instructions := [hostBytesInstruction [120], sessionControlInstruction ⟨1, []⟩] }).1

def plainState : RemoteTerminalState Reference.vt100 :=
  ((create 80 24 : RemoteTerminalState Reference.vt100).apply Reference.vte
    { instructions := [hostBytesInstruction [121]] }).1

theorem diff_carries_controls_iff_same :
    (plainState.missingControls plainState).Sublist (instructionControls []) ↔
      plainState.Extends plainState ∨ plainState.missingControls plainState = [] :=
  diff_carries_controls_iff
    (E := Reference.vte) (.apply _ (.new (show RemoteTerminalState.new 80 24 = .ok _ from rfl)))
    (.apply _ (.new (show RemoteTerminalState.new 80 24 = .ok _ from rfl)))
    (show plainState.diffFrom Reference.vte plainState = .ok { instructions := [] } from by
      decide +kernel)

/-- A screen diff drops the session control. -/
theorem screen_diff_drops_control :
    Reachable Reference.vte controlState ∧ Reachable Reference.vte plainState ∧
      controlState.diffFrom Reference.vte plainState =
        .ok { instructions := [hostBytesInstruction [120]] } ∧
      ¬ (controlState.missingControls plainState).Sublist
        (instructionControls [hostBytesInstruction [120]]) :=
  ⟨.apply _ (.new (show RemoteTerminalState.new 80 24 = .ok _ from rfl)),
    .apply _ (.new (show RemoteTerminalState.new 80 24 = .ok _ from rfl)), by decide +kernel,
    by decide +kernel⟩

end RemoteTerminalState

end OxideTerm.Fernomade
