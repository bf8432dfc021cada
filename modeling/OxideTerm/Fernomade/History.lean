import Mathlib.Data.List.Infix
import Mathlib.Data.List.Chain
import OxideTerm.Fernomade.State

/-!
# Histories as sequences of effects

How host bytes are cut into operations means nothing to a host. `effectsOf` reads a history as
single bytes, resizes and session controls. Canonical histories are told apart by their
effects, so `historySuffixStart` is a prefix test on them and the instructions it leads to are
exactly the effects that are missing (`historySuffixStart_of_prefix`).
-/

namespace OxideTerm.Fernomade

open OxideTerm.Lib

/-- What a host can be shown. -/
inductive HostEffect where
  | byte (b : UInt8)
  | resize (columns rows : UInt16)
  | control (control : SessionControl)
deriving DecidableEq

def StateOperation.effects : StateOperation → List HostEffect
  | .hostBytes bytes => bytes.map .byte
  | .resize columns rows => [.resize columns rows]
  | .sessionControl control => [.control control]

def effectsOf (operations : List StateOperation) : List HostEffect :=
  operations.flatMap StateOperation.effects

@[simp] theorem effectsOf_nil : effectsOf [] = [] := rfl

@[simp] theorem effectsOf_cons (operation : StateOperation) (rest : List StateOperation) :
    effectsOf (operation :: rest) = operation.effects ++ effectsOf rest := List.flatMap_cons

@[simp] theorem effectsOf_append (xs ys : List StateOperation) :
    effectsOf (xs ++ ys) = effectsOf xs ++ effectsOf ys := List.flatMap_append

@[simp] theorem effectsOf_hostBytesOperation (bytes : Bytes) :
    effectsOf (hostBytesOperation bytes) = bytes.map .byte := by
  unfold hostBytesOperation
  split <;> simp_all [StateOperation.effects]

def StateOperation.isHostBytes : StateOperation → Bool
  | .hostBytes _ => true
  | _ => false

theorem StateOperation.isHostBytes_iff {operation : StateOperation} :
    operation.isHostBytes = true ↔ ∃ bytes, operation = .hostBytes bytes := by
  cases operation <;> simp [isHostBytes]

def HostEffect.isByte : HostEffect → Bool
  | .byte _ => true
  | _ => false

/-! ## Canonical histories -/

/-- No operation of the history is an empty run of bytes. -/
def NoEmptyBytes (operations : List StateOperation) : Prop :=
  StateOperation.hostBytes [] ∉ operations

/-- No empty runs of bytes, and no two runs side by side. -/
structure IsCanonical (operations : List StateOperation) : Prop where
  noEmptyBytes : NoEmptyBytes operations
  separated : operations.IsChain fun a b => ¬ (a.isHostBytes = true ∧ b.isHostBytes = true)

theorem IsCanonical.tail {operation : StateOperation} {rest : List StateOperation}
    (h : IsCanonical (operation :: rest)) : IsCanonical rest where
  noEmptyBytes hmem := h.noEmptyBytes (List.mem_cons_of_mem _ hmem)
  separated := h.separated.tail

theorem IsCanonical.bytes_ne_nil {bytes : Bytes} {rest : List StateOperation}
    (h : IsCanonical (.hostBytes bytes :: rest)) : bytes ≠ [] := by
  rintro rfl
  exact h.noEmptyBytes List.mem_cons_self

/-- After a run of bytes, a canonical history goes on with something else, or not at all. -/
theorem IsCanonical.rest_cases {bytes : Bytes} {rest : List StateOperation}
    (h : IsCanonical (.hostBytes bytes :: rest)) :
    rest = [] ∨ ∃ e more, effectsOf rest = e :: more ∧ e.isByte = false := by
  cases rest with
  | nil => exact Or.inl rfl
  | cons next more =>
    have hsep := (List.isChain_cons_cons.mp h.separated).1
    cases next with
    | hostBytes b => simp [StateOperation.isHostBytes] at hsep
    | resize c r => exact Or.inr ⟨_, _, rfl, rfl⟩
    | sessionControl c => exact Or.inr ⟨_, _, rfl, rfl⟩

theorem IsCanonical.nil : IsCanonical [] := ⟨by simp [NoEmptyBytes], List.isChain_nil⟩

open StateHistory (canonicalPush)

@[simp] theorem effectsOf_canonicalPush (canonical : List StateOperation)
    (operation : StateOperation) :
    effectsOf (canonicalPush canonical operation) = effectsOf canonical ++ operation.effects := by
  unfold StateHistory.canonicalPush
  split
  · next previous bytes hlast =>
    have hsplit := List.dropLast_append_getLast? _ hlast
    conv_rhs => rw [← hsplit]
    simp [StateOperation.effects]
  · simp

theorem effectsOf_foldl_canonicalPush : ∀ (operations canonical : List StateOperation),
    effectsOf (operations.foldl canonicalPush canonical) =
      effectsOf canonical ++ effectsOf operations
  | [], canonical => by simp
  | operation :: rest, canonical => by
    rw [List.foldl_cons, effectsOf_foldl_canonicalPush rest]
    simp

/-- **Canonical operations have the effects of the history.** -/
@[simp] theorem effectsOf_canonicalOperations (history : StateHistory) :
    effectsOf history.canonicalOperations = effectsOf history.operations := by
  rw [StateHistory.canonicalOperations, effectsOf_foldl_canonicalPush]
  simp

theorem IsCanonical.push {canonical : List StateOperation} {operation : StateOperation}
    (h : IsCanonical canonical) (hop : operation ≠ .hostBytes []) :
    IsCanonical (canonicalPush canonical operation) := by
  unfold StateHistory.canonicalPush
  split
  · next previous bytes hlast =>
    have hsplit := List.dropLast_append_getLast? _ hlast
    have hchain := h.separated
    rw [← hsplit, List.isChain_append] at hchain
    refine ⟨?_, ?_⟩
    · intro hmem
      rcases List.mem_append.mp hmem with hm | hm
      · exact h.noEmptyBytes (List.dropLast_subset _ hm)
      · have hnil := StateOperation.hostBytes.inj (List.mem_singleton.mp hm)
        have hbytes : bytes = [] := (List.append_eq_nil_iff.mp hnil.symm).2
        exact hop (by rw [hbytes])
    · rw [List.isChain_append]
      refine ⟨hchain.1, List.isChain_singleton _, ?_⟩
      intro x hx y hy
      have := hchain.2.2 x hx (.hostBytes previous) (by simp)
      simp only [List.head?_cons, Option.mem_def, Option.some.injEq] at hy
      subst hy
      simpa [StateOperation.isHostBytes] using this
  · next hnot =>
    refine ⟨?_, ?_⟩
    · intro hmem
      rcases List.mem_append.mp hmem with hm | hm
      · exact h.noEmptyBytes hm
      · exact hop (List.mem_singleton.mp hm).symm
    · rw [List.isChain_append]
      refine ⟨h.separated, List.isChain_singleton _, ?_⟩
      rintro x hx y hy ⟨hxb, hyb⟩
      simp only [List.head?_cons, Option.mem_def, Option.some.injEq] at hy
      subst hy
      obtain ⟨p, rfl⟩ := StateOperation.isHostBytes_iff.mp hxb
      obtain ⟨b, hb⟩ := StateOperation.isHostBytes_iff.mp hyb
      exact hnot p b hx hb

theorem IsCanonical.foldl : ∀ {operations canonical : List StateOperation},
    IsCanonical canonical → NoEmptyBytes operations →
    IsCanonical (operations.foldl canonicalPush canonical)
  | [], _, h, _ => h
  | operation :: rest, canonical, h, hne => by
    rw [List.foldl_cons]
    refine IsCanonical.foldl (h.push ?_) ?_
    · rintro rfl
      exact hne List.mem_cons_self
    · exact fun hm => hne (List.mem_cons_of_mem _ hm)

theorem isCanonical_canonicalOperations {history : StateHistory}
    (h : NoEmptyBytes history.operations) : IsCanonical history.canonicalOperations :=
  IsCanonical.nil.foldl h

/-! ## Reading instructions -/

def viewportEffects : Option ViewportSize → List HostEffect
  | none => []
  | some viewport => [.resize (UInt16.ofNat viewport.columns.toNat) (UInt16.ofNat viewport.rows.toNat)]

/-- What an instruction says, in the order in which it is applied. -/
def Instruction.effects (i : Instruction) : List HostEffect :=
  ((i.bytes.map ByteRun.value).getD []).map .byte ++ viewportEffects i.viewport ++
    (i.sessionControl.map HostEffect.control).toList

def instructionEffects (instructions : List Instruction) : List HostEffect :=
  instructions.flatMap Instruction.effects

@[simp] theorem instructionEffects_nil : instructionEffects [] = [] := rfl

@[simp] theorem instructionEffects_cons (i : Instruction) (rest : List Instruction) :
    instructionEffects (i :: rest) = i.effects ++ instructionEffects rest := List.flatMap_cons

@[simp] theorem instructionEffects_append (xs ys : List Instruction) :
    instructionEffects (xs ++ ys) = instructionEffects xs ++ instructionEffects ys :=
  List.flatMap_append

@[simp] theorem effects_markerInstruction (value : UInt64) :
    (markerInstruction value).effects = [] := rfl

theorem effects_suffixInstruction (offset : Nat) (operation : StateOperation) :
    instructionEffects (suffixInstruction offset operation).toList =
      match operation with
      | .hostBytes value => (value.drop offset).map .byte
      | operation => operation.effects := by
  cases operation with
  | hostBytes value =>
    by_cases h : value.drop offset = []
    · simp [suffixInstruction, h]
    · simp [suffixInstruction, h, hostBytesInstruction, Instruction.effects, viewportEffects]
  | resize c r =>
    simp [suffixInstruction, viewportInstruction, Instruction.effects, viewportEffects,
      StateOperation.effects]
  | sessionControl c =>
    simp [suffixInstruction, sessionControlInstruction, Instruction.effects, viewportEffects,
      StateOperation.effects]

theorem effects_filterMap_suffixInstruction : ∀ (operations : List StateOperation),
    instructionEffects (operations.filterMap (suffixInstruction 0)) = effectsOf operations
  | [] => rfl
  | operation :: rest => by
    have hrest := effects_filterMap_suffixInstruction rest
    have hone : instructionEffects (suffixInstruction 0 operation).toList = operation.effects := by
      rw [effects_suffixInstruction]
      cases operation <;> simp [StateOperation.effects]
    cases hs : suffixInstruction 0 operation with
    | none =>
      rw [hs] at hone
      rw [List.filterMap_cons_none hs, hrest, effectsOf_cons, ← hone]
      simp
    | some i =>
      rw [hs] at hone
      rw [List.filterMap_cons_some hs, effectsOf_cons, ← hone, ← hrest]
      simp

@[simp] theorem effects_suffixInstructions_zero (operations : List StateOperation) :
    instructionEffects (suffixInstructions 0 operations) = effectsOf operations := by
  cases operations with
  | nil => rfl
  | cons operation rest =>
    rw [suffixInstructions, instructionEffects_append, effects_filterMap_suffixInstruction,
      effects_suffixInstruction]
    cases operation <;> simp [StateOperation.effects]

/-! ## The suffix a host has not been shown -/

/-- What `historySuffixStartFrom` answers speaks about: the rest of the target from there on. -/
theorem historySuffixStartFrom_ok : ∀ {delivered target : List StateOperation}
    {index start offset : Nat},
    historySuffixStartFrom index target delivered = .ok (start, offset) →
    index ≤ start ∧ effectsOf target = effectsOf delivered ++
      instructionEffects (suffixInstructions offset (target.drop (start - index)))
  | [], target, index, start, offset, h => by
    simp only [historySuffixStartFrom, Except.ok.injEq, Prod.mk.injEq] at h
    obtain ⟨rfl, rfl⟩ := h
    simp
  | delivered :: rest, [], index, start, offset, h => by
    simp [historySuffixStartFrom] at h
  | delivered :: rest, target :: targets, index, start, offset, h => by
    -- one equal operation on both sides leaves the claim about the rest
    have hstep : target = delivered →
        historySuffixStartFrom (index + 1) targets rest = .ok (start, offset) →
        index ≤ start ∧ effectsOf (target :: targets) = effectsOf (delivered :: rest) ++
          instructionEffects (suffixInstructions offset ((target :: targets).drop (start - index)))
        := by
      rintro rfl hrest
      obtain ⟨hle, heff⟩ := historySuffixStartFrom_ok hrest
      have hdrop : start - index = (start - (index + 1)) + 1 := by omega
      refine ⟨by omega, ?_⟩
      rw [hdrop, List.drop_succ_cons, effectsOf_cons, effectsOf_cons, heff, List.append_assoc]
    unfold historySuffixStartFrom at h
    split at h
    · next heq => simp at heq
    · next heq _ => simp at heq
    · next t ts d ds ht hd =>
      simp only [List.cons.injEq] at ht hd
      obtain ⟨rfl, rfl⟩ := ht
      obtain ⟨rfl, rfl⟩ := hd
      split at h
      · next hstarts =>
        obtain ⟨more, rfl⟩ := List.isPrefixOf_iff_prefix.mp hstarts
        split at h
        · split at h
          · simp at h
          · next hrest =>
            simp only [ne_eq, Decidable.not_not] at hrest
            subst hrest
            simp only [Except.ok.injEq, Prod.mk.injEq] at h
            obtain ⟨rfl, rfl⟩ := h
            refine ⟨le_refl _, ?_⟩
            rw [Nat.sub_self, List.drop_zero, suffixInstructions, instructionEffects_append,
              effects_filterMap_suffixInstruction, effects_suffixInstruction]
            simp [StateOperation.effects]
        · next hlen =>
          simp only [List.length_append, ne_eq, Nat.add_eq_left, List.length_eq_zero_iff,
            Decidable.not_not] at hlen
          subst hlen
          exact hstep (by simp) h
      · simp at h
    · next t ts d ds _ ht hd =>
      simp only [List.cons.injEq] at ht hd
      obtain ⟨rfl, rfl⟩ := ht
      obtain ⟨rfl, rfl⟩ := hd
      split at h
      · next heq => exact hstep heq h
      · simp at h

/-- Comparing histories fails in one way only. -/
theorem historySuffixStartFrom_error : ∀ {delivered target : List StateOperation} {index : Nat}
    {e : StateError}, historySuffixStartFrom index target delivered = .error e →
    e = .divergedHistory
  | [], _, _, _, h => by simp [historySuffixStartFrom] at h
  | _ :: _, [], _, _, h => by
    simp only [historySuffixStartFrom, Except.error.injEq] at h
    exact h.symm
  | delivered :: rest, target :: targets, index, e, h => by
    have ih : historySuffixStartFrom (index + 1) targets rest = .error e → e = .divergedHistory :=
      historySuffixStartFrom_error
    have hdiverged : (.error .divergedHistory : Except StateError (Nat × Nat)) = .error e →
        e = .divergedHistory := fun h => (Except.error.inj h).symm
    unfold historySuffixStartFrom at h
    split at h
    · next heq => simp at heq
    · next heq _ => simp at heq
    · next ht hd =>
      simp only [List.cons.injEq] at ht hd
      obtain ⟨-, rfl⟩ := ht
      obtain ⟨-, rfl⟩ := hd
      split at h
      · split at h
        · split at h
          · exact hdiverged h
          · simp at h
        · exact ih h
      · exact hdiverged h
    · next ht hd =>
      simp only [List.cons.injEq] at ht hd
      obtain ⟨-, rfl⟩ := ht
      obtain ⟨-, rfl⟩ := hd
      split at h
      · exact ih h
      · exact hdiverged h

/-- Two runs of bytes, each followed by something that is no byte, where one side extends the
other: the runs are equal, or the shorter one ends its side. -/
theorem bytes_prefix_cases {as bs : Bytes} {xs ys : List HostEffect}
    (hx : ∀ e more, xs = e :: more → e.isByte = false)
    (hy : ∀ e more, ys = e :: more → e.isByte = false)
    (h : as.map HostEffect.byte ++ xs <+: bs.map HostEffect.byte ++ ys) :
    (as = bs ∧ xs <+: ys) ∨ (∃ more, more ≠ [] ∧ bs = as ++ more ∧ xs = []) := by
  induction as generalizing bs with
  | nil =>
    cases bs with
    | nil => exact Or.inl ⟨rfl, by simpa using h⟩
    | cons b bs =>
      refine Or.inr ⟨b :: bs, by simp, by simp, ?_⟩
      cases xs with
      | nil => rfl
      | cons e more =>
        have hb := hx e more rfl
        simp only [List.map_nil, List.nil_append, List.map_cons, List.cons_append,
          List.cons_prefix_cons] at h
        rw [h.1] at hb
        simp [HostEffect.isByte] at hb
  | cons a as ih =>
    cases bs with
    | nil =>
      simp only [List.map_cons, List.cons_append, List.map_nil, List.nil_append] at h
      cases ys with
      | nil => simp at h
      | cons e more =>
        have hb := hy e more rfl
        rw [List.cons_prefix_cons] at h
        rw [← h.1] at hb
        simp [HostEffect.isByte] at hb
    | cons b bs =>
      simp only [List.map_cons, List.cons_append, List.cons_prefix_cons,
        HostEffect.byte.injEq] at h
      obtain ⟨rfl, hrest⟩ := h
      rcases ih hrest with ⟨rfl, hp⟩ | ⟨more, hne, rfl, hnil⟩
      · exact Or.inl ⟨rfl, hp⟩
      · exact Or.inr ⟨more, hne, rfl, hnil⟩

theorem IsCanonical.rest_head {bytes : Bytes} {rest : List StateOperation}
    (h : IsCanonical (.hostBytes bytes :: rest)) :
    ∀ e more, effectsOf rest = e :: more → e.isByte = false := by
  intro e more heq
  rcases h.rest_cases with rfl | ⟨e', more', heq', hb⟩
  · simp at heq
  · rw [heq'] at heq
    simp only [List.cons.injEq] at heq
    rw [← heq.1]
    exact hb

theorem IsCanonical.eq_nil_of_effects {operations : List StateOperation}
    (h : IsCanonical operations) (heff : effectsOf operations = []) : operations = [] := by
  cases operations with
  | nil => rfl
  | cons operation rest =>
    cases operation with
    | hostBytes bytes =>
      have := h.bytes_ne_nil
      simp_all [StateOperation.effects]
    | resize c r => simp [StateOperation.effects] at heff
    | sessionControl c => simp [StateOperation.effects] at heff

/-- **On canonical histories the suffix is found whenever the effects extend one another.** -/
theorem historySuffixStartFrom_of_prefix : ∀ {delivered target : List StateOperation}
    (index : Nat), IsCanonical target → IsCanonical delivered →
    effectsOf delivered <+: effectsOf target →
    ∃ start offset, historySuffixStartFrom index target delivered = .ok (start, offset)
  | [], target, index, _, _, _ => ⟨index, 0, by rw [historySuffixStartFrom]⟩
  | delivered :: rest, [], index, _, hd, h => by
    have hnil := hd.eq_nil_of_effects (by simpa using h)
    simp at hnil
  | delivered :: rest, target :: targets, index, ht, hd, h => by
    have hrec : effectsOf rest <+: effectsOf targets →
        ∃ start offset, historySuffixStartFrom (index + 1) targets rest = .ok (start, offset) :=
      historySuffixStartFrom_of_prefix (index + 1) ht.tail hd.tail
    cases delivered with
    | hostBytes as =>
      have hne : as ≠ [] := hd.bytes_ne_nil
      cases target with
      | hostBytes bs =>
        simp only [effectsOf_cons, StateOperation.effects] at h
        rcases bytes_prefix_cases hd.rest_head ht.rest_head h with ⟨rfl, hp⟩ | ⟨more, hm, rfl, hx⟩
        · obtain ⟨start, offset, hok⟩ := hrec hp
          refine ⟨start, offset, ?_⟩
          rw [historySuffixStartFrom, if_pos (by simp), if_neg (by simp)]
          exact hok
        · obtain rfl : rest = [] := hd.tail.eq_nil_of_effects hx
          refine ⟨index, as.length, ?_⟩
          rw [historySuffixStartFrom, if_pos (by simp), if_pos (by simpa using hm), if_neg (by simp)]
      | resize c r =>
        obtain ⟨a, as, rfl⟩ := List.exists_cons_of_ne_nil hne
        simp [StateOperation.effects] at h
      | sessionControl c =>
        obtain ⟨a, as, rfl⟩ := List.exists_cons_of_ne_nil hne
        simp [StateOperation.effects] at h
    | resize c r =>
      have heq : target = .resize c r ∧ effectsOf rest <+: effectsOf targets := by
        cases target with
        | hostBytes bs =>
          obtain ⟨b, bs, rfl⟩ := List.exists_cons_of_ne_nil ht.bytes_ne_nil
          simp [StateOperation.effects] at h
        | resize c' r' =>
          simp only [effectsOf_cons, StateOperation.effects, List.cons_append, List.nil_append,
            List.cons_prefix_cons, HostEffect.resize.injEq] at h
          exact ⟨by rw [h.1.1, h.1.2], h.2⟩
        | sessionControl c' => simp [StateOperation.effects] at h
      obtain ⟨rfl, hp⟩ := heq
      obtain ⟨start, offset, hok⟩ := hrec hp
      exact ⟨start, offset, by simpa [historySuffixStartFrom] using hok⟩
    | sessionControl c =>
      have heq : target = .sessionControl c ∧ effectsOf rest <+: effectsOf targets := by
        cases target with
        | hostBytes bs =>
          obtain ⟨b, bs, rfl⟩ := List.exists_cons_of_ne_nil ht.bytes_ne_nil
          simp [StateOperation.effects] at h
        | resize c' r' => simp [StateOperation.effects] at h
        | sessionControl c' =>
          simp only [effectsOf_cons, StateOperation.effects, List.cons_append, List.nil_append,
            List.cons_prefix_cons, HostEffect.control.injEq] at h
          exact ⟨by rw [h.1], h.2⟩
      obtain ⟨rfl, hp⟩ := heq
      obtain ⟨start, offset, hok⟩ := hrec hp
      exact ⟨start, offset, by simpa [historySuffixStartFrom] using hok⟩

/-- A suffix that is found completes the effects of the delivered history. -/
theorem historySuffixStart_ok {target delivered : List StateOperation} {start offset : Nat}
    (h : historySuffixStart target delivered = .ok (start, offset)) :
    effectsOf target = effectsOf delivered ++
      instructionEffects (suffixInstructions offset (target.drop start)) := by
  simpa using (historySuffixStartFrom_ok h).2

theorem historySuffixStart_of_prefix {target delivered : List StateOperation}
    (ht : IsCanonical target) (hd : IsCanonical delivered)
    (h : effectsOf delivered <+: effectsOf target) :
    ∃ start offset, historySuffixStart target delivered = .ok (start, offset) :=
  historySuffixStartFrom_of_prefix 0 ht hd h

/-! ## Applying a batch -/

def resizeOperation (viewport : ViewportSize) : Option ViewportSize → List StateOperation
  | none => []
  | some next =>
    if next = viewport then []
    else [.resize (UInt16.ofNat next.columns.toNat) (UInt16.ofNat next.rows.toNat)]

/-- The operations an instruction adds to the history of a state with this viewport. -/
def Instruction.operations (viewport : ViewportSize) (i : Instruction) : List StateOperation :=
  hostBytesOperation ((i.bytes.map ByteRun.value).getD []) ++
    resizeOperation viewport i.viewport ++
    (i.sessionControl.map StateOperation.sessionControl).toList

def batchOperations (viewport : ViewportSize) : List Instruction → List StateOperation
  | [] => []
  | i :: rest => i.operations viewport ++ batchOperations (i.viewport.getD viewport) rest

def batchViewport (viewport : ViewportSize) : List Instruction → ViewportSize
  | [] => viewport
  | i :: rest => batchViewport (i.viewport.getD viewport) rest

theorem u16TryFrom_eq_some {v : UInt64} {c : UInt16} (h : u16TryFrom v = some c) :
    c = UInt16.ofNat v.toNat ∧ c.toUInt64 = v := by
  unfold u16TryFrom at h
  split at h
  · next hlt =>
    simp only [Option.some.injEq] at h
    subst h
    refine ⟨rfl, ?_⟩
    rw [← UInt64.toNat_inj]
    simp only [UInt16.toNat_toUInt64, UInt16.toNat_ofNat']
    omega
  · simp at h

/-- A valid viewport fits the emulator's numbers. -/
theorem validateViewport_ok {columns rows : UInt64} (h : validateViewport columns rows = .ok ()) :
    ∃ c r, u16TryFrom columns = some c ∧ u16TryFrom rows = some r ∧ columns ≠ 0 ∧ rows ≠ 0 := by
  unfold validateViewport at h
  split at h
  · simp at h
  · next hnot =>
    simp only [not_or, Option.isNone_iff_eq_none, ← ne_eq, Option.ne_none_iff_exists'] at hnot
    obtain ⟨hc0, hr0, ⟨c, hc⟩, ⟨r, hr⟩⟩ := hnot
    exact ⟨c, r, hc, hr, hc0, hr0⟩

theorem noEmptyBytes_append {xs ys : List StateOperation} :
    NoEmptyBytes (xs ++ ys) ↔ NoEmptyBytes xs ∧ NoEmptyBytes ys := by
  simp [NoEmptyBytes]

theorem noEmptyBytes_hostBytesOperation (bytes : Bytes) :
    NoEmptyBytes (hostBytesOperation bytes) := by
  unfold hostBytesOperation NoEmptyBytes
  split
  · simp
  · next h => simpa using Ne.symm h

theorem noEmptyBytes_instruction (viewport : ViewportSize) (i : Instruction) :
    NoEmptyBytes (i.operations viewport) := by
  rw [Instruction.operations, noEmptyBytes_append, noEmptyBytes_append]
  refine ⟨⟨noEmptyBytes_hostBytesOperation _, ?_⟩, ?_⟩
  · unfold resizeOperation NoEmptyBytes
    split
    · simp
    · split <;> simp
  · cases i.sessionControl <;> simp [NoEmptyBytes]

theorem noEmptyBytes_batchOperations : ∀ (viewport : ViewportSize) (is : List Instruction),
    NoEmptyBytes (batchOperations viewport is)
  | _, [] => by simp [batchOperations, NoEmptyBytes]
  | viewport, i :: rest => by
    rw [batchOperations, noEmptyBytes_append]
    exact ⟨noEmptyBytes_instruction viewport i, noEmptyBytes_batchOperations _ rest⟩

/-- **The two limits of a history.** -/
theorem validateHistorySize_ok_iff {bytes operations moreBytes moreOperations : Nat} :
    validateHistorySize bytes operations moreBytes moreOperations = .ok () ↔
      bytes + moreBytes ≤ maxRetainedHostBytes ∧
        operations + moreOperations ≤ maxRetainedOperations := by
  unfold validateHistorySize checkedAdd maxRetainedHostBytes maxRetainedOperations
  by_cases hb : bytes + moreBytes < 2 ^ 64
  · by_cases ho : operations + moreOperations < 2 ^ 64
    · simp only [if_pos hb, if_pos ho]
      split
      · next h => exact ⟨fun h => by simp at h, fun h' => by omega⟩
      · next h => exact ⟨fun _ => by omega, fun _ => rfl⟩
    · simp only [if_pos hb, if_neg ho]
      exact ⟨fun h => by simp at h, fun h => by omega⟩
  · simp only [if_neg hb]
    exact ⟨fun h => by simp at h, fun h => by omega⟩

/-- What does not fit is refused with one error. -/
theorem validateHistorySize_error_iff {bytes operations moreBytes moreOperations : Nat} :
    validateHistorySize bytes operations moreBytes moreOperations = .error .historyLimitExceeded ↔
      ¬ (bytes + moreBytes ≤ maxRetainedHostBytes ∧
        operations + moreOperations ≤ maxRetainedOperations) := by
  rw [← validateHistorySize_ok_iff]
  unfold validateHistorySize
  split
  · simp
  · split
    · simp
    · split <;> simp

namespace RemoteTerminalState

variable {T : Vt100}

/-- How a state grows: its history is extended, its viewport replaced, its start kept. -/
structure GrowsBy (s s' : RemoteTerminalState T) (operations : List StateOperation)
    (viewport : ViewportSize) : Prop where
  operations_eq : s'.history.operations = s.history.operations ++ operations
  viewport_eq : s'.viewport = viewport
  initialColumns_eq : s'.initialColumns = s.initialColumns
  initialRows_eq : s'.initialRows = s.initialRows

theorem GrowsBy.trans {s₁ s₂ s₃ : RemoteTerminalState T} {xs ys : List StateOperation}
    {v₁ v₂ : ViewportSize} (h₁ : GrowsBy s₁ s₂ xs v₁) (h₂ : GrowsBy s₂ s₃ ys v₂) :
    GrowsBy s₁ s₃ (xs ++ ys) v₂ where
  operations_eq := by rw [h₂.operations_eq, h₁.operations_eq, List.append_assoc]
  viewport_eq := h₂.viewport_eq
  initialColumns_eq := h₂.initialColumns_eq.trans h₁.initialColumns_eq
  initialRows_eq := h₂.initialRows_eq.trans h₁.initialRows_eq

theorem GrowsBy.refl (s : RemoteTerminalState T) : GrowsBy s s [] s.viewport :=
  ⟨by simp, rfl, rfl, rfl⟩

theorem growsBy_applyHostBytes (s : RemoteTerminalState T) (bytes : Bytes) :
    GrowsBy s (s.applyHostBytes bytes) (hostBytesOperation bytes) s.viewport := by
  unfold applyHostBytes hostBytesOperation
  by_cases h : bytes = []
  · simp only [h, if_true]
    exact ⟨by simp, rfl, rfl, rfl⟩
  · simp only [h, if_false]
    exact ⟨by simp [StateHistory.operations, StateHistory.push], rfl, rfl, rfl⟩

theorem growsBy_applyResize (s : RemoteTerminalState T) {viewport : ViewportSize} {c r : UInt16}
    (hc : u16TryFrom viewport.columns = some c) (hr : u16TryFrom viewport.rows = some r) :
    GrowsBy s (s.applyResize c r) (resizeOperation s.viewport (some viewport)) viewport := by
  obtain ⟨hc', hcv⟩ := u16TryFrom_eq_some hc
  obtain ⟨hr', hrv⟩ := u16TryFrom_eq_some hr
  have hviewport : viewport = { columns := c.toUInt64, rows := r.toUInt64 } := by
    rw [hcv, hrv]
  unfold applyResize resizeOperation
  by_cases h : s.viewport.columns = c.toUInt64 ∧ s.viewport.rows = r.toUInt64
  · have hsame : viewport = s.viewport := by rw [hviewport, ← h.1, ← h.2]
    simp only [h, hsame, and_self, if_true]
    exact GrowsBy.refl s
  · have hother : ¬ viewport = s.viewport := by
      rintro rfl
      exact h ⟨hcv.symm, hrv.symm⟩
    simp only [h, hother, if_false]
    refine ⟨?_, hviewport.symm, rfl, rfl⟩
    rw [hc', hr']
    simp [StateHistory.operations, StateHistory.push]

theorem growsBy_applyByteRun (s : RemoteTerminalState T) (bytes : Option ByteRun) :
    GrowsBy s (s.applyByteRun bytes) (hostBytesOperation ((bytes.map ByteRun.value).getD []))
      s.viewport := by
  cases bytes with
  | none => exact GrowsBy.refl s
  | some bytes => exact growsBy_applyHostBytes s bytes.value

theorem growsBy_applyViewport (s : RemoteTerminalState T) {next : Option ViewportSize}
    (h : ∀ viewport, next = some viewport →
      validateViewport viewport.columns viewport.rows = .ok ()) :
    ∃ s', s.applyViewport next = (s', .ok ()) ∧
      GrowsBy s s' (resizeOperation s.viewport next) (next.getD s.viewport) := by
  cases next with
  | none => exact ⟨s, rfl, GrowsBy.refl s⟩
  | some viewport =>
    obtain ⟨c, r, hc, hr, -⟩ := validateViewport_ok (h viewport rfl)
    exact ⟨s.applyResize c r, by simp [applyViewport, hc, hr], growsBy_applyResize s hc hr⟩

theorem growsBy_applyMarker (s : RemoteTerminalState T) (marker : Option Marker) :
    GrowsBy s (s.applyMarker marker) [] s.viewport := by
  cases marker <;> exact ⟨by simp [applyMarker], rfl, rfl, rfl⟩

theorem growsBy_applySessionControl (s : RemoteTerminalState T) (control : Option SessionControl) :
    GrowsBy s (s.applySessionControl control)
      (control.map StateOperation.sessionControl).toList s.viewport := by
  cases control <;>
    exact ⟨by simp [applySessionControl, StateHistory.operations, StateHistory.push], rfl, rfl, rfl⟩

theorem growsBy_applyInstruction (s : RemoteTerminalState T) {i : Instruction}
    (h : ∀ viewport, i.viewport = some viewport →
      validateViewport viewport.columns viewport.rows = .ok ()) :
    ∃ s', s.applyInstruction i = (s', .ok ()) ∧
      GrowsBy s s' (i.operations s.viewport) (i.viewport.getD s.viewport) := by
  have hbytes := growsBy_applyByteRun s i.bytes
  obtain ⟨s₂, hs₂, hview⟩ := growsBy_applyViewport (s.applyByteRun i.bytes) h
  rw [hbytes.viewport_eq] at hview
  have hmarker := growsBy_applyMarker s₂ i.marker
  have hcontrol := growsBy_applySessionControl (s₂.applyMarker i.marker) i.sessionControl
  rw [hmarker.viewport_eq, hview.viewport_eq] at hcontrol
  refine ⟨(s₂.applyMarker i.marker).applySessionControl i.sessionControl,
    by simp only [applyInstruction, hs₂], ?_⟩
  have hall := ((hbytes.trans hview).trans hmarker).trans hcontrol
  rwa [List.append_nil] at hall

theorem validateViewports_ok : ∀ {is : List Instruction}, validateViewports is = .ok () →
    ∀ i ∈ is, ∀ viewport, i.viewport = some viewport →
      validateViewport viewport.columns viewport.rows = .ok ()
  | [], _, i, hi, _, _ => by simp at hi
  | j :: rest, h, i, hi, viewport, hv => by
    unfold validateViewports at h
    split at h
    · next hnone =>
      rcases List.mem_cons.mp hi with rfl | hm
      · rw [hnone] at hv; simp at hv
      · exact validateViewports_ok h i hm viewport hv
    · next w hsome =>
      split at h
      · simp at h
      · next hw =>
        rcases List.mem_cons.mp hi with rfl | hm
        · rw [hsome] at hv
          obtain rfl : w = viewport := by simpa using hv
          exact hw
        · exact validateViewports_ok h i hm viewport hv

/-- **Validated instructions are all applied, and extend the history by their operations.** -/
theorem growsBy_applyInstructions : ∀ {is : List Instruction} (s : RemoteTerminalState T),
    (∀ i ∈ is, ∀ viewport, i.viewport = some viewport →
      validateViewport viewport.columns viewport.rows = .ok ()) →
    ∃ s', s.applyInstructions is = (s', .ok ()) ∧
      GrowsBy s s' (batchOperations s.viewport is) (batchViewport s.viewport is)
  | [], s, _ => ⟨s, rfl, GrowsBy.refl s⟩
  | i :: rest, s, h => by
    obtain ⟨s₁, hs₁, hgrow₁⟩ := growsBy_applyInstruction s (h i List.mem_cons_self)
    obtain ⟨s₂, hs₂, hgrow₂⟩ := growsBy_applyInstructions s₁
      (fun j hj => h j (List.mem_cons_of_mem _ hj))
    refine ⟨s₂, by simp only [applyInstructions, hs₁, hs₂], ?_⟩
    rw [hgrow₁.viewport_eq] at hgrow₂
    exact hgrow₁.trans hgrow₂

/-- **The ways in which `apply` ends.** -/
theorem apply_cases (E : Vte) (s : RemoteTerminalState T) (batch : InstructionBatch) :
    (∃ e, s.apply E batch = (s, .error e)) ∨
    (∃ s', s.apply E batch = (s', .ok ()) ∧ s.validateHistoryGrowth batch = .ok () ∧
      validateViewports batch.instructions = .ok () ∧
      GrowsBy s s' (batchOperations s.viewport batch.instructions)
        (batchViewport s.viewport batch.instructions)) ∨
    (∃ s' e history columns rows, s.apply E batch = (s', .ok ()) ∧
      s.validateHistoryGrowth batch = .error e ∧
      validateViewports batch.instructions = .ok () ∧
      s.compactedHistory E batch = .ok (history, columns, rows) ∧
      GrowsBy { s with history, initialColumns := columns, initialRows := rows } s'
        (batchOperations s.viewport batch.instructions)
        (batchViewport s.viewport batch.instructions)) := by
  cases hview : validateViewports batch.instructions with
  | error e => exact Or.inl ⟨e, by simp [apply, hview]⟩
  | ok _ =>
    have hvalid := validateViewports_ok hview
    cases hmark : validateMarkers s.echoAck batch.instructions with
    | error e => exact Or.inl ⟨e, by simp [apply, hview, hmark]⟩
    | ok _ =>
      cases hgrowth : s.validateHistoryGrowth batch with
      | ok _ =>
        obtain ⟨s', hs', hgrow⟩ := growsBy_applyInstructions s hvalid
        exact Or.inr (Or.inl ⟨s', by simp [apply, hview, hmark, hgrowth, hs'], rfl, rfl, hgrow⟩)
      | error e =>
        cases hcompact : s.compactedHistory E batch with
        | error e' => exact Or.inl ⟨e', by simp [apply, hview, hmark, hgrowth, hcompact]⟩
        | ok r =>
          obtain ⟨history, columns, rows⟩ := r
          obtain ⟨s', hs', hgrow⟩ := growsBy_applyInstructions
            { s with history, initialColumns := columns, initialRows := rows } hvalid
          exact Or.inr (Or.inr ⟨s', e, history, columns, rows,
            by simp [apply, hview, hmark, hgrowth, hcompact, hs'], rfl, rfl, rfl, hgrow⟩)

/-- **A target that extends the delivered history is shown by exactly what it adds.** -/
theorem diffFrom_of_extends (E : Vte) {s delivered : RemoteTerminalState T}
    (hs : NoEmptyBytes s.history.operations) (hd : NoEmptyBytes delivered.history.operations)
    (h : effectsOf delivered.history.operations <+: effectsOf s.history.operations) :
    ∃ diff, s.diffFrom E delivered = .ok diff ∧
      effectsOf s.history.operations =
        effectsOf delivered.history.operations ++ instructionEffects diff.instructions := by
  obtain ⟨start, offset, hstart⟩ := historySuffixStart_of_prefix
    (isCanonical_canonicalOperations hs) (isCanonical_canonicalOperations hd) (by simpa using h)
  have heffects := historySuffixStart_ok hstart
  rw [effectsOf_canonicalOperations, effectsOf_canonicalOperations] at heffects
  unfold diffFrom
  simp only [hstart]
  refine ⟨_, rfl, ?_⟩
  rw [heffects, instructionEffects_append]
  -- a marker shows nothing
  split
  · split <;> simp
  · simp

/-- A clone differs in nothing but its parser. -/
@[simp] theorem clone_history (s : RemoteTerminalState T) : s.clone.history = s.history := rfl
@[simp] theorem clone_viewport (s : RemoteTerminalState T) : s.clone.viewport = s.viewport := rfl
@[simp] theorem clone_echoAck (s : RemoteTerminalState T) : s.clone.echoAck = s.echoAck := rfl

end RemoteTerminalState

end OxideTerm.Fernomade
