import OxideTerm.CloudSync.Validity

/-!
# What writes do to a replica

Every operation that changes a replica, merging apart, is a sequence of writes. A register that
was written to shows the value of the last write alone; the others show what they did.
-/

namespace OxideTerm.CloudSync

open OxideTerm.Lib

/-- A write that a valid replica can take: a presence is given a truth value. -/
structure FieldWrite.Fits (w : SyncReplica.FieldWrite) : Prop where
  valid : w.1.Valid
  presence : w.1.isPresence = true → ∃ value b, w.2 = some value ∧ value.decodeBool = .ok b

namespace SyncReplica

variable {contentDigest : FieldValue → String}

/-! ## One write -/

@[simp] theorem writer_keep (r : SyncReplica) (value : Option FieldValue) :
    (r.keep contentDigest value).writer = r.writer := by cases value <;> rfl

/-- The write of a field with an identity. -/
def written (contentDigest : FieldValue → String) (r : SyncReplica) (w : FieldWrite) :
    SyncReplica :=
  { r.keep contentDigest w.2 with
    document := r.document.put r.writer w.1 (r.scalarOf contentDigest w.2) }

theorem write_of_valid (r : SyncReplica) {field : SyncField} (h : field.Valid)
    (value : Option FieldValue) :
    r.write contentDigest field value = (r.written contentDigest (field, value), .ok ()) := by
  rw [write, SyncField.key_of_valid h]
  rfl

theorem write_ok {r r' : SyncReplica} {field : SyncField} {value : Option FieldValue}
    (h : r.write contentDigest field value = (r', .ok ())) :
    field.Valid ∧ r' = r.written contentDigest (field, value) := by
  by_cases hvalid : field.Valid
  · rw [r.write_of_valid hvalid, Prod.mk.injEq] at h
    exact ⟨hvalid, h.1.symm⟩
  · unfold write at h
    cases hkey : field.key with
    | ok k => exact absurd (SyncField.key_ok_iff.mp hkey).1 hvalid
    | error e =>
      rw [hkey] at h
      simp at h

@[simp] theorem writer_written (r : SyncReplica) (w : FieldWrite) :
    (r.written contentDigest w).writer = r.writer := r.writer_keep w.2

@[simp] theorem document_written (r : SyncReplica) (w : FieldWrite) :
    (r.written contentDigest w).document =
      r.document.put r.writer w.1 (r.scalarOf contentDigest w.2) := rfl

theorem ordered_written {r : SyncReplica} (h : r.document.Ordered) (w : FieldWrite) :
    (r.written contentDigest w).document.Ordered := h.put _ _ _

theorem values_written (r : SyncReplica) (w : FieldWrite) :
    (r.written contentDigest w).values = (r.keep contentDigest w.2).values := rfl

/-- Writing keeps the values. -/
theorem get_values_written (hinj : Function.Injective contentDigest) {r : SyncReplica}
    (h : r.Sound contentDigest) (w : FieldWrite) {digest : String} {value : FieldValue}
    (hget : r.values.get digest = some value) :
    (r.written contentDigest w).values.get digest = some value := by
  rw [values_written]
  obtain ⟨field, value'⟩ := w
  cases value' with
  | none => exact hget
  | some value' =>
    show (r.values.insert (contentDigest value') value').get digest = some value
    rw [FiniteMap.get_insert]
    split
    · next heq =>
      have hdigest := h.digests digest value hget
      rw [hinj (hdigest.trans heq)]
    · exact hget

theorem get_values_written_self (r : SyncReplica) (field : SyncField) (value : FieldValue) :
    (r.written contentDigest (field, some value)).values.get (contentDigest value) = some value :=
  FiniteMap.get_insert_self ..

/-- **A write keeps the replica sound.** -/
theorem Sound.written (hinj : Function.Injective contentDigest) {r : SyncReplica}
    (h : r.Sound contentDigest) {w : FieldWrite} (hw : FieldWrite.Fits w) :
    (r.written contentDigest w).Sound contentDigest where
  ordered := ordered_written h.ordered w
  digests digest value hget := by
    obtain ⟨field, value'⟩ := w
    cases value' with
    | none => exact h.digests digest value hget
    | some value' =>
      replace hget : (r.values.insert (contentDigest value') value').get digest = some value := hget
      rw [FiniteMap.get_insert] at hget
      split at hget
      · next heq => rw [← Option.some.inj hget, heq]
      · exact h.digests digest value hget
  keys key hkey := by
    rw [document_written, Document.keys_put, Finset.mem_insert] at hkey
    rcases hkey with rfl | hkey
    · exact hw.valid
    · exact h.keys key hkey
  shown key p hp := by
    by_cases hkey : key = w.1
    · subst hkey
      obtain ⟨hmem, hpkey, -⟩ := Document.mem_visible.mp hp
      have hvalue := (h.ordered.shows_put r.writer w.1 (r.scalarOf contentDigest w.2)).2 p hp
      obtain ⟨field, value⟩ := w
      unfold Supported
      rw [hvalue]
      cases value with
      | none =>
        show p.key.isPresence = false
        rw [hpkey, ← Bool.not_eq_true]
        intro hpresence
        obtain ⟨value, b, hnone, -⟩ := hw.presence hpresence
        simp at hnone
      | some value =>
        refine ⟨value, get_values_written_self r field value, fun hpresence => ?_⟩
        rw [hpkey] at hpresence
        obtain ⟨value', b, hsome, hb⟩ := hw.presence hpresence
        exact ⟨b, by rw [Option.some.inj hsome]; exact hb⟩
    · rw [document_written, Document.visible_put_of_ne _ _ hkey] at hp
      exact (h.shown key p hp).mono fun _ _ => get_values_written hinj h w

/-- **A register that is written to shows the value of the write alone.** -/
theorem shownDigests_written_self {r : SyncReplica} (h : r.document.Ordered) (w : FieldWrite) :
    (r.written contentDigest w).shownDigests w.1 = {w.2.map contentDigest} := by
  obtain ⟨hcard, hvalue⟩ := h.shows_put r.writer w.1 (r.scalarOf contentDigest w.2)
  obtain ⟨p, hp⟩ := Finset.card_eq_one.mp hcard
  rw [shownDigests, document_written, hp, Finset.image_singleton]
  have hpvalue := hvalue p (by rw [hp]; exact Finset.mem_singleton_self p)
  rw [candidateOf, hpvalue]
  cases w.2 <;> rfl

/-! ## Many writes -/

/-- One write after the other. -/
def writtenAll (contentDigest : FieldValue → String) (r : SyncReplica) (ws : List FieldWrite) :
    SyncReplica := ws.foldl (written contentDigest) r

@[simp] theorem writtenAll_nil (r : SyncReplica) : r.writtenAll contentDigest [] = r := rfl

@[simp] theorem writtenAll_cons (r : SyncReplica) (w : FieldWrite) (ws : List FieldWrite) :
    r.writtenAll contentDigest (w :: ws) =
      (r.written contentDigest w).writtenAll contentDigest ws := rfl

theorem writtenAll_append (r : SyncReplica) (ws ws' : List FieldWrite) :
    r.writtenAll contentDigest (ws ++ ws') =
      (r.writtenAll contentDigest ws).writtenAll contentDigest ws' := List.foldl_append

@[simp] theorem writer_writtenAll (r : SyncReplica) :
    (ws : List FieldWrite) → (r.writtenAll contentDigest ws).writer = r.writer
  | [] => rfl
  | w :: ws => by rw [writtenAll_cons, writer_writtenAll _ ws, writer_written]

theorem Sound.writtenAll (hinj : Function.Injective contentDigest) {r : SyncReplica}
    (h : r.Sound contentDigest) :
    (ws : List FieldWrite) → (∀ w ∈ ws, FieldWrite.Fits w) →
    (r.writtenAll contentDigest ws).Sound contentDigest
  | [], _ => h
  | w :: ws, hws => (h.written hinj (hws w List.mem_cons_self)).writtenAll hinj ws
      fun v hv => hws v (List.mem_cons_of_mem w hv)

theorem keys_writtenAll (r : SyncReplica) :
    (ws : List FieldWrite) → (r.writtenAll contentDigest ws).document.keys =
      r.document.keys ∪ (ws.map Prod.fst).toFinset
  | [] => by simp
  | w :: ws => by
    rw [writtenAll_cons, keys_writtenAll _ ws, document_written, Document.keys_put]
    ext key
    simp

theorem document_subset_writtenAll (r : SyncReplica) :
    (ws : List FieldWrite) → r.document ⊆ (r.writtenAll contentDigest ws).document
  | [] => Finset.Subset.refl _
  | w :: ws => (Document.subset_put ..).trans
      (document_subset_writtenAll (r.written contentDigest w) ws)

/-- A register that is not written to shows what it did. -/
theorem visible_writtenAll_of_notMem (r : SyncReplica) {key : SyncField} :
    (ws : List FieldWrite) → (∀ w ∈ ws, w.1 ≠ key) →
    (r.writtenAll contentDigest ws).document.visible key = r.document.visible key
  | [], _ => rfl
  | w :: ws, hws => by
    rw [writtenAll_cons, visible_writtenAll_of_notMem _ ws
      fun v hv => hws v (List.mem_cons_of_mem w hv), document_written,
      Document.visible_put_of_ne _ _ (hws w List.mem_cons_self).symm]

theorem shownDigests_writtenAll_of_notMem (r : SyncReplica) {key : SyncField}
    {ws : List FieldWrite} (hws : ∀ w ∈ ws, w.1 ≠ key) :
    (r.writtenAll contentDigest ws).shownDigests key = r.shownDigests key := by
  rw [shownDigests, visible_writtenAll_of_notMem r ws hws, shownDigests]

/-- **A register that was given one value, maybe several times, shows it.** -/
theorem shownDigests_writtenAll {r : SyncReplica} (h : r.document.Ordered) {key : SyncField}
    {value : Option FieldValue} :
    (ws : List FieldWrite) → (∀ w ∈ ws, w.1 = key → w.2 = value) → (∃ w ∈ ws, w.1 = key) →
    (r.writtenAll contentDigest ws).shownDigests key = {value.map contentDigest}
  | [], _, hmem => by simp at hmem
  | w :: ws, hall, hmem => by
    rw [writtenAll_cons]
    have hordered := @ordered_written contentDigest _ h w
    have hall' : ∀ v ∈ ws, v.1 = key → v.2 = value :=
      fun v hv => hall v (List.mem_cons_of_mem w hv)
    by_cases hlater : ∃ v ∈ ws, v.1 = key
    · exact shownDigests_writtenAll hordered ws hall' hlater
    · push Not at hlater
      rw [shownDigests_writtenAll_of_notMem _ hlater]
      obtain ⟨v, hv, hkey⟩ := hmem
      rcases List.mem_cons.mp hv with rfl | hv
      · rw [← hkey, shownDigests_written_self h, hall v List.mem_cons_self hkey]
      · exact absurd hkey (hlater v hv)

/-! ## The loops -/

/-- The write that an item is chosen for. -/
def chosen {ι : Type} (choose : ι → Result (Option FieldWrite)) (i : ι) : Option FieldWrite :=
  match choose i with
  | .ok w => w
  | .error _ => none

/-- **A loop that succeeds makes the writes its items are chosen for.** -/
theorem writeEach_ok {ι : Type} {choose : ι → Result (Option FieldWrite)} :
    (items : List ι) → {r r' : SyncReplica} → {written : List ι} →
    writeEach contentDigest choose items r = (r', .ok written) →
    r' = r.writtenAll contentDigest (items.filterMap (chosen choose)) ∧
      written = items.filter (fun i => (chosen choose i).isSome) ∧
      (∀ i ∈ items, ∃ w, choose i = .ok w) ∧
      ∀ w ∈ items.filterMap (chosen choose), w.1.Valid
  | [], r, r', written, h => by
    rw [writeEach, Prod.mk.injEq, Except.ok.injEq] at h
    obtain ⟨rfl, rfl⟩ := h
    simp
  | i :: rest, r, r', written, h => by
    rw [writeEach] at h
    split at h
    · simp at h
    · next hnone =>
      obtain ⟨hr, hwritten, hok, hvalid⟩ := writeEach_ok rest h
      have hchosen : chosen choose i = none := by rw [chosen, hnone]
      refine ⟨?_, ?_, ?_, ?_⟩
      · rw [List.filterMap_cons_none hchosen, hr]
      · rw [List.filter_cons_of_neg (by simp [hchosen]), hwritten]
      · rintro j hj
        rcases List.mem_cons.mp hj with rfl | hj
        · exact ⟨none, hnone⟩
        · exact hok j hj
      · rwa [List.filterMap_cons_none hchosen]
    · next field value hsome =>
      have hchosen : chosen choose i = some (field, value) := by rw [chosen, hsome]
      split at h
      · simp at h
      · next r₁ hwrite =>
        obtain ⟨hfield, rfl⟩ := write_ok hwrite
        split at h
        · simp at h
        · next r₂ written' hrest =>
          rw [Prod.mk.injEq, Except.ok.injEq] at h
          obtain ⟨rfl, rfl⟩ := h
          obtain ⟨hr, hwritten, hok, hvalid⟩ := writeEach_ok rest hrest
          refine ⟨?_, ?_, ?_, ?_⟩
          · rw [List.filterMap_cons_some hchosen, writtenAll_cons, hr]
          · rw [List.filter_cons_of_pos (by simp [hchosen]), hwritten]
          · rintro j hj
            rcases List.mem_cons.mp hj with rfl | hj
            · exact ⟨_, hsome⟩
            · exact hok j hj
          · rw [List.filterMap_cons_some hchosen]
            rintro w hw
            rcases List.mem_cons.mp hw with rfl | hw
            · exact hfield
            · exact hvalid w hw

/-- A loop whose items are all chosen for writes with an identity succeeds. -/
theorem writeEach_of_valid {ι : Type} {choose : ι → Result (Option FieldWrite)} :
    (items : List ι) → (∀ i ∈ items, ∃ w, choose i = .ok w ∧ ∀ v ∈ w, v.1.Valid) →
    (r : SyncReplica) → ∃ r' written, writeEach contentDigest choose items r = (r', .ok written)
  | [], _, r => ⟨r, [], rfl⟩
  | i :: rest, hall, r => by
    have hrest := writeEach_of_valid rest fun j hj => hall j (List.mem_cons_of_mem i hj)
    obtain ⟨w, hw, hvalid⟩ := hall i List.mem_cons_self
    rw [writeEach, hw]
    cases w with
    | none => exact hrest r
    | some w =>
      obtain ⟨field, value⟩ := w
      dsimp only
      have hfield : field.Valid := hvalid _ rfl
      rw [r.write_of_valid hfield]
      dsimp only
      obtain ⟨r', written, hr'⟩ := hrest (r.written contentDigest (field, value))
      exact ⟨r', i :: written, by rw [hr']⟩

end SyncReplica

end OxideTerm.CloudSync
