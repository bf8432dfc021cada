import Mathlib.Data.List.ReduceOption
import OxideTerm.CloudSync.Writing

/-!
# What the operations of a replica write

One description for each operation that succeeds: which fields it writes, and with which values.
-/

namespace OxideTerm.CloudSync

open OxideTerm.Lib

namespace SyncReplica

variable {contentDigest : FieldValue → String}

/-! ## Conflicts -/

/-- The presence of the record shows several values. -/
def Blocked (r : SyncReplica) (resource : SyncResource) : Prop :=
  1 < (r.shownDigests (.presence resource)).card

instance (r : SyncReplica) (resource : SyncResource) : Decidable (r.Blocked resource) :=
  inferInstanceAs (Decidable (_ < _))

/-- Whether the record of a field is in conflict or deleted. -/
def undecided (r : SyncReplica) (field : SyncField) : Bool :=
  !field.isPresence && (decide (r.Blocked field.resource) ||
    (r.candidateList (.presence field.resource)).head?.any fun candidate =>
      (r.candidateValue candidate).any fun value => decide (value.decodeBool = .ok false))

/-- The field shows several values, and its record is there without a doubt. -/
def Conflicting (r : SyncReplica) (field : SyncField) : Prop :=
  r.undecided field = false ∧ 1 < (r.shownDigests field).card

instance (r : SyncReplica) (field : SyncField) : Decidable (r.Conflicting field) :=
  inferInstanceAs (Decidable (_ ∧ _))

@[simp] theorem undecided_presence (r : SyncReplica) (resource : SyncResource) :
    r.undecided (.presence resource) = false := rfl

theorem conflicting_presence {r : SyncReplica} {resource : SyncResource} :
    r.Conflicting (.presence resource) ↔ r.Blocked resource := by
  rw [Conflicting, undecided_presence, Blocked]
  simp

theorem mem_keys_of_shown {r : SyncReplica} {field : SyncField}
    (h : 0 < (r.shownDigests field).card) : field ∈ r.document.keys := by
  obtain ⟨d, hd⟩ := Finset.card_pos.mp h
  obtain ⟨p, hp, -⟩ := Finset.mem_image.mp hd
  obtain ⟨hmem, hkey, -⟩ := Document.mem_visible.mp hp
  exact Document.mem_keys.mpr ⟨p, hmem, hkey⟩

theorem Sound.recordUndecided {r : SyncReplica} (h : r.Sound contentDigest) {field : SyncField}
    (hfield : field.Valid) : r.recordUndecided field = .ok (r.undecided field) := by
  rw [SyncReplica.recordUndecided, undecided, SyncField.key_of_valid hfield.presence]
  cases hpresence : field.isPresence with
  | true => rfl
  | false =>
    simp only [Bool.false_eq_true, if_false, h.candidates, Bool.not_false, Bool.true_and,
      distinctValues_candidateList]
    rfl

/-- The conflict that a sound replica finds in a register. -/
def conflictOf (r : SyncReplica) (field : SyncField) : Option SyncConflict :=
  if r.Conflicting field then some { field, candidates := r.candidateList field } else none

theorem Sound.conflictAt {r : SyncReplica} (h : r.Sound contentDigest) {field : SyncField}
    (hfield : field.Valid) : r.conflictAt field = .ok (r.conflictOf field) := by
  rw [SyncReplica.conflictAt, SyncField.fromKey, SyncField.key_of_valid hfield]
  dsimp only
  rw [h.recordUndecided hfield, h.candidates, conflictOf]
  by_cases hundecided : r.undecided field = true
  · simp [Conflicting, hundecided]
  · rw [Bool.not_eq_true] at hundecided
    simp [Conflicting, hundecided, distinctValues_candidateList]

/-- **The conflicts of a sound replica.** -/
theorem Sound.conflicts {r : SyncReplica} (h : r.Sound contentDigest) :
    ∃ cs, r.conflicts = .ok cs ∧ ∀ c, c ∈ cs ↔
      r.Conflicting c.field ∧ c.candidates = r.candidateList c.field := by
  have hall : ∀ key ∈ inOrder r.document.keys, r.conflictAt key = .ok (r.conflictOf key) :=
    fun key hkey => h.conflictAt (h.keys key (mem_inOrder.mp hkey))
  refine ⟨_, by rw [SyncReplica.conflicts, mapM_eq_ok _ hall]; rfl, fun c => ?_⟩
  rw [List.reduceOption_mem_iff, List.mem_map]
  constructor
  · rintro ⟨key, -, hkey⟩
    rw [conflictOf, Option.ite_none_right_eq_some] at hkey
    obtain ⟨hconf, hc⟩ := hkey
    obtain rfl := Option.some.inj hc
    exact ⟨hconf, rfl⟩
  · rintro ⟨hconf, hc⟩
    refine ⟨c.field, mem_inOrder.mpr (mem_keys_of_shown (Nat.zero_lt_of_lt hconf.2)), ?_⟩
    rw [conflictOf, if_pos hconf, ← hc]

/-! ## Capturing -/

/-- The record was present, and no longer is. -/
structure Deletes (r : SyncReplica) (previous current : SyncValues) (resource : SyncResource) :
    Prop where
  was_present : previous.present resource = .ok true
  not_present : current.present resource = .ok false
  not_blocked : ¬ r.Blocked resource

/-- The field has another value than before, and may be written. -/
structure Edits (r : SyncReplica) (previous current : SyncValues)
    (selected : Finset SyncResource) (field : SyncField) : Prop where
  selected : field.resource ∈ selected
  not_blocked : ¬ r.Blocked field.resource
  not_deleted : ¬ r.Deletes previous current field.resource
  not_conflicting : ¬ r.Conflicting field
  changed : previous.get field ≠ current.get field

/-- The fields that a capture writes. -/
def Captures (r : SyncReplica) (previous current : SyncValues) (selected : Finset SyncResource)
    (field : SyncField) : Prop :=
  r.Edits previous current selected field ∨
  field.isPresence = true ∧
    (field.resource ∈ selected ∧ r.Deletes previous current field.resource ∨
      current.present field.resource = .ok true ∧
        ∃ f, f.resource = field.resource ∧ r.Edits previous current selected f)

/-- The value that a capture writes to a field. -/
def capturedValue (current : SyncValues) (field : SyncField) : Option FieldValue :=
  if field.isPresence then
    some (.encodeBool (decide (current.present field.resource = .ok true)))
  else current.get field

@[simp] theorem capturedValue_presence (current : SyncValues) (resource : SyncResource) :
    capturedValue current (.presence resource) =
      some (.encodeBool (decide (current.present resource = .ok true))) := rfl

theorem chosen_deletion {previous current : SyncValues} {blocked : Finset SyncResource}
    {resource : SyncResource} {w : FieldWrite} :
    chosen (deletion previous current blocked) resource = some w ↔
      (previous.present resource = .ok true ∧ current.present resource = .ok false ∧
        resource ∉ blocked) ∧ w = (.presence resource, some (.encodeBool false)) := by
  unfold chosen deletion
  cases previous.present resource with
  | error e => simp
  | ok was =>
    cases current.present resource with
    | error e => simp
    | ok isPresent =>
      simp only [Option.ite_none_right_eq_some, Except.ok.injEq, Option.some.injEq,
        Bool.and_eq_true, Bool.not_eq_true', decide_eq_true_eq]
      constructor
      · rintro ⟨⟨⟨his, hwas⟩, hfree⟩, hw⟩
        exact ⟨⟨hwas, his, hfree⟩, hw.symm⟩
      · rintro ⟨⟨hwas, his, hfree⟩, hw⟩
        exact ⟨⟨⟨his, hwas⟩, hfree⟩, hw.symm⟩

theorem chosen_changedField {previous current : SyncValues}
    {selected blockedRecords deletedRecords : Finset SyncResource}
    {blockedFields : Finset SyncField} {field : SyncField}
    (hok : ∃ w, changedField previous current selected blockedRecords deletedRecords
      blockedFields field = .ok w) {w : FieldWrite} :
    chosen (changedField previous current selected blockedRecords deletedRecords blockedFields)
        field = some w ↔
      (field.resource ∈ selected ∧ field.resource ∉ blockedRecords ∧
        field.resource ∉ deletedRecords ∧ field ∉ blockedFields ∧
        previous.get field ≠ current.get field) ∧ w = (field, capturedValue current field) := by
  obtain ⟨w', hw'⟩ := hok
  have hchosen : chosen (changedField previous current selected blockedRecords deletedRecords
    blockedFields) field = w' := by rw [chosen, hw']
  rw [hchosen]
  unfold changedField at hw'
  split at hw'
  · next h =>
    rw [Except.ok.injEq] at hw'
    subst hw'
    simp only [reduceCtorEq, false_iff, not_and]
    intro hnot
    tauto
  · next h =>
    have hcond : field.resource ∈ selected ∧ field.resource ∉ blockedRecords ∧
        field.resource ∉ deletedRecords ∧ field ∉ blockedFields ∧
        previous.get field ≠ current.get field := by tauto
    have hvalue : w' = some (field, capturedValue current field) := by
      unfold capturedValue
      split at hw'
      · split at hw'
        · simp at hw'
        · next b hb =>
          rw [Except.ok.injEq] at hw'
          rw [← hw', hb]
          cases b <;> simp_all
      · rw [Except.ok.injEq] at hw'
        rw [← hw']
        simp_all
    rw [hvalue, Option.some.injEq]
    exact ⟨fun hw => ⟨hcond, hw.symm⟩, fun hw => hw.2.symm⟩

theorem chosen_reaffirmation {current : SyncValues} {resource : SyncResource} {w : FieldWrite} :
    chosen (reaffirmation current) resource = some w ↔
      current.present resource = .ok true ∧ w = (.presence resource, some (.encodeBool true)) := by
  unfold chosen reaffirmation
  cases current.present resource with
  | error e => simp
  | ok present => cases present <;> simp [eq_comm]

/-- The fields of the conflicts that were found. -/
theorem mem_blockedFields {r : SyncReplica} {cs : List SyncConflict}
    (hmem : ∀ c, c ∈ cs ↔ r.Conflicting c.field ∧ c.candidates = r.candidateList c.field)
    {field : SyncField} : field ∈ (cs.map SyncConflict.field).toFinset ↔ r.Conflicting field := by
  rw [List.mem_toFinset, List.mem_map]
  constructor
  · rintro ⟨c, hc, rfl⟩
    exact ((hmem c).mp hc).1
  · intro hfield
    exact ⟨⟨field, r.candidateList field⟩, (hmem _).mpr ⟨hfield, rfl⟩, rfl⟩

/-- The records whose presence is among them. -/
theorem mem_blockedRecords {r : SyncReplica} {blockedFields : Finset SyncField}
    (hfields : ∀ field, field ∈ blockedFields ↔ r.Conflicting field) {resource : SyncResource} :
    resource ∈ (blockedFields.filter fun field => field.isPresence = true).image
      SyncField.resource ↔ r.Blocked resource := by
  rw [Finset.mem_image, ← conflicting_presence]
  constructor
  · rintro ⟨field, hfield, rfl⟩
    rw [Finset.mem_filter, hfields] at hfield
    rw [← SyncField.isPresence_iff.mp hfield.2]
    exact hfield.1
  · intro hresource
    exact ⟨_, Finset.mem_filter.mpr ⟨(hfields _).mpr hresource, rfl⟩, rfl⟩

/-- The records that the first loop has deleted. -/
theorem mem_deleted {r : SyncReplica} {previous current : SyncValues}
    {selected blockedRecords : Finset SyncResource}
    (hrecords : ∀ resource, resource ∈ blockedRecords ↔ r.Blocked resource) {resource : SyncResource} :
    resource ∈ ((inOrder selected).filter fun resource =>
        (chosen (deletion previous current blockedRecords) resource).isSome).toFinset ↔
      resource ∈ selected ∧ r.Deletes previous current resource := by
  rw [List.mem_toFinset, List.mem_filter, mem_inOrder, Option.isSome_iff_exists]
  simp only [chosen_deletion, hrecords]
  constructor
  · rintro ⟨hsel, w, ⟨h1, h2, h3⟩, -⟩
    exact ⟨hsel, h1, h2, h3⟩
  · rintro ⟨hsel, h1, h2, h3⟩
    exact ⟨hsel, _, ⟨h1, h2, h3⟩, rfl⟩

/-- The fields that the second loop has changed. -/
theorem edits_iff {r : SyncReplica} {previous current : SyncValues}
    {selected blockedRecords deletedRecords : Finset SyncResource} {blockedFields : Finset SyncField}
    (hfields : ∀ field, field ∈ blockedFields ↔ r.Conflicting field)
    (hrecords : ∀ resource, resource ∈ blockedRecords ↔ r.Blocked resource)
    (hdeleted : ∀ resource, resource ∈ deletedRecords ↔
      resource ∈ selected ∧ r.Deletes previous current resource) {field : SyncField} :
    r.Edits previous current selected field ↔
      field.resource ∈ selected ∧ field.resource ∉ blockedRecords ∧
        field.resource ∉ deletedRecords ∧ field ∉ blockedFields ∧
        previous.get field ≠ current.get field := by
  rw [hrecords, hdeleted, hfields]
  constructor
  · rintro ⟨h1, h2, h3, h4, h5⟩
    exact ⟨h1, h2, fun hd => h3 hd.2, h4, h5⟩
  · rintro ⟨h1, h2, h3, h4, h5⟩
    exact ⟨h1, h2, fun hd => h3 ⟨h1, hd⟩, h4, h5⟩

/-- A field that is edited has a value before or after. -/
theorem Edits.mem_keys {r : SyncReplica} {previous current : SyncValues}
    {selected : Finset SyncResource} {field : SyncField}
    (h : r.Edits previous current selected field) : field ∈ previous.keys ∪ current.keys := by
  by_contra hnot
  rw [Finset.mem_union, not_or] at hnot
  exact h.changed (by rw [FiniteMap.get_of_notMem hnot.1, FiniteMap.get_of_notMem hnot.2])

/-- **What a successful capture writes.** -/
theorem captureLocal_ok {r r' : SyncReplica} (h : r.Sound contentDigest)
    {previous current : SyncValues} {selected : Finset SyncResource} {b : Bool}
    (hcapture : r.captureLocal contentDigest previous current selected = (r', .ok b)) :
    ∃ ws : List FieldWrite, r' = r.writtenAll contentDigest ws ∧
      (∀ w ∈ ws, w.1.Valid ∧ w.2 = capturedValue current w.1) ∧
      (∀ key, (∃ w ∈ ws, w.1 = key) ↔ r.Captures previous current selected key) ∧
      ∀ resource ∈ selected, (∃ b, previous.present resource = .ok b) ∧
        ∃ b, current.present resource = .ok b := by
  obtain ⟨cs, hcs, hmem⟩ := h.conflicts
  unfold captureLocal at hcapture
  rw [hcs] at hcapture
  dsimp only at hcapture
  have hfields : ∀ field, field ∈ (cs.map SyncConflict.field).toFinset ↔ r.Conflicting field :=
    fun _ => mem_blockedFields hmem
  generalize (cs.map SyncConflict.field).toFinset = blockedFields at hcapture hfields
  have hrecords : ∀ resource, resource ∈ (blockedFields.filter fun field =>
      field.isPresence = true).image SyncField.resource ↔ r.Blocked resource :=
    fun _ => mem_blockedRecords hfields
  generalize (blockedFields.filter fun field => field.isPresence = true).image
    SyncField.resource = blockedRecords at hcapture hrecords
  split at hcapture
  · simp at hcapture
  next r₁ deleted hdeletions =>
  split at hcapture
  · simp at hcapture
  next r₂ changed hchanges =>
  split at hcapture
  · simp at hcapture
  next r₃ reaffirmed hreaffirmations =>
  rw [Prod.mk.injEq] at hcapture
  obtain ⟨rfl, -⟩ := hcapture
  obtain ⟨rfl, hdeleted, hok₁, hvalid₁⟩ := writeEach_ok _ hdeletions
  obtain ⟨rfl, hchanged, hok₂, hvalid₂⟩ := writeEach_ok _ hchanges
  obtain ⟨rfl, -, hok₃, hvalid₃⟩ := writeEach_ok _ hreaffirmations
  -- which records are deleted, and which fields are changed
  have hdel : ∀ resource, resource ∈ deleted.toFinset ↔
      resource ∈ selected ∧ r.Deletes previous current resource := by
    intro resource
    rw [hdeleted]
    exact mem_deleted hrecords
  have hedit : ∀ field, field ∈ previous.keys ∪ current.keys → ∀ w, chosen (changedField previous
      current selected blockedRecords deleted.toFinset blockedFields) field = some w ↔
      r.Edits previous current selected field ∧ w = (field, capturedValue current field) := by
    intro field hfield w
    rw [chosen_changedField (hok₂ field (mem_inOrder.mpr hfield)), edits_iff hfields hrecords hdel]
  have hchg : ∀ field, field ∈ changed ↔ r.Edits previous current selected field := by
    intro field
    rw [hchanged, List.mem_filter, mem_inOrder, Option.isSome_iff_exists]
    constructor
    · rintro ⟨hf, w, hw⟩
      exact ((hedit field hf w).mp hw).1
    · intro hf
      exact ⟨hf.mem_keys, _, (hedit field hf.mem_keys _).mpr ⟨hf, rfl⟩⟩
  refine ⟨_, by rw [← writtenAll_append, ← writtenAll_append], ?_, ?_, ?_⟩
  · intro w hw
    rw [List.mem_append, List.mem_append] at hw
    rcases hw with hw | hw | hw
    · refine ⟨hvalid₁ w hw, ?_⟩
      obtain ⟨resource, -, hchosen⟩ := List.mem_filterMap.mp hw
      obtain ⟨⟨-, hnot, -⟩, rfl⟩ := chosen_deletion.mp hchosen
      rw [capturedValue_presence, hnot]
      rfl
    · refine ⟨hvalid₂ w hw, ?_⟩
      obtain ⟨field, hfield, hchosen⟩ := List.mem_filterMap.mp hw
      obtain ⟨-, rfl⟩ := (hedit field (mem_inOrder.mp hfield) w).mp hchosen
      rfl
    · refine ⟨hvalid₃ w hw, ?_⟩
      obtain ⟨resource, -, hchosen⟩ := List.mem_filterMap.mp hw
      obtain ⟨hpresent, rfl⟩ := chosen_reaffirmation.mp hchosen
      rw [capturedValue_presence, hpresent]
      rfl
  · intro key
    constructor
    · rintro ⟨w, hw, rfl⟩
      rw [List.mem_append, List.mem_append] at hw
      rcases hw with hw | hw | hw
      · obtain ⟨resource, hresource, hchosen⟩ := List.mem_filterMap.mp hw
        obtain ⟨⟨h1, h2, h3⟩, rfl⟩ := chosen_deletion.mp hchosen
        exact Or.inr ⟨rfl, Or.inl ⟨mem_inOrder.mp hresource, h1, h2, fun hb =>
          h3 ((hrecords _).mpr hb)⟩⟩
      · obtain ⟨field, hfield, hchosen⟩ := List.mem_filterMap.mp hw
        obtain ⟨hf, rfl⟩ := (hedit field (mem_inOrder.mp hfield) w).mp hchosen
        exact Or.inl hf
      · obtain ⟨resource, hresource, hchosen⟩ := List.mem_filterMap.mp hw
        obtain ⟨hpresent, rfl⟩ := chosen_reaffirmation.mp hchosen
        refine Or.inr ⟨rfl, Or.inr ⟨hpresent, ?_⟩⟩
        rw [mem_inOrder, Finset.mem_union, hdel, List.mem_toFinset, List.mem_map] at hresource
        rcases hresource with ⟨-, hd⟩ | ⟨f, hf, rfl⟩
        · rw [hd.not_present] at hpresent
          simp at hpresent
        · exact ⟨f, rfl, (hchg f).mp hf⟩
    · rintro (hf | ⟨hpresence, ⟨hsel, hd⟩ | ⟨hpresent, f, hres, hf⟩⟩)
      · refine ⟨_, List.mem_append_right _ (List.mem_append_left _ (List.mem_filterMap.mpr
          ⟨key, mem_inOrder.mpr hf.mem_keys, (hedit key hf.mem_keys _).mpr ⟨hf, rfl⟩⟩)), rfl⟩
      · refine ⟨_, List.mem_append_left _ (List.mem_filterMap.mpr
          ⟨key.resource, mem_inOrder.mpr hsel, chosen_deletion.mpr
            ⟨⟨hd.was_present, hd.not_present, fun hb => hd.not_blocked ((hrecords _).mp hb)⟩,
              rfl⟩⟩), ?_⟩
        exact (SyncField.isPresence_iff.mp hpresence).symm
      · refine ⟨_, List.mem_append_right _ (List.mem_append_right _ (List.mem_filterMap.mpr
          ⟨key.resource, ?_, chosen_reaffirmation.mpr ⟨hpresent, rfl⟩⟩)), ?_⟩
        · rw [mem_inOrder, Finset.mem_union, List.mem_toFinset, List.mem_toFinset, List.mem_map]
          exact Or.inr ⟨f, (hchg f).mpr hf, hres⟩
        · exact (SyncField.isPresence_iff.mp hpresence).symm
  · intro resource hresource
    obtain ⟨w, hw⟩ := hok₁ resource (mem_inOrder.mpr hresource)
    unfold deletion at hw
    split at hw
    · simp at hw
    · next was hwas =>
      split at hw
      · simp at hw
      · next isPresent his => exact ⟨⟨was, hwas⟩, isPresent, his⟩

/-- **When a capture succeeds:** the presences of the selected records can be read, and what is to be
written has an identity. -/
theorem captureLocal_of_valid {r : SyncReplica} (h : r.Sound contentDigest)
    {previous current : SyncValues} {selected : Finset SyncResource}
    (hids : ∀ resource ∈ selected, resource.id ≠ "")
    (hprevious : ∀ resource ∈ selected, ∃ b, previous.present resource = .ok b)
    (hcurrent : ∀ resource ∈ selected, ∃ b, current.present resource = .ok b)
    (hvalid : ∀ field, r.Edits previous current selected field → field.Valid) :
    ∃ r' b, r.captureLocal contentDigest previous current selected = (r', .ok b) := by
  have hpresence : ∀ resource ∈ selected, (SyncField.presence resource).Valid :=
    fun resource hresource => ⟨hids resource hresource, show "$present" ≠ "" by decide⟩
  obtain ⟨cs, hcs, hmem⟩ := h.conflicts
  unfold captureLocal
  rw [hcs]
  dsimp only
  have hfields : ∀ field, field ∈ (cs.map SyncConflict.field).toFinset ↔ r.Conflicting field :=
    fun _ => mem_blockedFields hmem
  generalize (cs.map SyncConflict.field).toFinset = blockedFields at hfields ⊢
  have hrecords : ∀ resource, resource ∈ (blockedFields.filter fun field =>
      field.isPresence = true).image SyncField.resource ↔ r.Blocked resource :=
    fun _ => mem_blockedRecords hfields
  generalize (blockedFields.filter fun field => field.isPresence = true).image
    SyncField.resource = blockedRecords at hrecords ⊢
  -- the deletions
  have hdeletions : ∀ resource ∈ inOrder selected, ∃ w,
      deletion previous current blockedRecords resource = .ok w ∧ ∀ v ∈ w, v.1.Valid := by
    intro resource hresource
    rw [mem_inOrder] at hresource
    obtain ⟨was, hwas⟩ := hprevious resource hresource
    obtain ⟨present, hpresent⟩ := hcurrent resource hresource
    refine ⟨_, by rw [deletion, hwas, hpresent], ?_⟩
    intro v hv
    rw [Option.mem_def, Option.ite_none_right_eq_some] at hv
    obtain rfl := Option.some.inj hv.2
    exact hpresence resource hresource
  obtain ⟨r₁, deleted, hr₁⟩ := @writeEach_of_valid contentDigest _ _ _ hdeletions r
  rw [hr₁]
  dsimp only
  obtain ⟨-, rfl, -, -⟩ := writeEach_ok _ hr₁
  have hdeleted : ∀ resource, resource ∈ ((inOrder selected).filter fun resource =>
      (chosen (deletion previous current blockedRecords) resource).isSome).toFinset ↔
      resource ∈ selected ∧ r.Deletes previous current resource := fun _ => mem_deleted hrecords
  generalize ((inOrder selected).filter fun resource =>
    (chosen (deletion previous current blockedRecords) resource).isSome).toFinset =
    deletedRecords at hdeleted ⊢
  -- the changes
  have hchanges : ∀ field ∈ inOrder (previous.keys ∪ current.keys), ∃ w, changedField previous current
      selected blockedRecords deletedRecords blockedFields field = .ok w ∧ ∀ v ∈ w, v.1.Valid := by
    intro field _
    unfold changedField
    split
    next => exact ⟨none, rfl, by simp⟩
    next hnot =>
      push Not at hnot
      have hfield := hvalid field ((edits_iff hfields hrecords hdeleted).mpr hnot)
      split
      next =>
        obtain ⟨present, hpresent⟩ := hcurrent _ hnot.1
        rw [hpresent]
        exact ⟨_, rfl, by rintro v ⟨⟩; exact hfield⟩
      next => exact ⟨_, rfl, by rintro v ⟨⟩; exact hfield⟩
  obtain ⟨r₂, changed, hr₂⟩ := @writeEach_of_valid contentDigest _ _ _ hchanges r₁
  rw [hr₂]
  dsimp only
  obtain ⟨-, rfl, hok₂, -⟩ := writeEach_ok _ hr₂
  -- the records that are marked once more
  have hreaffirmations : ∀ resource ∈ inOrder (deletedRecords ∪ ((((inOrder (previous.keys ∪
      current.keys)).filter fun field => (chosen (changedField previous current selected
        blockedRecords deletedRecords blockedFields) field).isSome)).map
        SyncField.resource).toFinset), ∃ w, reaffirmation current resource = .ok w ∧
          ∀ v ∈ w, v.1.Valid := by
    intro resource hresource
    have hselected : resource ∈ selected := by
      rw [mem_inOrder, Finset.mem_union, hdeleted, List.mem_toFinset, List.mem_map] at hresource
      rcases hresource with ⟨hselected, -⟩ | ⟨field, hfield, rfl⟩
      · exact hselected
      · obtain ⟨hmem, hchosen⟩ := List.mem_filter.mp hfield
        obtain ⟨w, hw⟩ := Option.isSome_iff_exists.mp hchosen
        exact ((chosen_changedField (hok₂ field hmem)).mp hw).1.1
    obtain ⟨present, hpresent⟩ := hcurrent resource hselected
    refine ⟨_, by rw [reaffirmation, hpresent], ?_⟩
    intro v hv
    rw [Option.mem_def, Option.ite_none_right_eq_some] at hv
    obtain rfl := Option.some.inj hv.2
    exact hpresence resource hselected
  obtain ⟨r₃, reaffirmed, hr₃⟩ :=
    @writeEach_of_valid contentDigest _ _ _ hreaffirmations r₂
  rw [hr₃]
  exact ⟨r₃, _, rfl⟩

theorem fits_capturedValue {current : SyncValues} {w : FieldWrite} (hvalid : w.1.Valid)
    (hvalue : w.2 = capturedValue current w.1) : FieldWrite.Fits w where
  valid := hvalid
  presence hpresence := by
    rw [hvalue, capturedValue, if_pos hpresence]
    exact ⟨_, _, rfl, FieldValue.decodeBool_encodeBool _⟩

/-- **What a captured field shows afterwards:** its new value alone. -/
theorem shownDigests_captureLocal {r r' : SyncReplica} (h : r.Sound contentDigest)
    {previous current : SyncValues} {selected : Finset SyncResource} {b : Bool}
    (hcapture : r.captureLocal contentDigest previous current selected = (r', .ok b))
    {field : SyncField} (hfield : r.Captures previous current selected field) :
    r'.shownDigests field = {(capturedValue current field).map contentDigest} := by
  obtain ⟨ws, rfl, hws, hiff, -⟩ := captureLocal_ok h hcapture
  refine shownDigests_writtenAll h.ordered ws (fun w hw hkey => ?_) ((hiff field).mpr hfield)
  rw [← hkey]
  exact (hws w hw).2

/-- A field that is not captured shows what it did. -/
theorem visible_captureLocal_of_not {r r' : SyncReplica} (h : r.Sound contentDigest)
    {previous current : SyncValues} {selected : Finset SyncResource} {b : Bool}
    (hcapture : r.captureLocal contentDigest previous current selected = (r', .ok b))
    {field : SyncField} (hfield : ¬ r.Captures previous current selected field) :
    r'.document.visible field = r.document.visible field := by
  obtain ⟨ws, rfl, -, hiff, -⟩ := captureLocal_ok h hcapture
  refine visible_writtenAll_of_notMem r ws fun w hw hkey => hfield ((hiff field).mp ⟨w, hw, hkey⟩)

/-! ## Replacing and resolving -/

/-- The value that a replacement writes to a field. -/
theorem chosen_replacement {values : SyncValues} {field : SyncField} {w : FieldWrite} :
    chosen (replacement values) field = some w →
      w.1 = field ∧ (field.isPresence = true → ∃ b, w.2 = some (.encodeBool b)) ∧
        (field.isPresence = false → .presence field.resource ∈ values.keys) := by
  unfold chosen replacement
  cases hpresence : field.isPresence with
  | true =>
    cases values.present field.resource with
    | error e => simp
    | ok b =>
      rintro h
      obtain rfl := Option.some.inj h
      exact ⟨rfl, fun _ => ⟨b, rfl⟩, by simp⟩
  | false =>
    simp only [Bool.false_eq_true, if_false, Option.ite_none_right_eq_some, Option.some.injEq]
    rintro ⟨hmem, rfl⟩
    exact ⟨rfl, by simp, fun _ => hmem⟩

/-- **What a successful replacement writes.** -/
theorem replaceFields_ok {r r' : SyncReplica} {values : SyncValues} {fields : Finset SyncField}
    (h : r.replaceFields contentDigest values fields = (r', .ok ())) :
    ∃ ws : List FieldWrite, r' = r.writtenAll contentDigest ws ∧
      (∀ w ∈ ws, FieldWrite.Fits w) ∧
      (∀ w ∈ ws, w.1 ∈ fields ∧
        (w.1.isPresence = false → .presence w.1.resource ∈ values.keys)) ∧
      ∀ field ∈ fields, field.isPresence = true → ∃ w ∈ ws, w.1 = field := by
  unfold replaceFields at h
  split at h
  · simp at h
  next r₁ written hloop =>
  rw [Prod.mk.injEq] at h
  obtain ⟨rfl, -⟩ := h
  obtain ⟨rfl, -, hok, hvalid⟩ := writeEach_ok _ hloop
  refine ⟨_, rfl, ?_, ?_, ?_⟩
  · intro w hw
    obtain ⟨field, -, hchosen⟩ := List.mem_filterMap.mp hw
    obtain ⟨rfl, hpresence, -⟩ := chosen_replacement hchosen
    refine ⟨hvalid w hw, fun hp => ?_⟩
    obtain ⟨b, hb⟩ := hpresence hp
    exact ⟨_, b, hb, FieldValue.decodeBool_encodeBool b⟩
  · intro w hw
    obtain ⟨field, hfield, hchosen⟩ := List.mem_filterMap.mp hw
    obtain ⟨rfl, -, hmem⟩ := chosen_replacement hchosen
    exact ⟨mem_inOrder.mp hfield, hmem⟩
  · intro field hfield hpresence
    obtain ⟨w, hw⟩ := hok field (mem_inOrder.mpr hfield)
    have hreplace := hw
    unfold replacement at hreplace
    rw [if_pos hpresence] at hreplace
    split at hreplace
    · simp at hreplace
    · next b hb =>
      obtain rfl := Except.ok.inj hreplace
      exact ⟨_, List.mem_filterMap.mpr ⟨field, mem_inOrder.mpr hfield, by rw [chosen, hw]⟩, rfl⟩

/-- **What a successful resolution writes.** -/
theorem resolve_ok {r r' : SyncReplica} {conflict : SyncConflict} {choice : Option FieldValue}
    (h : r.resolve contentDigest conflict choice = (r', .ok ())) :
    FieldWrite.Fits (conflict.field, choice) ∧
      r' = r.written contentDigest (conflict.field, choice) ∧
      conflict.candidates = r.candidateList conflict.field := by
  unfold resolve at h
  split at h
  · simp at h
  next key hkey =>
  obtain ⟨hvalid, rfl⟩ := SyncField.key_ok_iff.mp hkey
  split at h
  · simp at h
  next cs hcs =>
  split at h
  · simp at h
  next hsame =>
  rw [not_not] at hsame
  split at h
  · simp at h
  next hchoice =>
  obtain ⟨-, rfl⟩ := write_ok h
  refine ⟨⟨hvalid, fun hpresence => ?_⟩, rfl, ?_⟩
  · unfold validateChoice at hchoice
    rw [if_pos hpresence] at hchoice
    cases choice with
    | none => simp at hchoice
    | some value =>
      cases hb : value.decodeBool with
      | error e => simp [hb, Except.map] at hchoice
      | ok b => exact ⟨value, b, rfl, hb⟩
  · rw [← hsame]
    exact (candidates_eq_ok_iff.mp hcs).2

/-! ## Merging -/

/-- **What a successful merge comes to.** -/
theorem merge_ok {r r' : SyncReplica} {remote : ReplicaSnapshot} (hordered : remote.document.Ordered)
    (h : r.merge contentDigest remote = (r', .ok ())) :
    r' = { r with document := r.document ∪ remote.document
                  values := r.values.extend remote.values } ∧
      (⟨remote.document, 0, remote.values⟩ : SyncReplica).Valid contentDigest := by
  unfold merge at h
  split at h
  · simp at h
  next incoming hload =>
  obtain ⟨-, rfl, hvalid⟩ := (load_ok_iff hordered).mp hload
  rw [Prod.mk.injEq] at h
  exact ⟨h.1.symm, hvalid⟩

/-- The values of two sound replicas do not disagree. -/
theorem get_extend_of_digests (hinj : Function.Injective contentDigest)
    {values values' : FiniteMap String FieldValue}
    (h : ∀ digest value, values.get digest = some value → contentDigest value = digest)
    (h' : ∀ digest value, values'.get digest = some value → contentDigest value = digest)
    {digest : String} {value : FieldValue} :
    (values.extend values').get digest = some value ↔
      values.get digest = some value ∨ values'.get digest = some value := by
  rw [FiniteMap.get_extend]
  cases hget' : values'.get digest with
  | none => simp
  | some value' =>
    simp only [Option.some_or, Option.some.injEq]
    constructor
    · rintro rfl
      exact Or.inr rfl
    · rintro (hget | hget)
      · exact hinj ((h' digest value' hget').trans (h digest value hget).symm)
      · exact hget

/-- **Merging keeps replicas sound.** -/
theorem Sound.union (hinj : Function.Injective contentDigest) {r s : SyncReplica}
    (h : r.Sound contentDigest) (h' : s.Sound contentDigest) :
    ({ r with document := r.document ∪ s.document
              values := r.values.extend s.values } : SyncReplica).Sound contentDigest where
  ordered := h.ordered.union h'.ordered
  digests digest value hget := by
    rcases (get_extend_of_digests hinj h.digests h'.digests).mp hget with hget | hget
    · exact h.digests digest value hget
    · exact h'.digests digest value hget
  keys key hkey := by
    rw [Document.keys_union, Finset.mem_union] at hkey
    rcases hkey with hkey | hkey
    · exact h.keys key hkey
    · exact h'.keys key hkey
  shown key p hp := by
    rcases Finset.mem_union.mp (Document.visible_union_subset _ _ _ hp) with hp | hp
    · exact (h.shown key p hp).mono fun _ _ hget =>
        (get_extend_of_digests hinj h.digests h'.digests).mpr (Or.inl hget)
    · exact (h'.shown key p hp).mono fun _ _ hget =>
        (get_extend_of_digests hinj h.digests h'.digests).mpr (Or.inr hget)

/-- **Merging keeps replicas valid.** -/
theorem Valid.union (hinj : Function.Injective contentDigest) {r s : SyncReplica}
    (h : r.Valid contentDigest) (h' : s.Valid contentDigest) :
    ({ r with document := r.document ∪ s.document
              values := r.values.extend s.values } : SyncReplica).Valid contentDigest where
  toSound := h.toSound.union hinj h'.toSound
  rooted key hkey := by
    rw [Document.keys_union, Finset.mem_union] at hkey ⊢
    rcases hkey with hkey | hkey
    · exact Or.inl (h.rooted key hkey)
    · exact Or.inr (h'.rooted key hkey)

end SyncReplica

end OxideTerm.CloudSync
