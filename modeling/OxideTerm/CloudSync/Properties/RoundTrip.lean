import OxideTerm.CloudSync.Materialize
import OxideTerm.CloudSync.Network
import OxideTerm.CloudSync.Reference

/-!
# Capturing, then applying

What was captured is applied again right away. The capture compares with the values that were applied
last, so a register whose field has not changed since is not written to. The registers of a deleted
record keep their values though they were not applied: when the record comes back, so do they.
-/

namespace OxideTerm.CloudSync

open OxideTerm.Lib

variable {contentDigest : FieldValue → String}

/-! ## Local values -/

/-- Values that are there only for records that are marked as present. -/
def LocalValues (values : SyncValues) : Prop :=
  ∀ field ∈ values.keys, values.get (.presence field.resource) = some (.encodeBool true)

theorem LocalValues.cases {values : SyncValues} (h : LocalValues values) (resource : SyncResource) :
    values.get (.presence resource) = some (.encodeBool true) ∧ values.present resource = .ok true ∨
    values.present resource = .ok false ∧
      ∀ field, field.resource = resource → values.get field = none := by
  unfold SyncValues.present
  cases hget : values.get (.presence resource) with
  | none =>
    refine .inr ⟨rfl, ?_⟩
    rintro field rfl
    by_contra hsome
    have hmem : field ∈ values.keys := by rwa [values.mem_keys, Option.isSome_iff_ne_none]
    rw [h field hmem] at hget
    cases hget
  | some value =>
    have hpresent := h _ (FiniteMap.mem_keys_of_get hget)
    rw [SyncField.resource_presence, hget] at hpresent
    refine .inl ⟨hpresent, ?_⟩
    rw [Option.some.inj hpresent]
    exact FieldValue.decodeBool_encodeBool true

/-- The records are without conflicts. -/
def SyncReplica.Undisputed (r : SyncReplica) (selected : Finset SyncResource) : Prop :=
  ∃ conflicts, r.conflicts = .ok conflicts ∧
    ∀ conflict ∈ conflicts, conflict.field.resource ∉ selected

/-- The values are what the replica applied last to the records. -/
def SyncReplica.Materialized (r : SyncReplica) (values : SyncValues)
    (selected : Finset SyncResource) : Prop :=
  ∃ loc known out, LocalValues loc ∧ selected ⊆ known ∧ r.materialize loc known = .ok out ∧
    ∀ field, field.resource ∈ selected → values.get field = out.get field

namespace SyncReplica

/-! ## One record -/

section

variable {r : SyncReplica} {previous current : SyncValues} {selected : Finset SyncResource}

theorem Undisputed.not_conflicting (h : r.Sound contentDigest) (hclean : r.Undisputed selected)
    {field : SyncField} (hfield : field.resource ∈ selected) : ¬ r.Conflicting field := by
  obtain ⟨conflicts, hconflicts, hnone⟩ := hclean
  obtain ⟨cs, hcs, hmem⟩ := h.conflicts
  obtain rfl : conflicts = cs := Except.ok.inj (hconflicts.symm.trans hcs)
  intro hconflicting
  exact hnone ⟨field, r.candidateList field⟩ ((hmem _).mpr ⟨hconflicting, rfl⟩) hfield

theorem Undisputed.not_blocked (h : r.Sound contentDigest) (hclean : r.Undisputed selected)
    {resource : SyncResource} (hresource : resource ∈ selected) : ¬ r.Blocked resource := by
  rw [← conflicting_presence]
  exact hclean.not_conflicting h hresource

theorem Undisputed.not_unresolved (h : r.Sound contentDigest) (hclean : r.Undisputed selected)
    {resource : SyncResource} (hresource : resource ∈ selected) : ¬ r.Unresolved resource := by
  rintro ⟨field, -, rfl, hconflicting⟩
  exact hclean.not_conflicting h hresource hconflicting

/-- What was applied last to a field, by the presence that is shown of its record. -/
structure AppliedLast (r : SyncReplica) (values : SyncValues) (resource : SyncResource) : Prop where
  id : resource.id ≠ ""
  unknown : r.shownPresent resource = none → ∃ loc, LocalValues loc ∧
    ∀ field, field.resource = resource → values.get field = loc.get field
  absent : r.shownPresent resource = some false →
    ∀ field, field.resource = resource → values.get field = none
  present : r.shownPresent resource = some true →
    ∀ field, field.resource = resource → ∀ value, r.decided field = some value →
      values.get field = value

theorem Materialized.appliedLast (h : r.Sound contentDigest) (hclean : r.Undisputed selected)
    (hprevious : r.Materialized previous selected) {resource : SyncResource}
    (hresource : resource ∈ selected) : r.AppliedLast previous resource := by
  obtain ⟨loc, known, out, hloc, hsubset, hout, hsame⟩ := hprevious
  have hids := id_of_materialize hout
  obtain ⟨out', hout', hget⟩ := h.materialize hids loc
  obtain rfl : out = out' := Except.ok.inj (hout.symm.trans hout')
  have hvalue : ∀ field, field.resource = resource →
      previous.get field = r.applied loc (loc.get field) field := by
    rintro field rfl
    rw [hsame field hresource, hget, if_pos (hsubset hresource)]
  refine ⟨hids _ (hsubset hresource), fun hshown => ⟨loc, hloc, ?_⟩, fun hshown => ?_,
    fun hshown => ?_⟩
  · rintro field rfl
    rw [hvalue field rfl, applied, hshown]
  · rintro field rfl
    rw [hvalue field rfl, applied, hshown]
  · rintro field rfl value hdecided
    rw [hvalue field rfl, applied, hshown, hdecided]
    exact if_neg fun hboth => hclean.not_unresolved h hresource hboth.2

/-- What was applied last says whether the record was present. -/
theorem AppliedLast.present_ok (h : r.Sound contentDigest) {resource : SyncResource}
    (hlast : r.AppliedLast previous resource) :
    previous.present resource = .ok true ∨
    previous.present resource = .ok false ∧ r.shownPresent resource ≠ some true ∧
      ∀ field, field.resource = resource → previous.get field = none := by
  rcases h.presence_cases resource with ⟨-, hshown⟩ | ⟨value, b, hdecided, hbool, hshown⟩
  · obtain ⟨loc, hloc, hsame⟩ := hlast.unknown hshown
    have hpresent : previous.present resource = loc.present resource := by
      rw [SyncValues.present, SyncValues.present, hsame _ rfl]
    rw [hpresent, hshown]
    rcases hloc.cases resource with ⟨-, htrue⟩ | ⟨hfalse, hnone⟩
    · exact .inl htrue
    · refine .inr ⟨hfalse, by simp, ?_⟩
      intro field hfield
      rw [hsame field hfield, hnone field hfield]
  · cases b with
    | true =>
      left
      rw [SyncValues.present, hlast.present hshown _ rfl _ hdecided]
      exact hbool
    | false =>
      have hnone := hlast.absent hshown
      refine .inr ⟨?_, by rw [hshown]; simp, hnone⟩
      rw [SyncValues.present, hnone _ rfl]

/-- The register of a field has another value than the field, which has not changed since the record
was applied: the record itself is not shown as present, and is there again. -/
structure Regains (r : SyncReplica) (previous current : SyncValues) (field : SyncField) : Prop where
  not_presence : field.isPresence = false
  not_shown : r.shownPresent field.resource ≠ some true
  present : current.get (.presence field.resource) = some (.encodeBool true)
  changed : ∃ f, f.resource = field.resource ∧ previous.get f ≠ current.get f
  unchanged : previous.get field = current.get field
  kept : ∃ value, r.decided field = some value ∧ value ≠ current.get field

/-! ## What the capture changes -/

theorem Captures.decided (hinj : Function.Injective contentDigest) (h : r.Sound contentDigest)
    {r' : SyncReplica} (h' : r'.Sound contentDigest) {b : Bool}
    (hcapture : r.captureLocal contentDigest previous current selected = (r', .ok b))
    {field : SyncField} (hfield : r.Captures previous current selected field) :
    r'.decided field = some (capturedValue current field) :=
  (h'.decided_eq_some_iff hinj).mpr (shownDigests_captureLocal h hcapture hfield)

theorem decided_captureLocal_of_not (hinj : Function.Injective contentDigest)
    (h : r.Sound contentDigest) {r' : SyncReplica} (h' : r'.Sound contentDigest) {b : Bool}
    (hcapture : r.captureLocal contentDigest previous current selected = (r', .ok b))
    {field : SyncField} (hfield : ¬ r.Captures previous current selected field) :
    r'.decided field = r.decided field := by
  refine h.decided_congr hinj h' ?_
  rw [shownDigests, visible_captureLocal_of_not h hcapture hfield, shownDigests]

/-- A capture keeps the replica sound. -/
theorem Sound.captureLocal (hinj : Function.Injective contentDigest) (h : r.Sound contentDigest)
    {r' : SyncReplica} {b : Bool}
    (hcapture : r.captureLocal contentDigest previous current selected = (r', .ok b)) :
    r'.Sound contentDigest := by
  obtain ⟨ws, rfl, hws, -, -⟩ := captureLocal_ok h hcapture
  exact h.writtenAll hinj ws fun w hw => fits_capturedValue (hws w hw).1 (hws w hw).2

/-- Without conflicts every field that has changed is edited, unless its record is deleted. -/
theorem Undisputed.edits_iff (h : r.Sound contentDigest) (hclean : r.Undisputed selected)
    {field : SyncField} (hselected : field.resource ∈ selected)
    (hpresent : current.present field.resource = .ok true) :
    r.Edits previous current selected field ↔ previous.get field ≠ current.get field := by
  constructor
  · intro hedits
    exact hedits.changed
  · intro hchanged
    refine ⟨hselected, hclean.not_blocked h hselected, ?_, hclean.not_conflicting h hselected,
      hchanged⟩
    intro hdeletes
    have habsent := hdeletes.not_present
    rw [hpresent] at habsent
    cases habsent

/-- **What becomes of a record that is not there:** it is removed. -/
theorem applied_captureLocal_of_absent (hinj : Function.Injective contentDigest)
    (h : r.Sound contentDigest) (hclean : r.Undisputed selected) {r' : SyncReplica}
    (h' : r'.Sound contentDigest) {b : Bool}
    (hcapture : r.captureLocal contentDigest previous current selected = (r', .ok b))
    {field : SyncField} (hselected : field.resource ∈ selected)
    (hlast : r.AppliedLast previous field.resource)
    (habsent : current.present field.resource = .ok false)
    (hnone : ∀ f, f.resource = field.resource → current.get f = none) :
    r'.applied current (current.get field) field = current.get field := by
  rw [hnone field rfl, applied]
  rcases hlast.present_ok h with hwas | ⟨hwas, hshown, hprevious⟩
  · -- The record is deleted.
    have hcaptures : r.Captures previous current selected (.presence field.resource) :=
      .inr ⟨rfl, .inl ⟨hselected, hwas, habsent, hclean.not_blocked h hselected⟩⟩
    have hdecided := hcaptures.decided hinj h h' hcapture
    rw [capturedValue_presence, habsent] at hdecided
    have hshown : r'.shownPresent field.resource = some false := by
      rw [shownPresent, hdecided]
      rfl
    rw [hshown]
  · have hnot : ¬ r.Captures previous current selected (.presence field.resource) := by
      rintro (hedits | ⟨-, ⟨-, hdeletes⟩ | ⟨hpresent, -⟩⟩)
      · exact hedits.changed ((hprevious (.presence field.resource) rfl).trans
          (hnone (.presence field.resource) rfl).symm)
      · have hwas' := hdeletes.was_present
        rw [SyncField.resource_presence, hwas] at hwas'
        cases hwas'
      · rw [SyncField.resource_presence, habsent] at hpresent
        cases hpresent
    have hsame : r'.shownPresent field.resource = r.shownPresent field.resource := by
      rw [shownPresent, decided_captureLocal_of_not hinj h h' hcapture hnot, shownPresent]
    rw [hsame]
    cases hpresent : r.shownPresent field.resource with
    | none => rfl
    | some present =>
      cases present with
      | false => rfl
      | true => exact absurd hpresent hshown

/-- **What becomes of a record that is there:** its fields are those that it has, and those that it
regains. -/
theorem applied_captureLocal_of_present (hinj : Function.Injective contentDigest)
    (h : r.Sound contentDigest) (hclean : r.Undisputed selected) {r' : SyncReplica}
    (h' : r'.Sound contentDigest) {b : Bool}
    (hcapture : r.captureLocal contentDigest previous current selected = (r', .ok b))
    {field : SyncField} (hselected : field.resource ∈ selected)
    (hlast : r.AppliedLast previous field.resource)
    (hpresence : current.get (.presence field.resource) = some (.encodeBool true))
    (hpresent : current.present field.resource = .ok true) :
    r'.applied current (current.get field) field = current.get field ↔
      ¬ r.Regains previous current field := by
  have hedits : ∀ f, f.resource = field.resource → (r.Edits previous current selected f ↔
      previous.get f ≠ current.get f) := by
    intro f hf
    exact hclean.edits_iff h (by rwa [hf]) (by rwa [hf])
  have hloc : SyncField.presence field.resource ∈ current.keys := FiniteMap.mem_keys_of_get hpresence
  by_cases hchanged : ∃ f, f.resource = field.resource ∧ previous.get f ≠ current.get f
  · -- The record is marked as present once more.
    have hcaptures : r.Captures previous current selected (.presence field.resource) := by
      obtain ⟨f, hf, hne⟩ := hchanged
      exact .inr ⟨rfl, .inr ⟨hpresent, f, hf, (hedits f hf).mpr hne⟩⟩
    have hmarked := hcaptures.decided hinj h h' hcapture
    rw [capturedValue_presence, hpresent] at hmarked
    have hshown : r'.shownPresent field.resource = some true := by
      rw [shownPresent, hmarked]
      rfl
    rw [applied, hshown]
    dsimp only
    rw [if_neg fun hboth => hboth.1 hloc]
    by_cases hfield : r.Captures previous current selected field
    · have hvalue : capturedValue current field = current.get field := by
        unfold capturedValue
        split
        next hpres =>
          rw [SyncField.isPresence_iff.mp hpres, hpresence, SyncField.resource_presence, hpresent]
          rfl
        next => rfl
      rw [hfield.decided hinj h h' hcapture, hvalue]
      refine iff_of_true rfl ?_
      intro hregains
      rcases hfield with hedited | ⟨hpres, -⟩
      · exact hedited.changed hregains.unchanged
      · rw [hregains.not_presence] at hpres
        cases hpres
    · rw [decided_captureLocal_of_not hinj h h' hcapture hfield]
      have hunchanged : previous.get field = current.get field := by
        by_contra hne
        exact hfield (.inl ((hedits field rfl).mpr hne))
      have hnot : field.isPresence = false := by
        rw [← Bool.not_eq_true]
        intro hpres
        rw [SyncField.isPresence_iff.mp hpres] at hfield
        exact hfield hcaptures
      cases hdecided : r.decided field with
      | none =>
        refine iff_of_true rfl ?_
        intro hregains
        obtain ⟨value, hvalue, -⟩ := hregains.kept
        rw [hdecided] at hvalue
        cases hvalue
      | some value =>
        rw [Option.getD_some]
        by_cases hwas : r.shownPresent field.resource = some true
        · refine iff_of_true ?_ fun hregains => hregains.not_shown hwas
          rw [← hlast.present hwas field rfl value hdecided, hunchanged]
        · constructor
          · rintro rfl hregains
            obtain ⟨value, hvalue, hne⟩ := hregains.kept
            rw [hdecided] at hvalue
            exact hne (Option.some.inj hvalue).symm
          · intro hregains
            by_contra hne
            exact hregains ⟨hnot, hwas, hpresence, hchanged, hunchanged, value, hdecided, hne⟩
  · -- Nothing of the record is written.
    have hsame : ∀ f, f.resource = field.resource → previous.get f = current.get f := by
      intro f hf
      by_contra hne
      exact hchanged ⟨f, hf, hne⟩
    have hnot : ∀ f, f.resource = field.resource → ¬ r.Captures previous current selected f := by
      rintro f hf (hedited | ⟨-, ⟨-, hdeletes⟩ | ⟨-, g, hg, hedited⟩⟩)
      · exact hedited.changed (hsame f hf)
      · have habsent := hdeletes.not_present
        rw [hf, hpresent] at habsent
        cases habsent
      · exact hedited.changed (hsame g (hg.trans hf))
    have hdecided : ∀ f, f.resource = field.resource → r'.decided f = r.decided f := by
      intro f hf
      exact decided_captureLocal_of_not hinj h h' hcapture (hnot f hf)
    refine iff_of_true ?_ fun hregains => hchanged hregains.changed
    have hshown : r'.shownPresent field.resource = r.shownPresent field.resource := by
      rw [shownPresent, hdecided (.presence field.resource) rfl, shownPresent]
    rw [applied, hshown]
    cases hwas : r.shownPresent field.resource with
    | none => rfl
    | some present =>
      cases present with
      | false =>
        have habsent := hlast.absent hwas (.presence field.resource) rfl
        rw [hsame (.presence field.resource) rfl, hpresence] at habsent
        cases habsent
      | true =>
        dsimp only
        rw [if_neg fun hboth => hboth.1 hloc, hdecided field rfl]
        cases hvalue : r.decided field with
        | none => rfl
        | some value =>
          rw [Option.getD_some, ← hlast.present hwas field rfl value hvalue, hsame field rfl]

/-- What becomes of a field of a selected record. -/
theorem applied_captureLocal_iff (hinj : Function.Injective contentDigest)
    (h : r.Sound contentDigest) (hclean : r.Undisputed selected)
    (hprevious : r.Materialized previous selected) (hcurrent : LocalValues current)
    {r' : SyncReplica} {b : Bool}
    (hcapture : r.captureLocal contentDigest previous current selected = (r', .ok b))
    {field : SyncField} (hselected : field.resource ∈ selected) :
    r'.applied current (current.get field) field = current.get field ↔
      ¬ r.Regains previous current field := by
  have h' := h.captureLocal hinj hcapture
  have hlast := hprevious.appliedLast h hclean hselected
  rcases hcurrent.cases field.resource with ⟨hpresence, hpresent⟩ | ⟨habsent, hnone⟩
  · exact applied_captureLocal_of_present hinj h hclean h' hcapture hselected hlast hpresence hpresent
  · refine iff_of_true
      (applied_captureLocal_of_absent hinj h hclean h' hcapture hselected hlast habsent hnone) ?_
    intro hregains
    have hpresence := hregains.present
    rw [hnone (.presence field.resource) rfl] at hpresence
    cases hpresence

end

/-- What is captured is applied: the selected records have the values they had. -/
def RoundTrips (contentDigest : FieldValue → String) (r : SyncReplica)
    (previous current : SyncValues) (selected : Finset SyncResource) : Prop :=
  ∃ r' changed out, r.captureLocal contentDigest previous current selected = (r', .ok changed) ∧
    r'.materialize current selected = .ok out ∧
    ∀ field, field.resource ∈ selected → out.get field = current.get field

/-- When what is captured is applied, for a sound replica. -/
theorem roundTrips_iff_of_sound (hinj : Function.Injective contentDigest) {r : SyncReplica}
    (h : r.Sound contentDigest) {previous current : SyncValues} {selected : Finset SyncResource}
    (hclean : r.Undisputed selected) (hprevious : r.Materialized previous selected)
    (hcurrent : LocalValues current) :
    r.RoundTrips contentDigest previous current selected ↔
      (∀ field, r.Edits previous current selected field → field.Valid) ∧
      ∀ field, field.resource ∈ selected → ¬ r.Regains previous current field := by
  have hids : ∀ resource ∈ selected, resource.id ≠ "" :=
    fun resource hresource => (hprevious.appliedLast h hclean hresource).id
  constructor
  · rintro ⟨r', changed, out, hcapture, hout, hsame⟩
    obtain ⟨ws, -, hws, hiff, -⟩ := captureLocal_ok h hcapture
    refine ⟨?_, ?_⟩
    · intro field hedits
      obtain ⟨w, hw, rfl⟩ := (hiff field).mpr (.inl hedits)
      exact (hws w hw).1
    · intro field hselected
      obtain ⟨out', hout', hget⟩ := (h.captureLocal hinj hcapture).materialize hids current
      obtain rfl : out = out' := Except.ok.inj (hout.symm.trans hout')
      have happlied := hget field
      rw [if_pos hselected] at happlied
      rw [← applied_captureLocal_iff hinj h hclean hprevious hcurrent hcapture hselected,
        ← happlied, hsame field hselected]
  · rintro ⟨hvalid, hnone⟩
    have hcaptures : ∃ r' changed,
        r.captureLocal contentDigest previous current selected = (r', .ok changed) := by
      refine captureLocal_of_valid h hids (fun resource hresource => ?_) (fun resource _ => ?_) hvalid
      · rcases (hprevious.appliedLast h hclean hresource).present_ok h with hpresent | ⟨habsent, -⟩
        · exact ⟨true, hpresent⟩
        · exact ⟨false, habsent⟩
      · rcases hcurrent.cases resource with ⟨-, hpresent⟩ | ⟨habsent, -⟩
        · exact ⟨true, hpresent⟩
        · exact ⟨false, habsent⟩
    obtain ⟨r', changed, hcapture⟩ := hcaptures
    obtain ⟨out, hout, hget⟩ := (h.captureLocal hinj hcapture).materialize hids current
    refine ⟨r', changed, out, hcapture, hout, ?_⟩
    intro field hselected
    rw [hget, if_pos hselected]
    exact (applied_captureLocal_iff hinj h hclean hprevious hcurrent hcapture hselected).mpr
      (hnone field hselected)

end SyncReplica

open SyncReplica

/-! ## A record that comes back -/

/-- The field beside the name. -/
def note : SyncField where
  resource := Reference.connection
  group := "note"

/-- The connection with a name and a note. -/
def noted : SyncValues :=
  .ofList [(.presence Reference.connection, .encodeBool true), (Reference.name, [0x22, 0x61, 0x22]),
    (note, [0x22, 0x6e, 0x22])]

/-- A connection is created and deleted. -/
def deletedConnection : List NetworkStep :=
  [.call 1 (.captureLocal .empty noted {Reference.connection}),
    .call 1 (.captureLocal noted .empty {Reference.connection})]

/-- The replica that knows of the deletion. -/
def afterDeletion : SyncReplica :=
  ((network Reference.contentDigest).final deletedConnection).replica 1

/-- The connection that comes back, without a note. -/
def comesBack : SyncValues := Reference.named [0x22, 0x61, 0x22]

theorem localValues_comesBack : LocalValues comesBack := by
  intro field hfield
  have hall : ∀ field ∈ comesBack.keys,
      comesBack.get (.presence field.resource) = some (.encodeBool true) := by decide
  exact hall field hfield

theorem localValues_empty : LocalValues .empty := by
  intro field hfield
  simp at hfield

theorem undisputed_afterDeletion : afterDeletion.Undisputed {Reference.connection} :=
  ⟨[], by decide +kernel, by simp⟩

theorem materialized_afterDeletion : afterDeletion.Materialized .empty {Reference.connection} := by
  have hout : (afterDeletion.materialize .empty {Reference.connection}).toOption = some .empty := by
    decide +kernel
  exact ⟨.empty, {Reference.connection}, .empty, localValues_empty, Finset.Subset.refl _,
    toOption_eq_some.mp hout, fun _ _ => rfl⟩

/-- **Capturing and applying changes nothing, except that a record which comes back regains what its
registers still hold.** The fields that have changed need an identity, and no field of a record that
comes back may have a register with another value. -/
theorem capture_materialize_iff (hinj : Function.Injective contentDigest) (steps : List NetworkStep)
    (u : Uuid) {previous current : SyncValues} {selected : Finset SyncResource}
    (hclean : (((network contentDigest).final steps).replica u).Undisputed selected)
    (hprevious : (((network contentDigest).final steps).replica u).Materialized previous selected)
    (hcurrent : LocalValues current) :
    (((network contentDigest).final steps).replica u).RoundTrips contentDigest previous current
        selected ↔
      (∀ field, (((network contentDigest).final steps).replica u).Edits previous current selected
        field → field.Valid) ∧
      ∀ field, field.resource ∈ selected →
        ¬ (((network contentDigest).final steps).replica u).Regains previous current field :=
  roundTrips_iff_of_sound hinj ((Network.invariant hinj steps).sound u) hclean hprevious hcurrent

theorem capture_materialize_iff_afterDeletion :
    afterDeletion.RoundTrips Reference.contentDigest .empty comesBack {Reference.connection} ↔
      (∀ field, afterDeletion.Edits .empty comesBack {Reference.connection} field → field.Valid) ∧
      ∀ field, field.resource ∈ ({Reference.connection} : Finset SyncResource) →
        ¬ afterDeletion.Regains .empty comesBack field :=
  capture_materialize_iff Reference.contentDigest_injective deletedConnection 1 undisputed_afterDeletion
    materialized_afterDeletion localValues_comesBack

/-- A connection that comes back has its note again. -/
theorem afterDeletion_regains_note :
    ¬ ∀ (steps : List NetworkStep) (u : Uuid) (previous current : SyncValues)
      (selected : Finset SyncResource),
      (((network Reference.contentDigest).final steps).replica u).Undisputed selected →
      (((network Reference.contentDigest).final steps).replica u).Materialized previous selected →
      LocalValues current →
      (((network Reference.contentDigest).final steps).replica u).RoundTrips Reference.contentDigest
        previous current selected := by
  intro hall
  obtain ⟨r', changed, out, hcapture, hout, hsame⟩ := hall deletedConnection 1 .empty comesBack
    {Reference.connection} undisputed_afterDeletion materialized_afterDeletion localValues_comesBack
  have hregained : ((afterDeletion.captureLocal Reference.contentDigest .empty comesBack
      {Reference.connection}).1.materialize comesBack {Reference.connection}).map
        (fun out => out.get note) = .ok (some [0x22, 0x6e, 0x22]) := by
    decide +kernel
  have hnone : comesBack.get note = none := by decide
  rw [show afterDeletion.captureLocal _ _ _ _ = _ from hcapture, hout] at hregained
  have hnote := hsame note (by decide)
  rw [hnone] at hnote
  rw [Except.map, hnote] at hregained
  cases hregained

end OxideTerm.CloudSync
