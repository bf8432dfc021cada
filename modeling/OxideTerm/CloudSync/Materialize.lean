import OxideTerm.CloudSync.Capture

/-!
# What a replica applies

A register that shows one value decides its field. The presence of a record decides whether its
fields are applied at all: a record that is shown as absent is removed, and one that is not shown is
left as it is.
-/

namespace OxideTerm.CloudSync

open OxideTerm.Lib

namespace SyncReplica

variable {contentDigest : FieldValue → String}

/-! ## Registers that show one value -/

/-- The value that the register of a field shows, if it shows a single one. No value is shown as an
explicit absence. -/
def decided (r : SyncReplica) (field : SyncField) : Option (Option FieldValue) :=
  match r.candidateList field with
  | [] => none
  | candidate :: others =>
    if distinctValues (candidate :: others) > 1 then none else some (r.candidateValue candidate)

/-- **A register decides for the value that it shows alone.** -/
theorem Sound.decided_eq_some_iff (hinj : Function.Injective contentDigest) {r : SyncReplica}
    (h : r.Sound contentDigest) {field : SyncField} {value : Option FieldValue} :
    r.decided field = some value ↔ r.shownDigests field = {value.map contentDigest} := by
  have hdigest : ∀ c ∈ r.candidateList field, c.valueDigest ∈ r.shownDigests field ∧
      c.valueDigest = (r.candidateValue c).map contentDigest := by
    intro c hc
    obtain ⟨p, hp, rfl⟩ := mem_candidateList.mp hc
    refine ⟨Finset.mem_image.mpr ⟨p, hp, rfl⟩, ?_⟩
    have hsupported := h.shown field p hp
    unfold Supported at hsupported
    unfold candidateValue candidateOf
    cases hscalar : p.value with
    | reference digest i =>
      rw [hscalar] at hsupported
      obtain ⟨value, hget, -⟩ := hsupported
      simp only [Option.bind_some, hget, Option.map_some]
      rw [h.digests digest value hget]
    | null => rfl
    | unsupported => rfl
  have hcard := distinctValues_candidateList r field
  unfold decided
  cases hlist : r.candidateList field with
  | nil =>
    have hnone : r.shownDigests field = ∅ := by
      rw [← toFinset_candidateList, hlist]
      rfl
    rw [hnone]
    simp
  | cons c others =>
    obtain ⟨hmem, hvalue⟩ := hdigest c (by rw [hlist]; exact List.mem_cons_self)
    rw [hlist] at hcard
    dsimp only
    by_cases hseveral : distinctValues (c :: others) > 1
    · rw [if_pos hseveral]
      simp only [reduceCtorEq, false_iff]
      intro hshown
      rw [hcard, hshown, Finset.card_singleton] at hseveral
      omega
    · rw [if_neg hseveral, Option.some.injEq]
      have hsingle : r.shownDigests field = {c.valueDigest} := by
        refine Finset.eq_singleton_iff_unique_mem.mpr ⟨hmem, ?_⟩
        intro d hd
        exact Finset.card_le_one.mp (by omega) d hd _ hmem
      rw [hsingle, Finset.singleton_inj, hvalue]
      constructor
      · rintro rfl
        rfl
      · intro hmap
        exact Option.map_injective hinj hmap

/-- Sound replicas that show the same decide the same. -/
theorem Sound.decided_congr (hinj : Function.Injective contentDigest) {r r' : SyncReplica}
    (h : r.Sound contentDigest) (h' : r'.Sound contentDigest) {field : SyncField}
    (hshown : r'.shownDigests field = r.shownDigests field) :
    r'.decided field = r.decided field := by
  refine Option.ext fun value => ?_
  rw [h.decided_eq_some_iff hinj, h'.decided_eq_some_iff hinj, hshown]

/-! ## Presences -/

/-- Whether the record is shown as present, if its presence is decided. -/
def shownPresent (r : SyncReplica) (resource : SyncResource) : Option Bool :=
  (r.decided (.presence resource)).join.bind fun value => value.decodeBool.toOption

/-- The presence of a record is a truth value, or not decided. -/
theorem Sound.presence_cases {r : SyncReplica} (h : r.Sound contentDigest)
    (resource : SyncResource) :
    r.decided (.presence resource) = none ∧ r.shownPresent resource = none ∨
    ∃ value b, r.decided (.presence resource) = some (some value) ∧ value.decodeBool = .ok b ∧
      r.shownPresent resource = some b := by
  unfold shownPresent
  cases hdecided : r.decided (.presence resource) with
  | none => exact .inl ⟨rfl, rfl⟩
  | some presence =>
    right
    unfold decided at hdecided
    cases hlist : r.candidateList (.presence resource) with
    | nil => rw [hlist] at hdecided; cases hdecided
    | cons c others =>
      rw [hlist] at hdecided
      dsimp only at hdecided
      split at hdecided
      · cases hdecided
      · cases hdecided
        obtain ⟨p, hp, rfl⟩ := mem_candidateList.mp (by rw [hlist]; exact List.mem_cons_self)
        obtain ⟨-, hkey, -⟩ := Document.mem_visible.mp hp
        have hsupported := h.shown _ p hp
        unfold Supported at hsupported
        unfold candidateValue candidateOf
        cases hscalar : p.value with
        | reference digest i =>
          rw [hscalar] at hsupported
          obtain ⟨value, hget, hbool⟩ := hsupported
          obtain ⟨b, hb⟩ := hbool (by rw [hkey]; rfl)
          refine ⟨value, b, ?_, hb, ?_⟩
          · simp [hget]
          · simp [hget, hb, Except.toOption]
        | null =>
          rw [hscalar, hkey] at hsupported
          simp at hsupported
        | unsupported => rw [hscalar] at hsupported; exact hsupported.elim

/-! ## Records -/

/-- A field of the record is in conflict. -/
def Unresolved (r : SyncReplica) (resource : SyncResource) : Prop :=
  ∃ field ∈ r.document.keys, field.resource = resource ∧ r.Conflicting field

instance (r : SyncReplica) (resource : SyncResource) : Decidable (r.Unresolved resource) :=
  inferInstanceAs (Decidable (∃ field ∈ r.document.keys, _))

/-- What a field becomes when its record is applied. -/
def applied (r : SyncReplica) (loc : SyncValues) (value : Option FieldValue) (field : SyncField) :
    Option FieldValue :=
  match r.shownPresent field.resource with
  | none => value
  | some false => none
  | some true =>
    if .presence field.resource ∉ loc.keys ∧ r.Unresolved field.resource then value
    else (r.decided field).getD value

/-- The values with what one register decides. -/
def settled (r : SyncReplica) (resource : SyncResource) (result : SyncValues) (key : SyncField) :
    SyncValues :=
  if key.resource ≠ resource then result
  else
    match r.decided key with
    | none => result
    | some (some value) => result.insert key value
    | some none => result.erase key

theorem get_settled (r : SyncReplica) (resource : SyncResource) (result : SyncValues)
    (key field : SyncField) : (r.settled resource result key).get field =
      if field = key ∧ field.resource = resource then (r.decided field).getD (result.get field)
      else result.get field := by
  unfold settled
  by_cases hresource : key.resource = resource
  · rw [if_neg (by simpa using hresource)]
    by_cases hfield : field = key
    · subst hfield
      rw [if_pos ⟨rfl, hresource⟩]
      cases r.decided field with
      | none => rfl
      | some value =>
        cases value with
        | none => exact if_pos rfl
        | some value => exact FiniteMap.get_insert_self _ _ _
    · rw [if_neg fun h => hfield h.1]
      cases r.decided key with
      | none => rfl
      | some value =>
        cases value with
        | none => exact if_neg hfield
        | some value => exact FiniteMap.get_insert_of_ne _ hfield _
  · rw [if_pos hresource, if_neg]
    rintro ⟨rfl, h⟩
    exact hresource h

theorem get_foldl_settled (r : SyncReplica) (resource : SyncResource) (field : SyncField) :
    (keys : List SyncField) → (result : SyncValues) →
    (keys.foldl (r.settled resource) result).get field =
      if field ∈ keys ∧ field.resource = resource then (r.decided field).getD (result.get field)
      else result.get field
  | [], result => by simp
  | key :: keys, result => by
    rw [List.foldl_cons, get_foldl_settled r resource field keys, get_settled]
    by_cases hresource : field.resource = resource
    · by_cases hkey : field = key
      · subst hkey
        simp only [hresource, and_true, if_true, List.mem_cons_self]
        -- A field that is decided twice has the same value twice.
        cases r.decided field <;> simp
      · simp [hresource, hkey]
    · simp [hresource]

theorem Sound.materializeField {r : SyncReplica} (h : r.Sound contentDigest) {key : SyncField}
    (hkey : key.Valid) (resource : SyncResource) (result : SyncValues) :
    r.materializeField resource result key = .ok (r.settled resource result key) := by
  rw [SyncReplica.materializeField, SyncField.fromKey, SyncField.key_of_valid hkey, settled]
  dsimp only
  by_cases hresource : key.resource ≠ resource
  · rw [if_pos hresource, if_pos hresource]
  · rw [if_neg hresource, if_neg hresource, h.candidates, decided]
    dsimp only
    cases r.candidateList key with
    | nil => rfl
    | cons c others =>
      dsimp only
      by_cases hseveral : distinctValues (c :: others) > 1
      · rw [if_pos hseveral, if_pos hseveral]
      · rw [if_neg hseveral, if_neg hseveral]
        cases r.candidateValue c <;> rfl

/-- The registers of a record, one after the other. -/
theorem Sound.materializeFields {r : SyncReplica} (h : r.Sound contentDigest)
    (resource : SyncResource) (result : SyncValues) :
    ∃ out, (inOrder r.document.keys).foldlM (r.materializeField resource) result = .ok out ∧
      ∀ field, out.get field = if field.resource = resource
        then (r.decided field).getD (result.get field) else result.get field := by
  have hall : ∀ result, ∀ key ∈ inOrder r.document.keys,
      r.materializeField resource result key = .ok (r.settled resource result key) := by
    intro result key hkey
    exact h.materializeField (h.keys key (mem_inOrder.mp hkey)) resource result
  refine ⟨_, foldlM_eq_ok _ hall result, ?_⟩
  · intro field
    rw [get_foldl_settled]
    simp only [mem_inOrder]
    by_cases hkey : field ∈ r.document.keys
    · simp [hkey]
    · have hlist := (candidateList_eq_nil h.ordered).mpr hkey
      have hnone : r.decided field = none := by rw [decided, hlist]
      simp [hkey, hnone]

/-- **What applying a record does to each field.** -/
theorem Sound.materializeRecord {r : SyncReplica} (h : r.Sound contentDigest)
    {resource : SyncResource} (hid : resource.id ≠ "") (loc result : SyncValues) :
    ∃ out, r.materializeRecord loc result resource = .ok out ∧ ∀ field, out.get field =
      if field.resource = resource then r.applied loc (result.get field) field
      else result.get field := by
  have hvalid : (SyncField.presence resource).Valid := ⟨hid, show "$present" ≠ "" by decide⟩
  obtain ⟨cs, hcs, hconflicts⟩ := h.conflicts
  have hany : (cs.any fun conflict => conflict.field.resource = resource) = true ↔
      r.Unresolved resource := by
    simp only [List.any_eq_true, decide_eq_true_eq]
    constructor
    · rintro ⟨c, hc, hresource⟩
      obtain ⟨hconflicting, -⟩ := (hconflicts c).mp hc
      exact ⟨c.field, mem_keys_of_shown (Nat.zero_lt_of_lt hconflicting.2), hresource, hconflicting⟩
    · rintro ⟨field, -, hresource, hconflicting⟩
      exact ⟨⟨field, r.candidateList field⟩, (hconflicts _).mpr ⟨hconflicting, rfl⟩, hresource⟩
  obtain ⟨fields, hfields, hget⟩ := h.materializeFields resource result
  rw [SyncReplica.materializeRecord, SyncField.key_of_valid hvalid]
  dsimp only
  rw [h.candidates]
  rcases h.presence_cases resource with ⟨hnone, hshown⟩ | ⟨value, b, hsome, hbool, hshown⟩
  · -- Nothing is shown, or several values.
    refine ⟨result, ?_, ?_⟩
    · unfold decided at hnone
      cases hlist : r.candidateList (.presence resource) with
      | nil => rfl
      | cons c others =>
        rw [hlist] at hnone
        dsimp only at hnone ⊢
        by_cases hseveral : distinctValues (c :: others) > 1
        · rw [if_pos hseveral]
        · rw [if_neg hseveral] at hnone
          cases hnone
    · intro field
      split
      next hresource => rw [applied, hresource, hshown]
      next => rfl
  · unfold decided at hsome
    cases hlist : r.candidateList (.presence resource) with
    | nil => rw [hlist] at hsome; cases hsome
    | cons c others =>
      rw [hlist] at hsome
      dsimp only at hsome ⊢
      split at hsome
      next => cases hsome
      next hseveral =>
        rw [if_neg hseveral, Option.some.inj hsome]
        dsimp only
        rw [hbool]
        cases b with
        | false =>
          refine ⟨_, rfl, ?_⟩
          intro field
          rw [FiniteMap.get_retain]
          by_cases hresource : field.resource = resource
          · simp [applied, hresource, hshown]
          · simp [hresource]
        | true =>
          dsimp only
          have happlied : ∀ field, field.resource = resource →
              ¬ (.presence resource ∉ loc.keys ∧ r.Unresolved resource) →
              r.applied loc (result.get field) field = (r.decided field).getD (result.get field) := by
            intro field hresource happlies
            rw [applied, hresource, hshown]
            exact if_neg happlies
          by_cases hloc : .presence resource ∈ loc.keys
          · rw [if_pos hloc]
            refine ⟨fields, hfields, fun field => ?_⟩
            rw [hget]
            split
            next hresource => rw [happlied field hresource fun hboth => hboth.1 hloc]
            next => rfl
          · rw [if_neg hloc, hcs]
            dsimp only
            by_cases hunresolved : r.Unresolved resource
            · rw [if_pos (hany.mpr hunresolved)]
              refine ⟨result, rfl, fun field => ?_⟩
              split
              next hresource =>
                rw [applied, hresource, hshown]
                exact (if_pos ⟨hloc, hunresolved⟩).symm
              next => rfl
            · rw [if_neg (by rwa [hany])]
              refine ⟨fields, hfields, fun field => ?_⟩
              rw [hget]
              split
              next hresource => rw [happlied field hresource fun hboth => hunresolved hboth.2]
              next => rfl

/-! ## All selected records -/

theorem Sound.materializeRecords {r : SyncReplica} (h : r.Sound contentDigest) (loc : SyncValues) :
    (resources : List SyncResource) → (∀ resource ∈ resources, resource.id ≠ "") →
    resources.Nodup → ∀ result, ∃ out,
      resources.foldlM (r.materializeRecord loc) result = .ok out ∧ ∀ field, out.get field =
        if field.resource ∈ resources then r.applied loc (result.get field) field
        else result.get field
  | [], _, _, result => ⟨result, rfl, by simp⟩
  | resource :: resources, hids, hnodup, result => by
    obtain ⟨next, hnext, hget⟩ :=
      h.materializeRecord (hids resource List.mem_cons_self) loc result
    obtain ⟨hnew, hnodup⟩ := List.nodup_cons.mp hnodup
    obtain ⟨out, hout, hget'⟩ := h.materializeRecords loc resources
      (fun other hother => hids other (List.mem_cons_of_mem _ hother)) hnodup next
    refine ⟨out, by rw [List.foldlM_cons, hnext]; exact hout, ?_⟩
    intro field
    rw [hget', hget]
    by_cases hresource : field.resource = resource
    · rw [if_neg (by rwa [hresource]), if_pos hresource, if_pos (by rw [hresource]; simp)]
    · simp [hresource]

/-- **What applying the selected records does to each field.** -/
theorem Sound.materialize {r : SyncReplica} (h : r.Sound contentDigest)
    {selected : Finset SyncResource} (hids : ∀ resource ∈ selected, resource.id ≠ "")
    (loc : SyncValues) : ∃ out, r.materialize loc selected = .ok out ∧ ∀ field, out.get field =
      if field.resource ∈ selected then r.applied loc (loc.get field) field else loc.get field := by
  obtain ⟨out, hout, hget⟩ := h.materializeRecords loc (inOrder selected)
    (fun resource hresource => hids resource (mem_inOrder.mp hresource)) (nodup_inOrder _) loc
  refine ⟨out, hout, ?_⟩
  intro field
  rw [hget]
  simp only [mem_inOrder]

/-- Only records with an identity can be applied. -/
theorem id_of_materialize {r : SyncReplica} {loc out : SyncValues} {selected : Finset SyncResource}
    (hout : r.materialize loc selected = .ok out) : ∀ resource ∈ selected, resource.id ≠ "" := by
  intro resource hresource
  obtain ⟨result, result', hrecord⟩ :=
    exists_of_foldlM_ok _ hout resource (mem_inOrder.mpr hresource)
  unfold materializeRecord at hrecord
  split at hrecord
  next => cases hrecord
  next key hkey => exact (SyncField.key_ok_iff.mp hkey).1.1

end SyncReplica

end OxideTerm.CloudSync
