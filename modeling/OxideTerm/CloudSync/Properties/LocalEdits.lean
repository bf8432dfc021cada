import OxideTerm.CloudSync.Devices
import OxideTerm.CloudSync.Reference

/-!
# Local edits and open conflicts

A capture writes the fields whose values differ from those that were last applied, and passes over
the fields in conflict. But what it has passed over becomes the value last applied all the same. So
an edit that is made while its field is in conflict is never written: once another device resolves
the conflict, the edit is replaced by a value that was chosen without it.
-/

namespace OxideTerm.CloudSync

open OxideTerm.Lib

variable {Context : Type} {codec : Codec Context}

/-! ## What a capture offers -/

/-- The register of the field offers the value; no value is offered as an explicit absence. -/
def SyncReplica.Offers (contentDigest : FieldValue → String) (r : SyncReplica) (field : SyncField)
    (value : Option FieldValue) : Prop := value.map contentDigest ∈ r.shownDigests field

instance (contentDigest : FieldValue → String) (r : SyncReplica) (field : SyncField)
    (value : Option FieldValue) : Decidable (r.Offers contentDigest field value) :=
  inferInstanceAs (Decidable (_ ∈ _))

/-- **Which values a capture offers:** those it writes, and those that were offered already. -/
theorem SyncReplica.offers_captureLocal_iff {contentDigest : FieldValue → String}
    {r r' : SyncReplica} (h : r.Sound contentDigest) {previous current : SyncValues}
    {selected : Finset SyncResource} {b : Bool}
    (hcapture : r.captureLocal contentDigest previous current selected = (r', .ok b))
    {field : SyncField} (hfield : field.isPresence = false) (hselected : field.resource ∈ selected)
    (hpresent : current.present field.resource = .ok true) :
    r'.Offers contentDigest field (current.get field) ↔
      (¬ r.Blocked field.resource ∧ ¬ r.Conflicting field ∧
        previous.get field ≠ current.get field) ∨
      r.Offers contentDigest field (current.get field) := by
  have hnot : ¬ r.Deletes previous current field.resource := by
    intro hdeletes
    rw [hdeletes.not_present] at hpresent
    simp at hpresent
  have hiff : r.Captures previous current selected field ↔
      ¬ r.Blocked field.resource ∧ ¬ r.Conflicting field ∧
        previous.get field ≠ current.get field := by
    constructor
    · rintro (hedits | ⟨hpresence, -⟩)
      · exact ⟨hedits.not_blocked, hedits.not_conflicting, hedits.changed⟩
      · rw [hfield] at hpresence
        simp at hpresence
    · rintro ⟨hblocked, hconflicting, hchanged⟩
      exact Or.inl ⟨hselected, hblocked, hnot, hconflicting, hchanged⟩
  by_cases hcaptures : r.Captures previous current selected field
  · have hshown := shownDigests_captureLocal h hcapture hcaptures
    have hvalue : capturedValue current field = current.get field := by
      rw [capturedValue, hfield]
      simp
    rw [hvalue] at hshown
    rw [Offers, hshown]
    simp only [Finset.mem_singleton, true_iff]
    exact Or.inl (hiff.mp hcaptures)
  · have hvisible := visible_captureLocal_of_not h hcapture hcaptures
    have hsame : r'.shownDigests field = r.shownDigests field := by
      rw [shownDigests, hvisible, shownDigests]
    rw [Offers, Offers, hsame, ← hiff]
    simp [hcaptures]

/-! ## Between an edit and the next capture -/

/-- The step changes the field on the device, or captures its configuration. -/
def SyncStep.Concerns (u : Uuid) (field : SyncField) : SyncStep → Prop
  | .edit u' field' _ => u' = u ∧ field' = field
  | .prepare u' _ _ _ _ => u' = u
  | .apply u' _ => u' = u
  | _ => False

namespace Devices

theorem get_live_step (s : Devices) {u : Uuid} {field : SyncField} {i : SyncStep}
    (h : ¬ i.Concerns u field) :
    ((s.step codec i).1.device u).live.get field = (s.device u).live.get field := by
  cases i with
  | edit u' field' value =>
    by_cases hu : u = u'
    · subst hu
      have hne : field ≠ field' := fun heq => h ⟨rfl, heq.symm⟩
      cases value with
      | none =>
        simp only [Devices.step, device_update_self]
        rw [FiniteMap.get_erase, if_neg hne]
      | some value =>
        simp only [Devices.step, device_update_self]
        rw [FiniteMap.get_insert_of_ne _ hne]
    · cases value <;> simp only [Devices.step, device_update_of_ne s hu]
  | prepare u' scope read missing outcome =>
    have hu : u ≠ u' := fun heq => h heq.symm
    simp only [Devices.step]
    split <;> simp only [device_update_of_ne s hu]
  | choose u' resolution =>
    by_cases hu : u = u'
    · subst hu
      simp only [Devices.step, device_update_self]
    · simp only [Devices.step, device_update_of_ne s hu]
  | cancel u' =>
    by_cases hu : u = u'
    · subst hu
      simp only [Devices.step, device_update_self]
    · simp only [Devices.step, device_update_of_ne s hu]
  | apply u' outcome =>
    have hu : u ≠ u' := fun heq => h heq.symm
    simp only [Devices.step]
    split
    · rfl
    · split <;> simp only [device_update_of_ne s hu]
  | publish u' id =>
    simp only [Devices.step]
    split <;> rfl

/-- **An edit stays until the next capture.** -/
theorem get_live_edit {pre mid : List SyncStep} {u : Uuid} {field : SyncField}
    {value : Option FieldValue} (hmid : ∀ i ∈ mid, ¬ i.Concerns u field) :
    (((devices codec).final (pre ++ .edit u field value :: mid)).device u).live.get field =
      value := by
  induction mid using List.reverseRecOn with
  | nil =>
    rw [Machine.final_snoc]
    show ((Devices.step codec _ (.edit u field value)).1.device u).live.get field = value
    cases value with
    | none =>
      simp only [Devices.step, device_update_self]
      rw [FiniteMap.get_erase, if_pos rfl]
    | some value =>
      simp only [Devices.step, device_update_self]
      rw [FiniteMap.get_insert_self]
  | append_singleton mid i ih =>
    have hlast := hmid i (List.mem_append_right _ (List.mem_singleton_self i))
    rw [← List.cons_append, ← List.append_assoc, Machine.final_snoc]
    exact (get_live_step _ hlast).trans (ih fun j hj => hmid j (List.mem_append_left _ hj))

end Devices

/-! ## The next capture -/

/-- What is captured into has a sound replica. -/
theorem Captures.sound (hinj : Function.Injective codec.contentDigest) {s : Devices}
    (h : s.Invariant codec) {u : Uuid} {i : SyncStep} {record : LocalReplica} {scope : SyncScope}
    {known selected : Finset SyncResource} {r : SyncReplica}
    (hcapture : Captures codec s u i record scope known r selected) :
    record.replica.Sound codec.contentDigest ∧
      record.capture codec scope (scope.collect (s.device u).live) known = .ok (r, selected) := by
  cases hcapture with
  | prepare hload hcapture =>
    obtain rfl := ReplicaStore.load_eq hload
    refine ⟨?_, hcapture⟩
    rw [Devices.replica_getD]
    exact h.network.sound u
  | apply hplan hremote hknown hcapture =>
    obtain ⟨cs, hcs⟩ := (h.planned u _ hplan).calls
    have hsound := ((Devices.reaches_calls hcs).invariant hinj h.network).sound u
    rw [Network.replica_set_self] at hsound
    exact ⟨hsound, hcapture⟩

/-- **What an applied plan has captured is stored.** -/
theorem Captures.stored (hinj : Function.Injective codec.contentDigest) {s : Devices}
    (h : s.Invariant codec) {u : Uuid} {outcome : WriteOutcome} {record : LocalReplica}
    {scope : SyncScope} {known selected : Finset SyncResource} {r : SyncReplica}
    (hcapture : Captures codec s u (.apply u outcome) record scope known r selected)
    (hok : (s.step codec (.apply u outcome)).2 = .ok ()) :
    r.document ⊆ ((s.step codec (.apply u outcome)).1.stored u).document := by
  cases hcapture with
  | @apply _ plan remote _ _ _ hplan hremote hknown hcapture =>
    have hplanned := h.planned u plan hplan
    cases happlied : plan.applied codec (s.device u).live with
    | error e => simp [Devices.step, hplan, happlied] at hok
    | ok result =>
      obtain ⟨desired, next⟩ := result
      have hsaved : (ReplicaStore.save codec (s.device u).disk next outcome).2 = .ok () := by
        simpa [Devices.step, hplan, happlied] using hok
      have hdisk : ((s.step codec (.apply u outcome)).1.device u).disk = some next := by
        simp only [Devices.step, hplan, happlied, Devices.device_update_self]
        exact ReplicaStore.save_ok hsaved
      obtain ⟨r', hr', hsnapshot, -⟩ := PreparedSync.applied_ok happlied
      obtain ⟨r₁, remote', hcaptured, hfirst, hrest⟩ := hplanned.reaches hr'
      -- the plan captures what the step captures
      obtain ⟨hremote', known', selected', hknown', hcapture'⟩ :=
        PreparedSync.captured_ok hcaptured
      rw [hremote, Except.ok.injEq] at hremote'
      subst hremote'
      rw [hknown, Except.ok.injEq] at hknown'
      subst hknown'
      rw [hcapture, Except.ok.injEq, Prod.mk.injEq] at hcapture'
      obtain ⟨rfl, -⟩ := hcapture'
      have hsubset := hrest.document_subset hinj (hfirst.invariant hinj h.network) u
      rw [Network.replica_set_self, Network.replica_set_self] at hsubset
      rw [Devices.stored_of_some hdisk, LocalReplica.replica, hsnapshot]
      exact hsubset

/-- A write that is known is offered, unless another write replaces it. -/
theorem visible_or_overwritten {d : SyncDocument} {field : SyncField}
    {p : Put SyncField Uuid ScalarValue} (hp : p ∈ d) (hkey : p.key = field) :
    p ∈ d.visible field ∨ ∃ q ∈ d, q.key = field ∧ p.id ∈ q.overwrites := by
  by_cases h : ∃ q ∈ d, q.key = field ∧ p.id ∈ q.overwrites
  · exact Or.inr h
  · push Not at h
    exact Or.inl (Document.mem_visible.mpr ⟨hp, hkey, h⟩)

/-- **When a local edit is kept.** The user gives a field of a record another value, and the device
captures its configuration next. The replica offers the value if and only if it did so before or
the edit could be written: neither the presence of the record nor the field is in conflict there,
and the value is not the one that was last applied. What is offered when a plan is applied stays in
the stored replica, which is what the device publishes; and wherever such a write is known, it is
offered until a write replaces it that names it. -/
theorem local_edit_offered_iff (hinj : Function.Injective codec.contentDigest)
    {pre mid : List SyncStep} {u : Uuid} {field : SyncField} {value : Option FieldValue}
    {i : SyncStep} {record : LocalReplica} {scope : SyncScope}
    {known selected : Finset SyncResource} {r : SyncReplica}
    (hmid : ∀ j ∈ mid, ¬ j.Concerns u field)
    (hcapture : Captures codec ((devices codec).final (pre ++ .edit u field value :: mid)) u i record
      scope known r selected)
    (hfield : field.isPresence = false) (hselected : field.resource ∈ selected)
    (hviews : scope.views field = true ∧ scope.views (.presence field.resource) = true)
    (hpresent : (((devices codec).final (pre ++ .edit u field value :: mid)).device u).live.present
      field.resource = .ok true) :
    (r.Offers codec.contentDigest field value ↔
      (¬ record.replica.Blocked field.resource ∧ ¬ record.replica.Conflicting field ∧
        record.effective.get field ≠ value) ∨
      record.replica.Offers codec.contentDigest field value) ∧
    ∀ p ∈ r.document.visible field,
      (∀ outcome, i = .apply u outcome →
        (((devices codec).final (pre ++ .edit u field value :: mid)).step codec i).2 = .ok () →
        ∀ post, p ∈ (((devices codec).final
          (pre ++ .edit u field value :: mid ++ i :: post)).stored u).document) ∧
      ∀ later w, p ∈ (((devices codec).final later).stored w).document →
        p ∈ (((devices codec).final later).stored w).document.visible field ∨
        ∃ q ∈ (((devices codec).final later).stored w).document,
          q.key = field ∧ p.id ∈ q.overwrites := by
  have hinv := @Devices.invariant _ codec hinj (pre ++ .edit u field value :: mid)
  have hlive := @Devices.get_live_edit _ codec pre mid u field value hmid
  generalize hs : (devices codec).final (pre ++ .edit u field value :: mid) = s at *
  obtain ⟨hsound, hrecord⟩ := hcapture.sound hinj hinv
  refine ⟨?_, fun p hp => ⟨fun outcome hi hok post => ?_, fun later w hmem => ?_⟩⟩
  · obtain ⟨-, b, hlocal⟩ := LocalReplica.capture_ok hrecord
    have hcurrent : (scope.collect (s.device u).live).get field = value := by
      rw [SyncScope.collect, FiniteMap.get_retain, if_pos hviews.1, hlive]
    have hbaseline : (scope.captureBaseline record.effective).get field =
        record.effective.get field := by
      have henabled := hviews.1
      rw [SyncScope.views, Bool.and_eq_true] at henabled
      rw [SyncScope.captureBaseline, FiniteMap.get_retain, if_pos henabled.2]
    have hthere : (scope.collect (s.device u).live).present field.resource = .ok true := by
      unfold SyncValues.present at hpresent ⊢
      rw [SyncScope.collect, FiniteMap.get_retain, if_pos hviews.2]
      exact hpresent
    have hiff := SyncReplica.offers_captureLocal_iff hsound hlocal hfield hselected hthere
    rwa [hcurrent, hbaseline] at hiff
  · subst hi
    have hmem := hcapture.stored hinj hinv hok (Document.mem_visible.mp hp).1
    have hsubset := @Devices.stored_subset_final _ codec hinj
      (pre ++ .edit u field value :: mid ++ [.apply u outcome]) post u
    rw [Machine.final_snoc, hs, List.append_assoc] at hsubset
    exact hsubset hmem
  · exact visible_or_overwritten hmem (Document.mem_visible.mp hp).2.1

namespace Reference

/-- The reference codec with a digest of values that has no collisions. -/
def injectiveCodec : Codec Envelope := { Reference.codec with contentDigest := contentDigest }

/-- Everything is synchronized. -/
def everything : SyncScope where
  select known values := known ∪ values.keys.image SyncField.resource
  fieldEnabled _ := true
  collects _ := true

/-- A text of one letter. -/
def letter (c : UInt8) : FieldValue := [0x22, c, 0x22]

/-- A device synchronizes. -/
def synchronize (u : Uuid) (read : List Nat) : List SyncStep :=
  [.prepare u everything read false .written, .apply u .written, .publish u ⟨u, 1, ""⟩]

/-- A device creates the connection, and another one hears of it. -/
def created : List SyncStep :=
  [.edit 1 (.presence connection) (some (.encodeBool true)), .edit 1 name (some (letter 0x61))] ++
    synchronize 1 [] ++ synchronize 2 [0]

end Reference

/-- The connection is renamed on one device, and the name is offered. -/
theorem local_edit_offered_iff_renamed :
    ∃ record r selected, Captures Reference.injectiveCodec
        ((devices Reference.injectiveCodec).final (Reference.created ++
          .edit 1 Reference.name (some (Reference.letter 0x62)) :: [])) 1
        (.prepare 1 Reference.everything [] false .written) record Reference.everything ∅ r
        selected ∧
      (r.Offers Reference.contentDigest Reference.name (some (Reference.letter 0x62)) ↔
        (¬ record.replica.Blocked Reference.connection ∧
          ¬ record.replica.Conflicting Reference.name ∧
          record.effective.get Reference.name ≠ some (Reference.letter 0x62)) ∨
        record.replica.Offers Reference.contentDigest Reference.name
          (some (Reference.letter 0x62))) := by
  generalize hs : (devices Reference.injectiveCodec).final (Reference.created ++
    .edit 1 Reference.name (some (Reference.letter 0x62)) :: []) = s
  have hload : (ReplicaStore.load Reference.injectiveCodec
      (s.device 1).disk).toOption.isSome = true := by
    rw [← hs]
    decide +kernel
  obtain ⟨stored, hstored⟩ := Option.isSome_iff_exists.mp hload
  rw [toOption_eq_some] at hstored
  obtain rfl := ReplicaStore.load_eq hstored
  have hcapture : ((((s.device 1).disk.getD (.new 1)).capture Reference.injectiveCodec
      Reference.everything (Reference.everything.collect (s.device 1).live) ∅).toOption.any
        fun captured => decide (Reference.connection ∈ captured.2)) = true := by
    rw [← hs]
    decide +kernel
  obtain ⟨⟨r, selected⟩, hr, hselected⟩ := (Option.any_eq_true _ _).mp hcapture
  rw [toOption_eq_some] at hr
  have hcaptures := @Captures.prepare _ Reference.injectiveCodec s 1 Reference.everything [] false
    .written _ r selected hstored hr
  refine ⟨_, r, selected, hcaptures, ?_⟩
  rw [← hs] at hcaptures
  have hpresent : (((devices Reference.injectiveCodec).final (Reference.created ++
      .edit 1 Reference.name (some (Reference.letter 0x62)) :: [])).device 1).live.present
      Reference.name.resource = .ok true := by decide +kernel
  have hmid : ∀ j ∈ ([] : List SyncStep), ¬ j.Concerns 1 Reference.name := by simp
  have hiff := (local_edit_offered_iff Reference.contentDigest_injective hmid hcaptures rfl
    (of_decide_eq_true hselected) ⟨rfl, rfl⟩ hpresent).1
  rw [hs] at hiff
  exact hiff

/-! ## An edit that is lost -/

namespace Reference

/-- Both devices rename the connection, and hear of it. -/
def renamedOnBoth : List SyncStep :=
  created ++ [.edit 1 name (some (letter 0x62))] ++ synchronize 1 [] ++
    [.edit 2 name (some (letter 0x63))] ++ synchronize 2 [2] ++ synchronize 1 [3]

/-- The second device chooses its own name. -/
def chosen : Resolution where
  conflict :=
    { field := name
      candidates := (((devices injectiveCodec).final renamedOnBoth).stored 2).candidateList name }
  index := ⟨1, by decide +kernel⟩

/-- The first device renames the connection once more; then the second one resolves the
conflict. -/
def renamedDuringConflict : List SyncStep :=
  renamedOnBoth ++ [.edit 1 name (some (letter 0x64))] ++ synchronize 1 [] ++
    [.prepare 2 everything [] false .written, .choose 2 chosen, .apply 2 .written,
      .publish 2 ⟨2, 2, ""⟩] ++ synchronize 1 [6]

/-- The devices when the first one has renamed the connection for the second time. -/
def duringConflict : Devices :=
  (devices injectiveCodec).final (renamedOnBoth ++ [.edit 1 name (some (letter 0x64))])

end Reference

/-- **An edit during a conflict is lost.** The connection is renamed while its name is in conflict:
the next capture does not offer the new name, and once the other device has resolved the conflict,
the name is replaced and nothing published has ever mentioned it. -/
theorem edit_during_conflict_lost :
    (∃ record r selected, Captures Reference.injectiveCodec Reference.duringConflict 1
        (.prepare 1 Reference.everything [] false .written) record Reference.everything ∅ r
        selected ∧
      Reference.connection ∈ selected ∧
      (Reference.duringConflict.device 1).live.present Reference.connection = .ok true ∧
      ¬ r.Offers Reference.contentDigest Reference.name (some (Reference.letter 0x64))) ∧
    (((devices Reference.injectiveCodec).final Reference.renamedDuringConflict).device 1).live.get
      Reference.name = some (Reference.letter 0x63) ∧
    ∀ publication ∈ ((devices Reference.injectiveCodec).final
        Reference.renamedDuringConflict).published,
      Reference.contentDigest (Reference.letter 0x64) ∉ publication.2.values.keys := by
  have hload : (ReplicaStore.load Reference.injectiveCodec
      (Reference.duringConflict.device 1).disk).toOption.isSome = true := by decide +kernel
  obtain ⟨stored, hstored⟩ := Option.isSome_iff_exists.mp hload
  rw [toOption_eq_some] at hstored
  obtain rfl := ReplicaStore.load_eq hstored
  have hcapture : ((((Reference.duringConflict.device 1).disk.getD (.new 1)).capture
      Reference.injectiveCodec Reference.everything
      (Reference.everything.collect (Reference.duringConflict.device 1).live) ∅).toOption.any
        fun captured => decide (Reference.connection ∈ captured.2) &&
          !decide (captured.1.Offers Reference.contentDigest Reference.name
            (some (Reference.letter 0x64)))) = true := by decide +kernel
  obtain ⟨⟨r, selected⟩, hr, hoffers⟩ := (Option.any_eq_true _ _).mp hcapture
  rw [toOption_eq_some] at hr
  rw [Bool.and_eq_true, decide_eq_true_eq, Bool.not_eq_true', decide_eq_false_iff_not] at hoffers
  exact ⟨⟨_, r, selected, Captures.prepare hstored hr, hoffers.1, by decide +kernel, hoffers.2⟩,
    by decide +kernel, by decide +kernel⟩

end OxideTerm.CloudSync
