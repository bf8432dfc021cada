import OxideTerm.CloudSync.Properties.Convergence

/-!
# A deletion next to an edit

A record is deleted by one device while another one, which does not know of it, writes to one of
its fields. An edit that is captured marks the record as present once more, so that the deletion
is in conflict with it. The resolution of a field does not.
-/

namespace OxideTerm.CloudSync

open OxideTerm.Lib SyncReplica

variable {contentDigest : FieldValue → String}

/-! ## What is applied next to a conflict -/

/-- Applying a record leaves the fields of the others alone. -/
theorem get_materializeRecord {r : SyncReplica} {loc result result' : SyncValues}
    {resource : SyncResource} (h : r.materializeRecord loc result resource = .ok result')
    {field : SyncField} (hfield : field.resource ≠ resource) :
    result'.get field = result.get field := by
  have hfields : ∀ (keys : List SyncField) {out : SyncValues},
      keys.foldlM (r.materializeField resource) result = .ok out →
      out.get field = result.get field := by
    intro keys out hout
    refine foldlM_keeps (P := fun v : SyncValues => v.get field = result.get field)
      (fun v key v' hv hget => ?_) keys hout rfl
    unfold materializeField at hv
    split at hv
    · simp at hv
    · next f hkey =>
      split at hv
      · obtain rfl := Except.ok.inj hv
        exact hget
      · next hres =>
        rw [not_not] at hres
        have hne : field ≠ f := by
          rintro rfl
          exact hfield hres
        split at hv
        · simp at hv
        · split at hv
          · obtain rfl := Except.ok.inj hv
            exact hget
          · split at hv
            · obtain rfl := Except.ok.inj hv
              exact hget
            · split at hv
              · obtain rfl := Except.ok.inj hv
                rw [FiniteMap.get_insert_of_ne _ hne, hget]
              · obtain rfl := Except.ok.inj hv
                rw [FiniteMap.get_erase, if_neg hne, hget]
  unfold materializeRecord at h
  split at h
  · simp at h
  · split at h
    · simp at h
    · obtain rfl := Except.ok.inj h
      rfl
    · split at h
      · obtain rfl := Except.ok.inj h
        rfl
      · split at h
        · simp at h
        · split at h
          · simp at h
          · obtain rfl := Except.ok.inj h
            rw [FiniteMap.get_retain, if_pos (by simpa using hfield)]
          · dsimp only at h
            split at h
            · exact hfields _ h
            · split at h
              · simp at h
              · split at h
                · obtain rfl := Except.ok.inj h
                  rfl
                · exact hfields _ h

/-- A record whose presence is in conflict is passed over. -/
theorem materializeRecord_of_blocked {r : SyncReplica} (h : r.Sound contentDigest)
    {loc result result' : SyncValues} {resource : SyncResource} (hblocked : r.Blocked resource)
    (hresult : r.materializeRecord loc result resource = .ok result') : result' = result := by
  have hdistinct : distinctValues (r.candidateList (.presence resource)) > 1 := by
    rw [distinctValues_candidateList]
    exact hblocked
  unfold materializeRecord at hresult
  split at hresult
  · simp at hresult
  · next key hkey =>
    obtain ⟨-, rfl⟩ := SyncField.key_ok_iff.mp hkey
    rw [h.candidates] at hresult
    generalize r.candidateList (.presence resource) = cs at hdistinct hresult
    cases cs with
    | nil => exact (Except.ok.inj hresult).symm
    | cons c cs =>
      dsimp only at hresult
      rw [if_pos hdistinct] at hresult
      exact (Except.ok.inj hresult).symm

/-- **A record whose presence is in conflict is left as it is.** -/
theorem materialize_of_blocked {r : SyncReplica} (h : r.Sound contentDigest)
    {loc out : SyncValues} {selected : Finset SyncResource} {resource : SyncResource}
    (hblocked : r.Blocked resource) (hout : r.materialize loc selected = .ok out)
    {field : SyncField} (hfield : field.resource = resource) : out.get field = loc.get field := by
  unfold materialize at hout
  refine foldlM_keeps (P := fun v : SyncValues => v.get field = loc.get field)
    (fun v other v' hv hget => ?_) _ hout rfl
  by_cases hother : field.resource = other
  · rw [materializeRecord_of_blocked h (by rwa [← hother, hfield]) hv, hget]
  · rw [get_materializeRecord hv hother, hget]

/-! ## Presences that are offered -/

/-- One of the candidates has this truth value. -/
def Offers (r : SyncReplica) (candidates : List SyncCandidate) (b : Bool) : Prop :=
  ∃ c ∈ candidates, ∃ value, r.candidateValue c = some value ∧ value.decodeBool = .ok b

/-- The presence of the record is reported as a conflict with both values, and nothing of the
record is applied. -/
structure Surfaces (r : SyncReplica) (resource : SyncResource) : Prop where
  reported : ∃ cs, r.conflicts = .ok cs ∧ ∃ c ∈ cs, c.field = .presence resource ∧
    Offers r c.candidates true ∧ Offers r c.candidates false
  untouched : ∀ loc selected out, r.materialize loc selected = .ok out →
    ∀ field, field.resource = resource → out.get field = loc.get field

/-- A write that refers to this truth value. -/
def RefersTo (values : FiniteMap String FieldValue) (p : Put SyncField Uuid ScalarValue)
    (b : Bool) : Prop :=
  ∃ digest i value, p.value = .reference digest i ∧ values.get digest = some value ∧
    value.decodeBool = .ok b

theorem offers_candidateList {r : SyncReplica} {key : SyncField} {b : Bool} :
    Offers r (r.candidateList key) b ↔ ∃ p ∈ r.document.visible key, RefersTo r.values p b := by
  constructor
  · rintro ⟨c, hc, value, hvalue, hb⟩
    obtain ⟨p, hp, rfl⟩ := mem_candidateList.mp hc
    refine ⟨p, hp, ?_⟩
    unfold candidateValue candidateOf at hvalue
    cases hscalar : p.value with
    | reference digest i =>
      simp only [hscalar, Option.bind_some] at hvalue
      exact ⟨digest, i, value, hscalar, hvalue, hb⟩
    | null => simp [hscalar] at hvalue
    | unsupported => simp [hscalar] at hvalue
  · rintro ⟨p, hp, digest, i, value, hscalar, hget, hb⟩
    refine ⟨_, mem_candidateList.mpr ⟨p, hp, rfl⟩, value, ?_, hb⟩
    rw [candidateValue, candidateOf, hscalar]
    exact hget

/-- **When a record surfaces:** both truth values are visible. -/
theorem surfaces_iff {r : SyncReplica} (h : r.Sound contentDigest) {resource : SyncResource} :
    Surfaces r resource ↔
      (∃ p ∈ r.document.visible (.presence resource), RefersTo r.values p true) ∧
      ∃ p ∈ r.document.visible (.presence resource), RefersTo r.values p false := by
  obtain ⟨cs, hcs, hmem⟩ := h.conflicts
  constructor
  · rintro ⟨⟨cs', hcs', c, hc, hfield, htrue, hfalse⟩, -⟩
    obtain rfl : cs = cs' := Except.ok.inj (hcs.symm.trans hcs')
    have hlist := ((hmem c).mp hc).2
    rw [hfield] at hlist
    rw [hlist, offers_candidateList] at htrue hfalse
    exact ⟨htrue, hfalse⟩
  · rintro ⟨htrue, hfalse⟩
    have hblocked : r.Blocked resource := by
      obtain ⟨p, hp, digest, i, value, hscalar, hget, hb⟩ := htrue
      obtain ⟨p', hp', digest', i', value', hscalar', hget', hb'⟩ := hfalse
      refine Finset.one_lt_card.mpr ⟨some digest, Finset.mem_image.mpr ⟨p, hp, ?_⟩,
        some digest', Finset.mem_image.mpr ⟨p', hp', ?_⟩, fun heq => ?_⟩
      · rw [candidateOf, hscalar]
      · rw [candidateOf, hscalar']
      · rw [Option.some.inj heq, hget', Option.some.injEq] at hget
        rw [← hget, hb'] at hb
        simp at hb
    refine ⟨⟨cs, hcs, ⟨.presence resource, r.candidateList (.presence resource)⟩, ?_, rfl, ?_, ?_⟩,
      fun loc selected out hout field hfield => materialize_of_blocked h hblocked hout hfield⟩
    · exact (hmem _).mpr ⟨conflicting_presence.mpr hblocked, rfl⟩
    · exact offers_candidateList.mpr htrue
    · exact offers_candidateList.mpr hfalse

/-! ## The two events -/

/-- The event in which the writer's capture deletes the record. -/
def DeletesRecord (e : Event Network NetworkStep (Result Unit)) (a : Uuid)
    (resource : SyncResource) : Prop :=
  ∃ previous current selected, e.label = .call a (.captureLocal previous current selected) ∧
    e.output = .ok () ∧ resource ∈ selected ∧ (e.pre.replica a).Deletes previous current resource

/-- Whether the call writes to the field: an edit that is captured, or a resolution. -/
def ReplicaCall.WritesTo (c : ReplicaCall) (r : SyncReplica) (field : SyncField) : Prop :=
  match c with
  | .captureLocal previous current selected => r.Edits previous current selected field
  | .resolve conflict _ => conflict.field = field
  | .replaceFields _ _ => False

/-- The event in which a call of the writer writes to a field of the record. -/
def WritesRecord (e : Event Network NetworkStep (Result Unit)) (b : Uuid)
    (resource : SyncResource) : Prop :=
  ∃ c field, e.label = .call b c ∧ e.output = .ok () ∧ field.resource = resource ∧
    field.isPresence = false ∧ c.WritesTo (e.pre.replica b) field

/-- Neither writer knew what the other one wrote. -/
def Concurrent (e₁ : Event Network NetworkStep (Result Unit)) (a : Uuid)
    (e₂ : Event Network NetworkStep (Result Unit)) (b : Uuid) : Prop :=
  (∀ p ∈ (e₁.post.replica a).document, p ∉ (e₁.pre.replica a).document →
    p ∉ (e₂.pre.replica b).document) ∧
  ∀ p ∈ (e₂.post.replica b).document, p ∉ (e₂.pre.replica b).document →
    p ∉ (e₁.pre.replica a).document

/-- The call is a capture, and not a resolution. -/
def IsCapture (e : Event Network NetworkStep (Result Unit)) (b : Uuid) : Prop :=
  ∃ previous current selected, e.label = .call b (.captureLocal previous current selected)

/-- The replica of the event that is there with a successful call. -/
theorem replica_post_of_call {e : Event Network NetworkStep (Result Unit)} {u : Uuid}
    {c : ReplicaCall} (hstep : e.pre.step contentDigest e.label = (e.post, e.output))
    (hlabel : e.label = .call u c) (hok : e.output = .ok ()) :
    (e.pre.replica u).call contentDigest c = (e.post.replica u, .ok ()) := by
  rw [hlabel, hok] at hstep
  unfold Network.step Network.update at hstep
  dsimp only at hstep
  split at hstep
  · next r hcall =>
    rw [hcall, ← (Prod.mk.inj hstep).1]
    simp
  · simp at hstep

/-- A deletion shows one new write, of an absence. -/
theorem visible_of_deletes {r r' : SyncReplica} (h : r.Sound contentDigest)
    (hwell : Wellformed r.document) {previous current : SyncValues}
    {selected : Finset SyncResource} {resource : SyncResource} {b : Bool}
    (hcapture : r.captureLocal contentDigest previous current selected = (r', .ok b))
    (hselected : resource ∈ selected) (hdeletes : r.Deletes previous current resource) :
    ∃ d, r'.document.visible (.presence resource) = {d} ∧ d ∉ r.document ∧
      d.id.writer = r.writer ∧ d.value = .reference (contentDigest (.encodeBool false)) d.id := by
  obtain ⟨ws, rfl, hws, hiff, -⟩ := captureLocal_ok h hcapture
  refine visible_writtenAll_some hwell ws (fun w hw hkey => ?_)
    ((hiff _).mpr (Or.inr ⟨rfl, Or.inl ⟨hselected, hdeletes⟩⟩))
  rw [(hws w hw).2, hkey, capturedValue_presence, hdeletes.not_present]
  rfl

/-- An edit that is captured shows one new write, of a presence. -/
theorem visible_of_edits {r r' : SyncReplica} (h : r.Sound contentDigest)
    (hwell : Wellformed r.document) {previous current : SyncValues}
    {selected : Finset SyncResource} {field : SyncField} {b : Bool}
    (hcapture : r.captureLocal contentDigest previous current selected = (r', .ok b))
    (hpresent : current.present field.resource = .ok true)
    (hedits : r.Edits previous current selected field) :
    ∃ q, r'.document.visible (.presence field.resource) = {q} ∧ q ∉ r.document ∧
      q.id.writer = r.writer ∧ q.value = .reference (contentDigest (.encodeBool true)) q.id := by
  obtain ⟨ws, rfl, hws, hiff, -⟩ := captureLocal_ok h hcapture
  refine visible_writtenAll_some hwell ws (fun w hw hkey => ?_)
    ((hiff _).mpr (Or.inr ⟨rfl, Or.inr ⟨hpresent, field, rfl, hedits⟩⟩))
  rw [(hws w hw).2, hkey, capturedValue_presence, hpresent]
  rfl

/-! ## Both histories together -/

/-- What a supported write refers to stays the same when values are added. -/
theorem refersTo_iff_of_mono {values values' : FiniteMap String FieldValue}
    {p : Put SyncField Uuid ScalarValue} (h : Supported values p)
    (hmono : ∀ digest value, values.get digest = some value → values'.get digest = some value)
    {b : Bool} : RefersTo values' p b ↔ RefersTo values p b := by
  constructor
  · rintro ⟨digest, i, value, hscalar, hget, hb⟩
    unfold Supported at h
    rw [hscalar] at h
    obtain ⟨value', hget', -⟩ := h
    have hsame := hmono digest value' hget'
    rw [hget, Option.some.injEq] at hsame
    exact ⟨digest, i, value, hscalar, by rw [hsame]; exact hget', hb⟩
  · rintro ⟨digest, i, value, hscalar, hget, hb⟩
    exact ⟨digest, i, value, hscalar, hmono _ _ hget, hb⟩

/-- A write of a truth value refers to it. -/
theorem refersTo_encodeBool (hinj : Function.Injective contentDigest) {r : SyncReplica}
    (h : r.Sound contentDigest) {key : SyncField} {p : Put SyncField Uuid ScalarValue}
    (hp : p ∈ r.document.visible key) {i : WriteId Uuid} {b : Bool}
    (hvalue : p.value = .reference (contentDigest (.encodeBool b)) i) {b' : Bool} :
    RefersTo r.values p b' ↔ b' = b := by
  have hsupported := h.shown key p hp
  unfold Supported at hsupported
  rw [hvalue] at hsupported
  obtain ⟨value, hget, -⟩ := hsupported
  obtain rfl : value = .encodeBool b := hinj (h.digests _ _ hget)
  constructor
  · rintro ⟨digest, j, value, hscalar, hget', hb⟩
    rw [hvalue, ScalarValue.reference.injEq] at hscalar
    rw [← hscalar.1, hget, Option.some.injEq] at hget'
    rw [← hget', FieldValue.decodeBool_encodeBool] at hb
    exact (Except.ok.inj hb).symm
  · rintro rfl
    exact ⟨_, i, _, hvalue, hget, FieldValue.decodeBool_encodeBool _⟩

/--
**When a deletion surfaces.** A replica shows one new absence; another one knows nothing of it.
Their union shows the absence, and those presences of the second that the first does not know.
-/
theorem surfaces_union_iff (hinj : Function.Injective contentDigest) {r s m : SyncReplica}
    (hs : s.Sound contentDigest)
    (hr' : Wellformed r.document) (hs' : Wellformed s.document)
    (hagree : r.document.Agree s.document) {resource : SyncResource}
    {d : Put SyncField Uuid ScalarValue} {i : WriteId Uuid}
    (hd : r.document.visible (.presence resource) = {d}) (hds : d ∉ s.document)
    (hvalue : d.value = .reference (contentDigest (.encodeBool false)) i)
    (hdocument : m.document = r.document ∪ s.document)
    (hvalues : ∀ digest value, m.values.get digest = some value ↔
      r.values.get digest = some value ∨ s.values.get digest = some value)
    (hm : m.Sound contentDigest) :
    Surfaces m resource ↔ ∃ p ∈ s.document.visible (.presence resource),
      p ∉ r.document ∧ RefersTo s.values p true := by
  have hdvis : d ∈ r.document.visible (.presence resource) := by
    rw [hd]
    exact Finset.mem_singleton_self d
  have hdmem := (Document.mem_visible.mp hdvis).1
  have hvisible : ∀ p, p ∈ m.document.visible (.presence resource) ↔
      p = d ∨ p ∈ s.document.visible (.presence resource) ∧ p ∉ r.document := by
    intro p
    rw [hdocument, Document.mem_visible_union hr'.causal.grounded hs'.causal.grounded hagree]
    constructor
    · rintro ⟨hmem, hpr, hps⟩
      by_cases hknown : p ∈ r.document
      · have hshown := hpr hknown
        rw [hd, Finset.mem_singleton] at hshown
        exact Or.inl hshown
      · exact Or.inr ⟨hps (hmem.resolve_left hknown), hknown⟩
    · rintro (rfl | ⟨hshown, hnot⟩)
      · exact ⟨Or.inl hdmem, fun _ => hdvis, fun h => absurd h hds⟩
      · exact ⟨Or.inr (Document.mem_visible.mp hshown).1, fun h => absurd h hnot, fun _ => hshown⟩
  have hdm : d ∈ m.document.visible (.presence resource) := (hvisible d).mpr (Or.inl rfl)
  have hmono : ∀ digest value, s.values.get digest = some value →
      m.values.get digest = some value :=
    fun digest value hget => (hvalues digest value).mpr (Or.inr hget)
  rw [surfaces_iff hm]
  constructor
  · rintro ⟨⟨p, hp, htrue⟩, -⟩
    rcases (hvisible p).mp hp with rfl | ⟨hshown, hnot⟩
    · have habsurd := (refersTo_encodeBool hinj hm hp hvalue).mp htrue
      simp at habsurd
    · exact ⟨p, hshown, hnot, (refersTo_iff_of_mono (hs.shown _ p hshown) hmono).mp htrue⟩
  · rintro ⟨p, hshown, hnot, htrue⟩
    refine ⟨⟨p, (hvisible p).mpr (Or.inr ⟨hshown, hnot⟩),
      (refersTo_iff_of_mono (hs.shown _ p hshown) hmono).mpr htrue⟩, d, hdm, ?_⟩
    exact (refersTo_encodeBool hinj hm hdm hvalue).mpr rfl

/-! ## The result -/

/-- The writer of the second event shows a presence that the writer of the first did not know. -/
def KnowsPresence (e₁ : Event Network NetworkStep (Result Unit)) (a : Uuid)
    (e₂ : Event Network NetworkStep (Result Unit)) (b : Uuid) (resource : SyncResource) : Prop :=
  ∃ p ∈ (e₂.pre.replica b).document.visible (.presence resource),
    p ∉ (e₁.pre.replica a).document ∧ RefersTo (e₂.pre.replica b).values p true

/--
**When a deletion next to a write surfaces.**

In every careful run, after a deletion and a write that know nothing of each other, both merges
succeed. In both replicas the record's presence is in conflict, with both values, and the record
is left as it is, if and only if the write was captured, or the replica in which a field was
resolved showed a presence that the deleting one did not know.
-/
theorem deletion_surfaces_iff (hinj : Function.Injective contentDigest) {steps : List NetworkStep}
    (hcareful : ∀ i ∈ steps, i.Careful) {e₁ e₂ : Event Network NetworkStep (Result Unit)}
    (he₁ : e₁ ∈ (network contentDigest).trace steps)
    (he₂ : e₂ ∈ (network contentDigest).trace steps) {a b : Uuid} (hne : a ≠ b)
    {resource : SyncResource} (hdelete : DeletesRecord e₁ a resource)
    (hwrite : WritesRecord e₂ b resource) (hconcurrent : Concurrent e₁ a e₂ b) :
    ∃ m m', (e₁.post.replica a).merge contentDigest (e₂.post.replica b).snapshot = (m, .ok ()) ∧
      (e₂.post.replica b).merge contentDigest (e₁.post.replica a).snapshot = (m', .ok ()) ∧
      (Surfaces m resource ↔ IsCapture e₂ b ∨ KnowsPresence e₁ a e₂ b resource) ∧
      (Surfaces m' resource ↔ IsCapture e₂ b ∨ KnowsPresence e₁ a e₂ b resource) := by
  obtain ⟨hpre₁, hpost₁, hstep₁, hmore₁⟩ := Network.of_mem_trace hinj he₁
  obtain ⟨hpre₂, hpost₂, hstep₂, hmore₂⟩ := Network.of_mem_trace hinj he₂
  have hfinal := Network.invariant hinj steps
  have hvalid₁ := (Network.rooted_of_mem_trace hinj hcareful he₁).valid a
  have hvalid₂ := (Network.rooted_of_mem_trace hinj hcareful he₂).valid b
  have hagree : (e₁.post.replica a).document.Agree (e₂.post.replica b).document :=
    hfinal.agree (fun p hp => hfinal.own a p (hmore₁ a hp)) fun p hp => hfinal.own b p (hmore₂ b hp)
  -- the deletion
  obtain ⟨previous, current, selected, hlabel₁, hok₁, hselected, hdeletes⟩ := hdelete
  have hcall₁ := replica_post_of_call hstep₁ hlabel₁ hok₁
  obtain ⟨changes, hcapture₁⟩ := captureLocal_of_call hcall₁
  obtain ⟨d, hd, hdnew, hdwriter, hdvalue⟩ := visible_of_deletes (hpre₁.sound a)
    (hpre₁.wellformed a) hcapture₁ hselected hdeletes
  have hdmem : d ∈ (e₁.post.replica a).document :=
    (Document.mem_visible.mp (by rw [hd]; exact Finset.mem_singleton_self d)).1
  -- the write
  obtain ⟨c, field, hlabel₂, hok₂, rfl, hfield, hwrites⟩ := hwrite
  have hcall₂ := replica_post_of_call hstep₂ hlabel₂ hok₂
  have hwriters₁ : ∀ p ∈ (e₁.post.replica a).document,
      p ∈ (e₁.pre.replica a).document ∨ p.id.writer = a := by
    obtain ⟨ws, hws, -⟩ := call_ok (hpre₁.sound a) hcall₁
    intro p hp
    rw [hws] at hp
    rcases writer_of_mem_writtenAll ws p hp with hp | hp
    · exact Or.inl hp
    · exact Or.inr (hp.trans (hpre₁.writer a))
  have hwriters₂ : ∀ p ∈ (e₂.post.replica b).document,
      p ∈ (e₂.pre.replica b).document ∨ p.id.writer = b := by
    obtain ⟨ws, hws, -⟩ := call_ok (hpre₂.sound b) hcall₂
    intro p hp
    rw [hws] at hp
    rcases writer_of_mem_writtenAll ws p hp with hp | hp
    · exact Or.inl hp
    · exact Or.inr (hp.trans (hpre₂.writer b))
  have hunseen : d ∉ (e₂.post.replica b).document := by
    intro hmem
    rcases hwriters₂ d hmem with hmem | hwriter
    · exact hconcurrent.1 d hdmem hdnew hmem
    · exact hne ((hdwriter.trans (hpre₁.writer a)).symm.trans hwriter)
  -- the presences that the second replica shows and the first does not know
  have hshown : (∃ p ∈ (e₂.post.replica b).document.visible (.presence field.resource),
      p ∉ (e₁.post.replica a).document ∧ RefersTo (e₂.post.replica b).values p true) ↔
      IsCapture e₂ b ∨ KnowsPresence e₁ a e₂ b field.resource := by
    cases c with
    | captureLocal previous current selected =>
      obtain ⟨changes, hcapture₂⟩ := captureLocal_of_call hcall₂
      have hmarks : (ReplicaCall.captureLocal previous current selected).Careful := by
        obtain ⟨pre, i, post, rfl, rfl⟩ := (network contentDigest).mem_trace he₂
        have hi := hcareful i (by simp)
        rw [Machine.event_label] at hlabel₂
        rwa [hlabel₂] at hi
      obtain ⟨q, hq, hqnew, hqwriter, hqvalue⟩ := visible_of_edits (hpre₂.sound b)
        (hpre₂.wellformed b) hcapture₂ (hwrites.present hmarks.1 hmarks.2) hwrites
      have hqvis : q ∈ (e₂.post.replica b).document.visible (.presence field.resource) := by
        rw [hq]
        exact Finset.mem_singleton_self q
      refine iff_of_true ⟨q, hqvis, fun hmem => ?_, ?_⟩
        (Or.inl ⟨previous, current, selected, hlabel₂⟩)
      · rcases hwriters₁ q hmem with hmem | hwriter
        · exact hconcurrent.2 q (Document.mem_visible.mp hqvis).1 hqnew hmem
        · exact hne (hwriter.symm.trans (hqwriter.trans (hpre₂.writer b)))
      · exact (refersTo_encodeBool hinj hvalid₂.toSound hqvis hqvalue).mpr rfl
    | resolve conflict choice =>
      obtain ⟨-, hwritten, -⟩ := resolve_ok hcall₂
      obtain rfl : conflict.field = field := hwrites
      have hne' : SyncField.presence conflict.field.resource ≠ conflict.field := by
        intro heq
        rw [← heq] at hfield
        simp at hfield
      have hvis : (e₂.post.replica b).document.visible (.presence conflict.field.resource) =
          (e₂.pre.replica b).document.visible (.presence conflict.field.resource) := by
        rw [hwritten, document_written, Document.visible_put_of_ne _ _ hne']
      have hvalues : ∀ digest value, (e₂.pre.replica b).values.get digest = some value →
          (e₂.post.replica b).values.get digest = some value := by
        rw [hwritten]
        exact fun digest value => get_values_written hinj (hpre₂.sound b) _
      have hnot : ¬ IsCapture e₂ b := by
        rintro ⟨previous, current, selected, hlabel⟩
        simp [hlabel₂] at hlabel
      rw [or_iff_right hnot, KnowsPresence, hvis]
      refine exists_congr fun p => and_congr_right fun hp => ?_
      rw [refersTo_iff_of_mono ((hpre₂.sound b).shown _ p hp) hvalues]
      refine and_congr_left fun _ => not_congr ⟨fun hmem => ?_, fun hmem => ?_⟩
      · by_contra hnew
        exact hconcurrent.1 p hmem hnew (Document.mem_visible.mp hp).1
      · obtain ⟨ws, hws, -⟩ := call_ok (hpre₁.sound a) hcall₁
        rw [hws]
        exact document_subset_writtenAll _ ws hmem
    | replaceFields values fields => exact hwrites.elim
  -- both merges
  have hmerge : ∀ r s : SyncReplica, s.Valid contentDigest →
      r.merge contentDigest s.snapshot = ({ r with document := r.document ∪ s.document
                                                   values := r.values.extend s.values }, .ok ()) := by
    intro r s hs
    rw [merge, hs.load_snapshot]
  refine ⟨_, _, hmerge _ _ hvalid₂, hmerge _ _ hvalid₁, ?_, ?_⟩
  · rw [← hshown]
    exact surfaces_union_iff hinj hvalid₂.toSound (hpost₁.wellformed a) (hpost₂.wellformed b) hagree
      hd hunseen hdvalue rfl
      (fun digest value => get_extend_of_digests hinj hvalid₁.digests hvalid₂.digests)
      (hvalid₁.union hinj hvalid₂).toSound
  · rw [← hshown]
    refine surfaces_union_iff hinj hvalid₂.toSound (hpost₁.wellformed a) (hpost₂.wellformed b)
      hagree hd hunseen hdvalue (Finset.union_comm _ _) (fun digest value => ?_)
      (hvalid₂.union hinj hvalid₁).toSound
    rw [or_comm]
    exact get_extend_of_digests hinj hvalid₂.digests hvalid₁.digests

/-! ## A deletion and an edit -/

/-- A connection that two devices know. -/
def sharing : List NetworkStep :=
  [.call 1 (.captureLocal .empty (Reference.named [0x22, 0x61, 0x22]) {Reference.connection}),
    .publish 1, .receive 2 0]

/-- The first device deletes the connection. -/
def deleting : NetworkStep :=
  .call 1 (.captureLocal (Reference.named [0x22, 0x61, 0x22]) .empty {Reference.connection})

/-- The second device renames it. -/
def rename : NetworkStep :=
  .call 2 (.captureLocal (Reference.named [0x22, 0x61, 0x22])
    (Reference.named [0x22, 0x62, 0x22]) {Reference.connection})

/-- The deletion, and then the renaming, as events of one run. -/
def deleteEvent : Event Network NetworkStep (Result Unit) :=
  (network Reference.contentDigest).event ((network Reference.contentDigest).final sharing) deleting

def renameEvent : Event Network NetworkStep (Result Unit) :=
  (network Reference.contentDigest).event
    ((network Reference.contentDigest).final (sharing ++ [deleting])) rename

theorem deletesRecord_deleteEvent : DeletesRecord deleteEvent 1 Reference.connection :=
  ⟨Reference.named [0x22, 0x61, 0x22], .empty, {Reference.connection}, rfl, by decide +kernel,
    by decide, ⟨by decide +kernel, by decide +kernel, by decide +kernel⟩⟩

theorem writesRecord_renameEvent : WritesRecord renameEvent 2 Reference.connection := by
  refine ⟨.captureLocal (Reference.named [0x22, 0x61, 0x22]) (Reference.named [0x22, 0x62, 0x22])
    {Reference.connection}, Reference.name, rfl, by decide +kernel, rfl, by decide, ?_⟩
  refine ⟨by decide, by decide +kernel, fun h => ?_, by decide +kernel, by decide +kernel⟩
  have hpresent : SyncValues.present (Reference.named [0x22, 0x62, 0x22]) Reference.connection =
    .ok true := by decide +kernel
  have habsent := h.not_present
  rw [show Reference.name.resource = Reference.connection from rfl, hpresent] at habsent
  simp at habsent

theorem concurrent_events : Concurrent deleteEvent 1 renameEvent 2 := by
  constructor <;> decide +kernel

/-- The deletion of a connection that is renamed surfaces. -/
theorem deletion_surfaces_iff_renamed :
    ∃ m m', (deleteEvent.post.replica 1).merge Reference.contentDigest
        (renameEvent.post.replica 2).snapshot = (m, .ok ()) ∧
      (renameEvent.post.replica 2).merge Reference.contentDigest
        (deleteEvent.post.replica 1).snapshot = (m', .ok ()) ∧
      (Surfaces m Reference.connection ↔ IsCapture renameEvent 2 ∨
        KnowsPresence deleteEvent 1 renameEvent 2 Reference.connection) ∧
      (Surfaces m' Reference.connection ↔ IsCapture renameEvent 2 ∨
        KnowsPresence deleteEvent 1 renameEvent 2 Reference.connection) := by
  have hdeleted := (network Reference.contentDigest).event_mem_trace sharing deleting [rename]
  have hrenamed := (network Reference.contentDigest).event_mem_trace (sharing ++ [deleting]) rename []
  rw [List.append_assoc, List.singleton_append] at hrenamed
  exact deletion_surfaces_iff Reference.contentDigest_injective (by decide +kernel) hdeleted hrenamed
    (by decide) deletesRecord_deleteEvent writesRecord_renameEvent concurrent_events

/-- Both devices rename the connection, and hear of it. -/
def sharingConflict : List NetworkStep :=
  sharing ++
    [.call 1 (.captureLocal (Reference.named [0x22, 0x61, 0x22])
        (Reference.named [0x22, 0x62, 0x22]) {Reference.connection}),
      .call 2 (.captureLocal (Reference.named [0x22, 0x61, 0x22])
        (Reference.named [0x22, 0x63, 0x22]) {Reference.connection}),
      .publish 1, .publish 2, .receive 2 1, .receive 1 2]

/-- **A deletion next to a resolution is applied silently.** One device deletes the connection
while the other resolves the conflict of its name: the presence is not in conflict afterwards, and
the record is removed from the second device, resolved name and all. -/
theorem deletion_hides_resolution :
    let n := (network Reference.contentDigest).final sharingConflict
    let previous := Reference.named [0x22, 0x62, 0x22]
    let choice := Reference.named [0x22, 0x63, 0x22]
    let conflict : SyncConflict :=
      { field := Reference.name, candidates := (n.replica 2).candidateList Reference.name }
    let deleted := (n.replica 1).captureLocal Reference.contentDigest previous .empty
      {Reference.connection}
    let resolved := (n.replica 2).resolve Reference.contentDigest conflict
      (choice.get Reference.name)
    let m := deleted.1.merge Reference.contentDigest resolved.1.snapshot
    let m' := resolved.1.merge Reference.contentDigest deleted.1.snapshot
    (n.replica 2).conflicts = .ok [conflict] ∧
    deleted.2 = .ok true ∧ resolved.2 = .ok () ∧ m.2 = .ok () ∧ m'.2 = .ok () ∧
    m.1.conflicts = .ok [] ∧ m'.1.conflicts = .ok [] ∧
    (m'.1.materialize choice {Reference.connection}).map FiniteMap.keys = .ok ∅ := by
  decide +kernel

end OxideTerm.CloudSync
