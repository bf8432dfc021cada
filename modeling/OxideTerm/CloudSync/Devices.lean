import OxideTerm.CloudSync.Synchronize

/-!
# Devices that synchronize

The synchronization cycle of any number of devices as one machine, and what it comes to in the
network of their replicas: what a device stores is what its replica would be had it taken the same
calls one by one.
-/

namespace OxideTerm.CloudSync

open OxideTerm.Lib

structure Device where
  disk : Option LocalReplica
  live : SyncValues
  plan : Option PreparedSync

structure Devices where
  device : Uuid → Device
  published : List (PublicationId × ReplicaSnapshot)

inductive SyncStep where
  /-- The user changes a value, or removes it. -/
  | edit (u : Uuid) (field : SyncField) (value : Option FieldValue)
  /-- Makes a plan with the snapshots published at these places. -/
  | prepare (u : Uuid) (scope : SyncScope) (read : List Nat) (missing : Bool)
      (outcome : WriteOutcome)
  | choose (u : Uuid) (resolution : Resolution)
  | cancel (u : Uuid)
  | apply (u : Uuid) (outcome : WriteOutcome)
  | publish (u : Uuid) (id : PublicationId)

namespace Devices

variable {Context : Type} (codec : Codec Context)

def init : Devices where
  device _ := { disk := none, live := .empty, plan := none }
  published := []

/-- Changes one device. -/
def update (s : Devices) (u : Uuid) (d : Device) : Devices :=
  { s with device := Function.update s.device u d }

/-- The snapshots published at these places. -/
def readAll (s : Devices) (read : List Nat) : List (PublicationId × ReplicaSnapshot) :=
  read.filterMap fun index => s.published[index]?

/-- The configuration once these values of its synchronized part are applied. -/
def apply (scope : SyncScope) (live desired : SyncValues) : SyncValues :=
  (live.retain fun field => !scope.views field).extend desired

def step (s : Devices) : SyncStep → Devices × Result Unit
  | .edit u field value =>
    let d := s.device u
    match value with
    | some value => (s.update u { d with live := d.live.insert field value }, .ok ())
    | none => (s.update u { d with live := d.live.erase field }, .ok ())
  | .prepare u scope read missing outcome =>
    let d := s.device u
    match prepareSync codec d.disk u d.live scope (s.readAll read) missing outcome with
    | (disk, .error e) => (s.update u { d with disk, plan := none }, .error e)
    | (disk, .ok plan) => (s.update u { d with disk, plan := some plan }, .ok ())
  | .choose u resolution =>
    let d := s.device u
    (s.update u { d with plan := d.plan.map (·.chooseCandidate resolution) }, .ok ())
  | .cancel u => (s.update u { s.device u with plan := none }, .ok ())
  | .apply u outcome =>
    let d := s.device u
    match d.plan with
    | none => (s, .ok ())
    | some plan =>
      match plan.applied codec d.live with
      | .error e => (s.update u { d with plan := none }, .error e)
      | .ok (desired, next) =>
        -- the configuration and the record are written together or not at all
        let live := if ReplicaStore.validateRecord codec next = .ok () ∧ outcome.persists = true
          then apply plan.scope d.live desired else d.live
        let saved := ReplicaStore.save codec d.disk next outcome
        (s.update u { disk := saved.1, live, plan := none }, saved.2)
  | .publish u id =>
    match (s.device u).disk with
    | none => (s, .ok ())
    | some record => ({ s with published := s.published ++ [(id, record.snapshot)] }, .ok ())

end Devices

/-- The devices and what they do. -/
def devices {Context : Type} (codec : Codec Context) : Machine Devices SyncStep (Result Unit) where
  init := .init
  step := Devices.step codec

/-- The step captures the configuration of the device into the record. -/
inductive Captures {Context : Type} (codec : Codec Context) (s : Devices) (u : Uuid) :
    SyncStep → LocalReplica → SyncScope → Finset SyncResource → SyncReplica → Finset SyncResource →
    Prop where
  | prepare {scope : SyncScope} {read : List Nat} {missing : Bool} {outcome : WriteOutcome}
      {stored : Option LocalReplica} {r : SyncReplica} {selected : Finset SyncResource} :
      ReplicaStore.load codec (s.device u).disk = .ok stored →
      (stored.getD (.new u)).capture codec scope (scope.collect (s.device u).live) ∅ =
        .ok (r, selected) →
      Captures codec s u (.prepare u scope read missing outcome) (stored.getD (.new u)) scope ∅ r
        selected
  | apply {outcome : WriteOutcome} {plan : PreparedSync} {remote r : SyncReplica}
      {known selected : Finset SyncResource} :
      (s.device u).plan = some plan → plan.remoteReplica codec = .ok remote →
      remote.resources = .ok known →
      plan.localReplica.capture codec plan.scope (plan.scope.collect (s.device u).live) known =
        .ok (r, selected) →
      Captures codec s u (.apply u outcome) plan.localReplica plan.scope known r selected

/-! ## Captures and plans, call by call -/

section

variable {Context : Type} {codec : Codec Context}

namespace SyncReplica

theorem load_eq {contentDigest : FieldValue → String} {s : ReplicaSnapshot} {writer : Uuid}
    {r : SyncReplica} (h : load contentDigest s writer = .ok r) :
    r = { document := s.document, writer, values := s.values } := by
  unfold load at h
  split at h
  · simp at h
  · dsimp only at h
    split at h
    · simp at h
    · exact (Except.ok.inj h).symm

/-- Takes one call after the other. -/
def callAll (contentDigest : FieldValue → String) :
    List ReplicaCall → SyncReplica → Result SyncReplica
  | [], r => .ok r
  | c :: rest, r =>
    match r.call contentDigest c with
    | (_, .error e) => .error e
    | (r, .ok ()) => callAll contentDigest rest r

theorem callAll_single {contentDigest : FieldValue → String} {r r' : SyncReplica}
    {c : ReplicaCall} (h : r.call contentDigest c = (r', .ok ())) :
    callAll contentDigest [c] r = .ok r' := by
  rw [callAll, h]
  rfl

/-- A merge that succeeds can be made into any other replica. -/
theorem merge_eq {contentDigest : FieldValue → String} {r r' : SyncReplica} {s : ReplicaSnapshot}
    (h : r.merge contentDigest s = (r', .ok ())) :
    r' = { r with document := r.document ∪ s.document, values := r.values.extend s.values } ∧
      ∀ q : SyncReplica, q.merge contentDigest s =
        ({ q with document := q.document ∪ s.document
                  values := q.values.extend s.values }, .ok ()) := by
  unfold merge at h
  cases hload : load contentDigest s 0 with
  | error e => simp [hload] at h
  | ok incoming =>
    rw [hload] at h
    obtain rfl := load_eq hload
    refine ⟨(Prod.mk.inj h).1.symm, fun q => ?_⟩
    rw [merge, hload]

theorem extend_assoc (a b c : FiniteMap String FieldValue) :
    (a.extend b).extend c = a.extend (b.extend c) := by
  ext1 k
  simp only [FiniteMap.get_extend, Option.or_assoc]

/-- **Merging the merged snapshots is merging them one by one.** -/
theorem mergeAll_onto {contentDigest : FieldValue → String} (q : SyncReplica) :
    (snapshots : List ReplicaSnapshot) → {r m : SyncReplica} →
    mergeAll contentDigest snapshots r = .ok m →
    mergeAll contentDigest snapshots
        { q with document := q.document ∪ r.document, values := q.values.extend r.values } =
      .ok { q with document := q.document ∪ m.document, values := q.values.extend m.values }
  | [], r, m, h => by
    obtain rfl := Except.ok.inj h
    rfl
  | s :: rest, r, m, h => by
    rw [mergeAll] at h
    split at h
    · simp at h
    next r₁ hmerge =>
    obtain ⟨rfl, hany⟩ := merge_eq hmerge
    have hrest := mergeAll_onto q rest h
    rw [mergeAll, hany]
    rw [← Finset.union_assoc, ← extend_assoc] at hrest
    exact hrest

end SyncReplica

/-- **What a capture into a record comes to.** -/
theorem LocalReplica.capture_ok {record : LocalReplica} {scope : SyncScope} {values : SyncValues}
    {known selected : Finset SyncResource} {r : SyncReplica}
    (h : record.capture codec scope values known = .ok (r, selected)) :
    SyncReplica.load codec.contentDigest record.snapshot record.writer = .ok record.replica ∧
      ∃ b, record.replica.captureLocal codec.contentDigest
        (scope.captureBaseline record.effective) values selected = (r, .ok b) := by
  unfold capture at h
  split at h
  · simp at h
  next replica hload =>
  obtain rfl := SyncReplica.load_eq hload
  split at h
  · simp at h
  next resources hresources =>
  split at h
  · simp at h
  next replica b hcapture =>
  rw [Except.ok.injEq, Prod.mk.injEq] at h
  obtain ⟨rfl, rfl⟩ := h
  exact ⟨hload, b, hcapture⟩

theorem SyncReplica.call_captureLocal {contentDigest : FieldValue → String} {r r' : SyncReplica}
    {previous current : SyncValues} {selected : Finset SyncResource} {b : Bool}
    (h : r.captureLocal contentDigest previous current selected = (r', .ok b)) :
    r.call contentDigest (.captureLocal previous current selected) = (r', .ok ()) := by
  simp only [SyncReplica.call, h]
  rfl

/-- What preparing comes to: the capture is in the plan, and may be on the disk already. -/
theorem prepareSync_cases {disk : Option LocalReplica} {writer : Uuid} {live : SyncValues}
    {scope : SyncScope} {remote : List (PublicationId × ReplicaSnapshot)} {missing : Bool}
    {outcome : WriteOutcome} {disk' : Option LocalReplica} {result : Result PreparedSync}
    (h : prepareSync codec disk writer live scope remote missing outcome = (disk', result)) :
    (disk' = disk ∧ ∀ plan, result ≠ .ok plan) ∨
      ∃ r selected, (disk.getD (.new writer)).capture codec scope (scope.collect live) ∅ =
          .ok (r, selected) ∧
        (disk' = disk ∨ ∃ record, disk' = some record ∧ record.snapshot = r.snapshot ∧
          record.writer = (disk.getD (.new writer)).writer) ∧
        ∀ plan, result = .ok plan → plan.localReplica.snapshot = r.snapshot ∧
          plan.localReplica.writer = (disk.getD (.new writer)).writer ∧
          plan.remote = remote.map Prod.snd := by
  unfold prepareSync at h
  split at h
  · rw [Prod.mk.injEq] at h
    obtain ⟨rfl, rfl⟩ := h
    exact Or.inl ⟨rfl, by simp⟩
  next stored hload =>
  obtain rfl : stored = disk := ReplicaStore.load_eq hload
  dsimp only at h
  split at h
  · rw [Prod.mk.injEq] at h
    obtain ⟨rfl, rfl⟩ := h
    exact Or.inl ⟨rfl, by simp⟩
  next r selected hcapture =>
  refine Or.inr ⟨r, selected, hcapture, ?_⟩
  split at h
  · split at h
    · next saved e hsave =>
      rw [Prod.mk.injEq] at h
      obtain ⟨rfl, rfl⟩ := h
      refine ⟨?_, by simp⟩
      rcases ReplicaStore.save_cases hsave with hdisk | hdisk
      · exact Or.inl hdisk
      · exact Or.inr ⟨_, hdisk, rfl, rfl⟩
    · next saved hsave =>
      rw [Prod.mk.injEq] at h
      obtain ⟨rfl, rfl⟩ := h
      refine ⟨?_, ?_⟩
      · rcases ReplicaStore.save_cases hsave with hdisk | hdisk
        · exact Or.inl hdisk
        · exact Or.inr ⟨_, hdisk, rfl, rfl⟩
      · rintro plan hplan
        obtain rfl := Except.ok.inj hplan
        exact ⟨rfl, rfl, rfl⟩
  · rw [Prod.mk.injEq] at h
    obtain ⟨rfl, rfl⟩ := h
    refine ⟨Or.inl rfl, ?_⟩
    rintro plan hplan
    obtain rfl := Except.ok.inj hplan
    exact ⟨rfl, rfl, rfl⟩

namespace PreparedSync

/-- What was chosen is resolved by calls. -/
theorem resolveAll_ok : (resolutions : List Resolution) → {r r' : SyncReplica} →
    resolveAll codec resolutions r = .ok r' →
    ∃ cs, SyncReplica.callAll codec.contentDigest cs r = .ok r'
  | [], _, _, h => ⟨[], h⟩
  | resolution :: rest, r, r', h => by
    rw [resolveAll] at h
    split at h
    · simp at h
    next r₁ hresolve =>
    obtain ⟨cs, hcs⟩ := resolveAll_ok rest h
    refine ⟨.resolve resolution.conflict (r.candidateValue (resolution.conflict.candidates.get
      resolution.index)) :: cs, ?_⟩
    rw [SyncReplica.callAll, SyncReplica.call, hresolve]
    exact hcs

/-- What a plan captures. -/
theorem captured_ok {plan : PreparedSync} {values : SyncValues} {r remote : SyncReplica}
    (h : plan.captured codec values = .ok (r, remote)) :
    plan.remoteReplica codec = .ok remote ∧ ∃ known selected, remote.resources = .ok known ∧
      plan.localReplica.capture codec plan.scope values known = .ok (r, selected) := by
  unfold captured at h
  split at h
  · simp at h
  next remote' hremote =>
  split at h
  · simp at h
  next known hknown =>
  split at h
  · simp at h
  next replica selected hcapture =>
  rw [Except.ok.injEq, Prod.mk.injEq] at h
  obtain ⟨rfl, rfl⟩ := h
  exact ⟨hremote, known, selected, hknown, hcapture⟩

/-- **What a plan comes to:** one more capture, the snapshots one by one, and the resolutions. -/
theorem plannedReplica_ok {plan : PreparedSync} {values : SyncValues} {r : SyncReplica}
    (h : plan.plannedReplica codec values = .ok r) :
    ∃ r₁ r₂ remote, plan.captured codec values = .ok (r₁, remote) ∧
      SyncReplica.mergeAll codec.contentDigest plan.remote r₁ = .ok r₂ ∧
      ∃ cs, SyncReplica.callAll codec.contentDigest cs r₂ = .ok r := by
  unfold plannedReplica at h
  split at h
  · simp at h
  next r₁ remote hcaptured =>
  split at h
  · simp at h
  next r₂ hmerge =>
  obtain ⟨hremote, -⟩ := captured_ok hcaptured
  obtain ⟨rfl, -⟩ := SyncReplica.merge_eq hmerge
  refine ⟨r₁, _, remote, hcaptured, ?_, resolveAll_ok _ h⟩
  -- the snapshots were merged into an empty replica first
  have honto := SyncReplica.mergeAll_onto r₁ plan.remote hremote
  have hempty : r₁.values.extend (SyncReplica.new plan.localReplica.writer).values = r₁.values := by
    ext1 k
    simp [FiniteMap.get_extend, SyncReplica.new]
  rw [hempty, show (SyncReplica.new plan.localReplica.writer).document = ∅ from rfl,
    Finset.union_empty] at honto
  exact honto

/-- What applying a plan leaves in the record. -/
theorem applied_ok {plan : PreparedSync} {live desired : SyncValues} {next : LocalReplica}
    (h : plan.applied codec live = .ok (desired, next)) :
    ∃ r, plan.plannedReplica codec (plan.scope.collect live) = .ok r ∧
      next.snapshot = r.snapshot ∧ next.writer = plan.localReplica.writer := by
  unfold applied at h
  dsimp only at h
  split at h
  · simp at h
  next r hplanned =>
  split at h
  · simp at h
  split at h
  · simp at h
  split at h
  · simp at h
  rw [Except.ok.injEq, Prod.mk.injEq] at h
  obtain ⟨-, rfl⟩ := h
  exact ⟨r, hplanned, rfl, rfl⟩

end PreparedSync

end

/-! ## In the network of replicas -/

namespace Devices

/-- The replica that the device stores. -/
def stored (s : Devices) (u : Uuid) : SyncReplica :=
  match (s.device u).disk with
  | none => SyncReplica.new u
  | some record => record.replica

/-- The network of the replicas that are stored. -/
def toNetwork (s : Devices) : Network where
  replica := s.stored
  snapshots := s.published.map Prod.snd

variable {Context : Type} {codec : Codec Context}

@[simp] theorem device_update_self (s : Devices) (u : Uuid) (d : Device) :
    (s.update u d).device u = d := Function.update_self ..

theorem device_update_of_ne (s : Devices) {u v : Uuid} (h : v ≠ u) (d : Device) :
    (s.update u d).device v = s.device v := Function.update_of_ne h ..

@[simp] theorem published_update (s : Devices) (u : Uuid) (d : Device) :
    (s.update u d).published = s.published := rfl

theorem stored_of_some {s : Devices} {u : Uuid} {record : LocalReplica}
    (h : (s.device u).disk = some record) : s.stored u = record.replica := by rw [stored, h]

/-- Changing a device changes its replica in the network. -/
theorem toNetwork_update (s : Devices) (u : Uuid) (d : Device) :
    (s.update u d).toNetwork = s.toNetwork.set u ((s.update u d).stored u) := by
  have hreplica : (s.update u d).stored = Function.update s.stored u ((s.update u d).stored u) := by
    funext v
    by_cases hv : v = u
    · subst hv
      rw [Function.update_self]
    · rw [Function.update_of_ne hv, stored, stored, device_update_of_ne s hv]
  conv_lhs => rw [toNetwork, hreplica]
  rfl

/-- A device whose disk is left alone. -/
theorem toNetwork_update_of_disk {s : Devices} {u : Uuid} {d : Device}
    (h : d.disk = (s.device u).disk) : (s.update u d).toNetwork = s.toNetwork := by
  have hstored : (s.update u d).stored u = s.stored u := by
    rw [stored, stored, device_update_self, h]
  rw [toNetwork_update, hstored]
  exact Network.set_replica ..

/-- What holds of a plan: its replica is what calls make of the stored one, and it has read what
was published. -/
structure Planned (codec : Codec Context) (s : Devices) (u : Uuid) (plan : PreparedSync) :
    Prop where
  writer : plan.localReplica.writer = u
  calls : ∃ cs, SyncReplica.callAll codec.contentDigest cs (s.stored u) =
    .ok plan.localReplica.replica
  remote : ∀ snapshot ∈ plan.remote, snapshot ∈ s.toNetwork.snapshots

structure Invariant (codec : Codec Context) (s : Devices) : Prop where
  network : s.toNetwork.Invariant codec.contentDigest
  schema : ∀ u record, (s.device u).disk = some record → record.snapshot.schema = 3
  planned : ∀ u plan, (s.device u).plan = some plan → Planned codec s u plan

theorem invariant_init : (Devices.init).Invariant codec where
  network := by
    have hinit : Devices.init.toNetwork = Network.init := rfl
    rw [hinit]
    exact Network.Invariant.init
  schema u record h := by simp [Devices.init] at h
  planned u plan h := by simp [Devices.init] at h

/-- A plan is not concerned by what other devices store, nor by what else is published. -/
theorem Planned.of_stored {s s' : Devices} {u : Uuid} {plan : PreparedSync}
    (h : Planned codec s u plan) (hstored : s'.stored u = s.stored u)
    (hpublished : ∀ snapshot ∈ s.toNetwork.snapshots, snapshot ∈ s'.toNetwork.snapshots) :
    Planned codec s' u plan where
  writer := h.writer
  calls := by rw [hstored]; exact h.calls
  remote snapshot hs := hpublished snapshot (h.remote snapshot hs)

/-- One device is changed. -/
theorem Invariant.update (hinj : Function.Injective codec.contentDigest) {s : Devices}
    (h : s.Invariant codec) {u : Uuid} {d : Device}
    (hreaches : Network.Reaches codec.contentDigest s.toNetwork (s.update u d).toNetwork)
    (hschema : ∀ record, d.disk = some record → record.snapshot.schema = 3)
    (hplanned : ∀ plan, d.plan = some plan → Planned codec (s.update u d) u plan) :
    (s.update u d).Invariant codec where
  network := hreaches.invariant hinj h.network
  schema v record hdisk := by
    by_cases hv : v = u
    · subst hv
      rw [device_update_self] at hdisk
      exact hschema record hdisk
    · rw [device_update_of_ne s hv] at hdisk
      exact h.schema v record hdisk
  planned v plan hplan := by
    by_cases hv : v = u
    · subst hv
      rw [device_update_self] at hplan
      exact hplanned plan hplan
    · rw [device_update_of_ne s hv] at hplan
      refine (h.planned v plan hplan).of_stored ?_ fun _ hs => hs
      rw [stored, stored, device_update_of_ne s hv]

/-- One device is changed, and its disk is not. -/
theorem Invariant.update_of_disk (hinj : Function.Injective codec.contentDigest) {s : Devices}
    (h : s.Invariant codec) {u : Uuid} {d : Device} (hdisk : d.disk = (s.device u).disk)
    (hplanned : ∀ plan, d.plan = some plan → Planned codec s u plan) :
    Network.Reaches codec.contentDigest s.toNetwork (s.update u d).toNetwork ∧
      (s.update u d).Invariant codec := by
  have hsame := toNetwork_update_of_disk hdisk
  have hreaches : Network.Reaches codec.contentDigest s.toNetwork (s.update u d).toNetwork := by
    rw [hsame]
    exact Network.Reaches.refl _
  refine ⟨hreaches, h.update hinj hreaches (fun record hrecord => ?_) fun plan hplan => ?_⟩
  · rw [hdisk] at hrecord
    exact h.schema u record hrecord
  · refine (hplanned plan hplan).of_stored ?_ fun _ hs => hs
    rw [stored, stored, device_update_self, hdisk]

/-- The replica of a device is moved by calls. -/
theorem reaches_calls {u : Uuid} : {cs : List ReplicaCall} → {n : Network} → {r : SyncReplica} →
    SyncReplica.callAll codec.contentDigest cs (n.replica u) = .ok r →
    Network.Reaches codec.contentDigest n (n.set u r)
  | [], n, r, h => by
    obtain rfl := Except.ok.inj h
    rw [Network.set_replica]
    exact Network.Reaches.refl n
  | c :: rest, n, r, h => by
    rw [SyncReplica.callAll] at h
    split at h
    · simp at h
    next r₁ hcall =>
    have hrest : Network.Reaches codec.contentDigest (n.set u r₁) ((n.set u r₁).set u r) :=
      reaches_calls (by rwa [Network.replica_set_self])
    rw [Network.set_set] at hrest
    exact (Network.Reaches.call hcall).trans hrest

/-- A record with the snapshot of a replica holds this replica. -/
theorem replica_of_snapshot {record : LocalReplica} {r : SyncReplica}
    (hsnapshot : record.snapshot = r.snapshot) (hwriter : record.writer = r.writer) :
    record.replica = r := by
  rw [LocalReplica.replica, hsnapshot, hwriter]
  rfl

theorem replica_getD (s : Devices) (u : Uuid) :
    (((s.device u).disk).getD (.new u)).replica = s.stored u := by
  rw [stored]
  cases (s.device u).disk <;> rfl

theorem mem_of_readAll (s : Devices) {read : List Nat} {snapshot : ReplicaSnapshot}
    (h : snapshot ∈ (s.readAll read).map Prod.snd) : snapshot ∈ s.toNetwork.snapshots := by
  obtain ⟨publication, hmem, rfl⟩ := List.mem_map.mp h
  obtain ⟨index, -, hindex⟩ := List.mem_filterMap.mp hmem
  exact List.mem_map_of_mem (List.mem_of_getElem? hindex)

/-- What a plan captures is reached in the network. -/
theorem Planned.reaches_captured {s : Devices} {u : Uuid} {plan : PreparedSync}
    (h : Planned codec s u plan) {scope : SyncScope} {values : SyncValues}
    {known selected : Finset SyncResource} {r : SyncReplica}
    (hcapture : plan.localReplica.capture codec scope values known = .ok (r, selected)) :
    Network.Reaches codec.contentDigest s.toNetwork (s.toNetwork.set u r) := by
  obtain ⟨-, b, hlocal⟩ := LocalReplica.capture_ok hcapture
  obtain ⟨cs, hcs⟩ := h.calls
  have hplan : Network.Reaches codec.contentDigest s.toNetwork
      (s.toNetwork.set u plan.localReplica.replica) := reaches_calls hcs
  have hcall := @Network.Reaches.call codec.contentDigest
    (s.toNetwork.set u plan.localReplica.replica) u _ r
    (by rw [Network.replica_set_self]; exact SyncReplica.call_captureLocal hlocal)
  rw [Network.set_set] at hcall
  exact hplan.trans hcall

/-- What a plan comes to is reached from what it captures. -/
theorem Planned.reaches {s : Devices} {u : Uuid} {plan : PreparedSync} (h : Planned codec s u plan)
    {values : SyncValues} {r : SyncReplica} (hplanned : plan.plannedReplica codec values = .ok r) :
    ∃ r₁ remote, plan.captured codec values = .ok (r₁, remote) ∧
      Network.Reaches codec.contentDigest s.toNetwork (s.toNetwork.set u r₁) ∧
      Network.Reaches codec.contentDigest (s.toNetwork.set u r₁) (s.toNetwork.set u r) := by
  obtain ⟨r₁, r₂, remote, hcaptured, hmerged, cs, hresolved⟩ :=
    PreparedSync.plannedReplica_ok hplanned
  obtain ⟨-, known, selected, -, hcapture⟩ := PreparedSync.captured_ok hcaptured
  refine ⟨r₁, remote, hcaptured, h.reaches_captured hcapture, ?_⟩
  have hmerge := @Network.Reaches.receiveAll codec.contentDigest u plan.remote
    (s.toNetwork.set u r₁) r₂ h.remote (by rwa [Network.replica_set_self])
  have hresolve := @reaches_calls _ codec u cs (s.toNetwork.set u r₂) r
    (by rwa [Network.replica_set_self])
  rw [Network.set_set] at hmerge hresolve
  exact hmerge.trans hresolve

/-- **Every step is taken in the network, too.** -/
theorem Invariant.step (hinj : Function.Injective codec.contentDigest) {s : Devices}
    (h : s.Invariant codec) (i : SyncStep) :
    Network.Reaches codec.contentDigest s.toNetwork (s.step codec i).1.toNetwork ∧
      (s.step codec i).1.Invariant codec := by
  cases i with
  | edit u field value =>
    cases value <;> exact h.update_of_disk hinj rfl (h.planned u)
  | choose u resolution =>
    refine h.update_of_disk hinj rfl fun plan hplan => ?_
    obtain ⟨plan', hplan', rfl⟩ := Option.map_eq_some_iff.mp hplan
    have hold := h.planned u plan' hplan'
    exact ⟨hold.writer, hold.calls, hold.remote⟩
  | cancel u => exact h.update_of_disk hinj rfl fun plan hplan => by simp at hplan
  | publish u id =>
    cases hdisk : (s.device u).disk with
    | none =>
      have hstep : (s.step codec (.publish u id)).1 = s := by simp only [Devices.step, hdisk]
      rw [hstep]
      exact ⟨Network.Reaches.refl _, h⟩
    | some record =>
      have hstep : (s.step codec (.publish u id)).1 =
          { s with published := s.published ++ [(id, record.snapshot)] } := by
        simp only [Devices.step, hdisk]
      have hsnapshot : record.snapshot = (s.stored u).snapshot := by
        rw [stored_of_some hdisk, LocalReplica.replica, SyncReplica.snapshot,
          ← h.schema u record hdisk]
      have hnetwork : (s.step codec (.publish u id)).1.toNetwork =
          (s.toNetwork.step codec.contentDigest (.publish u)).1 := by
        rw [hstep]
        simp only [Network.step, toNetwork, List.map_append, List.map_cons, List.map_nil, hsnapshot]
        rfl
      have hreaches : Network.Reaches codec.contentDigest s.toNetwork
          (s.step codec (.publish u id)).1.toNetwork := by
        rw [hnetwork]
        exact Network.Reaches.step _ _
      refine ⟨hreaches, hreaches.invariant hinj h.network, ?_, fun v plan hplan => ?_⟩
      · rw [hstep]
        exact h.schema
      · rw [hstep] at hplan ⊢
        refine (h.planned v plan hplan).of_stored rfl fun snapshot hs => ?_
        show snapshot ∈ (s.published ++ [(id, record.snapshot)]).map Prod.snd
        rw [List.map_append]
        exact List.mem_append_left _ hs
  | prepare u scope read missing outcome =>
    generalize hprepare : prepareSync codec (s.device u).disk u (s.device u).live scope
      (s.readAll read) missing outcome = prepared
    obtain ⟨disk, result⟩ := prepared
    have hstep : (s.step codec (.prepare u scope read missing outcome)).1 =
        s.update u { s.device u with disk, plan := result.toOption } := by
      simp only [Devices.step, hprepare]
      cases result <;> rfl
    rw [hstep]
    rcases prepareSync_cases hprepare with ⟨rfl, herror⟩ | ⟨r, selected, hcapture, hdisk, hplan⟩
    · refine h.update_of_disk hinj rfl fun plan hplan => ?_
      cases result with
      | error e => simp [Except.toOption] at hplan
      | ok plan' => exact absurd rfl (herror plan')
    · obtain ⟨-, b, hlocal⟩ := LocalReplica.capture_ok hcapture
      rw [replica_getD] at hlocal
      have hcall := SyncReplica.call_captureLocal hlocal
      have hreaches := @Network.Reaches.call _ s.toNetwork u _ r hcall
      have hwriter : r.writer = u := by
        have hw := (hreaches.invariant hinj h.network).writer u
        rwa [Network.replica_set_self] at hw
      have hbase : ((s.device u).disk.getD (.new u)).writer = u := by
        have hw := h.network.writer u
        rwa [show s.toNetwork.replica u = s.stored u from rfl, ← replica_getD] at hw
      rcases hdisk with hdisk | ⟨record, rfl, hsnapshot, hrecord⟩
      · refine h.update_of_disk hinj hdisk fun plan hresult => ?_
        obtain ⟨hsnapshot, hrecord, hremote⟩ := hplan plan (toOption_eq_some.mp hresult)
        rw [hbase] at hrecord
        refine ⟨hrecord, ?_, fun snapshot hs => ?_⟩
        · rw [replica_of_snapshot hsnapshot (hrecord.trans hwriter.symm)]
          exact ⟨_, SyncReplica.callAll_single hcall⟩
        · rw [hremote] at hs
          exact s.mem_of_readAll hs
      · rw [hbase] at hrecord
        have hreplica := replica_of_snapshot hsnapshot (hrecord.trans hwriter.symm)
        have hstored : ∀ d : Device, d.disk = some record → (s.update u d).stored u = r := by
          intro d hd
          rw [stored, device_update_self, hd]
          exact hreplica
        have hnew : Network.Reaches codec.contentDigest s.toNetwork (s.update u
            { s.device u with disk := some record, plan := result.toOption }).toNetwork := by
          rw [toNetwork_update, hstored _ rfl]
          exact hreaches
        refine ⟨hnew, h.update hinj hnew (fun record' hr => ?_) fun plan hresult => ?_⟩
        · rw [← Option.some.inj hr, hsnapshot]
          rfl
        · obtain ⟨hsnapshot', hrecord', hremote⟩ :=
            hplan plan (toOption_eq_some.mp hresult)
          rw [hbase] at hrecord'
          refine ⟨hrecord', ⟨[], ?_⟩, fun snapshot hs => ?_⟩
          · rw [hstored _ rfl, replica_of_snapshot hsnapshot' (hrecord'.trans hwriter.symm)]
            rfl
          · rw [hremote] at hs
            exact s.mem_of_readAll hs
  | apply u outcome =>
    cases hplan : (s.device u).plan with
    | none =>
      have hstep : (s.step codec (.apply u outcome)).1 = s := by simp only [Devices.step, hplan]
      rw [hstep]
      exact ⟨Network.Reaches.refl _, h⟩
    | some plan =>
      cases happlied : plan.applied codec (s.device u).live with
      | error e =>
        have hstep : (s.step codec (.apply u outcome)).1 =
            s.update u { s.device u with plan := none } := by
          simp only [Devices.step, hplan, happlied]
        rw [hstep]
        exact h.update_of_disk hinj rfl fun plan' hplan' => by simp at hplan'
      | ok result =>
        obtain ⟨desired, next⟩ := result
        obtain ⟨live, hstep⟩ : ∃ live, (s.step codec (.apply u outcome)).1 = s.update u
            { disk := (ReplicaStore.save codec (s.device u).disk next outcome).1, live
              plan := none } :=
          ⟨if ReplicaStore.validateRecord codec next = .ok () ∧ outcome.persists = true
            then Devices.apply plan.scope (s.device u).live desired else (s.device u).live,
            by simp only [Devices.step, hplan, happlied]⟩
        rw [hstep]
        rcases ReplicaStore.save_cases (Prod.eta
            (ReplicaStore.save codec (s.device u).disk next outcome)).symm with hdisk | hdisk
        · exact h.update_of_disk hinj hdisk fun plan' hplan' => by simp at hplan'
        · obtain ⟨r, hplanned, hsnapshot, hnext⟩ := PreparedSync.applied_ok happlied
          obtain ⟨r₁, remote, -, hcaptured, hrest⟩ := (h.planned u plan hplan).reaches hplanned
          have hreaches := hcaptured.trans hrest
          have hwriter : r.writer = u := by
            have hw := (hreaches.invariant hinj h.network).writer u
            rwa [Network.replica_set_self] at hw
          have hstored : (s.update u
              { disk := (ReplicaStore.save codec (s.device u).disk next outcome).1, live
                plan := none }).stored u = r := by
            rw [stored, device_update_self, hdisk]
            exact replica_of_snapshot hsnapshot
              ((hnext.trans (h.planned u plan hplan).writer).trans hwriter.symm)
          have hnew : Network.Reaches codec.contentDigest s.toNetwork (s.update u
              { disk := (ReplicaStore.save codec (s.device u).disk next outcome).1, live
                plan := none }).toNetwork := by
            rw [toNetwork_update, hstored]
            exact hreaches
          refine ⟨hnew, h.update hinj hnew (fun record hrecord => ?_)
            fun plan' hplan' => by simp at hplan'⟩
          rw [hdisk] at hrecord
          rw [← Option.some.inj hrecord, hsnapshot]
          rfl

/-! ## Runs -/

/-- **The devices stay within the network of their replicas.** -/
theorem refines_network (hinj : Function.Injective codec.contentDigest) (labels : List SyncStep) :
    (∃ steps, (network codec.contentDigest).final steps =
        ((devices codec).final labels).toNetwork) ∧
      ((devices codec).final labels).Invariant codec := by
  induction labels using List.reverseRecOn with
  | nil => exact ⟨⟨[], rfl⟩, invariant_init⟩
  | append_singleton labels i ih =>
    obtain ⟨⟨steps, hsteps⟩, hinv⟩ := ih
    obtain ⟨hreaches, hinv'⟩ := hinv.step hinj i
    rw [Machine.final_snoc]
    rw [← hsteps] at hreaches
    exact ⟨hreaches.final, hinv'⟩

theorem invariant (hinj : Function.Injective codec.contentDigest) (labels : List SyncStep) :
    ((devices codec).final labels).Invariant codec := (refines_network hinj labels).2

/-- **What a device stores it does not lose.** -/
theorem stored_subset_final (hinj : Function.Injective codec.contentDigest)
    (pre post : List SyncStep) (u : Uuid) :
    (((devices codec).final pre).stored u).document ⊆
      (((devices codec).final (pre ++ post)).stored u).document := by
  induction post using List.reverseRecOn with
  | nil => rw [List.append_nil]
  | append_singleton post i ih =>
    rw [← List.append_assoc, Machine.final_snoc]
    have hinv := @invariant _ codec hinj (pre ++ post)
    exact ih.trans ((hinv.step hinj i).1.document_subset hinj hinv.network u)

end Devices

end OxideTerm.CloudSync
