import OxideTerm.CloudSync.Network
import OxideTerm.CloudSync.Reference

/-!
# Replicas stay loadable and converge

Every replica keeps a presence for each of its records, as long as its callers do: the values
they pass mark their records as present, the fields they replace include the presences of their
records, and they resolve conflicts that have candidates. Then every snapshot can be loaded, and
what a replica has merged, in which order and how often, does not matter.
-/

namespace OxideTerm.CloudSync

open OxideTerm.Lib

/-! ## Calls that keep a presence for each record -/

/-- Every record that is mentioned is marked as present. -/
def SyncValues.MarksPresent (values : SyncValues) : Prop :=
  ∀ field ∈ values.keys, values.present field.resource = .ok true

/-- What the callers see to. -/
def ReplicaCall.Careful : ReplicaCall → Prop
  | .captureLocal previous current _ => previous.MarksPresent ∧ current.MarksPresent
  | .replaceFields values fields =>
    ∀ field ∈ fields, .presence field.resource ∈ values.keys → .presence field.resource ∈ fields
  | .resolve conflict _ => conflict.candidates ≠ []

def NetworkStep.Careful : NetworkStep → Prop
  | .call _ c => c.Careful
  | _ => True

instance (values : SyncValues) : Decidable values.MarksPresent :=
  inferInstanceAs (Decidable (∀ field ∈ values.keys, _))

instance : (c : ReplicaCall) → Decidable c.Careful
  | .captureLocal previous current _ =>
    inferInstanceAs (Decidable (previous.MarksPresent ∧ current.MarksPresent))
  | .replaceFields values fields => inferInstanceAs (Decidable (∀ field ∈ fields,
      .presence field.resource ∈ values.keys → .presence field.resource ∈ fields))
  | .resolve conflict _ => inferInstanceAs (Decidable (conflict.candidates ≠ []))

instance : (i : NetworkStep) → Decidable i.Careful
  | .call _ c => inferInstanceAs (Decidable c.Careful)
  | .publish _ => isTrue trivial
  | .receive _ _ => isTrue trivial

theorem SyncValues.present_of_not_true {values : SyncValues} (h : values.MarksPresent)
    {resource : SyncResource} (hnot : values.present resource ≠ .ok true) :
    values.present resource = .ok false := by
  unfold SyncValues.present at hnot ⊢
  cases hget : values.get (.presence resource) with
  | none => rfl
  | some value =>
    have htrue := h _ (FiniteMap.mem_keys_of_get hget)
    rw [SyncField.resource_presence, SyncValues.present, hget] at htrue
    rw [hget] at hnot
    exact absurd htrue hnot

variable {contentDigest : FieldValue → String}

namespace SyncReplica

/-- An edited record is there, for otherwise it would be deleted. -/
theorem Edits.present {r : SyncReplica} {previous current : SyncValues}
    {selected : Finset SyncResource} {field : SyncField}
    (h : r.Edits previous current selected field) (hprevious : previous.MarksPresent)
    (hcurrent : current.MarksPresent) : current.present field.resource = .ok true := by
  by_contra hnot
  have habsent := SyncValues.present_of_not_true hcurrent hnot
  cases hnew : current.get field with
  | some value => exact hnot (hcurrent field (FiniteMap.mem_keys_of_get hnew))
  | none =>
    cases hold : previous.get field with
    | none => exact h.changed (hold.trans hnew.symm)
    | some value =>
      exact h.not_deleted ⟨hprevious field (FiniteMap.mem_keys_of_get hold), habsent,
        h.not_blocked⟩

/-- **A careful call keeps a presence for each record.** -/
theorem rooted_call {r r' : SyncReplica} (h : r.Valid contentDigest) {c : ReplicaCall}
    (hcareful : c.Careful) (hcall : r.call contentDigest c = (r', .ok ())) : r'.Rooted := by
  cases c with
  | captureLocal previous current selected =>
    obtain ⟨b, hcapture⟩ := captureLocal_of_call hcall
    obtain ⟨ws, rfl, -, hiff, -⟩ := captureLocal_ok h.toSound hcapture
    intro key hkey
    rw [keys_writtenAll, Finset.mem_union, List.mem_toFinset, List.mem_map] at hkey ⊢
    rcases hkey with hkey | hkey
    · exact Or.inl (h.rooted key hkey)
    · refine Or.inr ((hiff _).mpr (Or.inr ⟨rfl, ?_⟩))
      rcases (hiff key).mp hkey with hedit | ⟨-, hdelete | ⟨hpresent, hedit⟩⟩
      · exact Or.inr ⟨hedit.present hcareful.1 hcareful.2, key, rfl, hedit⟩
      · exact Or.inl hdelete
      · exact Or.inr ⟨hpresent, hedit⟩
  | replaceFields values fields =>
    obtain ⟨ws, rfl, -, hws, hpresence⟩ := replaceFields_ok hcall
    intro key hkey
    rw [keys_writtenAll, Finset.mem_union, List.mem_toFinset, List.mem_map] at hkey ⊢
    rcases hkey with hkey | ⟨w, hw, rfl⟩
    · exact Or.inl (h.rooted key hkey)
    · obtain ⟨hfield, hmem⟩ := hws w hw
      refine Or.inr (hpresence _ ?_ rfl)
      cases hp : w.1.isPresence with
      | true => rwa [← SyncField.isPresence_iff.mp hp]
      | false => exact hcareful w.1 hfield (hmem hp)
  | resolve conflict choice =>
    obtain ⟨-, rfl, hcandidates⟩ := resolve_ok hcall
    have hknown : conflict.field ∈ r.document.keys := by
      by_contra hnot
      exact hcareful (hcandidates.trans ((candidateList_eq_nil h.ordered).mpr hnot))
    intro key hkey
    rw [document_written, Document.keys_put, Finset.mem_insert] at hkey ⊢
    rcases hkey with rfl | hkey
    · exact Or.inr (h.rooted _ hknown)
    · exact Or.inr (h.rooted key hkey)

/-! ## Merging a list of snapshots -/

/-- A snapshot that any replica can merge. -/
structure Loadable (contentDigest : FieldValue → String) (s : ReplicaSnapshot) : Prop where
  schema : s.schema = 3
  valid : (⟨s.document, 0, s.values⟩ : SyncReplica).Valid contentDigest

theorem Loadable.load {s : ReplicaSnapshot} (h : Loadable contentDigest s) (writer : Uuid) :
    SyncReplica.load contentDigest s writer = .ok ⟨s.document, writer, s.values⟩ :=
  (load_ok_iff h.valid.ordered).mpr ⟨h.schema, rfl,
    ⟨⟨h.valid.ordered, h.valid.digests, h.valid.keys, h.valid.shown⟩, h.valid.rooted⟩⟩

/-- **What merging snapshots comes to:** the writes and the values of all of them. -/
theorem mergeAll_ok (hinj : Function.Injective contentDigest) :
    (snapshots : List ReplicaSnapshot) → {r : SyncReplica} → r.Valid contentDigest →
    (∀ s ∈ snapshots, Loadable contentDigest s) →
    ∃ m, mergeAll contentDigest snapshots r = .ok m ∧ m.Valid contentDigest ∧
      (∀ p, p ∈ m.document ↔ ∃ s ∈ r.snapshot :: snapshots, p ∈ s.document) ∧
      ∀ digest value, m.values.get digest = some value ↔
        ∃ s ∈ r.snapshot :: snapshots, s.values.get digest = some value
  | [], r, h, _ => ⟨r, rfl, h, by simp [snapshot], by simp [snapshot]⟩
  | s :: rest, r, h, hall => by
    have hs := hall s List.mem_cons_self
    have hmerge : r.merge contentDigest s =
        ({ r with document := r.document ∪ s.document
                  values := r.values.extend s.values }, .ok ()) := by
      rw [merge, hs.load]
    obtain ⟨m, hm, hvalid, hdocument, hvalues⟩ := mergeAll_ok hinj rest
      (h.union hinj hs.valid) fun s' hs' => hall s' (List.mem_cons_of_mem s hs')
    refine ⟨m, by rw [mergeAll, hmerge]; exact hm, hvalid, fun p => ?_, fun digest value => ?_⟩
    · rw [hdocument]
      simp [snapshot, or_assoc]
    · rw [hvalues]
      simp only [snapshot, List.mem_cons, exists_eq_or_imp]
      rw [get_extend_of_digests hinj h.digests hs.valid.digests, or_assoc]

/-- Replicas with the same contents find the same conflicts and apply the same values. -/
theorem agree_of_contents {m m' : SyncReplica} (hdocument : m.document = m'.document)
    (hvalues : m.values = m'.values) :
    m.conflicts = m'.conflicts ∧
      ∀ loc selected, m.materialize loc selected = m'.materialize loc selected := by
  obtain ⟨document, writer, values⟩ := m
  obtain ⟨document', writer', values'⟩ := m'
  obtain rfl : document = document' := hdocument
  obtain rfl : values = values' := hvalues
  exact ⟨rfl, fun _ _ => rfl⟩

/-- What a valid replica shows, it has the value of. -/
theorem Sound.candidateValue_isSome {r : SyncReplica} (h : r.Sound contentDigest)
    {key : SyncField} {cs : List SyncCandidate} (hcs : r.candidates key = .ok cs)
    {c : SyncCandidate} (hc : c ∈ cs) (hdigest : c.valueDigest ≠ none) :
    (r.candidateValue c).isSome := by
  rw [(candidates_eq_ok_iff.mp hcs).2] at hc
  obtain ⟨p, hp, rfl⟩ := mem_candidateList.mp hc
  have hsupported := h.shown key p hp
  unfold Supported at hsupported
  unfold SyncReplica.candidateValue candidateOf at *
  cases hvalue : p.value with
  | reference digest writeId =>
    rw [hvalue] at hsupported
    obtain ⟨value, hget, -⟩ := hsupported
    simp [hget]
  | null => simp [hvalue] at hdigest
  | unsupported => simp [hvalue] at hdigest

end SyncReplica

/-! ## Careful runs -/

open SyncReplica

/-- What holds of the replicas along careful runs. -/
structure Network.Rooted (contentDigest : FieldValue → String) (n : Network) : Prop where
  invariant : n.Invariant contentDigest
  replica : ∀ u, (n.replica u).Rooted
  snapshots : ∀ s ∈ n.snapshots, (⟨s.document, 0, s.values⟩ : SyncReplica).Rooted

namespace Network.Rooted

variable {n : Network}

theorem valid (h : n.Rooted contentDigest) (u : Uuid) : (n.replica u).Valid contentDigest :=
  ⟨h.invariant.sound u, h.replica u⟩

theorem loadable (h : n.Rooted contentDigest) {s : ReplicaSnapshot} (hs : s ∈ n.snapshots) :
    Loadable contentDigest s := by
  obtain ⟨hschema, -, hsound, -⟩ := h.invariant.published s hs
  exact ⟨hschema, hsound, h.snapshots s hs⟩

/-- A rooted replica is put in the place of another one. -/
theorem update_replica (h : n.Rooted contentDigest) {u : Uuid} {r : SyncReplica} (hr : r.Rooted)
    (v : Uuid) : (Function.update n.replica u r v).Rooted := by
  by_cases hv : v = u
  · subst hv
    rwa [Function.update_self]
  · rw [Function.update_of_ne hv]
    exact h.replica v

theorem step (hinj : Function.Injective contentDigest) (h : n.Rooted contentDigest)
    {i : NetworkStep} (hcareful : i.Careful) : (n.step contentDigest i).1.Rooted contentDigest := by
  have hinvariant := h.invariant.step hinj i
  cases i with
  | call u c =>
    refine ⟨hinvariant, ?_, ?_⟩ <;> unfold Network.step Network.update <;> dsimp only <;> split
    · next r hcall => exact h.update_replica (rooted_call (h.valid u) hcareful hcall)
    · exact h.replica
    · exact h.snapshots
    · exact h.snapshots
  | publish u =>
    refine ⟨hinvariant, h.replica, fun s hs => ?_⟩
    rcases List.mem_append.mp hs with hs | hs
    · exact h.snapshots s hs
    · obtain rfl := List.mem_singleton.mp hs
      exact h.replica u
  | receive u index =>
    refine ⟨hinvariant, ?_, ?_⟩ <;> unfold Network.step <;> dsimp only <;> split
    · exact h.replica
    · next remote hremote =>
      unfold Network.update
      split
      · next r hmerge =>
        have hload := h.loadable (List.mem_of_getElem? hremote)
        obtain ⟨rfl, hvalid⟩ := merge_ok hload.valid.ordered hmerge
        exact h.update_replica ((h.valid u).union hinj hvalid).rooted
      · exact h.replica
    · exact h.snapshots
    · unfold Network.update
      split <;> exact h.snapshots

end Network.Rooted

theorem rooted_final (hinj : Function.Injective contentDigest) {steps : List NetworkStep}
    (hcareful : ∀ i ∈ steps, i.Careful) :
    ((network contentDigest).final steps).Rooted contentDigest := by
  refine (network contentDigest).run_invariant_along
    (C := fun _ i => i.Careful) (P := fun n _ => n.Rooted contentDigest) ?_ ?_ ?_
  · refine ⟨.init, fun u => (@valid_new contentDigest u).rooted, ?_⟩
    simp [network, Network.init]
  · exact fun n _ i h hi => h.step hinj hi
  · intro pre i post hsteps
    exact hcareful i (by rw [hsteps]; simp)

theorem Network.rooted_of_mem_trace (hinj : Function.Injective contentDigest)
    {steps : List NetworkStep} (hcareful : ∀ i ∈ steps, i.Careful)
    {e : Event Network NetworkStep (Result Unit)} (he : e ∈ (network contentDigest).trace steps) :
    e.post.Rooted contentDigest := by
  obtain ⟨pre, i, post, rfl, rfl⟩ := (network contentDigest).mem_trace he
  have hfinal := @rooted_final contentDigest hinj (pre ++ [i]) fun j hj => hcareful j (by
    rw [List.mem_append, List.mem_singleton] at hj
    rw [List.mem_append, List.mem_cons]
    exact hj.imp_right Or.inl)
  rw [Machine.final_snoc] at hfinal
  exact hfinal

/-! ## The result -/

/-- Two devices rename one connection, and hear of each other. -/
def renamings : List NetworkStep :=
  [.call 1 (.captureLocal .empty (Reference.named [0x22, 0x61, 0x22]) {Reference.connection}),
    .publish 1, .receive 2 0,
    .call 1 (.captureLocal (Reference.named [0x22, 0x61, 0x22])
      (Reference.named [0x22, 0x62, 0x22]) {Reference.connection}),
    .call 2 (.captureLocal (Reference.named [0x22, 0x61, 0x22])
      (Reference.named [0x22, 0x63, 0x22]) {Reference.connection}),
    .publish 1, .publish 2, .receive 2 1, .receive 1 2]

/-- The connection, marked as absent, with a name. -/
def absentNamed (text : FieldValue) : SyncValues :=
  .ofList [(.presence Reference.connection, .encodeBool false), (Reference.name, text)]

end OxideTerm.CloudSync
