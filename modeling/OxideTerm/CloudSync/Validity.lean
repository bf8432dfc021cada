import OxideTerm.CloudSync.Replica
import OxideTerm.Lib.Loops

/-!
# Replicas that can be loaded

What `load` checks, as a property of the document and the values together, and what writes and
merges do to it. A replica is sound when everything its registers show is supported by its
values; it is valid when moreover every record has a presence.
-/

namespace OxideTerm.CloudSync

open OxideTerm.Lib

/-- The values have what the write refers to; a presence refers to a truth value. -/
def Supported (values : FiniteMap String FieldValue) (p : Put SyncField Uuid ScalarValue) : Prop :=
  match p.value with
  | .reference digest _ => ∃ value, values.get digest = some value ∧
      (p.key.isPresence = true → ∃ b, value.decodeBool = .ok b)
  | .null => p.key.isPresence = false
  | .unsupported => False

theorem Supported.value_ne {values : FiniteMap String FieldValue}
    {p : Put SyncField Uuid ScalarValue} (h : Supported values p) : p.value ≠ .unsupported := by
  intro hvalue
  simp [Supported, hvalue] at h

/-- More values support as much. -/
theorem Supported.mono {values values' : FiniteMap String FieldValue}
    {p : Put SyncField Uuid ScalarValue} (h : Supported values p)
    (hmono : ∀ digest value, values.get digest = some value → values'.get digest = some value) :
    Supported values' p := by
  unfold Supported at h ⊢
  split at h
  · obtain ⟨value, hget, hbool⟩ := h
    exact ⟨value, hmono _ _ hget, hbool⟩
  · exact h
  · exact h.elim

namespace SyncReplica

/-! ## What a register shows -/

/-- What a register shows, as a list of candidates. -/
def candidateList (r : SyncReplica) (key : SyncField) : List SyncCandidate :=
  inOrder ((r.document.visible key).image candidateOf)

/-- The digests of the values that a register shows; a field without a value has none. -/
def shownDigests (r : SyncReplica) (key : SyncField) : Finset (Option String) :=
  (r.document.visible key).image fun p => (candidateOf p).valueDigest

theorem mem_candidateList {r : SyncReplica} {key : SyncField} {c : SyncCandidate} :
    c ∈ r.candidateList key ↔ ∃ p ∈ r.document.visible key, candidateOf p = c := by
  rw [candidateList, mem_inOrder, Finset.mem_image]

theorem toFinset_candidateList (r : SyncReplica) (key : SyncField) :
    ((r.candidateList key).map SyncCandidate.valueDigest).toFinset = r.shownDigests key := by
  ext d
  simp only [List.mem_toFinset, List.mem_map, mem_candidateList, shownDigests, Finset.mem_image]
  constructor
  · rintro ⟨c, ⟨p, hp, rfl⟩, rfl⟩
    exact ⟨p, hp, rfl⟩
  · rintro ⟨p, hp, rfl⟩
    exact ⟨_, ⟨p, hp, rfl⟩, rfl⟩

theorem distinctValues_candidateList (r : SyncReplica) (key : SyncField) :
    distinctValues (r.candidateList key) = (r.shownDigests key).card := by
  rw [distinctValues, toFinset_candidateList]

theorem candidateList_eq_nil {r : SyncReplica} (h : r.document.Ordered) {key : SyncField} :
    r.candidateList key = [] ↔ key ∉ r.document.keys := by
  rw [candidateList, inOrder_eq_nil, Finset.image_eq_empty, h.mem_keys_iff,
    Finset.not_nonempty_iff_eq_empty]

theorem candidates_eq_ok_iff {r : SyncReplica} {key : SyncField} {cs : List SyncCandidate} :
    r.candidates key = .ok cs ↔
      (∀ p ∈ r.document.visible key, p.value ≠ .unsupported) ∧ cs = r.candidateList key := by
  unfold candidates
  split
  · next h =>
    obtain ⟨p, hp, hvalue⟩ := h
    simp only [reduceCtorEq, false_iff, not_and]
    exact fun hall => absurd hvalue (hall p hp)
  · next h =>
    push Not at h
    rw [Except.ok.injEq, eq_comm]
    exact ⟨fun hcs => ⟨h, hcs⟩, fun hcs => hcs.2⟩

/-! ## Validity -/

/-- Everything the registers show is supported by the values. -/
structure Sound (contentDigest : FieldValue → String) (r : SyncReplica) : Prop where
  ordered : r.document.Ordered
  digests : ∀ digest value, r.values.get digest = some value → contentDigest value = digest
  keys : ∀ key ∈ r.document.keys, key.Valid
  shown : ∀ key, ∀ p ∈ r.document.visible key, Supported r.values p

/-- Every record has a presence. -/
def Rooted (r : SyncReplica) : Prop :=
  ∀ key ∈ r.document.keys, .presence key.resource ∈ r.document.keys

/-- What `load` accepts. -/
structure Valid (contentDigest : FieldValue → String) (r : SyncReplica) : Prop
    extends Sound contentDigest r where
  rooted : r.Rooted

variable {contentDigest : FieldValue → String}

theorem Sound.candidates {r : SyncReplica} (h : r.Sound contentDigest) (key : SyncField) :
    r.candidates key = .ok (r.candidateList key) :=
  candidates_eq_ok_iff.mpr ⟨fun p hp => (h.shown key p hp).value_ne, rfl⟩

/-- A candidate passes its check if and only if the write behind it is supported. -/
theorem validateCandidate_ok_iff {r : SyncReplica} {p : Put SyncField Uuid ScalarValue}
    (h : p.value ≠ .unsupported) :
    r.validateCandidate p.key (candidateOf p) = .ok () ↔ Supported r.values p := by
  unfold validateCandidate Supported candidateOf
  cases hvalue : p.value with
  | unsupported => exact absurd hvalue h
  | null => cases hpresence : p.key.isPresence <;> simp
  | reference digest writeId =>
    dsimp only
    cases hget : r.values.get digest with
    | none => simp
    | some value =>
      cases hpresence : p.key.isPresence with
      | false => simp
      | true =>
        simp only [if_true, Option.some.injEq, exists_eq_left', true_imp_iff]
        cases value.decodeBool <;> simp [Except.map]

theorem validateKey_ok_iff {r : SyncReplica} (hordered : r.document.Ordered) {key : SyncField} :
    r.validateKey key = .ok () ↔
      key.Valid ∧ (∀ p ∈ r.document.visible key, Supported r.values p) ∧
      .presence key.resource ∈ r.document.keys ∧
      ∀ p ∈ r.document.visible (.presence key.resource), p.value ≠ .unsupported := by
  unfold validateKey SyncField.fromKey
  by_cases hkey : key.Valid
  · rw [SyncField.key_of_valid hkey]
    dsimp only
    by_cases hsupported : ∀ p ∈ r.document.visible key, p.value ≠ .unsupported
    · rw [candidates_eq_ok_iff.mpr ⟨hsupported, rfl⟩]
      dsimp only
      have hforM : (r.candidateList key).forM (r.validateCandidate key) = .ok () ↔
          ∀ p ∈ r.document.visible key, Supported r.values p := by
        rw [forM_eq_ok]
        constructor
        · intro h p hp
          have hpkey : p.key = key := (Document.mem_visible.mp hp).2.1
          refine (validateCandidate_ok_iff (hsupported p hp)).mp ?_
          rw [hpkey]
          exact h _ (mem_candidateList.mpr ⟨p, hp, rfl⟩)
        · intro h c hc
          obtain ⟨p, hp, rfl⟩ := mem_candidateList.mp hc
          have hpkey : p.key = key := (Document.mem_visible.mp hp).2.1
          rw [← hpkey]
          exact (validateCandidate_ok_iff (hsupported p hp)).mpr (h p hp)
      cases hr : (r.candidateList key).forM (r.validateCandidate key) with
      | error e =>
        rw [hr] at hforM
        simp only [reduceCtorEq, false_iff] at hforM ⊢
        exact fun h => hforM h.2.1
      | ok u =>
        have hall := hforM.mp hr
        rw [SyncField.key_of_valid hkey.presence]
        dsimp only
        by_cases hpresence : ∀ p ∈ r.document.visible (.presence key.resource),
          p.value ≠ .unsupported
        · rw [candidates_eq_ok_iff.mpr ⟨hpresence, rfl⟩]
          dsimp only
          split
          · next hnil =>
            rw [candidateList_eq_nil hordered] at hnil
            simp only [reduceCtorEq, false_iff]
            exact fun h => hnil h.2.2.1
          · next hnil =>
            rw [candidateList_eq_nil hordered, not_not] at hnil
            simp only [true_iff]
            exact ⟨hkey, hall, hnil, hpresence⟩
        · cases hc : r.candidates (.presence key.resource) with
          | ok cs => exact absurd (candidates_eq_ok_iff.mp hc).1 hpresence
          | error e =>
            simp only [reduceCtorEq, false_iff]
            exact fun h => hpresence h.2.2.2
    · cases hc : r.candidates key with
      | ok cs => exact absurd (candidates_eq_ok_iff.mp hc).1 hsupported
      | error e =>
        simp only [reduceCtorEq, false_iff]
        exact fun h => hsupported fun p hp => (h.2.1 p hp).value_ne
  · cases hk : key.key with
    | ok k => exact absurd (SyncField.key_ok_iff.mp hk).1 hkey
    | error e =>
      simp only [reduceCtorEq, false_iff]
      exact fun h => hkey h.1

/-- **What `validate` checks.** -/
theorem validate_ok_iff {r : SyncReplica} (hordered : r.document.Ordered) :
    r.validate contentDigest = .ok () ↔ r.Valid contentDigest := by
  have hdigests : (¬ ∃ digest ∈ r.values.keys,
      (r.values.get digest).map contentDigest ≠ some digest) ↔
      ∀ digest value, r.values.get digest = some value → contentDigest value = digest := by
    push Not
    constructor
    · intro h digest value hget
      have hmap := h digest (FiniteMap.mem_keys_of_get hget)
      rw [hget] at hmap
      exact Option.some.inj hmap
    · intro h digest hmem
      obtain ⟨value, hget⟩ := FiniteMap.exists_of_mem_keys hmem
      rw [hget, Option.map_some, h digest value hget]
  unfold validate
  split
  · next h =>
    simp only [reduceCtorEq, false_iff]
    exact fun hvalid => hdigests.mpr hvalid.digests h
  · next h =>
    rw [forM_eq_ok]
    constructor
    · intro hkeys
      have hkey : ∀ key ∈ r.document.keys, _ := fun key hmem =>
        (validateKey_ok_iff hordered).mp (hkeys key (mem_inOrder.mpr hmem))
      refine ⟨⟨hordered, hdigests.mp h, fun key hmem => (hkey key hmem).1, ?_⟩,
        fun key hmem => (hkey key hmem).2.2.1⟩
      intro key p hp
      exact (hkey key (hordered.mem_keys_iff.mpr ⟨p, hp⟩)).2.1 p hp
    · intro hvalid key hmem
      rw [mem_inOrder] at hmem
      exact (validateKey_ok_iff hordered).mpr ⟨hvalid.keys key hmem, hvalid.shown key,
        hvalid.rooted key hmem, fun p hp => (hvalid.shown _ p hp).value_ne⟩

/-- **What `load` accepts.** -/
theorem load_ok_iff {s : ReplicaSnapshot} (hordered : s.document.Ordered) {writer : Uuid}
    {r : SyncReplica} : load contentDigest s writer = .ok r ↔
      s.schema = 3 ∧ r = { document := s.document, writer, values := s.values } ∧
        r.Valid contentDigest := by
  unfold load
  split
  · next h => simp [h]
  · next h =>
    rw [not_not] at h
    have hiff : SyncReplica.validate contentDigest
        { document := s.document, writer, values := s.values } = .ok () ↔ _ :=
      validate_ok_iff hordered
    dsimp only
    split
    · next e he =>
      simp only [reduceCtorEq, false_iff]
      rintro ⟨-, rfl, hvalid⟩
      rw [hiff.mpr hvalid] at he
      simp at he
    · next he =>
      rw [Except.ok.injEq]
      constructor
      · rintro rfl
        exact ⟨h, rfl, hiff.mp he⟩
      · rintro ⟨-, rfl, -⟩
        rfl

/-- A valid replica can be loaded from its snapshot, by any writer. -/
theorem Valid.load_snapshot {r : SyncReplica} (h : r.Valid contentDigest) (writer : Uuid) :
    load contentDigest r.snapshot writer = .ok { r with writer } :=
  (load_ok_iff h.ordered).mpr ⟨rfl, rfl, ⟨⟨h.ordered, h.digests, h.keys, h.shown⟩, h.rooted⟩⟩

theorem valid_new (writer : Uuid) : (new writer).Valid contentDigest where
  ordered := Document.ordered_empty
  digests := by simp [new]
  keys := by simp [new]
  shown := by simp [new, Document.visible]
  rooted := by simp [Rooted, new]

end SyncReplica

end OxideTerm.CloudSync
