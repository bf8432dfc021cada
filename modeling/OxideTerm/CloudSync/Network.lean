import OxideTerm.CloudSync.Capture
import OxideTerm.Lib.Machine

/-!
# Replicas that exchange snapshots

Any number of replicas, one for each writer, that take calls, publish snapshots and merge what
others published, in any order and as often as they like. A call that fails is abandoned together
with what it wrote, as its callers do.
-/

namespace OxideTerm.CloudSync

open OxideTerm.Lib

/-- A call that writes to a replica. -/
inductive ReplicaCall where
  | captureLocal (previous current : SyncValues) (selected : Finset SyncResource)
  | replaceFields (values : SyncValues) (fields : Finset SyncField)
  | resolve (conflict : SyncConflict) (choice : Option FieldValue)

def SyncReplica.call (contentDigest : FieldValue → String) (r : SyncReplica) :
    ReplicaCall → SyncReplica × Result Unit
  | .captureLocal previous current selected =>
    ((r.captureLocal contentDigest previous current selected).1,
      (r.captureLocal contentDigest previous current selected).2.map fun _ => ())
  | .replaceFields values fields => r.replaceFields contentDigest values fields
  | .resolve conflict choice => r.resolve contentDigest conflict choice

structure Network where
  replica : Uuid → SyncReplica
  snapshots : List ReplicaSnapshot

inductive NetworkStep where
  | call (writer : Uuid) (c : ReplicaCall)
  | publish (writer : Uuid)
  /-- Merges the snapshot that was published at this place. -/
  | receive (writer : Uuid) (index : Nat)

namespace Network

variable (contentDigest : FieldValue → String)

def init : Network where
  replica := SyncReplica.new
  snapshots := []

/-- Goes on with the new replica if the operation succeeded. -/
def update (n : Network) (writer : Uuid) (result : SyncReplica × Result Unit) :
    Network × Result Unit :=
  match result with
  | (r, .ok ()) => ({ n with replica := Function.update n.replica writer r }, .ok ())
  | (_, .error e) => (n, .error e)

def step (n : Network) : NetworkStep → Network × Result Unit
  | .call writer c => n.update writer ((n.replica writer).call contentDigest c)
  | .publish writer =>
    ({ n with snapshots := n.snapshots ++ [(n.replica writer).snapshot] }, .ok ())
  | .receive writer index =>
    match n.snapshots[index]? with
    | none => (n, .ok ())
    | some remote => n.update writer ((n.replica writer).merge contentDigest remote)

end Network

/-- The replicas and what they do. -/
def network (contentDigest : FieldValue → String) :
    Machine Network NetworkStep (Result Unit) where
  init := .init
  step := Network.step contentDigest

/-! ## Calls -/

namespace SyncReplica

variable {contentDigest : FieldValue → String}

theorem captureLocal_of_call {r r' : SyncReplica} {previous current : SyncValues}
    {selected : Finset SyncResource}
    (h : r.call contentDigest (.captureLocal previous current selected) = (r', .ok ())) :
    ∃ b, r.captureLocal contentDigest previous current selected = (r', .ok b) := by
  simp only [call, Prod.mk.injEq] at h
  cases hb : (r.captureLocal contentDigest previous current selected).2 with
  | error e => simp [hb, Except.map] at h
  | ok b => exact ⟨b, Prod.ext h.1 hb⟩

/-- **A call that succeeds is a list of writes.** -/
theorem call_ok {r r' : SyncReplica} (h : r.Sound contentDigest) {c : ReplicaCall}
    (hcall : r.call contentDigest c = (r', .ok ())) :
    ∃ ws : List FieldWrite, r' = r.writtenAll contentDigest ws ∧ ∀ w ∈ ws, FieldWrite.Fits w := by
  cases c with
  | captureLocal previous current selected =>
    obtain ⟨b, hcapture⟩ := captureLocal_of_call hcall
    obtain ⟨ws, hws, hall, -, -⟩ := captureLocal_ok h hcapture
    exact ⟨ws, hws, fun w hw => fits_capturedValue (hall w hw).1 (hall w hw).2⟩
  | replaceFields values fields =>
    obtain ⟨ws, hws, hfits, -⟩ := replaceFields_ok hcall
    exact ⟨ws, hws, hfits⟩
  | resolve conflict choice =>
    obtain ⟨hfits, hr', -⟩ := resolve_ok hcall
    exact ⟨[(conflict.field, choice)], hr', by simpa using hfits⟩

end SyncReplica

/-! ## What holds in every run -/

/-- A reference carries the identity of its own write. -/
def Identified (d : SyncDocument) : Prop :=
  ∀ p ∈ d, ∀ digest i, p.value = .reference digest i → i = p.id

/-- What holds of the document of every replica. -/
structure Wellformed (d : SyncDocument) : Prop where
  causal : d.Causal
  identified : Identified d

theorem wellformed_empty : Wellformed ∅ := ⟨Document.causal_empty, by simp [Identified]⟩

namespace SyncReplica

variable {contentDigest : FieldValue → String}

theorem wellformed_written {r : SyncReplica} (h : Wellformed r.document) (w : FieldWrite) :
    Wellformed (r.written contentDigest w).document where
  causal := h.causal.put _ _ _
  identified p hp digest i hvalue := by
    rcases Document.mem_put hp with hp | rfl
    · exact h.identified p hp digest i hvalue
    · obtain ⟨field, value⟩ := w
      cases value with
      | none => simp [Document.nextPut, scalarOf] at hvalue
      | some value =>
        simp only [Document.nextPut, scalarOf, ScalarValue.reference.injEq] at hvalue
        exact hvalue.2.symm

theorem wellformed_writtenAll {r : SyncReplica} (h : Wellformed r.document) :
    (ws : List FieldWrite) → Wellformed (r.writtenAll contentDigest ws).document
  | [] => h
  | w :: ws => wellformed_writtenAll (wellformed_written h w) ws

/-- A value is never written in vain: the reference to it is a new one. -/
theorem visible_written_some {r : SyncReplica} (h : Wellformed r.document) (field : SyncField)
    (value : FieldValue) :
    ∃ p, (r.written contentDigest (field, some value)).document.visible field = {p} ∧
      p ∉ r.document ∧ p.id.writer = r.writer ∧
      p.value = .reference (contentDigest value) p.id := by
  have hnew : ∀ p ∈ r.document, p.id ≠ r.document.nextId r.writer := by
    intro p hp heq
    have hlt := Document.counter_lt_nextCounter hp
    rw [heq] at hlt
    exact absurd hlt (Nat.lt_irrefl _)
  have hnot : ¬ r.document.Shows field
      (.reference (contentDigest value) (r.document.nextId r.writer)) := by
    rintro ⟨hcard, hvalue⟩
    obtain ⟨p, hp⟩ := Finset.card_pos.mp (by rw [hcard]; exact Nat.one_pos)
    have hmem := (Document.mem_visible.mp hp).1
    exact hnew p hmem (h.identified p hmem _ _ (hvalue p hp)).symm
  refine ⟨r.document.nextPut r.writer field
    (.reference (contentDigest value) (r.document.nextId r.writer)), ?_, ?_, rfl, rfl⟩
  · rw [document_written, scalarOf, Document.put_of_not_shows hnot]
    exact h.causal.ordered.visible_insert_nextPut _ _ _
  · intro hmem
    exact hnew _ hmem rfl

/-- **What a register shows that was given a value:** one new write of it. -/
theorem visible_writtenAll_some {r : SyncReplica} (h : Wellformed r.document) {key : SyncField}
    {value : FieldValue} :
    (ws : List FieldWrite) → (∀ w ∈ ws, w.1 = key → w.2 = some value) → (∃ w ∈ ws, w.1 = key) →
    ∃ p, (r.writtenAll contentDigest ws).document.visible key = {p} ∧ p ∉ r.document ∧
      p.id.writer = r.writer ∧ p.value = .reference (contentDigest value) p.id
  | [], _, hmem => by simp at hmem
  | w :: ws, hall, hmem => by
    rw [writtenAll_cons]
    have hwell := @wellformed_written contentDigest _ h w
    have hall' : ∀ v ∈ ws, v.1 = key → v.2 = some value :=
      fun v hv => hall v (List.mem_cons_of_mem w hv)
    by_cases hlater : ∃ v ∈ ws, v.1 = key
    · obtain ⟨p, hp, hnot, hwriter, hvalue⟩ := visible_writtenAll_some hwell ws hall' hlater
      exact ⟨p, hp, fun hmem => hnot (Document.subset_put _ _ _ _ hmem),
        hwriter.trans (writer_written r w), hvalue⟩
    · push Not at hlater
      rw [visible_writtenAll_of_notMem _ ws hlater]
      obtain ⟨v, hv, hkey⟩ := hmem
      rcases List.mem_cons.mp hv with rfl | hv
      · obtain ⟨field, value'⟩ := v
        obtain rfl : field = key := hkey
        obtain rfl : value' = some value := hall _ List.mem_cons_self rfl
        exact visible_written_some h field value
      · exact absurd hkey (hlater v hv)

/-- What a replica writes is its own. -/
theorem writer_of_mem_writtenAll {r : SyncReplica} :
    (ws : List FieldWrite) → ∀ p ∈ (r.writtenAll contentDigest ws).document,
    p ∈ r.document ∨ p.id.writer = r.writer
  | [], p, hp => Or.inl hp
  | w :: ws, p, hp => by
    rcases writer_of_mem_writtenAll ws p hp with hp | hp
    · rcases Document.mem_put hp with hp | rfl
      · exact Or.inl hp
      · exact Or.inr rfl
    · exact Or.inr (by rw [hp, writer_written])

end SyncReplica

variable {contentDigest : FieldValue → String}

namespace Network

/-- What holds of the replicas in every run: what they show is supported, and a writer's own
replica knows all that was written in its name. -/
structure Invariant (contentDigest : FieldValue → String) (n : Network) : Prop where
  writer : ∀ u, (n.replica u).writer = u
  sound : ∀ u, (n.replica u).Sound contentDigest
  wellformed : ∀ u, Wellformed (n.replica u).document
  own : ∀ u, ∀ p ∈ (n.replica u).document, p ∈ (n.replica p.id.writer).document
  published : ∀ s ∈ n.snapshots, s.schema = 3 ∧ Wellformed s.document ∧
    (⟨s.document, 0, s.values⟩ : SyncReplica).Sound contentDigest ∧
    ∀ p ∈ s.document, p ∈ (n.replica p.id.writer).document

namespace Invariant

variable {n : Network}

theorem init : (Network.init).Invariant contentDigest where
  writer u := rfl
  sound u := (SyncReplica.valid_new u).toSound
  wellformed u := wellformed_empty
  own u p hp := by simp [Network.init, SyncReplica.new] at hp
  published s hs := by simp [Network.init] at hs

/-- Documents of one run do not contradict each other. -/
theorem agree (h : n.Invariant contentDigest) {d e : SyncDocument}
    (hd : ∀ p ∈ d, p ∈ (n.replica p.id.writer).document)
    (he : ∀ p ∈ e, p ∈ (n.replica p.id.writer).document) : d.Agree e := by
  intro p hp q hq hid
  have hp' := hd p hp
  have hq' := he q hq
  rw [hid] at hp'
  exact (h.wellformed _).causal.unique p hp' q hq' hid

/-- A replica that knows more is put in the place of its former self. -/
theorem update (h : n.Invariant contentDigest) {u : Uuid} {r : SyncReplica}
    (hwriter : r.writer = u) (hsound : r.Sound contentDigest) (hwell : Wellformed r.document)
    (hmore : (n.replica u).document ⊆ r.document)
    (hown : ∀ p ∈ r.document, p ∈ (n.replica p.id.writer).document ∨ p.id.writer = u) :
    ({ n with replica := Function.update n.replica u r } : Network).Invariant contentDigest := by
  have hkeep : ∀ (p : Put SyncField Uuid ScalarValue) (v : Uuid), p ∈ (n.replica v).document →
      p ∈ (Function.update n.replica u r v).document := by
    intro p v hp
    by_cases hv : v = u
    · subst hv
      rw [Function.update_self]
      exact hmore hp
    · rwa [Function.update_of_ne hv]
  refine ⟨fun v => ?_, fun v => ?_, fun v => ?_, fun v p hp => ?_, fun s hs => ?_⟩
  · show (Function.update n.replica u r v).writer = v
    by_cases hv : v = u
    · subst hv
      rw [Function.update_self, hwriter]
    · rw [Function.update_of_ne hv, h.writer]
  · show (Function.update n.replica u r v).Sound contentDigest
    by_cases hv : v = u
    · subst hv
      rwa [Function.update_self]
    · rw [Function.update_of_ne hv]
      exact h.sound v
  · show Wellformed (Function.update n.replica u r v).document
    by_cases hv : v = u
    · subst hv
      rwa [Function.update_self]
    · rw [Function.update_of_ne hv]
      exact h.wellformed v
  · show p ∈ (Function.update n.replica u r p.id.writer).document
    replace hp : p ∈ (Function.update n.replica u r v).document := hp
    by_cases hv : v = u
    · subst hv
      rw [Function.update_self] at hp
      rcases hown p hp with hp' | hp'
      · exact hkeep p _ hp'
      · rwa [hp', Function.update_self]
    · rw [Function.update_of_ne hv] at hp
      exact hkeep p _ (h.own v p hp)
  · obtain ⟨hschema, hwell', hsound', hown'⟩ := h.published s hs
    exact ⟨hschema, hwell', hsound', fun p hp => hkeep p _ (hown' p hp)⟩

/-- **Every step keeps the invariant.** -/
theorem step (hinj : Function.Injective contentDigest) (h : n.Invariant contentDigest)
    (i : NetworkStep) : (n.step contentDigest i).1.Invariant contentDigest := by
  cases i with
  | call u c =>
    unfold Network.step Network.update
    dsimp only
    split
    · next r hcall =>
      obtain ⟨ws, rfl, hfits⟩ := SyncReplica.call_ok (h.sound u) hcall
      refine h.update (by rw [SyncReplica.writer_writtenAll, h.writer])
        ((h.sound u).writtenAll hinj ws hfits) (SyncReplica.wellformed_writtenAll (h.wellformed u) ws)
        (SyncReplica.document_subset_writtenAll _ ws) fun p hp => ?_
      rcases SyncReplica.writer_of_mem_writtenAll ws p hp with hp | hp
      · exact Or.inl (h.own u p hp)
      · exact Or.inr (hp.trans (h.writer u))
    · exact h
  | publish u =>
    refine ⟨h.writer, h.sound, h.wellformed, h.own, fun s hs => ?_⟩
    rcases List.mem_append.mp hs with hs | hs
    · exact h.published s hs
    · obtain rfl := List.mem_singleton.mp hs
      have hsound := h.sound u
      exact ⟨rfl, h.wellformed u, ⟨hsound.ordered, hsound.digests, hsound.keys, hsound.shown⟩,
        h.own u⟩
  | receive u index =>
    rw [Network.step]
    split
    · exact h
    · next remote hremote =>
      unfold Network.update
      split
      · next r hmerge =>
        obtain ⟨-, hwell, -, hown⟩ := h.published remote (List.mem_of_getElem? hremote)
        obtain ⟨rfl, hvalid⟩ := SyncReplica.merge_ok hwell.causal.ordered hmerge
        have hagree := h.agree (h.own u) hown
        refine h.update (h.writer u) ?_ ?_ Finset.subset_union_left fun p hp => ?_
        · exact (h.sound u).union hinj hvalid.toSound
        · refine ⟨(h.wellformed u).causal.union hwell.causal hagree, fun p hp => ?_⟩
          rcases Finset.mem_union.mp hp with hp | hp
          · exact (h.wellformed u).identified p hp
          · exact hwell.identified p hp
        · rcases Finset.mem_union.mp hp with hp | hp
          · exact Or.inl (h.own u p hp)
          · exact Or.inl (hown p hp)
      · exact h

end Invariant

theorem invariant (hinj : Function.Injective contentDigest) (steps : List NetworkStep) :
    ((network contentDigest).final steps).Invariant contentDigest :=
  (network contentDigest).final_invariant .init (fun _ i h => h.step hinj i) steps

/-- What a replica knows it does not forget. -/
theorem document_subset_step {n : Network}
    (h : n.Invariant contentDigest) (i : NetworkStep) (u : Uuid) :
    (n.replica u).document ⊆ ((n.step contentDigest i).1.replica u).document := by
  have hupdate : ∀ (v : Uuid) (r : SyncReplica), (n.replica v).document ⊆ r.document →
      (n.replica u).document ⊆ (Function.update n.replica v r u).document := by
    intro v r hmore
    by_cases hu : u = v
    · subst hu
      rwa [Function.update_self]
    · rw [Function.update_of_ne hu]
  cases i with
  | call v c =>
    unfold Network.step Network.update
    dsimp only
    split
    · next r hcall =>
      obtain ⟨ws, rfl, -⟩ := SyncReplica.call_ok (h.sound v) hcall
      exact hupdate v _ (SyncReplica.document_subset_writtenAll _ ws)
    · exact Finset.Subset.refl _
  | publish v => exact Finset.Subset.refl _
  | receive v index =>
    unfold Network.step
    dsimp only
    split
    · exact Finset.Subset.refl _
    · next remote hremote =>
      unfold Network.update
      split
      · next r hmerge =>
        obtain ⟨-, hwell, -⟩ := h.published remote (List.mem_of_getElem? hremote)
        obtain ⟨rfl, -⟩ := SyncReplica.merge_ok hwell.causal.ordered hmerge
        exact hupdate v _ Finset.subset_union_left
      · exact Finset.Subset.refl _

theorem document_subset_final (hinj : Function.Injective contentDigest)
    (pre post : List NetworkStep) (u : Uuid) :
    (((network contentDigest).final pre).replica u).document ⊆
      (((network contentDigest).final (pre ++ post)).replica u).document := by
  induction post using List.reverseRecOn with
  | nil => rw [List.append_nil]
  | append_singleton post i ih =>
    rw [← List.append_assoc, Machine.final_snoc]
    exact ih.trans (document_subset_step (invariant hinj _) i u)

/-- Both sides of an event of a run, and that nothing of them is forgotten. -/
theorem of_mem_trace (hinj : Function.Injective contentDigest) {steps : List NetworkStep}
    {e : Event Network NetworkStep (Result Unit)} (he : e ∈ (network contentDigest).trace steps) :
    e.pre.Invariant contentDigest ∧ e.post.Invariant contentDigest ∧
      e.pre.step contentDigest e.label = (e.post, e.output) ∧
      ∀ u, (e.post.replica u).document ⊆
        (((network contentDigest).final steps).replica u).document := by
  obtain ⟨pre, i, post, rfl, rfl⟩ := (network contentDigest).mem_trace he
  refine ⟨invariant hinj pre, (invariant hinj pre).step hinj i, rfl, fun u => ?_⟩
  have hsubset := document_subset_final hinj (pre ++ [i]) post u
  rw [Machine.final_snoc, List.append_assoc] at hsubset
  exact hsubset

/-! ## Several steps at once -/

/-- The network with another replica for the writer. -/
def set (n : Network) (u : Uuid) (r : SyncReplica) : Network :=
  { n with replica := Function.update n.replica u r }

@[simp] theorem replica_set_self (n : Network) (u : Uuid) (r : SyncReplica) :
    (n.set u r).replica u = r := Function.update_self ..

@[simp] theorem snapshots_set (n : Network) (u : Uuid) (r : SyncReplica) :
    (n.set u r).snapshots = n.snapshots := rfl

@[simp] theorem set_set (n : Network) (u : Uuid) (r r' : SyncReplica) :
    (n.set u r).set u r' = n.set u r' := by
  simp [set]

@[simp] theorem set_replica (n : Network) (u : Uuid) : n.set u (n.replica u) = n := by
  simp [set]

/-- The steps of some run lead from one network to the other. -/
def Reaches (contentDigest : FieldValue → String) (n n' : Network) : Prop :=
  ∃ steps : List NetworkStep, steps.foldl (fun n i => (n.step contentDigest i).1) n = n'

theorem Reaches.refl (n : Network) : Reaches contentDigest n n := ⟨[], rfl⟩

theorem Reaches.trans {n n' n'' : Network} (h : Reaches contentDigest n n')
    (h' : Reaches contentDigest n' n'') : Reaches contentDigest n n'' := by
  obtain ⟨steps, rfl⟩ := h
  obtain ⟨steps', rfl⟩ := h'
  exact ⟨steps ++ steps', List.foldl_append⟩

theorem Reaches.step (n : Network) (i : NetworkStep) :
    Reaches contentDigest n (n.step contentDigest i).1 := ⟨[i], rfl⟩

/-- A network that a run reaches from one that a run ends in. -/
theorem Reaches.final {steps : List NetworkStep} {n : Network}
    (h : Reaches contentDigest ((network contentDigest).final steps) n) :
    ∃ steps', (network contentDigest).final steps' = n := by
  obtain ⟨steps', rfl⟩ := h
  exact ⟨steps ++ steps', (network contentDigest).final_append _ _⟩

theorem Reaches.invariant (hinj : Function.Injective contentDigest) {n n' : Network}
    (h : Reaches contentDigest n n') (hn : n.Invariant contentDigest) :
    n'.Invariant contentDigest := by
  obtain ⟨steps, rfl⟩ := h
  induction steps generalizing n with
  | nil => exact hn
  | cons i steps ih => exact ih (hn.step hinj i)

theorem Reaches.document_subset (hinj : Function.Injective contentDigest) {n n' : Network}
    (h : Reaches contentDigest n n') (hn : n.Invariant contentDigest) (u : Uuid) :
    (n.replica u).document ⊆ (n'.replica u).document := by
  obtain ⟨steps, rfl⟩ := h
  induction steps generalizing n with
  | nil => exact Finset.Subset.refl _
  | cons i steps ih => exact (document_subset_step hn i u).trans (ih (hn.step hinj i))

theorem Reaches.call {n : Network} {u : Uuid} {c : ReplicaCall} {r : SyncReplica}
    (h : (n.replica u).call contentDigest c = (r, .ok ())) :
    Reaches contentDigest n (n.set u r) := by
  have hstep : (n.step contentDigest (.call u c)).1 = n.set u r := by
    simp only [Network.step, h]
    rfl
  rw [← hstep]
  exact Reaches.step n _

theorem Reaches.receive {n : Network} {u : Uuid} {s : ReplicaSnapshot} {r : SyncReplica}
    (hs : s ∈ n.snapshots) (h : (n.replica u).merge contentDigest s = (r, .ok ())) :
    Reaches contentDigest n (n.set u r) := by
  obtain ⟨index, hindex⟩ := List.mem_iff_getElem?.mp hs
  have hstep : (n.step contentDigest (.receive u index)).1 = n.set u r := by
    simp only [Network.step, hindex, h]
    rfl
  rw [← hstep]
  exact Reaches.step n _

/-- Merging several snapshots that were published. -/
theorem Reaches.receiveAll {u : Uuid} : {snapshots : List ReplicaSnapshot} → {n : Network} →
    {r : SyncReplica} → (∀ s ∈ snapshots, s ∈ n.snapshots) →
    SyncReplica.mergeAll contentDigest snapshots (n.replica u) = .ok r →
    Reaches contentDigest n (n.set u r)
  | [], n, r, _, h => by
    obtain rfl := Except.ok.inj h
    rw [set_replica]
    exact Reaches.refl n
  | s :: rest, n, r, hall, h => by
    rw [SyncReplica.mergeAll] at h
    split at h
    · simp at h
    next r₁ hmerge =>
    have hfirst := Reaches.receive (hall s List.mem_cons_self) hmerge
    have hrest : Reaches contentDigest (n.set u r₁) ((n.set u r₁).set u r) :=
      Reaches.receiveAll (fun s' hs' => hall s' (List.mem_cons_of_mem s hs'))
        (by rwa [replica_set_self])
    rw [set_set] at hrest
    exact hfirst.trans hrest

end Network

end OxideTerm.CloudSync
