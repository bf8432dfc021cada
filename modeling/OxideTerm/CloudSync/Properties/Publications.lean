import OxideTerm.CloudSync.Publishing
import OxideTerm.CloudSync.Reference

/-!
# Every publication has its own number

A number is given to one object only, which is on the disk before it is handed to the backend, and
stays there until its arrival is noted. So whatever is lost, and wherever the writer crashes, an
object that was handed over is handed over again or was confirmed, and is never replaced.
-/

namespace OxideTerm.CloudSync

open OxideTerm.Lib

variable {Context : Type} {codec : Codec Context}

/-! ## Numbered objects -/

/-- The object seals the snapshot under this number of the writer. -/
def Seals (codec : Codec Context) (o : PendingPublication) (writer : Uuid) (n : Nat)
    (snapshot : ReplicaSnapshot) : Prop :=
  ∃ context now, PublishedReplica.encode codec context now writer n snapshot = .ok o

theorem Seals.path {o : PendingPublication} {writer : Uuid} {n : Nat} {snapshot : ReplicaSnapshot}
    (hcodec : codec.Lawful) (h : Seals codec o writer n snapshot) (hn : n < 2 ^ 64) :
    ∃ id : PublicationId, id.Valid ∧ id.writer = writer ∧ id.sequence = n ∧
      o.path = id.path codec := by
  obtain ⟨context, now, hencode⟩ := h
  obtain ⟨hwriter, hsequence, -, -, hpath⟩ := PublishedReplica.encode_ok hencode
  exact ⟨_, ⟨hwriter, hsequence, hn, hcodec.digest_length _, hcodec.digest_hex _⟩, rfl, rfl, hpath⟩

/-- The number is read off the path. -/
theorem Seals.parse {o : PendingPublication} {writer : Uuid} {n : Nat} {snapshot : ReplicaSnapshot}
    (hcodec : codec.Lawful) (h : Seals codec o writer n snapshot) (hn : n < 2 ^ 64) :
    ∃ id, PublicationId.parse codec o.path = .ok id ∧ id.writer = writer ∧ id.sequence = n := by
  obtain ⟨id, hvalid, hwriter, hsequence, hpath⟩ := h.path hcodec hn
  exact ⟨id, by rw [hpath, PublicationId.parse_path hcodec hvalid], hwriter, hsequence⟩

/-! ## What holds of a record -/

/-- What holds of a record, in memory or on the disk, when these objects were handed over and
these were confirmed. -/
structure Copy (codec : Codec Context) (handed confirmed : List PendingPublication)
    (r : LocalReplica) : Prop where
  /-- What waits bears the last number. -/
  sealed : ∀ o, r.pending = some o → ∃ n snapshot, r.nextSequence = n + 1 ∧ n + 1 < 2 ^ 64 ∧
    Seals codec o r.writer n snapshot ∧
    r.pendingDocument = some (codec.documentDigest snapshot.document)
  /-- What was handed over has a number that is not given again. -/
  numbered : ∀ o ∈ handed, ∃ n snapshot, Seals codec o r.writer n snapshot ∧ n + 1 < 2 ^ 64 ∧
    n < r.nextSequence ∧ ∀ o', r.pending = some o' → r.nextSequence = n + 1 → o' = o
  unconfirmed : ∀ o ∈ handed, o ∉ confirmed → r.pending = some o
  /-- The digest that is noted is that of the last object confirmed. -/
  current : r.pending = none → ∀ d, r.publishedDocument = some d → ∃ o n snapshot,
    confirmed.getLast? = some o ∧ Seals codec o r.writer n snapshot ∧
    codec.documentDigest snapshot.document = d

/-- How the record in memory and the one on the disk hang together. -/
structure Linked (confirmed : List PendingPublication) (r d : LocalReplica) : Prop where
  writer : d.writer = r.writer
  nextSequence : ∀ o, r.pending = some o → r.nextSequence ≤ d.nextSequence
  same : ∀ o, r.pending = some o → ∀ o', d.pending = some o' →
    d.nextSequence = r.nextSequence → o' = o
  unconfirmed : ∀ o, r.pending = some o → o ∉ confirmed → d.pending = some o

structure Publisher.Invariant (codec : Codec Context) (handed confirmed : List PendingPublication)
    (p : Publisher) : Prop where
  record : ∀ r, p.record = some r → Copy codec handed confirmed r
  disk : ∀ d, p.disk = some d → Copy codec handed confirmed d
  valid : ∀ d, p.disk = some d → ReplicaStore.validateRecord codec d = .ok ()
  linked : ∀ r d, p.record = some r → p.disk = some d → Linked confirmed r d
  /-- Nothing is handed over before the first record is saved. -/
  started : p.disk = none → handed = [] ∧ ∀ r, p.record = some r → r.pending = none

namespace Copy

variable {handed confirmed : List PendingPublication} {r r' : LocalReplica}

/-- A record in the same state of publishing is as good. -/
theorem sameState (h : Copy codec handed confirmed r) (hsame : r.SameState r') :
    Copy codec handed confirmed r' where
  sealed o ho := by
    rw [hsame.pending] at ho
    rw [hsame.nextSequence, hsame.writer, hsame.pendingDocument]
    exact h.sealed o ho
  numbered o ho := by
    rw [hsame.pending, hsame.nextSequence, hsame.writer]
    exact h.numbered o ho
  unconfirmed o ho hnot := by
    rw [hsame.pending]
    exact h.unconfirmed o ho hnot
  current hnone d hd := by
    rw [hsame.pending] at hnone
    rw [hsame.writer]
    rcases hsame.publishedDocument with heq | heq
    · exact h.current hnone d (heq ▸ hd)
    · rw [heq] at hd
      simp at hd

/-- **Staging gives a new number.** -/
theorem staged (h : Copy codec handed confirmed r) (hpending : r.pending = none)
    {context : Context} {now : Int} (hstaged : ReplicaStore.staged codec r context now = .ok r') :
    Copy codec handed confirmed r' := by
  obtain ⟨hlt, o, hencode, rfl⟩ := ReplicaStore.staged_ok hstaged
  refine ⟨?_, ?_, ?_, ?_⟩
  · intro o' ho'
    obtain rfl := Option.some.inj ho'
    exact ⟨_, _, rfl, hlt, ⟨context, now, hencode⟩, rfl⟩
  · intro o₁ ho₁
    obtain ⟨n, snapshot, hseals, hn, hlt', -⟩ := h.numbered o₁ ho₁
    refine ⟨n, snapshot, hseals, hn, Nat.lt_succ_of_lt hlt', fun o' _ heq => ?_⟩
    have hsame : r.nextSequence + 1 = n + 1 := heq
    omega
  · intro o₁ ho₁ hnot
    have hold := h.unconfirmed o₁ ho₁ hnot
    rw [hpending] at hold
    simp at hold
  · intro hnone
    simp at hnone

/-- **Confirming makes the object the last one.** -/
theorem committed (h : Copy codec handed confirmed r) {path : String} {now : Int}
    (hcommitted : ReplicaStore.committed codec r path now = .ok r') {o : PendingPublication}
    (ho : r.pending = some o) : Copy codec handed (confirmed ++ [o]) r' := by
  obtain ⟨o', id, ho', -, -, rfl⟩ := ReplicaStore.committed_ok hcommitted
  obtain ⟨n, snapshot, -, -, hseals, hdocument⟩ := h.sealed o ho
  refine ⟨by simp, ?_, ?_, ?_⟩
  · intro o₁ ho₁
    obtain ⟨n₁, snapshot₁, hseals₁, hn₁, hlt, -⟩ := h.numbered o₁ ho₁
    exact ⟨n₁, snapshot₁, hseals₁, hn₁, hlt, by simp⟩
  · intro o₁ ho₁ hnot
    rw [List.mem_append, not_or] at hnot
    have hold := h.unconfirmed o₁ ho₁ hnot.1
    rw [ho, Option.some.injEq] at hold
    exact absurd (List.mem_singleton.mpr hold.symm) hnot.2
  · intro _ d hd
    refine ⟨o, n, snapshot, by simp, hseals, ?_⟩
    have hpublished : r.pendingDocument = some d := hd
    rw [hdocument] at hpublished
    exact Option.some.inj hpublished

/-- A record that still waits is not concerned by the confirmation. -/
theorem confirmed_snoc (h : Copy codec handed confirmed r) {o : PendingPublication}
    (ho : r.pending = some o) : Copy codec handed (confirmed ++ [o]) r where
  sealed := h.sealed
  numbered := h.numbered
  unconfirmed o₁ ho₁ hnot := by
    rw [List.mem_append, not_or] at hnot
    exact h.unconfirmed o₁ ho₁ hnot.1
  current hnone := by
    rw [ho] at hnone
    simp at hnone

/-- **Handing over what waits.** -/
theorem handed_snoc (h : Copy codec handed confirmed r) {o : PendingPublication}
    (hnumber : ∃ n snapshot, Seals codec o r.writer n snapshot ∧ n + 1 < 2 ^ 64 ∧
      n < r.nextSequence ∧ ∀ o', r.pending = some o' → r.nextSequence = n + 1 → o' = o)
    (hpending : o ∉ confirmed → r.pending = some o) :
    Copy codec (handed ++ [o]) confirmed r where
  sealed := h.sealed
  numbered o₁ ho₁ := by
    rcases List.mem_append.mp ho₁ with ho₁ | ho₁
    · exact h.numbered o₁ ho₁
    · obtain rfl := List.mem_singleton.mp ho₁
      exact hnumber
  unconfirmed o₁ ho₁ hnot := by
    rcases List.mem_append.mp ho₁ with ho₁ | ho₁
    · exact h.unconfirmed o₁ ho₁ hnot
    · obtain rfl := List.mem_singleton.mp ho₁
      exact hpending hnot
  current := h.current

end Copy

/-! ## Both records -/

namespace Linked

variable {confirmed : List PendingPublication} {r r' d : LocalReplica}

theorem refl (r : LocalReplica) : Linked confirmed r r where
  writer := rfl
  nextSequence _ _ := Nat.le_refl _
  same o ho o' ho' _ := by
    rw [ho, Option.some.injEq] at ho'
    exact ho'.symm
  unconfirmed o ho _ := ho

theorem sameState (h : Linked confirmed r d) (hsame : r.SameState r') : Linked confirmed r' d where
  writer := by rw [hsame.writer, h.writer]
  nextSequence o ho := by
    rw [hsame.pending] at ho
    rw [hsame.nextSequence]
    exact h.nextSequence o ho
  same o ho := by
    rw [hsame.pending] at ho
    rw [hsame.nextSequence]
    exact h.same o ho
  unconfirmed o ho := by
    rw [hsame.pending] at ho
    exact h.unconfirmed o ho

/-- A record and the one that was saved in its place. -/
theorem saved (hsame : r.SameState r') : Linked confirmed r r' where
  writer := hsame.writer
  nextSequence o ho := by rw [hsame.nextSequence]
  same o ho o' ho' _ := by
    rw [hsame.pending, ho, Option.some.injEq] at ho'
    exact ho'.symm
  unconfirmed o ho _ := by rw [hsame.pending, ho]

/-- A record that does not wait, and one that was saved by the same writer. -/
theorem of_pending_none (hpending : r.pending = none) (hwriter : d.writer = r.writer) :
    Linked confirmed r d where
  writer := hwriter
  nextSequence o ho := by simp [hpending] at ho
  same o ho := by simp [hpending] at ho
  unconfirmed o ho := by simp [hpending] at ho

/-- A record that waits, and the one on the disk that does not any more. -/
theorem of_confirmed {o : PendingPublication} (ho : r.pending = some o) (hd : d.pending = none)
    (hwriter : d.writer = r.writer) (hnext : d.nextSequence = r.nextSequence) :
    Linked (confirmed ++ [o]) r d where
  writer := hwriter
  nextSequence _ _ := Nat.le_of_eq hnext.symm
  same _ _ o' ho' := by simp [hd] at ho'
  unconfirmed o' ho' hnot := by
    rw [ho, Option.some.injEq] at ho'
    rw [← ho'] at hnot
    exact absurd (List.mem_append_right _ (List.mem_singleton_self o)) hnot

end Linked

namespace Publisher

variable {handed confirmed : List PendingPublication} {p : Publisher}

theorem Invariant.init : Invariant codec [] [] Publisher.init where
  record r hr := by simp [Publisher.init] at hr
  disk d hd := by simp [Publisher.init] at hd
  valid d hd := by simp [Publisher.init] at hd
  linked r d hr := by simp [Publisher.init] at hr
  started _ := ⟨rfl, fun r hr => by simp [Publisher.init] at hr⟩

/-- The record on the disk is replaced. -/
theorem Invariant.of_saved {r r' : LocalReplica} (hr : Copy codec handed confirmed r)
    (hr' : Copy codec handed confirmed r')
    (hvalid : ReplicaStore.validateRecord codec r' = .ok ()) (hlinked : Linked confirmed r r')
    {r'' : LocalReplica} (hr'' : r'' = r ∨ r'' = r') :
    Invariant codec handed confirmed { record := some r'', disk := some r' } := by
  refine ⟨fun r₁ h₁ => ?_, fun d hd => ?_, fun d hd => ?_, fun r₁ d h₁ hd => ?_,
    fun hnone => by simp at hnone⟩
  · obtain rfl := Option.some.inj h₁
    rcases hr'' with rfl | rfl
    · exact hr
    · exact hr'
  · obtain rfl := Option.some.inj hd
    exact hr'
  · obtain rfl := Option.some.inj hd
    exact hvalid
  · obtain rfl := Option.some.inj h₁
    obtain rfl := Option.some.inj hd
    rcases hr'' with rfl | rfl
    · exact hlinked
    · exact Linked.refl _

/-- **Every step keeps the invariant.** -/
theorem Invariant.moved {p' : Publisher} {o c : Option PendingPublication}
    (h : Invariant codec handed confirmed p) (hmoved : Moved codec p o c p') :
    Invariant codec (handed ++ o.toList) (confirmed ++ c.toList) p' := by
  cases hmoved with
  | idle => simpa using h
  | crash =>
    simp only [Option.toList_none, List.append_nil]
    exact ⟨fun r hr => by simp at hr, h.disk, h.valid, fun r d hr => by simp at hr,
      fun hnone => ⟨(h.started hnone).1, fun r hr => by simp at hr⟩⟩
  | start fresh hrecord hdisk =>
    simp only [Option.toList_none, List.append_nil]
    obtain ⟨rfl, -⟩ := h.started hdisk
    refine ⟨fun r hr => ?_, h.disk, h.valid, fun r d _ hd => by simp [hdisk] at hd,
      fun _ => ⟨rfl, fun r hr => ?_⟩⟩
    · obtain rfl := Option.some.inj hr
      exact ⟨by simp [LocalReplica.new], by simp, by simp, by simp [LocalReplica.new]⟩
    · obtain rfl := Option.some.inj hr
      rfl
  | resume d hrecord hdisk =>
    simp only [Option.toList_none, List.append_nil]
    refine ⟨fun r hr => ?_, h.disk, h.valid, fun r d' hr hd' => ?_,
      fun hnone => by simp [hdisk] at hnone⟩
    · obtain rfl := Option.some.inj hr
      exact h.disk _ hdisk
    · obtain rfl := Option.some.inj hr
      rw [hdisk, Option.some.injEq] at hd'
      rw [hd']
      exact Linked.refl _
  | touch r r' hrecord hsame =>
    simp only [Option.toList_none, List.append_nil]
    refine ⟨fun r₁ hr₁ => ?_, h.disk, h.valid, fun r₁ d hr₁ hd => ?_,
      fun hnone => ⟨(h.started hnone).1, fun r₁ hr₁ => ?_⟩⟩
    · obtain rfl := Option.some.inj hr₁
      exact (h.record r hrecord).sameState hsame
    · obtain rfl := Option.some.inj hr₁
      exact (h.linked r d hrecord hd).sameState hsame
    · obtain rfl := Option.some.inj hr₁
      rw [hsame.pending]
      exact (h.started hnone).2 r hrecord
  | save r r' r'' hrecord hsame hr'' hvalid =>
    simp only [Option.toList_none, List.append_nil]
    have hr := h.record r hrecord
    exact Invariant.of_saved hr (hr.sameState hsame) hvalid (Linked.saved hsame) hr''
  | stage r r' r'' context now hrecord hpending hstaged hr'' hvalid =>
    simp only [Option.toList_none, List.append_nil]
    have hr := h.record r hrecord
    refine Invariant.of_saved hr (hr.staged hpending hstaged) hvalid ?_ hr''
    obtain ⟨-, o, -, rfl⟩ := ReplicaStore.staged_ok hstaged
    exact Linked.of_pending_none hpending rfl
  | confirm r r' r'' path now hrecord hcommitted hr'' hvalid =>
    obtain ⟨o, id, ho, -, -, hr'⟩ := ReplicaStore.committed_ok hcommitted
    have hr := h.record r hrecord
    rw [ho]
    simp only [Option.toList_none, List.append_nil, Option.toList_some]
    refine Invariant.of_saved (hr.confirmed_snoc ho) (hr.committed hcommitted ho) hvalid ?_ hr''
    rw [hr']
    exact Linked.of_confirmed ho rfl rfl rfl
  | upload r hrecord =>
    simp only [Option.toList_none, List.append_nil]
    cases ho : r.pending with
    | none => simpa using h
    | some o =>
      rw [Option.toList_some]
      have hr := h.record r hrecord
      obtain ⟨n, snapshot, hnext, hn, hseals, -⟩ := hr.sealed o ho
      refine ⟨fun r₁ hr₁ => ?_, fun d hd => ?_, h.valid, h.linked, fun hnone => ?_⟩
      · rw [hrecord, Option.some.injEq] at hr₁
        rw [← hr₁]
        refine hr.handed_snoc ⟨n, snapshot, hseals, hn, by omega, fun o' ho' _ => ?_⟩ fun _ => ho
        rw [ho, Option.some.injEq] at ho'
        exact ho'.symm
      · -- the object was on the disk before it was handed over
        have hlinked := h.linked r d hrecord hd
        refine (h.disk d hd).handed_snoc ?_ (hlinked.unconfirmed o ho)
        refine ⟨n, snapshot, by rw [hlinked.writer]; exact hseals, hn, ?_, fun o' ho' heq => ?_⟩
        · have hle := hlinked.nextSequence o ho
          omega
        · exact hlinked.same o ho o' ho' (heq.trans hnext.symm)
      · have hpending := (h.started hnone).2 r hrecord
        rw [ho] at hpending
        simp at hpending

/-! ## Runs -/

theorem invariant (labels : List (PublisherStep Context)) :
    Invariant codec (CloudSync.handed ((publisher codec).trace labels))
      (confirmations codec ((publisher codec).trace labels)) ((publisher codec).final labels) :=
  (publisher codec).run_invariant
    (P := fun p trace => Invariant codec (CloudSync.handed trace) (confirmations codec trace) p)
    Invariant.init (fun p trace i h => by
      rw [handed_snoc, confirmations_snoc]
      exact h.moved (Publisher.moved p i)) labels

end Publisher

theorem Publisher.handedBy_upload {p : Publisher} {r : LocalReplica} (h : p.record = some r) :
    handedBy ((publisher codec).event p .upload) = r.pending := by
  have houtput : ((publisher codec).event p .upload).output = .ok r.pending := by
    simp only [publisher, Machine.event_output, step, h]
  rw [handedBy, houtput]

/-- The second object is the first one again, or a later publication of the writer. -/
def SameOrLater (codec : Codec Context) (o o' : PendingPublication) : Prop :=
  o = o' ∨ ∃ id id', PublicationId.parse codec o.path = .ok id ∧
    PublicationId.parse codec o'.path = .ok id' ∧ id.writer = id'.writer ∧
    id.sequence < id'.sequence

/-- What is handed over next is what was handed over last, or has a later number. -/
theorem Copy.sameOrLater (hcodec : codec.Lawful) {handed confirmed : List PendingPublication}
    {r : LocalReplica} (h : Copy codec handed confirmed r) {o' : PendingPublication}
    (ho' : r.pending = some o') {o : PendingPublication} (ho : o ∈ handed) :
    SameOrLater codec o o' := by
  obtain ⟨n, snapshot, hseals, hn, hlt, hlast⟩ := h.numbered o ho
  obtain ⟨n', snapshot', hnext, hn', hseals', -⟩ := h.sealed o' ho'
  by_cases heq : n = n'
  · subst heq
    exact Or.inl (hlast o' ho' hnext).symm
  · obtain ⟨id, hid, hwriter, hsequence⟩ := hseals.parse hcodec (by omega)
    obtain ⟨id', hid', hwriter', hsequence'⟩ := hseals'.parse hcodec (by omega)
    refine Or.inr ⟨id, id', hid, hid', hwriter.trans hwriter'.symm, ?_⟩
    omega

/-- **The numbers that are handed out increase.** -/
theorem pairwise_handed (hcodec : codec.Lawful) (labels : List (PublisherStep Context)) :
    (handed ((publisher codec).trace labels)).Pairwise (SameOrLater codec) := by
  induction labels using List.reverseRecOn with
  | nil => exact List.Pairwise.nil
  | append_singleton labels i ih =>
    rw [Machine.trace_snoc, handed_snoc, List.pairwise_append]
    refine ⟨ih, ?_, fun o ho o' ho' => ?_⟩
    · cases handedBy ((publisher codec).event ((publisher codec).final labels) i) <;> simp
    · have hmoved := @Publisher.moved _ codec ((publisher codec).final labels) i
      have hinv := @Publisher.invariant _ codec labels
      rw [Option.mem_toList] at ho'
      rw [ho'] at hmoved
      generalize hpost : (((publisher codec).final labels).step codec i).1 = post at hmoved
      generalize hc : confirmedBy codec ((publisher codec).event ((publisher codec).final labels) i)
        = c at hmoved
      generalize ho₁ : some o' = o₁ at hmoved
      cases hmoved with
      | upload r hrecord => exact (hinv.record r hrecord).sameOrLater hcodec ho₁.symm ho
      | _ => simp at ho₁

/-- **Every publication has its own number.** Whatever is lost and wherever the writer crashes: a
path stands for one object, the numbers handed out increase, an object that is not confirmed is
handed over again as it was, the record on the disk is valid, and a writer that has nothing to
publish has published its current document. -/
theorem one_publication_per_sequence (hcodec : codec.Lawful)
    (labels : List (PublisherStep Context)) :
    (∀ o ∈ handed ((publisher codec).trace labels), ∀ o' ∈ handed ((publisher codec).trace labels),
      o.path = o'.path → o.bytes = o'.bytes) ∧
    (handed ((publisher codec).trace labels)).Pairwise (SameOrLater codec) ∧
    (∀ o ∈ handed ((publisher codec).trace labels),
      o ∉ confirmations codec ((publisher codec).trace labels) →
      ∀ record, ((publisher codec).final labels).record = some record →
      handedBy ((publisher codec).event ((publisher codec).final labels) .upload) = some o) ∧
    (∀ record, ((publisher codec).final labels).disk = some record →
      ReplicaStore.validateRecord codec record = .ok ()) ∧
    ∀ record, ((publisher codec).final labels).record = some record →
      record.needsPublication codec = false →
      ∃ o context publication,
        (confirmations codec ((publisher codec).trace labels)).getLast? = some o ∧
        codec.openDocument context o.bytes = .ok publication ∧
        publication.snapshot.document = record.snapshot.document := by
  have hinv := @Publisher.invariant _ codec labels
  have hpair := pairwise_handed hcodec labels
  refine ⟨fun o ho o' ho' hpath => ?_, hpair, fun o ho hnot record hrecord => ?_,
    hinv.valid, fun record hrecord hneeds => ?_⟩
  · -- of two objects in the list one comes first
    have hlater : ∀ a b, SameOrLater codec a b → a.path = b.path → a = b := by
      rintro a b (hab | ⟨id, id', hid, hid', -, hlt⟩) hpath
      · exact hab
      · rw [hpath, hid', Except.ok.injEq] at hid
        rw [hid] at hlt
        exact absurd hlt (Nat.lt_irrefl _)
    have hforward : List.Pairwise (fun a b => a.path = b.path → a = b)
        (handed ((publisher codec).trace labels)) := hpair.imp fun {a b} => hlater a b
    have hbackward : List.Pairwise (flip fun a b => a.path = b.path → a = b)
        (handed ((publisher codec).trace labels)) := by
      refine hpair.imp fun {a b} hab => ?_
      intro hpath
      exact (hlater a b hab hpath.symm).symm
    have hall := List.Pairwise.forall_of_forall_of_flip (fun _ _ _ => rfl) hforward hbackward
    rw [hall ho ho' hpath]
  · have hpending := (hinv.record record hrecord).unconfirmed o ho hnot
    rw [Publisher.handedBy_upload hrecord, hpending]
  · rw [LocalReplica.needsPublication, Bool.or_eq_false_iff, decide_eq_false_iff_not, not_not,
      Option.isSome_eq_false_iff, Option.isNone_iff_eq_none] at hneeds
    obtain ⟨o, n, snapshot, hlast, ⟨context, now, hencode⟩, hdigest⟩ :=
      (hinv.record record hrecord).current hneeds.1 _ hneeds.2
    obtain ⟨-, -, -, hsealed, -⟩ := PublishedReplica.encode_ok hencode
    refine ⟨o, context, _, hlast, hcodec.openDocument_sealDocument _ _ _ hsealed, ?_⟩
    exact hcodec.documentDigest_injective hdigest

namespace Reference

/-- The first publication of the first writer, sealed into these bytes. -/
def firstEnvelope : Envelope where
  publication :=
    { schema := 3, writer := 1, sequence := 1, createdAtMs := 7
      snapshot := (SyncReplica.new 1).snapshot }
  bytes := [1, 2, 3]

def first : PendingPublication where
  path := PublicationId.path Reference.codec ⟨1, 1, objectDigest [1, 2, 3]⟩
  bytes := [1, 2, 3]

/-- The writer crashes after the upload, and hands the object over once more. -/
def retried : List (PublisherStep Envelope) :=
  [.reload 1, .stage firstEnvelope 7 .written, .upload, .crash, .reload 2, .upload,
    .confirm first.path 8 .written, .upload]

end Reference

theorem one_publication_per_sequence_retried :
    handed ((publisher Reference.codec).trace Reference.retried) =
        [Reference.first, Reference.first] ∧
      (handed ((publisher Reference.codec).trace Reference.retried)).Pairwise
        (SameOrLater Reference.codec) :=
  ⟨by decide +kernel,
    (one_publication_per_sequence Reference.codec_lawful Reference.retried).2.1⟩

end OxideTerm.CloudSync
