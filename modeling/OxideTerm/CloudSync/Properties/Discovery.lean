import OxideTerm.CloudSync.Publication

/-!
# The latest publications

A backend lists publications in any order. The scan keeps the newest one of each writer that it has
seen so far, so it notices two publications of one number only where that number is the highest so
far. Whether an older fork is noticed depends on the order.
-/

namespace OxideTerm.CloudSync

open OxideTerm.Lib

/-! ## The scan -/

/-- One publication more of a listing. -/
def noteLatest (latest : FiniteMap Uuid PublicationId) (publication : PublicationId) :
    Result (FiniteMap Uuid PublicationId) :=
  match latest.get publication.writer with
  | some previous =>
    if previous.sequence = publication.sequence ∧ previous.digest ≠ publication.digest then
      .error "A cloud sync writer published conflicting sequence identities"
    else if publication.sequence < previous.sequence then .ok latest
    else .ok (latest.insert publication.writer publication)
  | none => .ok (latest.insert publication.writer publication)

def latestPublications (publications : List PublicationId) : Result (List PublicationId) := do
  let latest ← publications.foldlM noteLatest .empty
  return (inOrder latest.keys).filterMap latest.get

/-! ## What it is for -/

/-- Two publications that cannot both be of one writer. -/
def Conflicting (a b : PublicationId) : Prop :=
  a.writer = b.writer ∧ a.sequence = b.sequence ∧ a.digest ≠ b.digest

/-- A publication none of its writer is newer than. -/
def IsNewest (publications : List PublicationId) (id : PublicationId) : Prop :=
  id ∈ publications ∧ ∀ other ∈ publications, other.writer = id.writer → other.sequence ≤ id.sequence

/-- Some writer has two publications of one number. -/
def Forked (publications : List PublicationId) : Prop :=
  ∃ a ∈ publications, ∃ b ∈ publications, Conflicting a b

/-- Some writer has two publications of its highest number. -/
def ForkedAtNewest (publications : List PublicationId) : Prop :=
  ∃ a, IsNewest publications a ∧ ∃ b ∈ publications, Conflicting a b

/-- Exactly one publication of each writer, the one with the highest number. -/
structure IsLatest (publications latest : List PublicationId) : Prop where
  nodup_writers : (latest.map PublicationId.writer).Nodup
  covers : ∀ id ∈ publications, ∃ newest ∈ latest, newest.writer = id.writer
  newest : ∀ id ∈ latest, IsNewest publications id

/-- The discovery does not depend on the order: all listings fail iff some writer is forked, and
otherwise give the latest publications. -/
def OrderIndependent (publications : List PublicationId) : Prop :=
  ∀ listing, listing.Perm publications →
    latestPublications listing = latestPublications publications ∧
    ((∃ e, latestPublications listing = .error e) ↔ Forked publications) ∧
    ∀ latest, latestPublications listing = .ok latest → IsLatest publications latest

/-! ## What has been scanned -/

/-- What the scan knows of the publications it has seen. -/
structure Scanned (seen : List PublicationId) (latest : FiniteMap Uuid PublicationId) : Prop where
  newest : ∀ w id, latest.get w = some id → id.writer = w ∧ IsNewest seen id ∧
    ∀ other ∈ seen, ¬ Conflicting id other
  covers : ∀ id ∈ seen, ∃ newest, latest.get id.writer = some newest

theorem scanned_empty : Scanned [] .empty where
  newest := fun w id h => by cases h
  covers := fun id h => absurd h List.not_mem_nil

variable {seen publications : List PublicationId} {latest : FiniteMap Uuid PublicationId}

theorem not_conflicting_self (p : PublicationId) : ¬ Conflicting p p := fun h => h.2.2 rfl

/-- A publication that is newer than all of its writer, or the same one again. -/
theorem Scanned.insert (h : Scanned seen latest) {p : PublicationId}
    (hp : ∀ other ∈ seen, other.writer = p.writer →
      other.sequence ≤ p.sequence ∧ ¬ Conflicting p other) :
    Scanned (seen ++ [p]) (latest.insert p.writer p) where
  newest := by
    intro w id hid
    rw [FiniteMap.get_insert] at hid
    split at hid
    · next hw =>
      obtain rfl := Option.some.inj hid
      refine ⟨hw.symm, ⟨List.mem_append_right _ List.mem_cons_self, fun other hother hwriter => ?_⟩,
        fun other hother hconflict => ?_⟩
      · rcases List.mem_append.mp hother with hseen | hlast
        · exact (hp other hseen hwriter).1
        · rw [List.mem_singleton.mp hlast]
      · rcases List.mem_append.mp hother with hseen | hlast
        · exact (hp other hseen hconflict.1.symm).2 hconflict
        · rw [List.mem_singleton.mp hlast] at hconflict
          exact not_conflicting_self p hconflict
    · next hw =>
      obtain ⟨hwriter, ⟨hmem, hmax⟩, hfree⟩ := h.newest w id hid
      have hother : id.writer ≠ p.writer := fun heq => hw (hwriter.symm.trans heq)
      refine ⟨hwriter, ⟨List.mem_append_left _ hmem, fun other hmem' hsame => ?_⟩,
        fun other hmem' hconflict => ?_⟩
      · rcases List.mem_append.mp hmem' with hseen | hlast
        · exact hmax other hseen hsame
        · rw [List.mem_singleton.mp hlast] at hsame
          exact absurd hsame.symm hother
      · rcases List.mem_append.mp hmem' with hseen | hlast
        · exact hfree other hseen hconflict
        · rw [List.mem_singleton.mp hlast] at hconflict
          exact hother hconflict.1
  covers := by
    intro id hid
    rw [FiniteMap.get_insert]
    split
    · exact ⟨p, rfl⟩
    · next hw =>
      rcases List.mem_append.mp hid with hseen | hlast
      · exact h.covers id hseen
      · rw [List.mem_singleton.mp hlast] at hw
        exact absurd rfl hw

/-- A publication that is older than another one of its writer. -/
theorem Scanned.skip (h : Scanned seen latest) {p previous : PublicationId}
    (hprevious : latest.get p.writer = some previous) (holder : p.sequence < previous.sequence) :
    Scanned (seen ++ [p]) latest where
  newest := by
    intro w id hid
    obtain ⟨hwriter, ⟨hmem, hmax⟩, hfree⟩ := h.newest w id hid
    have hsame : p.writer = id.writer → id = previous := by
      intro heq
      rw [← hwriter, ← heq, hprevious] at hid
      exact (Option.some.inj hid).symm
    refine ⟨hwriter, ⟨List.mem_append_left _ hmem, fun other hother heq => ?_⟩,
      fun other hother hconflict => ?_⟩
    · rcases List.mem_append.mp hother with hseen | hlast
      · exact hmax other hseen heq
      · obtain rfl := List.mem_singleton.mp hlast
        rw [hsame heq]
        exact Nat.le_of_lt holder
    · rcases List.mem_append.mp hother with hseen | hlast
      · exact hfree other hseen hconflict
      · obtain rfl := List.mem_singleton.mp hlast
        obtain ⟨heq, hsequence, -⟩ := hconflict
        rw [hsame heq.symm] at hsequence
        omega
  covers := by
    intro id hid
    rcases List.mem_append.mp hid with hseen | hlast
    · exact h.covers id hseen
    · rw [List.mem_singleton.mp hlast]
      exact ⟨previous, hprevious⟩

/-- **One step of the scan**: it fails for a conflict with the newest publication only. -/
theorem noteLatest_cases (h : Scanned seen latest) (p : PublicationId) :
    (∃ previous, latest.get p.writer = some previous ∧ Conflicting previous p ∧
      noteLatest latest p =
        .error "A cloud sync writer published conflicting sequence identities") ∨
    ∃ latest', noteLatest latest p = .ok latest' ∧ Scanned (seen ++ [p]) latest' := by
  unfold noteLatest
  cases hprevious : latest.get p.writer with
  | none =>
    refine .inr ⟨_, rfl, h.insert fun other hother hwriter => ?_⟩
    obtain ⟨newest, hnewest⟩ := h.covers other hother
    rw [hwriter, hprevious] at hnewest
    cases hnewest
  | some previous =>
    obtain ⟨hwriter, ⟨hmem, hmax⟩, hfree⟩ := h.newest _ _ hprevious
    simp only
    split
    · next hconflict => exact .inl ⟨previous, rfl, ⟨hwriter, hconflict⟩, rfl⟩
    next hsame =>
    split
    · next holder => exact .inr ⟨_, rfl, h.skip hprevious holder⟩
    next hnewer =>
    refine .inr ⟨_, rfl, h.insert fun other hother heq => ?_⟩
    have hle := hmax other hother (heq.trans hwriter.symm)
    refine ⟨by omega, fun hconflict => ?_⟩
    obtain ⟨-, hsequence, hdigest⟩ := hconflict
    have hdigests : previous.digest = p.digest := by
      by_contra hne
      exact hsame ⟨by omega, hne⟩
    refine hfree other hother ⟨hwriter.trans heq.symm, by omega, ?_⟩
    rw [hdigests]
    exact hdigest

/-- **The whole scan**: it fails for a fork only, and otherwise knows the newest publications. -/
theorem scan_cases : ∀ (rest : List PublicationId) {seen : List PublicationId}
    {latest : FiniteMap Uuid PublicationId}, Scanned seen latest →
    (Forked (seen ++ rest) ∧ rest.foldlM noteLatest latest =
      .error "A cloud sync writer published conflicting sequence identities") ∨
    ∃ latest', rest.foldlM noteLatest latest = .ok latest' ∧ Scanned (seen ++ rest) latest'
  | [], seen, latest, h => .inr ⟨latest, rfl, by rw [List.append_nil]; exact h⟩
  | p :: rest, seen, latest, h => by
    rw [List.foldlM_cons]
    rcases noteLatest_cases h p with ⟨previous, hprevious, hconflict, herror⟩ | ⟨next, hok, hnext⟩
    · rw [herror]
      obtain ⟨-, ⟨hmem, -⟩, -⟩ := h.newest _ _ hprevious
      exact .inl ⟨⟨previous, List.mem_append_left _ hmem, p,
        List.mem_append_right _ List.mem_cons_self, hconflict⟩, rfl⟩
    · rw [hok]
      have hrest := scan_cases rest hnext
      rw [List.append_assoc, List.singleton_append] at hrest
      exact hrest

/-- A listing from the highest number down is scanned to its end, unless a newest number is
forked. -/
theorem scan_of_sorted : ∀ (rest : List PublicationId) {seen : List PublicationId}
    {latest : FiniteMap Uuid PublicationId}, Scanned seen latest →
    (seen ++ rest).Pairwise (fun a b => b.sequence ≤ a.sequence) → ¬ ForkedAtNewest (seen ++ rest) →
    ∃ latest', rest.foldlM noteLatest latest = .ok latest'
  | [], _, latest, _, _, _ => ⟨latest, rfl⟩
  | p :: rest, seen, latest, h, hsorted, hfree => by
    rw [List.foldlM_cons]
    rcases noteLatest_cases h p with ⟨previous, hprevious, hconflict, -⟩ | ⟨next, hok, hnext⟩
    · obtain ⟨-, ⟨hmem, hmax⟩, -⟩ := h.newest _ _ hprevious
      refine absurd ⟨previous, ⟨List.mem_append_left _ hmem, fun other hother hwriter => ?_⟩, p,
        List.mem_append_right _ List.mem_cons_self, hconflict⟩ hfree
      rcases List.mem_append.mp hother with hseen | hlater
      · exact hmax other hseen hwriter
      · exact (List.pairwise_append.mp hsorted).2.2 previous hmem other hlater
    · rw [hok]
      refine scan_of_sorted rest hnext ?_ ?_
      · rw [List.append_assoc, List.singleton_append]
        exact hsorted
      · rw [List.append_assoc, List.singleton_append]
        exact hfree

/-! ## The result -/

/-- The newest publications in the order of their writers. -/
theorem isLatest_of_scanned (h : Scanned publications latest) :
    IsLatest publications ((inOrder latest.keys).filterMap latest.get) where
  nodup_writers := by
    have hwriters : ((inOrder latest.keys).filterMap latest.get).map PublicationId.writer =
        inOrder latest.keys := by
      rw [List.map_filterMap]
      refine (List.filterMap_congr fun w hw => ?_).trans List.filterMap_some
      obtain ⟨id, hid⟩ := FiniteMap.exists_of_mem_keys (mem_inOrder.mp hw)
      rw [hid, Option.map_some, (h.newest w id hid).1]
    rw [hwriters]
    exact nodup_inOrder _
  covers := by
    intro id hid
    obtain ⟨newest, hnewest⟩ := h.covers id hid
    exact ⟨newest, List.mem_filterMap.mpr ⟨id.writer,
      mem_inOrder.mpr (FiniteMap.mem_keys_of_get hnewest), hnewest⟩, (h.newest _ _ hnewest).1⟩
  newest := by
    intro id hid
    obtain ⟨w, -, hw⟩ := List.mem_filterMap.mp hid
    exact (h.newest w id hw).2.1

/-- What is known of the same publications is the same. -/
theorem Scanned.unique {latest' : FiniteMap Uuid PublicationId} (h : Scanned publications latest)
    (h' : Scanned publications latest') : latest = latest' := by
  refine FiniteMap.ext fun w => ?_
  cases hw : latest.get w with
  | none =>
    cases hw' : latest'.get w with
    | none => rfl
    | some id =>
      obtain ⟨hwriter, ⟨hmem, -⟩, -⟩ := h'.newest w id hw'
      obtain ⟨newest, hnewest⟩ := h.covers id hmem
      rw [hwriter, hw] at hnewest
      cases hnewest
  | some id =>
    obtain ⟨hwriter, ⟨hmem, hmax⟩, hfree⟩ := h.newest w id hw
    obtain ⟨id', hid'⟩ := h'.covers id hmem
    rw [hwriter] at hid'
    obtain ⟨hwriter', ⟨hmem', hmax'⟩, -⟩ := h'.newest w id' hid'
    have hsame : id.writer = id'.writer := hwriter.trans hwriter'.symm
    have hsequence : id.sequence = id'.sequence :=
      Nat.le_antisymm (hmax' id hmem hsame) (hmax id' hmem' hsame.symm)
    have hdigest : id.digest = id'.digest := by
      by_contra hne
      exact hfree id' hmem' ⟨hsame, hsequence, hne⟩
    have heq : id = id' := by
      cases id
      cases id'
      cases hsame
      cases hsequence
      cases hdigest
      rfl
    rw [hid', heq]

theorem Scanned.perm {listing : List PublicationId} (h : Scanned listing latest)
    (hperm : listing.Perm publications) : Scanned publications latest where
  newest := by
    intro w id hid
    obtain ⟨hwriter, ⟨hmem, hmax⟩, hfree⟩ := h.newest w id hid
    exact ⟨hwriter, ⟨hperm.mem_iff.mp hmem, fun other hother =>
      hmax other (hperm.mem_iff.mpr hother)⟩, fun other hother =>
      hfree other (hperm.mem_iff.mpr hother)⟩
  covers := fun id hid => h.covers id (hperm.mem_iff.mpr hid)

/-- A scan that is completed has seen no newest number that is forked. -/
theorem Scanned.not_forkedAtNewest (h : Scanned publications latest) :
    ¬ ForkedAtNewest publications := by
  rintro ⟨a, ⟨hmem, hmax⟩, b, hb, hwriter, hsequence, hdigest⟩
  obtain ⟨newest, hnewest⟩ := h.covers a hmem
  obtain ⟨hsame, ⟨hmem', hmax'⟩, hfree⟩ := h.newest _ _ hnewest
  have heq : newest.sequence = a.sequence :=
    Nat.le_antisymm (hmax newest hmem' hsame) (hmax' a hmem hsame.symm)
  have ha : newest.digest = a.digest := by
    by_contra hne
    exact hfree a hmem ⟨hsame, heq, hne⟩
  have hb' : newest.digest = b.digest := by
    by_contra hne
    exact hfree b hb ⟨hsame.trans hwriter, heq.trans hsequence, hne⟩
  exact hdigest (ha.symm.trans hb')

/-- **What a listing gives**, whatever its order. -/
theorem latestPublications_cases {listing : List PublicationId} (hperm : listing.Perm publications) :
    (Forked publications ∧ latestPublications listing =
      .error "A cloud sync writer published conflicting sequence identities") ∨
    ∃ latest, Scanned publications latest ∧
      latestPublications listing = .ok ((inOrder latest.keys).filterMap latest.get) := by
  unfold latestPublications
  rcases scan_cases listing scanned_empty with ⟨⟨a, ha, b, hb, hconflict⟩, herror⟩ |
    ⟨latest, hok, hscanned⟩
  · rw [herror]
    exact .inl ⟨⟨a, hperm.mem_iff.mp ha, b, hperm.mem_iff.mp hb, hconflict⟩, rfl⟩
  · rw [hok]
    exact .inr ⟨latest, hscanned.perm hperm, rfl⟩

/-- One publication is to be listed before another. -/
def NewerFirst (a b : PublicationId) : Prop := b.sequence ≤ a.sequence

instance decidableNewerFirst : DecidableRel NewerFirst := fun a b =>
  inferInstanceAs (Decidable (b.sequence ≤ a.sequence))

/-- From the highest number down an older fork is not noticed. -/
theorem exists_listing_ok (hfree : ¬ ForkedAtNewest publications) :
    ∃ listing : List PublicationId, listing.Perm publications ∧
      ∃ latest, latestPublications listing = .ok latest := by
  have : Std.Total NewerFirst := ⟨fun a b => Nat.le_total b.sequence a.sequence⟩
  have : IsTrans PublicationId NewerFirst := ⟨fun a b c hab hbc => Nat.le_trans hbc hab⟩
  have hperm := List.perm_insertionSort NewerFirst publications
  have hsorted : (publications.insertionSort NewerFirst).Pairwise
      (fun a b => b.sequence ≤ a.sequence) := List.pairwise_insertionSort NewerFirst publications
  have hfree' : ¬ ForkedAtNewest (publications.insertionSort NewerFirst) := by
    rintro ⟨a, ⟨hmem, hmax⟩, b, hb, hconflict⟩
    exact hfree ⟨a, ⟨hperm.mem_iff.mp hmem, fun other hother =>
      hmax other (hperm.mem_iff.mpr hother)⟩, b, hperm.mem_iff.mp hb, hconflict⟩
  obtain ⟨latest, hok⟩ := scan_of_sorted _ scanned_empty (by rw [List.nil_append]; exact hsorted)
    (by rw [List.nil_append]; exact hfree')
  refine ⟨_, hperm, (inOrder latest.keys).filterMap latest.get, ?_⟩
  rw [latestPublications, hok]
  rfl

/-- **Discovery does not depend on the order iff a fork, if there is one, is at some writer's
highest number.** -/
theorem order_independent_iff (publications : List PublicationId) :
    OrderIndependent publications ↔ (Forked publications → ForkedAtNewest publications) := by
  constructor
  · intro h hforked
    by_contra hfree
    obtain ⟨listing, hperm, latest, hok⟩ := exists_listing_ok hfree
    obtain ⟨e, herror⟩ := (h listing hperm).2.1.mpr hforked
    rw [hok] at herror
    cases herror
  · intro h listing hperm
    rcases latestPublications_cases hperm with ⟨hforked, herror⟩ | ⟨latest, hscanned, hok⟩
    · rcases latestPublications_cases (List.Perm.refl publications) with
        ⟨-, herror'⟩ | ⟨latest, hscanned, -⟩
      · refine ⟨herror.trans herror'.symm, ⟨fun _ => hforked, fun _ => ⟨_, herror⟩⟩, ?_⟩
        intro latest hok
        rw [herror] at hok
        cases hok
      · exact absurd (h hforked) hscanned.not_forkedAtNewest
    · have hforked : ¬ Forked publications := fun hforked =>
        hscanned.not_forkedAtNewest (h hforked)
      rcases latestPublications_cases (List.Perm.refl publications) with
        ⟨hforked', -⟩ | ⟨latest', hscanned', hok'⟩
      · exact absurd hforked' hforked
      · obtain rfl := hscanned.unique hscanned'
        refine ⟨hok.trans hok'.symm, ⟨?_, fun hforked' => absurd hforked' hforked⟩, ?_⟩
        · rintro ⟨e, herror⟩
          rw [hok] at herror
          cases herror
        · intro result hresult
          obtain rfl := Except.ok.inj (hok.symm.trans hresult)
          exact isLatest_of_scanned hscanned

/-- A publication of the writer 7. -/
def publication (sequence : Nat) (digest : String) : PublicationId where
  writer := 7
  sequence
  digest

theorem older_fork_depends_on_order :
    latestPublications [publication 1 "a", publication 1 "b", publication 2 "c"] =
      .error "A cloud sync writer published conflicting sequence identities" ∧
    latestPublications [publication 2 "c", publication 1 "a", publication 1 "b"] =
      .ok [publication 2 "c"] ∧
    ¬ OrderIndependent [publication 1 "a", publication 1 "b", publication 2 "c"] := by
  have herror : latestPublications [publication 1 "a", publication 1 "b", publication 2 "c"] =
      .error "A cloud sync writer published conflicting sequence identities" := by decide +kernel
  have hok : latestPublications [publication 2 "c", publication 1 "a", publication 1 "b"] =
      .ok [publication 2 "c"] := by decide +kernel
  refine ⟨herror, hok, fun h => ?_⟩
  have hsame := (h [publication 2 "c", publication 1 "a", publication 1 "b"] (by decide)).1
  rw [herror, hok] at hsame
  cases hsame

end OxideTerm.CloudSync
