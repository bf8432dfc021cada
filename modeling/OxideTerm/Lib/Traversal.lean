import Mathlib.Data.Finset.Card
import Mathlib.Data.List.Nodup
import OxideTerm.Lib.Forest

/-!
# Levels and traversals of forests

In a forest with levels each node stands one level below its parent. Nothing is above itself then,
two nodes of one level have nothing below them in common, and a traversal that goes down from a node
meets each node below it once.
-/

namespace OxideTerm.Lib.Forest

variable {ι : Type*} {f : Forest ι} {a b n m p : ι}

/-! ## At or below a node -/

theorem Ancestor.trans (h : f.Ancestor a b) (h' : f.Ancestor b n) : f.Ancestor a n := by
  induction h' with
  | parent hp => exact .above hp h
  | above hp _ ih => exact .above hp ih

/-- `m` is `n` or below it. -/
def Within (f : Forest ι) (n m : ι) : Prop := m = n ∨ f.Ancestor n m

theorem within_self : f.Within n n := .inl rfl

theorem Within.trans (h : f.Within a b) (h' : f.Within b n) : f.Within a n := by
  rcases h with rfl | h
  · exact h'
  · rcases h' with rfl | h'
    · exact .inr h
    · exact .inr (h.trans h')

/-- What is above a node is its parent, or above its parent. -/
theorem ancestor_iff : f.Ancestor a n ↔ ∃ p, f.parent n = some p ∧ f.Within a p := by
  constructor
  · intro h
    cases h with
    | parent hp => exact ⟨a, hp, within_self⟩
    | above hp h => exact ⟨_, hp, .inr h⟩
  · rintro ⟨p, hp, rfl | h⟩
    · exact .parent hp
    · exact .above hp h

/-- What is below a node is within one of its children. -/
theorem ancestor_iff_child : f.Ancestor n m ↔ ∃ c, f.parent c = some n ∧ f.Within c m := by
  constructor
  · intro h
    induction h with
    | parent hp => exact ⟨_, hp, within_self⟩
    | above hp _ ih =>
      obtain ⟨c, hc, hwithin⟩ := ih
      exact ⟨c, hc, .inr (ancestor_iff.mpr ⟨_, hp, hwithin⟩)⟩
  · rintro ⟨c, hc, rfl | h⟩
    · exact .parent hc
    · exact (Ancestor.parent hc).trans h

/-- What is above a node stands in one line. -/
theorem Within.total (ha : f.Within a n) (hb : f.Within b n) : f.Within a b ∨ f.Within b a := by
  rcases ha with rfl | ha
  · exact .inr hb
  · induction ha with
    | parent hp =>
      rcases hb with rfl | hb
      · exact .inl (.inr (.parent hp))
      · obtain ⟨q, hq, hwithin⟩ := ancestor_iff.mp hb
        cases hp.symm.trans hq
        exact .inr hwithin
    | above hp ha ih =>
      rcases hb with rfl | hb
      · exact .inl (.inr (.above hp ha))
      · obtain ⟨q, hq, hwithin⟩ := ancestor_iff.mp hb
        cases hp.symm.trans hq
        exact ih hwithin

/-! ## Levels -/

/-- Roots are on the first level, and children one level below their parent. -/
structure Levels (f : Forest ι) (depth : ι → Nat) : Prop where
  root : ∀ n ∈ f.nodes, f.parent n = none → depth n = 0
  child : ∀ n ∈ f.nodes, ∀ p, f.parent n = some p → p ∈ f.nodes ∧ depth n = depth p + 1

namespace Levels

variable {depth : ι → Nat} (h : f.Levels depth)

include h

theorem ancestor (ha : f.Ancestor a n) (hn : n ∈ f.nodes) : a ∈ f.nodes ∧ depth a < depth n := by
  induction ha with
  | parent hp =>
    obtain ⟨hmem, hdepth⟩ := h.child _ hn _ hp
    exact ⟨hmem, by omega⟩
  | above hp _ ih =>
    obtain ⟨hmem, hdepth⟩ := h.child _ hn _ hp
    obtain ⟨ha, hlt⟩ := ih hmem
    exact ⟨ha, by omega⟩

theorem congr {depth' : ι → Nat} (hdepth : ∀ n ∈ f.nodes, depth' n = depth n) :
    f.Levels depth' where
  root n hn hp := by rw [hdepth n hn, h.root n hn hp]
  child n hn p hp := by
    obtain ⟨hmem, hstep⟩ := h.child n hn p hp
    exact ⟨hmem, by rw [hdepth n hn, hdepth p hmem, hstep]⟩

theorem acyclic (hn : n ∈ f.nodes) : ¬ f.Ancestor n n := fun hcycle =>
  Nat.lt_irrefl _ (h.ancestor hcycle hn).2

theorem within (hw : f.Within a n) (hn : n ∈ f.nodes) : a ∈ f.nodes ∧ depth a ≤ depth n := by
  rcases hw with rfl | ha
  · exact ⟨hn, Nat.le_refl _⟩
  · obtain ⟨hmem, hlt⟩ := h.ancestor ha hn
    exact ⟨hmem, hlt.le⟩

/-- **A node is within one node of each level at most.** -/
theorem within_unique (ha : f.Within a n) (hb : f.Within b n) (hn : n ∈ f.nodes)
    (hdepth : depth a = depth b) : a = b := by
  rcases ha with rfl | ha
  · rcases hb with rfl | hb
    · rfl
    · have hlt := (h.ancestor hb hn).2
      omega
  · induction ha with
    | parent hp =>
      rcases hb with rfl | hb
      · have hlt := (h.ancestor (.parent hp) hn).2
        omega
      · obtain ⟨q, hq, hwithin⟩ := ancestor_iff.mp hb
        cases hp.symm.trans hq
        rcases hwithin with rfl | hb
        · rfl
        · have hlt := (h.ancestor hb (h.child _ hn _ hp).1).2
          omega
    | above hp ha ih =>
      rcases hb with rfl | hb
      · have hlt := (h.ancestor (.above hp ha) hn).2
        omega
      · obtain ⟨q, hq, hwithin⟩ := ancestor_iff.mp hb
        cases hp.symm.trans hq
        exact ih hwithin (h.child _ hn _ hp).1

/-- Every node is within a root. -/
theorem exists_root (hn : n ∈ f.nodes) : ∃ r ∈ f.nodes, f.parent r = none ∧ f.Within r n := by
  induction hd : depth n generalizing n with
  | zero =>
    cases hp : f.parent n with
    | none => exact ⟨n, hn, hp, within_self⟩
    | some p =>
      have hdepth := (h.child n hn p hp).2
      omega
  | succ d ih =>
    cases hp : f.parent n with
    | none =>
      have hzero := h.root n hn hp
      omega
    | some p =>
      obtain ⟨hmem, hdepth⟩ := h.child n hn p hp
      obtain ⟨r, hr, hnone, hwithin⟩ := ih hmem (by omega)
      exact ⟨r, hr, hnone, hwithin.trans (.inr (.parent hp))⟩

/-- A finite forest has fewer levels than nodes. -/
theorem depth_lt_card {nodes : Finset ι} (hnodes : ∀ n, n ∈ nodes ↔ n ∈ f.nodes) (hn : n ∈ f.nodes) :
    depth n < nodes.card := by
  obtain ⟨path, hnodup, hlength, hpath⟩ : ∃ path : List ι, path.Nodup ∧
      path.length = depth n + 1 ∧ ∀ m ∈ path, m ∈ f.nodes ∧ depth m ≤ depth n := by
    induction hd : depth n generalizing n with
    | zero =>
      refine ⟨[n], List.nodup_singleton n, rfl, fun m hm => ?_⟩
      rw [List.mem_singleton.mp hm, hd]
      exact ⟨hn, Nat.le_refl 0⟩
    | succ d ih =>
      obtain ⟨p, hp⟩ : ∃ p, f.parent n = some p := by
        rw [← Option.ne_none_iff_exists']
        intro hnone
        have hzero := h.root n hn hnone
        omega
      obtain ⟨hmem, hdepth⟩ := h.child n hn p hp
      obtain ⟨path, hnodup, hlength, hpath⟩ := ih hmem (by omega)
      refine ⟨n :: path, List.nodup_cons.mpr ⟨fun hin => ?_, hnodup⟩, by rw [List.length_cons, hlength],
        fun m hm => ?_⟩
      · have hle := (hpath n hin).2
        omega
      · rcases List.mem_cons.mp hm with rfl | hm
        · exact ⟨hn, hd.le⟩
        · obtain ⟨hmem, hle⟩ := hpath m hm
          exact ⟨hmem, by omega⟩
  have hsub : (⟨path, hnodup⟩ : Finset ι) ⊆ nodes := fun m hm => (hnodes m).mpr (hpath m hm).1
  have hcard : path.length ≤ nodes.card := Finset.card_le_card hsub
  omega

end Levels

/-! ## Ways up -/

/-- The way up from a node ends after so many steps. -/
def EndsIn (parent : ι → Option ι) : Nat → ι → Prop
  | 0, n => parent n = none
  | d + 1, n => ∃ p, parent n = some p ∧ EndsIn parent d p

theorem EndsIn.unique {parent : ι → Option ι} : ∀ {d d' : Nat} {n : ι}, EndsIn parent d n →
    EndsIn parent d' n → d = d'
  | 0, 0, _, _, _ => rfl
  | 0, d' + 1, _, h, ⟨_, hp, _⟩ => absurd (h.symm.trans hp) (by simp)
  | d + 1, 0, _, ⟨_, hp, _⟩, h => absurd (h.symm.trans hp) (by simp)
  | d + 1, d' + 1, _, ⟨_, hp, h⟩, ⟨_, hp', h'⟩ => by
    cases hp.symm.trans hp'
    rw [h.unique h']

/-- **Where every way up ends, the steps are levels.** -/
theorem levels_of_endsIn {depth : ι → Nat} (hmem : ∀ n ∈ f.nodes, ∀ p, f.parent n = some p →
    p ∈ f.nodes) (h : ∀ n ∈ f.nodes, EndsIn f.parent (depth n) n) : f.Levels depth where
  root n hn hp := (h n hn).unique (show EndsIn f.parent 0 n from hp)
  child n hn p hp :=
    ⟨hmem n hn p hp, (h n hn).unique
      (show EndsIn f.parent (depth p + 1) n from ⟨p, hp, h p (hmem n hn p hp)⟩)⟩

theorem Levels.endsIn {depth : ι → Nat} (h : f.Levels depth) (hn : n ∈ f.nodes) :
    EndsIn f.parent (depth n) n := by
  induction hd : depth n generalizing n with
  | zero =>
    show f.parent n = none
    rw [Option.eq_none_iff_forall_ne_some]
    intro p hp
    have hstep := (h.child n hn p hp).2
    omega
  | succ d ih =>
    cases hp : f.parent n with
    | none =>
      have hzero := h.root n hn hp
      omega
    | some p =>
      obtain ⟨hmem, hstep⟩ := h.child n hn p hp
      exact ⟨p, hp, ih hmem (by omega)⟩

/-! ## Forests that grow and shrink -/

section Grow

variable [DecidableEq ι]

/-- A new root behind the others. -/
def addRoot (f : Forest ι) (n : ι) : Forest ι where
  nodes := {m | m = n ∨ m ∈ f.nodes}
  parent m := if m = n then none else f.parent m
  children m := if m = n then [] else f.children m
  roots := f.roots ++ [n]

/-- A new node behind the other children of a parent. -/
def addChild (f : Forest ι) (p n : ι) : Forest ι where
  nodes := {m | m = n ∨ m ∈ f.nodes}
  parent m := if m = n then some p else f.parent m
  children m := if m = n then [] else if m = p then f.children p ++ [n] else f.children m
  roots := f.roots

variable {depth : ι → Nat}

theorem Levels.addRoot (h : f.Levels depth) (hn : n ∉ f.nodes) :
    (f.addRoot n).Levels fun m => if m = n then 0 else depth m where
  root := by
    rintro m (rfl | hm) hp
    · exact if_pos rfl
    · have hne : m ≠ n := ne_of_mem_of_not_mem hm hn
      rw [if_neg hne]
      exact h.root m hm ((if_neg hne).symm.trans hp)
  child := by
    rintro m (rfl | hm) p hp
    · exact absurd ((if_pos rfl).symm.trans hp) (by simp)
    · have hne : m ≠ n := ne_of_mem_of_not_mem hm hn
      obtain ⟨hmem, hstep⟩ := h.child m hm p ((if_neg hne).symm.trans hp)
      exact ⟨.inr hmem, by rw [if_neg hne, if_neg (ne_of_mem_of_not_mem hmem hn), hstep]⟩

theorem Levels.addChild (h : f.Levels depth) (hp : p ∈ f.nodes) (hn : n ∉ f.nodes) :
    (f.addChild p n).Levels fun m => if m = n then depth p + 1 else depth m where
  root := by
    rintro m (rfl | hm) hnone
    · exact absurd ((if_pos rfl).symm.trans hnone) (by simp)
    · have hne : m ≠ n := ne_of_mem_of_not_mem hm hn
      rw [if_neg hne]
      exact h.root m hm ((if_neg hne).symm.trans hnone)
  child := by
    rintro m (rfl | hm) q hq
    · obtain rfl : p = q := Option.some_inj.mp ((if_pos rfl).symm.trans hq)
      exact ⟨.inr hp, by rw [if_pos rfl, if_neg (ne_of_mem_of_not_mem hp hn)]⟩
    · have hne : m ≠ n := ne_of_mem_of_not_mem hm hn
      obtain ⟨hmem, hstep⟩ := h.child m hm q ((if_neg hne).symm.trans hq)
      exact ⟨.inr hmem, by rw [if_neg hne, if_neg (ne_of_mem_of_not_mem hmem hn), hstep]⟩

theorem WellFormed.addRoot (h : f.WellFormed) (hlevels : f.Levels depth) (hn : n ∉ f.nodes) :
    (f.addRoot n).WellFormed where
  parent_mem m hm p hp := ((hlevels.addRoot hn).child m hm p hp).1
  mem_children := by
    rintro p (rfl | hp) m
    · have hnil : (f.addRoot p).children p = [] := if_pos rfl
      rw [hnil]
      refine ⟨fun hm => absurd hm List.not_mem_nil, ?_⟩
      rintro ⟨rfl | hm, hparent⟩
      · exact absurd ((if_pos rfl).symm.trans hparent) (by simp)
      · have hne : m ≠ p := ne_of_mem_of_not_mem hm hn
        exact absurd (h.parent_mem m hm p ((if_neg hne).symm.trans hparent)) hn
    · have hne : p ≠ n := ne_of_mem_of_not_mem hp hn
      have hchildren : (f.addRoot n).children p = f.children p := if_neg hne
      rw [hchildren, h.mem_children p hp]
      constructor
      · rintro ⟨hm, hparent⟩
        exact ⟨.inr hm, (if_neg (ne_of_mem_of_not_mem hm hn)).trans hparent⟩
      · rintro ⟨rfl | hm, hparent⟩
        · exact absurd ((if_pos rfl).symm.trans hparent) (by simp)
        · exact ⟨hm, (if_neg (ne_of_mem_of_not_mem hm hn)).symm.trans hparent⟩
  nodup_children := by
    rintro p (rfl | hp)
    · rw [show (f.addRoot p).children p = [] from if_pos rfl]
      exact List.nodup_nil
    · rw [show (f.addRoot n).children p = f.children p from if_neg (ne_of_mem_of_not_mem hp hn)]
      exact h.nodup_children p hp
  mem_roots := by
    intro m
    show m ∈ f.roots ++ [n] ↔ (m = n ∨ m ∈ f.nodes) ∧ (if m = n then none else f.parent m) = none
    rw [List.mem_append, List.mem_singleton, h.mem_roots]
    by_cases hm : m = n
    · simp [hm]
    · simp [hm]
  nodup_roots := by
    refine h.nodup_roots.append (List.nodup_singleton n) fun m hm hm' => hn ?_
    rw [← List.mem_singleton.mp hm']
    exact ((h.mem_roots m).mp hm).1
  acyclic _ hm := (hlevels.addRoot hn).acyclic hm

theorem WellFormed.addChild (h : f.WellFormed) (hlevels : f.Levels depth) (hp : p ∈ f.nodes)
    (hn : n ∉ f.nodes) : (f.addChild p n).WellFormed where
  parent_mem m hm q hq := ((hlevels.addChild hp hn).child m hm q hq).1
  mem_children := by
    rintro q (rfl | hq) m
    · have hnil : (f.addChild p q).children q = [] := if_pos rfl
      rw [hnil]
      refine ⟨fun hm => absurd hm List.not_mem_nil, ?_⟩
      rintro ⟨rfl | hm, hparent⟩
      · obtain rfl : p = m := Option.some_inj.mp ((if_pos rfl).symm.trans hparent)
        exact absurd hp hn
      · have hne : m ≠ q := ne_of_mem_of_not_mem hm hn
        exact absurd (h.parent_mem m hm q ((if_neg hne).symm.trans hparent)) hn
    · have hne : q ≠ n := ne_of_mem_of_not_mem hq hn
      show m ∈ (if q = n then [] else if q = p then f.children p ++ [n] else f.children q) ↔
        (m = n ∨ m ∈ f.nodes) ∧ (if m = n then some p else f.parent m) = some q
      have hchildren := h.mem_children q hq m
      rw [if_neg hne]
      by_cases hm : m = n
      · subst hm
        have hnot : m ∉ f.children q := fun hm => hn (hchildren.mp hm).1
        by_cases hqp : q = p
        · simp [hqp]
        · simp [hqp, hnot, Ne.symm hqp]
      · by_cases hqp : q = p
        · subst hqp
          simp [hm, hchildren]
        · simp [hm, hqp, hchildren]
  nodup_children := by
    rintro q (rfl | hq)
    · rw [show (f.addChild p q).children q = [] from if_pos rfl]
      exact List.nodup_nil
    · have hne : q ≠ n := ne_of_mem_of_not_mem hq hn
      show (if q = n then [] else if q = p then f.children p ++ [n] else f.children q).Nodup
      rw [if_neg hne]
      split
      · refine (h.nodup_children p hp).append (List.nodup_singleton n) fun m hm hm' => hn ?_
        rw [← List.mem_singleton.mp hm']
        exact ((h.mem_children p hp m).mp hm).1
      · exact h.nodup_children q hq
  mem_roots := by
    intro m
    show m ∈ f.roots ↔ (m = n ∨ m ∈ f.nodes) ∧ (if m = n then some p else f.parent m) = none
    rw [h.mem_roots]
    by_cases hm : m = n
    · simp [hm, hn]
    · simp [hm]
  nodup_roots := h.nodup_roots
  acyclic _ hm := (hlevels.addChild hp hn).acyclic hm

end Grow

/-- What is not within a node has all that is above it. -/
theorem upClosed_compl_within (f : Forest ι) (n : ι) : f.UpClosed {m | ¬ f.Within n m} :=
  fun _ hm _ hp hwithin => hm (hwithin.trans (.inr (.parent hp)))

theorem Levels.restrict {depth : ι → Nat} (h : f.Levels depth) {keep : Set ι}
    (hclosed : f.UpClosed keep) : (f.restrict keep).Levels depth where
  root := by
    rintro m ⟨hm, hkeep⟩ hp
    exact h.root m hm ((parent_restrict hclosed hm hkeep).symm.trans hp)
  child := by
    rintro m ⟨hm, hkeep⟩ p hp
    have hp := (parent_restrict hclosed hm hkeep).symm.trans hp
    obtain ⟨hmem, hstep⟩ := h.child m hm p hp
    exact ⟨⟨hmem, hclosed m hkeep p hp⟩, hstep⟩

/-! ## Traversals -/

/-- Goes down from a node, so many levels at most, and puts together what it finds below. -/
def collect (visit : ι → List ι → List ι) (children : ι → List ι) : Nat → ι → Option (List ι)
  | 0, _ => none
  | fuel + 1, n =>
    ((children n).mapM (collect visit children fuel)).map fun below => visit n below.flatten

/-- A way to put a node together with what is below it, and an order in which this lists them. -/
structure Visits (f : Forest ι) (visit : ι → List ι → List ι) (R : ι → ι → Prop) : Prop where
  perm : ∀ n below, (visit n below).Perm (n :: below)
  pairwise : ∀ n below, (∀ m ∈ below, f.Ancestor n m ∧ ¬ f.Ancestor m n) → below.Pairwise R →
    (visit n below).Pairwise R
  apart : ∀ a b, ¬ f.Ancestor a b → ¬ f.Ancestor b a → R a b

/-- The node first, then what is below it. -/
theorem visits_cons (f : Forest ι) :
    f.Visits (fun n below => n :: below) fun a b => ¬ f.Ancestor b a where
  perm _ _ := .refl _
  pairwise _ _ hbelow h := List.pairwise_cons.mpr ⟨fun m hm => (hbelow m hm).2, h⟩
  apart _ _ _ h := h

/-- What is below the node first. -/
theorem visits_concat (f : Forest ι) :
    f.Visits (fun n below => below ++ [n]) fun a b => ¬ f.Ancestor a b where
  perm _ _ := List.perm_append_singleton _ _
  pairwise n below hbelow h := by
    refine List.pairwise_append.mpr ⟨h, List.pairwise_singleton _ _, fun m hm b hb => ?_⟩
    rw [List.mem_singleton.mp hb]
    exact (hbelow m hm).2
  apart _ _ h _ := h

section Collect

variable {depth : ι → Nat} {visit : ι → List ι → List ι} {R : ι → ι → Prop} {D fuel : Nat}

/-- What a traversal of a node lists. -/
def Lists (f : Forest ι) (R : ι → ι → Prop) (part : Set ι) (l : List ι) : Prop :=
  l.Nodup ∧ l.Pairwise R ∧ ∀ m, m ∈ l ↔ m ∈ f.nodes ∧ m ∈ part

variable (hlevels : f.Levels depth) (hvisit : f.Visits visit R)

include hlevels hvisit

/-- Traversals of nodes of one level list different nodes. -/
theorem exists_mapM_collect {d : Nat} (hcollect : ∀ c ∈ f.nodes, depth c = d →
      ∃ l, collect visit f.children fuel c = some l ∧ f.Lists R {m | f.Within c m} l) :
    ∀ {cs : List ι}, cs.Nodup → (∀ c ∈ cs, c ∈ f.nodes ∧ depth c = d) →
      ∃ ls, cs.mapM (collect visit f.children fuel) = some ls ∧
        f.Lists R {m | ∃ c ∈ cs, f.Within c m} ls.flatten
  | [], _, _ => ⟨[], rfl, List.nodup_nil, .nil, fun m => by simp⟩
  | c :: cs, hnodup, hcs => by
    obtain ⟨hc, hnodup⟩ := List.nodup_cons.mp hnodup
    obtain ⟨⟨hcmem, hcdepth⟩, hcs⟩ := List.forall_mem_cons.mp hcs
    obtain ⟨l, hl, hlnodup, hlpairwise, hlmem⟩ := hcollect c hcmem hcdepth
    obtain ⟨ls, hls, hlsnodup, hlspairwise, hlsmem⟩ := exists_mapM_collect hcollect hnodup hcs
    -- what is within two of the nodes would make them the same
    have hapart : ∀ x ∈ l, ∀ y ∈ ls.flatten, ∀ z ∈ f.nodes, ¬ (f.Within x z ∧ f.Within y z) := by
      rintro x hx y hy z hz ⟨hxz, hyz⟩
      obtain ⟨-, hcx⟩ := (hlmem x).mp hx
      obtain ⟨-, c', hc', hcy⟩ := (hlsmem y).mp hy
      obtain rfl : c = c' := hlevels.within_unique (Within.trans hcx hxz) (Within.trans hcy hyz) hz
        (by rw [hcdepth, (hcs c' hc').2])
      exact hc hc'
    refine ⟨l :: ls, ?_, ?_, ?_, fun m => ?_⟩
    · rw [List.mapM_cons, hl, hls]
      rfl
    · rw [List.flatten_cons, List.nodup_append]
      refine ⟨hlnodup, hlsnodup, fun x hx y hy hxy => ?_⟩
      subst hxy
      exact hapart x hx x hy x ((hlmem x).mp hx).1 ⟨within_self, within_self⟩
    · rw [List.flatten_cons, List.pairwise_append]
      refine ⟨hlpairwise, hlspairwise, fun x hx y hy => hvisit.apart x y (fun h => ?_) fun h => ?_⟩
      · exact hapart x hx y hy y ((hlsmem y).mp hy).1 ⟨.inr h, within_self⟩
      · exact hapart x hx y hy x ((hlmem x).mp hx).1 ⟨within_self, .inr h⟩
    · rw [List.flatten_cons, List.mem_append, hlmem, hlsmem, ← and_or_left]
      simp only [Set.mem_ofPred_eq, List.exists_mem_cons_iff]

/-- **A traversal lists a node and what is below it, each once.** -/
theorem exists_collect (hwf : f.WellFormed) : ∀ (fuel : Nat) {n : ι}, n ∈ f.nodes →
    (∀ m ∈ f.nodes, depth m ≤ D) → D < depth n + fuel →
      ∃ l, collect visit f.children fuel n = some l ∧ f.Lists R {m | f.Within n m} l
  | 0, n, hn, hdepth, hfuel => absurd (hdepth n hn) (by omega)
  | fuel + 1, n, hn, hdepth, hfuel => by
    have hchild : ∀ c ∈ f.children n, c ∈ f.nodes ∧ depth c = depth n + 1 := by
      intro c hc
      obtain ⟨hmem, hparent⟩ := (hwf.mem_children n hn c).mp hc
      exact ⟨hmem, (hlevels.child c hmem n hparent).2⟩
    obtain ⟨ls, hls, hnodup, hpairwise, hmem⟩ := exists_mapM_collect hlevels hvisit
      (fun c hc hdc => exists_collect hwf fuel hc hdepth (by omega)) (hwf.nodup_children n hn) hchild
    have hbelow : ∀ m, m ∈ ls.flatten ↔ m ∈ f.nodes ∧ f.Ancestor n m := by
      intro m
      rw [hmem, ancestor_iff_child]
      refine and_congr_right fun hm => ⟨?_, ?_⟩
      · rintro ⟨c, hc, hwithin⟩
        exact ⟨c, ((hwf.mem_children n hn c).mp hc).2, hwithin⟩
      · rintro ⟨c, hc, hwithin⟩
        exact ⟨c, (hwf.mem_children n hn c).mpr ⟨(hlevels.within hwithin hm).1, hc⟩, hwithin⟩
    refine ⟨visit n ls.flatten, by rw [collect, hls]; rfl, ?_, ?_, fun m => ?_⟩
    · rw [(hvisit.perm _ _).nodup_iff, List.nodup_cons]
      exact ⟨fun h => hlevels.acyclic hn ((hbelow n).mp h).2, hnodup⟩
    · refine hvisit.pairwise n _ (fun m hm => ?_) hpairwise
      obtain ⟨hmem, habove⟩ := (hbelow m).mp hm
      exact ⟨habove, fun h => hlevels.acyclic hmem (h.trans habove)⟩
    · rw [(hvisit.perm _ _).mem_iff, List.mem_cons, hbelow]
      constructor
      · rintro (rfl | ⟨hm, h⟩)
        · exact ⟨hn, within_self⟩
        · exact ⟨hm, .inr h⟩
      · rintro ⟨hm, rfl | h⟩
        · exact .inl rfl
        · exact .inr ⟨hm, h⟩

/-- **A traversal from all roots lists all nodes, each once.** -/
theorem exists_collect_roots (hwf : f.WellFormed) (hdepth : ∀ m ∈ f.nodes, depth m < fuel) :
    ∃ ls, f.roots.mapM (collect visit f.children fuel) = some ls ∧
      f.Lists R Set.univ ls.flatten := by
  have hle : ∀ m ∈ f.nodes, depth m ≤ fuel - 1 := fun m hm => Nat.le_sub_one_of_lt (hdepth m hm)
  have hcollect : ∀ c ∈ f.nodes, depth c = 0 →
      ∃ l, collect visit f.children fuel c = some l ∧ f.Lists R {m | f.Within c m} l := by
    intro c hc _
    have hlt := hdepth c hc
    exact exists_collect hlevels hvisit hwf fuel hc hle (by omega)
  have hroots : ∀ c ∈ f.roots, c ∈ f.nodes ∧ depth c = 0 := by
    intro c hc
    obtain ⟨hmem, hnone⟩ := (hwf.mem_roots c).mp hc
    exact ⟨hmem, hlevels.root c hmem hnone⟩
  obtain ⟨ls, hls, hnodup, hpairwise, hmem⟩ :=
    exists_mapM_collect hlevels hvisit hcollect hwf.nodup_roots hroots
  refine ⟨ls, hls, hnodup, hpairwise, fun m => ?_⟩
  rw [hmem]
  refine and_congr_right fun hm => ⟨fun _ => Set.mem_univ m, fun _ => ?_⟩
  obtain ⟨r, hr, hnone, hwithin⟩ := hlevels.exists_root hm
  exact ⟨r, (hwf.mem_roots r).mpr ⟨hr, hnone⟩, hwithin⟩

end Collect

/-! ## Nodes that cover others -/

/-- The node is kept unless it is within one that is. -/
def keepUncovered (within : ι → ι → Option Bool) (kept : List ι) (n : ι) : Option (List ι) :=
  (kept.anyM (within n)).map fun covered => if covered then kept else kept ++ [n]

theorem exists_anyM {α : Type*} {p : α → Option Bool} {P : α → Prop} : ∀ {l : List α},
    (∀ a ∈ l, ∃ b, p a = some b ∧ (b = true ↔ P a)) →
      ∃ b, l.anyM p = some b ∧ (b = true ↔ ∃ a ∈ l, P a)
  | [], _ => ⟨false, rfl, by simp⟩
  | first :: l, h => by
    obtain ⟨b, hb, hiff⟩ := h first List.mem_cons_self
    obtain ⟨b', hb', hiff'⟩ := exists_anyM fun a ha => h a (List.mem_cons_of_mem first ha)
    cases b with
    | true => exact ⟨true, by simp [List.anyM, hb], by simp [← hiff]⟩
    | false => exact ⟨b', by simp [List.anyM, hb, hb'], by simp [hiff', ← hiff]⟩

/-- **What is kept covers all, and nothing that is kept is within what was kept before.** -/
theorem exists_foldlM_keepUncovered {within : ι → ι → Option Bool} {R : ι → ι → Prop}
    (hrefl : ∀ n, R n n) : ∀ {items kept : List ι},
    (∀ n ∈ items, ∀ r, ∃ b, within n r = some b ∧ (b = true ↔ R r n)) →
      kept.Pairwise (fun a b => ¬ R a b) →
        ∃ kept', items.foldlM (keepUncovered within) kept = some kept' ∧
          kept <+: kept' ∧ kept'.Sublist (kept ++ items) ∧
          kept'.Pairwise (fun a b => ¬ R a b) ∧ ∀ n ∈ items, ∃ r ∈ kept', R r n
  | [], kept, _, hkept => ⟨kept, rfl, List.prefix_rfl, by simp, hkept, by simp⟩
  | first :: items, kept, hwithin, hkept => by
    obtain ⟨covered, hcovered, hiff⟩ :=
      exists_anyM fun r (_ : r ∈ kept) => hwithin first List.mem_cons_self r
    have hrest := fun n hn => hwithin n (List.mem_cons_of_mem first hn)
    cases covered with
    | true =>
      obtain ⟨kept', hfold, hstart, hsub, hpair, hcover⟩ :=
        exists_foldlM_keepUncovered hrefl hrest hkept
      refine ⟨kept', ?_, hstart, hsub.trans (by simp), hpair, ?_⟩
      · rw [List.foldlM_cons, keepUncovered, hcovered]
        exact hfold
      · obtain ⟨r, hr, hfirst⟩ := hiff.mp rfl
        exact List.forall_mem_cons.mpr ⟨⟨r, hstart.subset hr, hfirst⟩, hcover⟩
    | false =>
      have hnew : (kept ++ [first]).Pairwise fun a b => ¬ R a b := by
        refine List.pairwise_append.mpr ⟨hkept, List.pairwise_singleton _ _, ?_⟩
        intro r hr m hm hrm
        obtain rfl := List.mem_singleton.mp hm
        exact Bool.false_ne_true (hiff.mpr ⟨r, hr, hrm⟩)
      obtain ⟨kept', hfold, hstart, hsub, hpair, hcover⟩ :=
        exists_foldlM_keepUncovered hrefl hrest hnew
      refine ⟨kept', ?_, (List.prefix_append kept [first]).trans hstart, by simpa using hsub, hpair,
        ?_⟩
      · rw [List.foldlM_cons, keepUncovered, hcovered]
        exact hfold
      · refine List.forall_mem_cons.mpr ⟨⟨first, hstart.subset (by simp), hrefl first⟩, hcover⟩

end OxideTerm.Lib.Forest
