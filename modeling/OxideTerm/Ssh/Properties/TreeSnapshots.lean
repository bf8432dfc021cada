import OxideTerm.Ssh.Properties.SessionTree

/-!
# Snapshots of the session tree

A snapshot is accepted when its identifiers differ, its parents are there and its ways up end early
enough. What is restored from it is a forest then, and a tree that is exported is restored as it was.
-/

namespace OxideTerm.Ssh

open OxideTerm.Lib OxideTerm.Lib.Forest

/-! ## Orders of identifiers -/

theorem mem_unseen {id : NodeId} : ∀ (ids seen : List NodeId),
    id ∈ unseen seen ids ↔ id ∈ ids ∧ id ∉ seen
  | [], seen => by simp [unseen]
  | first :: ids, seen => by
    rw [unseen]
    split
    next h =>
      rw [List.contains_iff_mem] at h
      rw [mem_unseen ids, List.mem_cons]
      constructor
      · rintro ⟨hid, hseen⟩
        exact ⟨.inr hid, hseen⟩
      · rintro ⟨rfl | hid, hseen⟩
        · exact absurd h hseen
        · exact ⟨hid, hseen⟩
    next h =>
      rw [List.contains_iff_mem] at h
      rw [List.mem_cons, mem_unseen ids, List.mem_cons, List.mem_cons]
      by_cases hid : id = first
      · simp [hid, h]
      · simp [hid]

theorem nodup_unseen : ∀ (ids seen : List NodeId), (unseen seen ids).Nodup
  | [], _ => List.nodup_nil
  | first :: ids, seen => by
    rw [unseen]
    split
    · exact nodup_unseen ids seen
    · refine List.nodup_cons.mpr ⟨fun h => ?_, nodup_unseen ids _⟩
      exact ((mem_unseen ids _).mp h).2 List.mem_cons_self

theorem unseen_eq_self : ∀ {ids seen : List NodeId}, ids.Nodup → (∀ id ∈ ids, id ∉ seen) →
    unseen seen ids = ids
  | [], _, _, _ => rfl
  | first :: ids, seen, hnodup, hseen => by
    obtain ⟨hfirst, hnodup⟩ := List.nodup_cons.mp hnodup
    obtain ⟨hnot, hseen⟩ := List.forall_mem_cons.mp hseen
    rw [unseen, if_neg (by simpa using hnot), unseen_eq_self hnodup fun id hid => ?_]
    rw [List.mem_cons, not_or]
    exact ⟨fun he => hfirst (he ▸ hid), hseen id hid⟩

/-- **The order has each of the derived identifiers once.** -/
theorem mem_orderedSnapshotIds {preferred derived : List NodeId} {id : NodeId} :
    id ∈ orderedSnapshotIds preferred derived ↔ id ∈ derived := by
  rw [orderedSnapshotIds, List.mem_append, mem_unseen (derived)]
  by_cases h : id ∈ preferred <;> simp [mem_unseen, h]

theorem nodup_orderedSnapshotIds (preferred derived : List NodeId) :
    (orderedSnapshotIds preferred derived).Nodup := by
  refine (nodup_unseen _ _).append (nodup_unseen _ _) fun id hid hid' => ?_
  exact ((mem_unseen _ _).mp hid').2 hid

/-- The preferred order is taken where it has all identifiers. -/
theorem orderedSnapshotIds_eq_filter {preferred derived : List NodeId} (hnodup : preferred.Nodup)
    (h : ∀ id ∈ derived, id ∈ preferred) :
    orderedSnapshotIds preferred derived = preferred.filter derived.contains := by
  have hrest : unseen (preferred.filter derived.contains) derived = [] := by
    rw [List.eq_nil_iff_forall_not_mem]
    intro id hid
    obtain ⟨hderived, hnot⟩ := (mem_unseen _ _).mp hid
    exact hnot (List.mem_filter.mpr ⟨h id hderived, List.contains_iff_mem.mpr hderived⟩)
  rw [orderedSnapshotIds, unseen_eq_self (hnodup.filter _) fun _ _ => List.not_mem_nil, hrest,
    List.append_nil]

/-- What is preferred is taken as far as it is derived. -/
theorem orderedSnapshotIds_eq {preferred derived ids : List NodeId} {p : NodeId → Bool}
    (hnodup : preferred.Nodup) (hids : ids = preferred.filter p)
    (h : ∀ id, id ∈ ids ↔ id ∈ derived) : orderedSnapshotIds preferred derived = ids := by
  have hmem : ∀ id, id ∈ derived ↔ id ∈ preferred ∧ p id = true := by
    intro id
    rw [← h, hids, List.mem_filter]
  rw [orderedSnapshotIds_eq_filter hnodup fun id hid => ((hmem id).mp hid).1, hids]
  refine List.filter_congr fun id hid => ?_
  rw [Bool.eq_iff_iff, List.contains_iff_mem, hmem]
  exact and_iff_right hid

/-! ## What is accepted -/

namespace NodeTreeSnapshot

variable {snapshot : NodeTreeSnapshot} {n p : NodeId}

/-- The identifiers differ, parents are there, and the ways up end within the depth limit. -/
structure Valid (snapshot : NodeTreeSnapshot) : Prop where
  nodup : snapshot.ids.Nodup
  parent_mem : ∀ node ∈ snapshot.nodes, ∀ p, node.route.parentId = some p → p ∈ snapshot.ids
  ends : ∀ n ∈ snapshot.ids, ∃ d ≤ maxSessionTreeDepth.toNat, EndsIn snapshot.parentById d n

theorem parentById_of_mem (hnodup : snapshot.ids.Nodup) {node : NodeTreeSnapshotNode}
    (hnode : node ∈ snapshot.nodes) : snapshot.parentById node.id = node.route.parentId := by
  have hfind : (snapshot.nodes.find? fun other => other.id = node.id) = some node :=
    find?_name hnodup hnode
  rw [parentById, hfind]
  rfl

theorem exists_of_parentById (h : snapshot.parentById n = some p) :
    ∃ node ∈ snapshot.nodes, node.id = n ∧ node.route.parentId = some p := by
  obtain ⟨node, hfind, hparent⟩ := Option.bind_eq_some_iff.mp h
  exact ⟨node, List.mem_of_find?_eq_some hfind, by simpa using List.find?_some hfind, hparent⟩

theorem parentById_mem (hmem : ∀ node ∈ snapshot.nodes, ∀ p, node.route.parentId = some p →
    p ∈ snapshot.ids) (h : snapshot.parentById n = some p) : p ∈ snapshot.ids := by
  obtain ⟨node, hnode, -, hparent⟩ := exists_of_parentById h
  exact hmem node hnode p hparent

/-- A way up that ends meets no node twice. -/
theorem repeated_of_endsIn : ∀ (fuel : Nat) {path : List NodeId} {n : NodeId} {d : Nat},
    EndsIn snapshot.parentById d n → (∀ m ∈ path, ∃ d' > d, EndsIn snapshot.parentById d' m) →
      snapshot.repeated fuel path n = none
  | 0, _, _, _, _, _ => rfl
  | fuel + 1, path, n, d, h, hpath => by
    have hnot : ¬ path.contains n = true := by
      rw [List.contains_iff_mem]
      intro hn
      obtain ⟨d', hlt, h'⟩ := hpath n hn
      exact Nat.ne_of_lt hlt (h.unique h')
    rw [repeated, if_neg hnot]
    cases d with
    | zero =>
      rw [show snapshot.parentById n = none from h]
      rfl
    | succ d =>
      obtain ⟨p, hp, hends⟩ := h
      rw [hp, Option.bind_some]
      refine repeated_of_endsIn fuel hends fun m hm => ?_
      rcases List.mem_cons.mp hm with rfl | hm
      · exact ⟨d + 1, Nat.lt_succ_self d, p, hp, hends⟩
      · obtain ⟨d', hlt, h'⟩ := hpath m hm
        exact ⟨d', Nat.lt_of_succ_lt hlt, h'⟩

/-- **A way up that meets no node twice ends**, as there are only so many nodes. -/
theorem exists_endsIn (hmem : ∀ node ∈ snapshot.nodes, ∀ p, node.route.parentId = some p →
    p ∈ snapshot.ids) : ∀ (fuel : Nat) {path : List NodeId} {n : NodeId}, path.Nodup →
      (∀ m ∈ path, m ∈ snapshot.ids) → n ∈ snapshot.ids →
      fuel + path.length = snapshot.ids.length + 1 → snapshot.repeated fuel path n = none →
        ∃ d < fuel, EndsIn snapshot.parentById d n
  | 0, path, n, hnodup, hpath, _, hlength, _ => by
    have hle := (List.subperm_of_subset hnodup hpath).length_le
    omega
  | fuel + 1, path, n, hnodup, hpath, hn, hlength, hrepeated => by
    rw [repeated] at hrepeated
    split at hrepeated
    · cases hrepeated
    · next hnot =>
      rw [List.contains_iff_mem] at hnot
      cases hp : snapshot.parentById n with
      | none => exact ⟨0, Nat.succ_pos fuel, hp⟩
      | some p =>
        rw [hp, Option.bind_some] at hrepeated
        have hpath' : ∀ m ∈ n :: path, m ∈ snapshot.ids :=
          List.forall_mem_cons.mpr ⟨hn, hpath⟩
        obtain ⟨d, hd, hends⟩ := exists_endsIn hmem fuel (List.nodup_cons.mpr ⟨hnot, hnodup⟩) hpath'
          (parentById_mem hmem hp) (by rw [List.length_cons]; omega) hrepeated
        exact ⟨d + 1, Nat.succ_lt_succ hd, p, hp, hends⟩

theorem nodeDepth_eq : ∀ (fuel : Nat) {n : NodeId} {d : Nat}, EndsIn snapshot.parentById d n →
    snapshot.nodeDepth fuel n = min fuel d
  | 0, _, _, _ => by simp [nodeDepth]
  | fuel + 1, n, 0, h => by
    rw [nodeDepth, show snapshot.parentById n = none from h]
    simp
  | fuel + 1, n, d + 1, ⟨p, hp, h⟩ => by
    rw [nodeDepth, hp, Option.elim_some, nodeDepth_eq fuel h, Nat.succ_min_succ]

/-- **What is checked is what makes a forest.** -/
theorem validate_eq_ok_iff : snapshot.validate = .ok () ↔ snapshot.Valid := by
  constructor
  · intro h
    rw [validate] at h
    split at h
    · cases h
    next hnodup =>
    split at h
    · cases h
    next hparents =>
    split at h
    · cases h
    next hgraph =>
    split at h
    · cases h
    next hdepth =>
    have hmem : ∀ node ∈ snapshot.nodes, ∀ p, node.route.parentId = some p → p ∈ snapshot.ids := by
      intro node hnode p hp
      have hnone := List.findSome?_eq_none_iff.mp hparents node hnode
      rw [hp] at hnone
      by_contra hnot
      rw [Option.filter_some, if_pos (by simpa using hnot)] at hnone
      cases hnone
    have hrepeated : ∀ n ∈ snapshot.ids,
        snapshot.repeated (snapshot.ids.length + 1) [] n = none := by
      intro n hn
      rw [validateParentGraph] at hgraph
      split at hgraph
      · cases hgraph
      · next hnone => exact List.findSome?_eq_none_iff.mp hnone n hn
    refine ⟨not_not.mp hnodup, hmem, fun n hn => ?_⟩
    obtain ⟨d, hd, hends⟩ := exists_endsIn hmem (snapshot.ids.length + 1) List.nodup_nil
      (fun _ hm => (by cases hm)) hn rfl (hrepeated n hn)
    refine ⟨d, ?_, hends⟩
    have hle : snapshot.snapshotNodeDepth n ≤ maxSessionTreeDepth := by
      rw [Bool.not_eq_true, List.any_eq_false] at hdepth
      simpa using hdepth n hn
    rw [snapshotNodeDepth, nodeDepth_eq _ hends, UInt32.le_iff_toNat_le, UInt32.toNat_ofNat'] at hle
    have hsmall : maxSessionTreeDepth.toNat = 10 := rfl
    rw [hsmall] at hle ⊢
    omega
  · intro h
    have hparents : (snapshot.nodes.findSome? fun node =>
        node.route.parentId.filter fun parentId => !snapshot.ids.contains parentId) = none := by
      rw [List.findSome?_eq_none_iff]
      intro node hnode
      cases hp : node.route.parentId with
      | none => rfl
      | some p => simp [Option.filter_some, h.parent_mem node hnode p hp]
    have hgraph : snapshot.validateParentGraph = .ok () := by
      have hnone : snapshot.ids.findSome? (snapshot.repeated (snapshot.ids.length + 1) []) = none := by
        rw [List.findSome?_eq_none_iff]
        intro n hn
        obtain ⟨d, -, hends⟩ := h.ends n hn
        exact repeated_of_endsIn _ hends fun _ hm => (by cases hm)
      rw [validateParentGraph, hnone]
    have hdepth : ¬ (snapshot.ids.any fun nodeId =>
        decide (maxSessionTreeDepth < snapshot.snapshotNodeDepth nodeId)) = true := by
      rw [Bool.not_eq_true, List.any_eq_false]
      intro n hn
      obtain ⟨d, hd, hends⟩ := h.ends n hn
      rw [decide_eq_true_eq, snapshotNodeDepth, nodeDepth_eq _ hends, UInt32.not_lt,
        UInt32.le_iff_toNat_le, UInt32.toNat_ofNat']
      have hsmall : maxSessionTreeDepth.toNat = 10 := rfl
      rw [hsmall] at hd ⊢
      omega
    rw [validate, if_neg (not_not.mpr h.nodup), hparents]
    simp only [hgraph, if_neg hdepth]

end NodeTreeSnapshot

namespace RuntimeStore

variable {store store' : RuntimeStore} {snapshot : NodeTreeSnapshot} {visited : List NodeId}
  {n : NodeId}

/-! ## Reconciliation -/

theorem foldl_append_of_contains {α : Type*} [BEq α] [LawfulBEq α] {roots : List α} :
    ∀ (ids : List α), (∀ id ∈ ids, id ∈ roots) →
      ids.foldl (fun roots id => if roots.contains id then roots else roots ++ [id]) roots = roots
  | [], _ => rfl
  | id :: ids, h => by
    obtain ⟨hid, hids⟩ := List.forall_mem_cons.mp h
    rw [List.foldl_cons, if_pos (List.contains_iff_mem.mpr hid), foldl_append_of_contains ids hids]

/-- Where all links lead to nodes and the roots are right, only the index is made again. -/
theorem reconcileTopology_eq
    (hlinks : ∀ n route, store.nodes.get n = some route →
      (∀ c ∈ route.childrenIds, (store.nodes.get c).isSome = true) ∧
      ∀ p, route.parentId = some p → (store.nodes.get p).isSome = true)
    (hroots : ∀ n, n ∈ store.rootIds ↔
      ∃ route, store.nodes.get n = some route ∧ route.parentId = none)
    (hvisited : ∀ n, n ∈ visited ↔ (store.nodes.get n).isSome = true) :
    store.reconcileTopology visited = store.rebuildConnectionIndex visited := by
  have hentry : ∀ n route, store.nodes.get n = some route → store.reconciled route = route := by
    intro n route hroute
    obtain ⟨hchildren, hparent⟩ := hlinks n route hroute
    have hfilter : route.childrenIds.filter (fun id => (store.nodes.get id).isSome) =
        route.childrenIds := List.filter_eq_self.mpr hchildren
    have hkeep : (route.parentId.filter fun parentId =>
        (store.nodes.get parentId).isNone).isSome = false := by
      cases hp : route.parentId with
      | none => rfl
      | some p => simp [Option.filter_some, Option.isSome_iff_ne_none.mp (hparent p hp)]
    rw [reconciled, hkeep, hfilter]
    rfl
  have hnodes : store.nodes.mapValues store.reconciled = store.nodes := by
    refine FiniteMap.ext fun n => ?_
    rw [FiniteMap.get_mapValues]
    cases hroute : store.nodes.get n with
    | none => rfl
    | some route => rw [Option.map_some, hentry n route hroute]
  have hcomputed : ∀ n, n ∈ store.computedRoots visited ↔ n ∈ store.rootIds := by
    intro n
    rw [computedRoots, List.mem_mergeSort, List.mem_filter, hvisited, hroots]
    cases hroute : store.nodes.get n with
    | none => simp
    | some route => simp
  have hfilter : (store.rootIds.filter fun id =>
      (store.nodes.get id).isSome && (store.computedRoots visited).contains id) = store.rootIds := by
    rw [List.filter_eq_self]
    intro id hid
    obtain ⟨route, hroute, -⟩ := (hroots id).mp hid
    rw [hroute, List.contains_iff_mem.mpr ((hcomputed id).mpr hid)]
    rfl
  rw [reconcileTopology]
  simp only [hnodes]
  rw [hfilter, foldl_append_of_contains _ fun id hid => (hcomputed id).mp hid]

/-! ## What is restored -/

/-- The entry that a snapshot has for an identifier. -/
def entryFor (snapshot : NodeTreeSnapshot) (n : NodeId) : Option RuntimeNode :=
  (snapshot.nodes.find? fun node => node.id = n).map snapshot.restored

theorem get_ofSnapshot (hnodup : snapshot.ids.Nodup) (n : NodeId) :
    (FiniteMap.ofList (snapshot.nodes.map fun node => (node.id, snapshot.restored node))).get n =
      entryFor snapshot n := by
  have hkeys : (snapshot.nodes.map fun node => (node.id, snapshot.restored node)).map Prod.fst =
      snapshot.ids := by
    rw [List.map_map]
    rfl
  rw [entryFor]
  cases hfind : snapshot.nodes.find? fun node => node.id = n with
  | none =>
    refine FiniteMap.get_ofList_of_notMem ?_
    rw [hkeys, NodeTreeSnapshot.ids, List.mem_map]
    rintro ⟨node, hnode, rfl⟩
    simpa using List.find?_eq_none.mp hfind node hnode
  | some node =>
    have hid : node.id = n := by simpa using List.find?_some hfind
    refine FiniteMap.get_ofList_of_mem (hkeys ▸ hnodup) ?_
    rw [← hid]
    exact List.mem_map_of_mem (List.mem_of_find?_eq_some hfind)

theorem entryFor_eq_some {route : RuntimeNode} (h : entryFor snapshot n = some route) :
    ∃ node ∈ snapshot.nodes, node.id = n ∧ route = snapshot.restored node := by
  obtain ⟨node, hfind, rfl⟩ := Option.map_eq_some_iff.mp h
  exact ⟨node, List.mem_of_find?_eq_some hfind, by simpa using List.find?_some hfind, rfl⟩

theorem isSome_entryFor : (entryFor snapshot n).isSome = true ↔ n ∈ snapshot.ids := by
  rw [entryFor, Option.isSome_map, List.find?_isSome, NodeTreeSnapshot.ids, List.mem_map]
  simp

theorem mem_derivedChildren (hnodup : snapshot.ids.Nodup) {p : NodeId} :
    n ∈ snapshot.derivedChildren p ↔ n ∈ snapshot.ids ∧ snapshot.parentById n = some p := by
  rw [NodeTreeSnapshot.derivedChildren, List.mem_map]
  constructor
  · rintro ⟨node, hnode, rfl⟩
    obtain ⟨hnode, hparent⟩ := List.mem_filter.mp hnode
    rw [NodeTreeSnapshot.parentById_of_mem hnodup hnode]
    exact ⟨List.mem_map_of_mem hnode, by simpa using hparent⟩
  · rintro ⟨-, hparent⟩
    obtain ⟨node, hnode, hid, hparent⟩ := NodeTreeSnapshot.exists_of_parentById hparent
    exact ⟨node, List.mem_filter.mpr ⟨hnode, by simpa using hparent⟩, hid⟩

theorem mem_rootIdsFromNodes (hnodup : snapshot.ids.Nodup) :
    n ∈ rootIdsFromNodes snapshot.nodes ↔ n ∈ snapshot.ids ∧ snapshot.parentById n = none := by
  rw [rootIdsFromNodes, List.mem_map]
  constructor
  · rintro ⟨node, hnode, rfl⟩
    obtain ⟨hnode, hparent⟩ := List.mem_filter.mp hnode
    rw [NodeTreeSnapshot.parentById_of_mem hnodup hnode]
    exact ⟨List.mem_map_of_mem hnode, by simpa using hparent⟩
  · rintro ⟨hn, hparent⟩
    obtain ⟨node, hnode, rfl⟩ := List.mem_map.mp hn
    rw [NodeTreeSnapshot.parentById_of_mem hnodup hnode] at hparent
    exact ⟨node, List.mem_filter.mpr ⟨hnode, by simpa using hparent⟩, rfl⟩

theorem bind_parentId_entryFor (n : NodeId) :
    (entryFor snapshot n).bind (·.parentId) = snapshot.parentById n := by
  rw [entryFor, Option.bind_map]
  rfl

/-- **An accepted snapshot is restored entry by entry**, with the links that its parents say. -/
theorem applySnapshot_of_valid (h : snapshot.Valid) (hvisited : ∀ n, n ∈ visited ↔ n ∈ snapshot.ids) :
    ∃ store', applySnapshot snapshot visited = .ok store' ∧
      (∀ n, store'.nodes.get n = entryFor snapshot n) ∧
      store'.rootIds = orderedSnapshotIds snapshot.rootIds (rootIdsFromNodes snapshot.nodes) ∧
      store' = store'.rebuildConnectionIndex visited := by
  rw [applySnapshot, NodeTreeSnapshot.validate_eq_ok_iff.mpr h]
  dsimp only
  rw [reconcileTopology_eq]
  · exact ⟨_, rfl, get_ofSnapshot h.nodup, rfl, rfl⟩
  · intro n route hroute
    dsimp only at hroute ⊢
    rw [get_ofSnapshot h.nodup] at hroute
    obtain ⟨node, hnode, -, rfl⟩ := entryFor_eq_some hroute
    refine ⟨fun c hc => ?_, fun p hp => ?_⟩
    · rw [get_ofSnapshot h.nodup, isSome_entryFor]
      exact ((mem_derivedChildren h.nodup).mp (mem_orderedSnapshotIds.mp hc)).1
    · rw [get_ofSnapshot h.nodup, isSome_entryFor]
      exact h.parent_mem node hnode p hp
  · intro n
    dsimp only
    rw [mem_orderedSnapshotIds, mem_rootIdsFromNodes h.nodup, get_ofSnapshot h.nodup,
      ← isSome_entryFor, ← bind_parentId_entryFor]
    cases hentry : entryFor snapshot n with
    | none => simp
    | some route => simp
  · intro n
    dsimp only
    rw [hvisited, get_ofSnapshot h.nodup, isSome_entryFor]

theorem applySnapshot_of_not_valid (h : ¬ snapshot.Valid) :
    ∃ error, applySnapshot snapshot visited = .error error := by
  rw [applySnapshot]
  cases hvalidate : snapshot.validate with
  | error error => exact ⟨error, rfl⟩
  | ok => exact absurd (NodeTreeSnapshot.validate_eq_ok_iff.mp hvalidate) h

theorem depth_restored (h : snapshot.Valid) {d : Nat} (hn : n ∈ snapshot.ids)
    (hends : EndsIn snapshot.parentById d n) : (snapshot.snapshotNodeDepth n).toNat = d := by
  obtain ⟨d', hd', hends'⟩ := h.ends n hn
  obtain rfl := hends.unique hends'
  obtain ⟨d', hlt, hends'⟩ := NodeTreeSnapshot.exists_endsIn h.parent_mem (snapshot.ids.length + 1)
    List.nodup_nil (fun _ hm => (by cases hm)) hn rfl
    (NodeTreeSnapshot.repeated_of_endsIn _ hends fun _ hm => (by cases hm))
  obtain rfl := hends.unique hends'
  have hsmall : maxSessionTreeDepth.toNat = 10 := rfl
  have hmin : min snapshot.ids.length d = d := Nat.min_eq_right (Nat.le_of_lt_succ hlt)
  rw [NodeTreeSnapshot.snapshotNodeDepth, NodeTreeSnapshot.nodeDepth_eq _ hends, hmin,
    UInt32.toNat_ofNat', Nat.min_eq_left (by omega), Nat.mod_eq_of_lt (by omega)]

/-- **What is restored is a forest.** -/
theorem isForest_of_entries (h : snapshot.Valid) (hentries : ∀ n, store.nodes.get n = entryFor snapshot n)
    (hroots : store.rootIds = orderedSnapshotIds snapshot.rootIds (rootIdsFromNodes snapshot.nodes)) :
    store.IsForest := by
  have hparent : ∀ n, store.parentOf n = snapshot.parentById n := by
    intro n
    rw [parentOf, hentries, bind_parentId_entryFor]
  have hmem : ∀ n, n ∈ store.forest.nodes ↔ n ∈ snapshot.ids := by
    intro n
    rw [← isSome_entryFor, ← hentries]
    exact store.nodes.mem_keys n
  have hparent' : ∀ n p, store.parentOf n = some p → p ∈ snapshot.ids := by
    intro n p hp
    rw [hparent] at hp
    exact NodeTreeSnapshot.parentById_mem h.parent_mem hp
  have hrestored : ∀ n ∈ store.forest.nodes,
      ∃ node, node.id = n ∧ store.nodes.get n = some (snapshot.restored node) := by
    intro n hn
    obtain ⟨route, hroute⟩ := mem_forest.mp hn
    rw [hentries] at hroute ⊢
    obtain ⟨node, -, hid, rfl⟩ := entryFor_eq_some hroute
    exact ⟨node, hid, hroute⟩
  have hdepth : ∀ n ∈ store.forest.nodes, EndsIn store.forest.parent (store.depthOf n) n ∧
      store.depthOf n ≤ maxSessionTreeDepth.toNat := by
    intro n hn
    obtain ⟨d, hd, hends⟩ := h.ends n ((hmem n).mp hn)
    obtain ⟨node, rfl, hroute⟩ := hrestored n hn
    have hdepth : store.depthOf node.id = d := by
      rw [depthOf_of_get hroute, ← depth_restored h ((hmem node.id).mp hn) hends]
      rfl
    rw [hdepth, show store.forest.parent = snapshot.parentById from funext hparent]
    exact ⟨hends, hd⟩
  have hlevels : store.forest.Levels store.depthOf :=
    levels_of_endsIn (fun n _ p hp => (hmem p).mpr (hparent' n p hp)) fun n hn => (hdepth n hn).1
  refine ⟨?_, hlevels, fun n => ?_⟩
  · refine
      { parent_mem := fun n _ p hp => (hmem p).mpr (hparent' n p hp)
        mem_children := fun p hp n => ?_
        nodup_children := fun p hp => ?_
        mem_roots := fun n => ?_
        nodup_roots := by
          show store.rootIds.Nodup
          rw [hroots]
          exact nodup_orderedSnapshotIds _ _
        acyclic := fun n hn => hlevels.acyclic hn }
    · obtain ⟨node, rfl, hroute⟩ := hrestored p hp
      show n ∈ store.childrenOf node.id ↔ n ∈ store.forest.nodes ∧ store.parentOf n = some node.id
      rw [childrenOf_of_get hroute, hmem, hparent, ← mem_derivedChildren h.nodup]
      exact mem_orderedSnapshotIds
    · obtain ⟨node, rfl, hroute⟩ := hrestored p hp
      show (store.childrenOf node.id).Nodup
      rw [childrenOf_of_get hroute]
      exact nodup_orderedSnapshotIds _ _
    · show n ∈ store.rootIds ↔ n ∈ store.forest.nodes ∧ store.parentOf n = none
      rw [hroots, mem_orderedSnapshotIds, mem_rootIdsFromNodes h.nodup, hmem, hparent]
  · by_cases hn : n ∈ store.forest.nodes
    · exact (hdepth n hn).2
    · rw [depthOf, FiniteMap.get_of_notMem hn]
      exact Nat.zero_le _

/-! ## Snapshots of forests -/

/-- A snapshot of a forest: its parents and roots are those of the forest, and of the children that
it notes it may have too many. -/
structure Describes (snapshot : NodeTreeSnapshot) (f : Forest NodeId) (depth : NodeId → Nat) :
    Prop where
  nodup : snapshot.ids.Nodup
  wellFormed : f.WellFormed
  levels : f.Levels depth
  bounded : ∀ n ∈ f.nodes, depth n ≤ maxSessionTreeDepth.toNat
  mem : ∀ n, n ∈ f.nodes ↔ n ∈ snapshot.ids
  parent : snapshot.parentById = f.parent
  children : ∀ node ∈ snapshot.nodes, node.route.childrenIds.Nodup ∧
    ∃ p : NodeId → Bool, f.children node.id = node.route.childrenIds.filter p
  outside : ∀ n, n ∉ f.nodes → f.children n = []
  roots : snapshot.rootIds = f.roots

namespace Describes

variable {f : Forest NodeId} {depth : NodeId → Nat} (h : Describes snapshot f depth)

include h

theorem valid : snapshot.Valid where
  nodup := h.nodup
  parent_mem node hnode p hp := by
    have hid : node.id ∈ f.nodes := (h.mem _).mpr (List.mem_map_of_mem hnode)
    rw [← NodeTreeSnapshot.parentById_of_mem h.nodup hnode, h.parent] at hp
    exact (h.mem p).mp (h.wellFormed.parent_mem node.id hid p hp)
  ends n hn := by
    have hid := (h.mem n).mpr hn
    refine ⟨depth n, h.bounded n hid, ?_⟩
    rw [h.parent]
    exact h.levels.endsIn hid

/-- The entries get the children and the depth that the forest has. -/
theorem restored {node : NodeTreeSnapshotNode} (hnode : node ∈ snapshot.nodes) :
    (snapshot.restored node).childrenIds = f.children node.id ∧
      (snapshot.restored node).depth.toNat = depth node.id := by
  have hid : node.id ∈ snapshot.ids := List.mem_map_of_mem hnode
  have hmem := (h.mem _).mpr hid
  obtain ⟨hnodup, p, hchildren⟩ := h.children node hnode
  constructor
  · refine orderedSnapshotIds_eq hnodup hchildren fun c => ?_
    rw [mem_derivedChildren h.nodup, h.wellFormed.mem_children node.id hmem, h.mem, h.parent]
  · refine depth_restored h.valid hid ?_
    rw [h.parent]
    exact h.levels.endsIn hmem

/-- **A snapshot of a forest is accepted, and the forest is restored.** -/
theorem applySnapshot (hvisited : ∀ n, n ∈ visited ↔ n ∈ snapshot.ids) :
    ∃ store', RuntimeStore.applySnapshot snapshot visited = .ok store' ∧ store'.IsForest ∧
      store'.forest = f ∧ (∀ n, store'.nodes.get n = entryFor snapshot n) ∧
      store' = store'.rebuildConnectionIndex visited := by
  obtain ⟨store', hok, hentries, hroots, hindex⟩ := applySnapshot_of_valid h.valid hvisited
  refine ⟨store', hok, isForest_of_entries h.valid hentries hroots, ?_, hentries, hindex⟩
  have hparent : store'.parentOf = f.parent := by
    funext n
    rw [parentOf, hentries, bind_parentId_entryFor, h.parent]
  have hnodes : {n | n ∈ store'.nodes.keys} = f.nodes := by
    ext n
    show n ∈ store'.nodes.keys ↔ n ∈ f.nodes
    rw [h.mem, ← isSome_entryFor, ← hentries]
    exact store'.nodes.mem_keys n
  have hchildren : store'.childrenOf = f.children := by
    funext n
    rw [childrenOf, hentries]
    cases hentry : entryFor snapshot n with
    | none =>
      have hnot : n ∉ f.nodes := by
        rw [h.mem, ← isSome_entryFor, hentry]
        exact Bool.false_ne_true
      rw [h.outside n hnot]
      rfl
    | some route =>
      obtain ⟨node, hnode, rfl, rfl⟩ := entryFor_eq_some hentry
      exact (h.restored hnode).1
  have hrootIds : store'.rootIds = f.roots := by
    rw [hroots]
    refine orderedSnapshotIds_eq (p := fun _ => true) (h.roots ▸ h.wellFormed.nodup_roots)
      (by rw [h.roots, List.filter_true]) fun n => ?_
    rw [mem_rootIdsFromNodes h.nodup, h.wellFormed.mem_roots, h.mem, h.parent]
  rw [RuntimeStore.forest, hparent, hchildren, hrootIds, hnodes]

end Describes

/-! ## Round trips -/

section Export

variable (hnodup : visited.Nodup) (hvisited : ∀ n, n ∈ visited ↔ n ∈ store.nodes.keys) (nowMs : UInt64)

include hvisited

theorem mem_exportSnapshot {node : NodeTreeSnapshotNode} :
    node ∈ (store.exportSnapshot visited nowMs).nodes ↔
      store.nodes.get node.id = some node.route := by
  rw [exportSnapshot, List.mem_mergeSort, List.mem_filterMap]
  constructor
  · rintro ⟨n, -, hn⟩
    obtain ⟨route, hroute, rfl⟩ := Option.map_eq_some_iff.mp hn
    exact hroute
  · intro h
    refine ⟨node.id, (hvisited _).mpr (FiniteMap.mem_keys_of_get h), ?_⟩
    rw [h]
    rfl

theorem perm_ids_exportSnapshot : (store.exportSnapshot visited nowMs).ids.Perm visited := by
  have hids : ∀ ids : List NodeId, (∀ n ∈ ids, n ∈ store.nodes.keys) →
      (ids.filterMap fun n => (store.nodes.get n).map
        fun route => (⟨n, route⟩ : NodeTreeSnapshotNode)).map (·.id) = ids := by
    intro ids hids
    induction ids with
    | nil => rfl
    | cons n ids ih =>
      obtain ⟨hn, hids⟩ := List.forall_mem_cons.mp hids
      obtain ⟨route, hroute⟩ := FiniteMap.exists_of_mem_keys hn
      rw [List.filterMap_cons, hroute]
      show n :: _ = _
      rw [ih hids]
  have hperm := (List.mergeSort_perm (visited.filterMap fun n => (store.nodes.get n).map
    fun route => (⟨n, route⟩ : NodeTreeSnapshotNode)) fun a b => decide (a.sortKey ≤ b.sortKey)).map
      (·.id)
  rw [hids visited fun n hn => (hvisited n).mp hn] at hperm
  exact hperm

include hnodup

theorem find?_exportSnapshot (n : NodeId) :
    ((store.exportSnapshot visited nowMs).nodes.find? fun node => node.id = n) =
      (store.nodes.get n).map fun route => ⟨n, route⟩ := by
  cases hroute : store.nodes.get n with
  | none =>
    refine List.find?_eq_none.mpr fun node hnode => ?_
    have hget := (mem_exportSnapshot hvisited nowMs).mp hnode
    simp only [decide_eq_true_eq]
    rintro rfl
    rw [hroute] at hget
    cases hget
  | some route =>
    have hids := (perm_ids_exportSnapshot hvisited nowMs).nodup_iff.mpr hnodup
    have hmem : (⟨n, route⟩ : NodeTreeSnapshotNode) ∈ (store.exportSnapshot visited nowMs).nodes :=
      (mem_exportSnapshot hvisited nowMs).mpr hroute
    exact find?_name hids hmem

/-- **What is exported is a snapshot of the tree.** -/
theorem describes_exportSnapshot (h : store.IsForest) :
    Describes (store.exportSnapshot visited nowMs) store.forest store.depthOf where
  nodup := (perm_ids_exportSnapshot hvisited nowMs).nodup_iff.mpr hnodup
  wellFormed := h.wellFormed
  levels := h.levels
  bounded n _ := h.bounded n
  mem n := by
    rw [(perm_ids_exportSnapshot hvisited nowMs).mem_iff, hvisited]
    rfl
  parent := by
    funext n
    rw [NodeTreeSnapshot.parentById, find?_exportSnapshot hnodup hvisited, Option.bind_map]
    rfl
  children node hnode := by
    have hget := (mem_exportSnapshot hvisited nowMs).mp hnode
    have hchildren : store.forest.children node.id = node.route.childrenIds := childrenOf_of_get hget
    rw [← hchildren]
    refine ⟨h.wellFormed.nodup_children node.id (mem_forest_of_get hget), fun _ => true, ?_⟩
    rw [List.filter_true]
  outside n hn := by
    show store.childrenOf n = []
    rw [childrenOf, FiniteMap.get_of_notMem hn]
    rfl
  roots := rfl

/-- The entries are restored as they were. -/
theorem entryFor_exportSnapshot (h : store.IsForest) (n : NodeId) :
    entryFor (store.exportSnapshot visited nowMs) n = store.nodes.get n := by
  rw [entryFor, find?_exportSnapshot hnodup hvisited, Option.map_map]
  cases hroute : store.nodes.get n with
  | none => rfl
  | some route =>
    have hnode : (⟨n, route⟩ : NodeTreeSnapshotNode) ∈ (store.exportSnapshot visited nowMs).nodes :=
      (mem_exportSnapshot hvisited nowMs).mpr hroute
    obtain ⟨hchildren, hdepth⟩ := (describes_exportSnapshot hnodup hvisited nowMs h).restored hnode
    have hchildren' : store.forest.children n = route.childrenIds := childrenOf_of_get hroute
    have hdepth' := depthOf_of_get hroute
    rw [NodeTreeSnapshot.restored] at hchildren hdepth
    dsimp only at hchildren hdepth
    show some (NodeTreeSnapshot.restored _ ⟨n, route⟩) = some route
    rw [NodeTreeSnapshot.restored]
    dsimp only
    rw [hchildren, hchildren', UInt32.toNat_inj.mp (hdepth.trans hdepth')]

/-- **A tree that is exported is restored as it was**; only the index is made again. -/
theorem applySnapshot_export (h : store.IsForest) {visited' : List NodeId}
    (hvisited' : ∀ n, n ∈ visited' ↔ n ∈ store.nodes.keys) :
    applySnapshot (store.exportSnapshot visited nowMs) visited' =
      .ok (store.rebuildConnectionIndex visited') := by
  have hdescribes := describes_exportSnapshot hnodup hvisited nowMs h
  obtain ⟨store', hok, -, hforest, hentries, hindex⟩ :=
    hdescribes.applySnapshot fun n => (hvisited' n).trans (hdescribes.mem n)
  have hnodes : store'.nodes = store.nodes := by
    refine FiniteMap.ext fun n => ?_
    rw [hentries, entryFor_exportSnapshot hnodup hvisited nowMs h]
  have hrootIds : store'.rootIds = store.rootIds := congrArg Forest.roots hforest
  rw [hok, hindex, rebuildConnectionIndex, rebuildConnectionIndex, hnodes, hrootIds]

end Export

end RuntimeStore

end OxideTerm.Ssh
