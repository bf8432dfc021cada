import OxideTerm.Ssh.Properties.TreeRuns

/-!
# Restarts

What is left of the session tree after it was persisted and read back by a program that starts. Live
connections are gone, and so are nodes with secrets that no saved connection has. The rest is
restored as a forest with the links that it had, unless a saved connection was deleted that stands
for a node with something below it: then nothing is restored at all.
-/

namespace OxideTerm.Ssh.RuntimeStore

open OxideTerm.Lib OxideTerm.Lib.Forest

variable {store : RuntimeStore} {n : NodeId} {visited : List NodeId} {hnodup : visited.Nodup}

/-! ## The tree that is persisted -/

/-- There is such a node, and it may be persisted. -/
def Persistable (store : RuntimeStore) (n : NodeId) : Prop :=
  ∃ route, store.nodes.get n = some route ∧ route.Persistable

/-- The node and all that is above it may be persisted. -/
def Restorable (store : RuntimeStore) (n : NodeId) : Prop :=
  store.Persistable n ∧ ∀ a, store.forest.Ancestor a n → store.Persistable a

section Tree

variable (hvisited : ∀ n, n ∈ visited ↔ n ∈ store.nodes.keys)

include hvisited

theorem mem_entries {entry : NodeRuntimeEntry} :
    (n, entry) ∈ store.entries visited ↔
      ∃ route, store.nodes.get n = some route ∧ entry = route.toNodeRuntimeEntry := by
  rw [entries, List.mem_filterMap]
  constructor
  · rintro ⟨m, -, hm⟩
    obtain ⟨route, hroute, heq⟩ := Option.map_eq_some_iff.mp hm
    obtain ⟨rfl, rfl⟩ := Prod.mk.inj heq
    exact ⟨route, hroute, rfl⟩
  · rintro ⟨route, hroute, rfl⟩
    refine ⟨n, (hvisited n).mpr (FiniteMap.mem_keys_of_get hroute), ?_⟩
    rw [hroute]
    rfl

/-- The tree that is persisted has the links of the store. -/
theorem forest_tree : (store.tree visited hnodup).forest = store.forest := by
  have hnames : ∀ n, n ∈ (store.entries visited).map Prod.fst ↔ n ∈ store.nodes.keys := by
    intro n
    rw [List.mem_map]
    constructor
    · rintro ⟨⟨n, entry⟩, hentry, rfl⟩
      obtain ⟨route, hroute, -⟩ := (mem_entries hvisited).mp hentry
      exact FiniteMap.mem_keys_of_get hroute
    · intro hn
      obtain ⟨route, hroute⟩ := FiniteMap.exists_of_mem_keys hn
      exact ⟨(n, route.toNodeRuntimeEntry), (mem_entries hvisited).mpr ⟨route, hroute, rfl⟩, rfl⟩
  have hfind : ∀ n, ((store.entries visited).find? fun entry => entry.1 = n) =
      (store.nodes.get n).map fun route => (n, route.toNodeRuntimeEntry) := by
    intro n
    cases hroute : store.nodes.get n with
    | none =>
      refine find?_name_eq_none fun hn => ?_
      obtain ⟨route, hroute'⟩ := FiniteMap.exists_of_mem_keys ((hnames n).mp hn)
      rw [hroute] at hroute'
      cases hroute'
    | some route =>
      exact find?_name (store.tree visited hnodup).distinct
        ((mem_entries hvisited).mpr ⟨route, hroute, rfl⟩)
  rw [NodeRuntimeStore.forest, ofList, RuntimeStore.forest, Forest.mk.injEq]
  refine ⟨Set.ext hnames, funext fun n => ?_, funext fun n => ?_, rfl⟩
  · show (((store.entries visited).find? _).bind _) = _
    rw [hfind, Option.bind_map]
    rfl
  · show (((store.entries visited).find? _).map _).getD [] = _
    rw [hfind, Option.map_map]
    rfl

theorem restorable_tree : (store.tree visited hnodup).Restorable n ↔ store.Restorable n := by
  have hpersistable : ∀ m, (store.tree visited hnodup).Persistable m ↔ store.Persistable m := by
    intro m
    constructor
    · rintro ⟨entry, hentry, hpersistable⟩
      obtain ⟨route, hroute, rfl⟩ := (mem_entries hvisited).mp hentry
      exact ⟨route, hroute, hpersistable⟩
    · rintro ⟨route, hroute, hpersistable⟩
      exact ⟨_, (mem_entries hvisited).mpr ⟨route, hroute, rfl⟩, hpersistable⟩
  rw [NodeRuntimeStore.Restorable, Restorable, hpersistable, forest_tree hvisited]
  exact and_congr_right fun _ => forall₂_congr fun a _ => hpersistable a

end Tree

/-! ## The nodes that are read back -/

section Restart

variable (reread : SshConfig → SshConfig) (savedOriginConfig : NodeOrigin → Option SshConfig)

/-- The saved connection that stands for the node is still there. -/
def Resolves (store : RuntimeStore) (n : NodeId) : Prop :=
  ∀ route, store.nodes.get n = some route → route.origin.savedConnectionId.isSome = true →
    (savedOriginConfig route.origin).isSome = true

/-- The configuration that a node comes back with, if it does. -/
def rereadConfig (route : RuntimeNode) : Option SshConfig :=
  if route.origin.savedConnectionId.isSome then savedOriginConfig route.origin
  else some (reread route.config)

/-- The nodes that come back. -/
def restoredSet (store : RuntimeStore) : Set NodeId :=
  {n | store.Restorable n ∧ store.Resolves savedOriginConfig n}

/-- The snapshot that is read back from what was persisted. -/
def restartSnapshot (store : RuntimeStore) (visited : List NodeId) (hnodup : visited.Nodup)
    (nowMs : UInt64) : NodeTreeSnapshot :=
  restoredSnapshot reread savedOriginConfig
    ((store.tree visited hnodup).exportPersistenceSnapshot nowMs)

variable (hvisited : ∀ n, n ∈ visited ↔ n ∈ store.nodes.keys) {nowMs : UInt64}

include hvisited

open scoped Classical in
theorem exists_of_mem_persisted {node : NodeTreePersistenceNode}
    (hnode : node ∈ ((store.tree visited hnodup).exportPersistenceSnapshot nowMs).nodes) :
    ∃ route, store.nodes.get node.id = some route ∧ store.Restorable node.id ∧
      node = { route.persisted node.id with
        childrenIds := route.childrenIds.filter fun c => decide (store.Restorable c) } := by
  obtain ⟨entry, hentry, -, hfields⟩ := NodeRuntimeStore.exists_of_mem_snapshot hnode
  obtain ⟨route, hroute, rfl⟩ := (mem_entries hvisited).mp hentry
  have hrestorable : (store.tree visited hnodup).Restorable node.id := by
    rw [← NodeRuntimeStore.mem_retained_iff,
      ← ((store.tree visited hnodup).names_perm nowMs).mem_iff]
    exact List.mem_map_of_mem hnode
  refine ⟨route, hroute, (restorable_tree hvisited).mp hrestorable, ?_⟩
  have hchildren : (fun id => ((store.tree visited hnodup).retained.map (·.id)).contains id) =
      fun id => decide (store.Restorable id) := by
    rw [NodeRuntimeStore.contains_retained]
    funext id
    rw [Bool.eq_iff_iff, decide_eq_true_iff, decide_eq_true_iff]
    exact restorable_tree hvisited
  rw [NodeRuntimeStore.trimmed, hchildren] at hfields
  exact hfields

theorem mem_names_persisted :
    n ∈ (((store.tree visited hnodup).exportPersistenceSnapshot nowMs).nodes.map (·.id)) ↔
      store.Restorable n := by
  rw [((store.tree visited hnodup).names_perm nowMs).mem_iff, NodeRuntimeStore.mem_retained_iff]
  exact restorable_tree hvisited

omit hvisited in
theorem rereadConfig_isSome {route : RuntimeNode} (hroute : store.nodes.get n = some route) :
    (rereadConfig reread savedOriginConfig route).isSome = true ↔
      store.Resolves savedOriginConfig n := by
  rw [rereadConfig]
  constructor
  · intro h route' hroute' hsaved
    rw [hroute] at hroute'
    cases hroute'
    rw [if_pos hsaved] at h
    exact h
  · intro h
    split
    next hsaved => exact h route hroute hsaved
    next => rfl

open scoped Classical in
/-- A node that is read back, without its connection. -/
noncomputable def comeback (store : RuntimeStore) (route : RuntimeNode) (config : SshConfig) :
    RuntimeNode :=
  { route with
    config := config
    childrenIds := route.childrenIds.filter fun c => decide (store.Restorable c)
    connectionId := none
    readiness := .disconnected
    error := none }

theorem restoredNode_of_mem {node : NodeTreePersistenceNode}
    (hnode : node ∈ ((store.tree visited hnodup).exportPersistenceSnapshot nowMs).nodes) :
    ∃ route, store.nodes.get node.id = some route ∧ store.Restorable node.id ∧
      restoredNode reread savedOriginConfig node =
        (rereadConfig reread savedOriginConfig route).map fun config =>
          ⟨node.id, store.comeback route config⟩ := by
  obtain ⟨route, hroute, hrestorable, hfields⟩ := exists_of_mem_persisted hvisited hnode
  refine ⟨route, hroute, hrestorable, ?_⟩
  rw [hfields, restoredNode, rereadConfig]
  dsimp only [NodeRuntimeEntry.persisted]
  split
  · rfl
  · rfl

theorem exists_of_mem_restart {node : NodeTreeSnapshotNode}
    (hnode : node ∈ (store.restartSnapshot reread savedOriginConfig visited hnodup nowMs).nodes) :
    ∃ route config, store.nodes.get node.id = some route ∧ store.Restorable node.id ∧
      rereadConfig reread savedOriginConfig route = some config ∧
      node.route = store.comeback route config := by
  obtain ⟨persisted, hpersisted, hrestored⟩ := List.mem_filterMap.mp hnode
  obtain ⟨route, hroute, hrestorable, heq⟩ :=
    restoredNode_of_mem reread savedOriginConfig hvisited hpersisted
  obtain ⟨config, hconfig, rfl⟩ := Option.map_eq_some_iff.mp (heq.symm.trans hrestored)
  exact ⟨route, config, hroute, hrestorable, hconfig, rfl⟩

theorem mem_ids_restart :
    n ∈ (store.restartSnapshot reread savedOriginConfig visited hnodup nowMs).ids ↔
      n ∈ store.restoredSet savedOriginConfig := by
  constructor
  · intro hn
    obtain ⟨node, hnode, rfl⟩ := List.mem_map.mp hn
    obtain ⟨route, config, hroute, hrestorable, hconfig, -⟩ :=
      exists_of_mem_restart reread savedOriginConfig hvisited hnode
    refine ⟨hrestorable, (rereadConfig_isSome reread savedOriginConfig hroute).mp ?_⟩
    rw [hconfig]
    rfl
  · rintro ⟨hrestorable, hresolves⟩
    obtain ⟨persisted, hpersisted, rfl⟩ :=
      List.mem_map.mp ((@mem_names_persisted _ _ _ hnodup hvisited nowMs).mpr hrestorable)
    obtain ⟨route, hroute, -, heq⟩ :=
      restoredNode_of_mem reread savedOriginConfig hvisited hpersisted
    obtain ⟨config, hconfig⟩ := Option.isSome_iff_exists.mp
      ((rereadConfig_isSome reread savedOriginConfig hroute).mpr hresolves)
    refine List.mem_map.mpr ⟨⟨persisted.id, store.comeback route config⟩, ?_, rfl⟩
    refine List.mem_filterMap.mpr ⟨persisted, hpersisted, ?_⟩
    rw [heq, hconfig]
    rfl

omit hvisited in
theorem nodup_ids_restart :
    (store.restartSnapshot reread savedOriginConfig visited hnodup nowMs).ids.Nodup := by
  have hnames : (((store.tree visited hnodup).exportPersistenceSnapshot nowMs).nodes.map (·.id)).Nodup :=
    ((store.tree visited hnodup).names_perm nowMs).nodup_iff.mpr
      (store.tree visited hnodup).nodup_retained
  refine (?_ : List.Sublist _ _).nodup hnames
  rw [NodeTreeSnapshot.ids, restartSnapshot, restoredSnapshot]
  generalize ((store.tree visited hnodup).exportPersistenceSnapshot nowMs).nodes = nodes
  induction nodes with
  | nil => exact .slnil
  | cons node nodes ih =>
    rw [List.filterMap_cons]
    cases hrestored : restoredNode reread savedOriginConfig node with
    | none => exact ih.cons node.id
    | some restored =>
      obtain ⟨config, -, rfl⟩ := Option.map_eq_some_iff.mp hrestored
      exact ih.cons_cons node.id

theorem parentById_restart (hn : n ∈ store.restoredSet savedOriginConfig) :
    (store.restartSnapshot reread savedOriginConfig visited hnodup nowMs).parentById n =
      store.parentOf n := by
  obtain ⟨node, hnode, rfl⟩ :=
    List.mem_map.mp ((@mem_ids_restart _ _ _ hnodup reread savedOriginConfig hvisited nowMs).mpr hn)
  obtain ⟨route, config, hroute, -, -, hfields⟩ :=
    exists_of_mem_restart reread savedOriginConfig hvisited hnode
  rw [NodeTreeSnapshot.parentById_of_mem (nodup_ids_restart reread savedOriginConfig) hnode, hfields,
    parentOf, hroute]
  rfl

/-! ## What a restart leaves -/

/-- No saved connection is gone that stands for a node with a restored one below it. -/
def Reachable (store : RuntimeStore) : Prop :=
  store.forest.UpClosed (store.restoredSet savedOriginConfig)

open scoped Classical in
theorem describes_restart (h : store.IsForest) (hreachable : store.Reachable savedOriginConfig) :
    Describes (store.restartSnapshot reread savedOriginConfig visited hnodup nowMs)
      (store.forest.restrict (store.restoredSet savedOriginConfig)) store.depthOf where
  nodup := nodup_ids_restart reread savedOriginConfig
  wellFormed := h.wellFormed.restrict hreachable
  levels := h.levels.restrict hreachable
  bounded n _ := h.bounded n
  mem n := by
    rw [mem_ids_restart reread savedOriginConfig hvisited]
    constructor
    · rintro ⟨-, hn⟩
      exact hn
    · intro hn
      obtain ⟨⟨route, hroute, -⟩, -⟩ := hn.1
      exact ⟨mem_forest_of_get hroute, hn⟩
  parent := by
    funext n
    by_cases hn : n ∈ store.restoredSet savedOriginConfig
    · obtain ⟨⟨route, hroute, -⟩, -⟩ := hn.1
      rw [parentById_restart reread savedOriginConfig hvisited hn,
        parent_restrict hreachable (mem_forest_of_get hroute) hn]
      rfl
    · rw [(links_restrict_of_not fun hmem => hn hmem.2).1, NodeTreeSnapshot.parentById,
        find?_name_eq_none]
      · rfl
      · exact (mem_ids_restart reread savedOriginConfig hvisited).not.mpr hn
  children node hnode := by
    obtain ⟨route, config, hroute, -, -, hfields⟩ :=
      exists_of_mem_restart reread savedOriginConfig hvisited hnode
    have hmem := (mem_ids_restart reread savedOriginConfig hvisited).mp (List.mem_map_of_mem hnode)
    have hchildren : store.forest.children node.id = route.childrenIds := childrenOf_of_get hroute
    have hnode' := mem_forest_of_get hroute
    rw [hfields, children_restrict hnode' hmem, comeback, ← hchildren]
    refine ⟨(h.wellFormed.nodup_children node.id hnode').filter _,
      fun c => decide (c ∈ store.restoredSet savedOriginConfig), ?_⟩
    rw [List.filter_filter]
    refine List.filter_congr fun c _ => ?_
    rw [Bool.eq_iff_iff, Bool.and_eq_true, decide_eq_true_iff, decide_eq_true_iff]
    exact ⟨fun hc => ⟨hc, hc.1⟩, fun hc => hc.1⟩
  outside n hn := (links_restrict_of_not hn).2
  roots := by
    show (List.filter _ (List.filter _ store.rootIds)) = List.filter _ store.rootIds
    rw [List.filter_filter]
    refine List.filter_congr fun r _ => ?_
    rw [Bool.eq_iff_iff, Bool.and_eq_true, List.contains_iff_mem, List.contains_iff_mem,
      decide_eq_true_iff]
    have hids := @mem_ids_restart _ r _ hnodup reread savedOriginConfig hvisited nowMs
    have hretained : r ∈ (store.tree visited hnodup).retained.map (·.id) ↔ store.Restorable r :=
      NodeRuntimeStore.mem_retained_iff.trans (restorable_tree hvisited)
    exact ⟨fun hr => hids.mp hr.1, fun hr => ⟨hids.mpr hr, hretained.mpr hr.1⟩⟩

open scoped Classical in
/-- What a restart leaves of a store when all that it needs is there. -/
structure ComesBack (store store' : RuntimeStore) : Prop where
  isForest : store'.IsForest
  forest : store'.forest = store.forest.restrict (store.restoredSet savedOriginConfig)
  entries : ∀ n ∈ store.restoredSet savedOriginConfig, ∃ route route', store.nodes.get n = some route ∧
    store'.nodes.get n = some route' ∧
    rereadConfig reread savedOriginConfig route = some route'.config ∧
    route' =
      { route with
        config := route'.config
        childrenIds := route'.childrenIds
        connectionId := none
        readiness := .disconnected
        error := none }
  index : ∀ c, store'.nodeIdForConnection c = none

/-- The entry that a node comes back with. -/
theorem exists_of_entryFor_restart (h : store.IsForest) (hreachable : store.Reachable savedOriginConfig)
    {route' : RuntimeNode}
    (hentry : entryFor (store.restartSnapshot reread savedOriginConfig visited hnodup nowMs) n =
      some route') :
    ∃ route config, store.nodes.get n = some route ∧
      rereadConfig reread savedOriginConfig route = some config ∧
      route' = { store.comeback route config with childrenIds := route'.childrenIds } := by
  obtain ⟨node, hnode, rfl, rfl⟩ := entryFor_eq_some hentry
  obtain ⟨route, config, hroute, -, hconfig, hfields⟩ :=
    exists_of_mem_restart reread savedOriginConfig hvisited hnode
  refine ⟨route, config, hroute, hconfig, ?_⟩
  have hdepth := ((describes_restart reread savedOriginConfig hvisited h hreachable).restored hnode).2
  have hdepth' := depthOf_of_get hroute
  have hsame : (store.restartSnapshot reread savedOriginConfig visited hnodup nowMs).snapshotNodeDepth
      node.id = route.depth := UInt32.toNat_inj.mp (hdepth.trans hdepth')
  rw [NodeTreeSnapshot.restored, hsame, hfields]
  rfl

theorem comesBack_of_reachable (h : store.IsForest) (hreachable : store.Reachable savedOriginConfig)
    {visited' : List NodeId} (hvisited' : ∀ n, n ∈ visited' ↔ n ∈ store.restoredSet savedOriginConfig) :
    ComesBack reread savedOriginConfig store
      (store.restart reread savedOriginConfig visited hnodup nowMs visited') := by
  have hdescribes := @describes_restart _ _ hnodup reread savedOriginConfig hvisited nowMs h hreachable
  obtain ⟨store', hok, hforest, hlinks, hentries, hindex⟩ := hdescribes.applySnapshot fun n =>
    (hvisited' n).trans (mem_ids_restart reread savedOriginConfig hvisited).symm
  have hrestart : store.restart reread savedOriginConfig visited hnodup nowMs visited' = store' := by
    rw [restartSnapshot] at hok
    rw [restart, hok]
  rw [hrestart]
  refine ⟨hforest, hlinks, fun n hn => ?_, fun c => ?_⟩
  · have hid := (@mem_ids_restart _ n _ hnodup reread savedOriginConfig hvisited nowMs).mpr hn
    rw [← isSome_entryFor, ← hentries] at hid
    obtain ⟨route', hroute'⟩ := Option.isSome_iff_exists.mp hid
    obtain ⟨route, config, hroute, hconfig, hfields⟩ :=
      exists_of_entryFor_restart reread savedOriginConfig hvisited h hreachable
        ((hentries n).symm.trans hroute')
    refine ⟨route, route', hroute, hroute', ?_, ?_⟩
    · rw [hfields]
      exact hconfig
    · rw [hfields]
      rfl
  · cases hc : store'.nodeIdForConnection c with
    | none => rfl
    | some n =>
      rw [hindex] at hc
      obtain ⟨route', hroute', hbound⟩ :=
        Option.bind_eq_some_iff.mp (sound_rebuild store' visited' c n hc)
      obtain ⟨route, config, -, -, hfields⟩ :=
        exists_of_entryFor_restart reread savedOriginConfig hvisited h hreachable
          ((hentries n).symm.trans hroute')
      rw [hfields] at hbound
      cases hbound

/-- Without a parent that is needed the whole tree is refused. -/
theorem restart_of_not_reachable (hreachable : ¬ store.Reachable savedOriginConfig)
    {visited' : List NodeId} :
    store.restart reread savedOriginConfig visited hnodup nowMs visited' = new := by
  have hvalid : ¬ (store.restartSnapshot reread savedOriginConfig visited hnodup nowMs).Valid := by
    intro hvalid
    refine hreachable fun n hn p hp => ?_
    have hparent := @parentById_restart _ n _ hnodup reread savedOriginConfig hvisited nowMs hn
    obtain ⟨node, hnode, rfl⟩ := List.mem_map.mp
      ((@mem_ids_restart _ n _ hnodup reread savedOriginConfig hvisited nowMs).mpr hn)
    rw [NodeTreeSnapshot.parentById_of_mem hvalid.nodup hnode] at hparent
    exact (mem_ids_restart reread savedOriginConfig hvisited).mp
      (hvalid.parent_mem node hnode p (hparent.trans hp))
  obtain ⟨error, herror⟩ := @applySnapshot_of_not_valid _ visited' hvalid
  rw [restartSnapshot] at herror
  rw [restart, herror]

end Restart

/-- **A restart brings back what can be restored, or nothing**: everything, when no saved connection
is gone that stands for a node with a restored one below it, and an empty tree otherwise. -/
theorem restart_in_run (reread : SshConfig → SshConfig)
    (savedOriginConfig : NodeOrigin → Option SshConfig) (operations : List TreeOperation)
    (hallowed : new.AllowedAll operations) :
    ∃ store, new.run operations = some store ∧
      ∀ visited hnodup nowMs visited', (∀ n, n ∈ visited ↔ n ∈ store.nodes.keys) →
        (∀ n, n ∈ visited' ↔ n ∈ store.restoredSet savedOriginConfig) →
          (store.Reachable savedOriginConfig → ComesBack reread savedOriginConfig store
            (store.restart reread savedOriginConfig visited hnodup nowMs visited')) ∧
          (¬ store.Reachable savedOriginConfig →
            store.restart reread savedOriginConfig visited hnodup nowMs visited' = new) := by
  obtain ⟨store, hrun, h⟩ := isForest_new.run operations hallowed
  refine ⟨store, hrun, fun visited hnodup nowMs visited' hvisited hvisited' => ⟨?_, ?_⟩⟩
  · exact fun hreachable =>
      comesBack_of_reachable reread savedOriginConfig hvisited h hreachable hvisited'
  · exact fun hreachable => restart_of_not_reachable reread savedOriginConfig hvisited hreachable

theorem restart_in_run_child :
    ∃ store, new.run rootAndChild = some store ∧
      ∀ visited hnodup nowMs visited', (∀ n, n ∈ visited ↔ n ∈ store.nodes.keys) →
        (∀ n, n ∈ visited' ↔ n ∈ store.restoredSet fun _ => none) →
          ((store.Reachable fun _ => none) → ComesBack id (fun _ => none) store
            (store.restart id (fun _ => none) visited hnodup nowMs visited')) ∧
          ((¬ store.Reachable fun _ => none) →
            store.restart id (fun _ => none) visited hnodup nowMs visited' = new) :=
  restart_in_run id (fun _ => none) rootAndChild rootAndChild_allowed

end OxideTerm.Ssh.RuntimeStore
