import OxideTerm.Ssh.Properties.Persistence
import OxideTerm.Ssh.Properties.TreeSnapshots

/-!
# Runs of the session tree

Whatever operations succeed or fail, the tree stays a forest and the traversals come back, as long as
identifiers that are generated are new and a node is not put below a second parent. The index of the
connections never names a node that is not bound, and it names every bound node as long as no
connection is bound to two.
-/

namespace OxideTerm.Ssh.RuntimeStore

open OxideTerm.Lib OxideTerm.Lib.Forest

variable {store store' : RuntimeStore} {n nodeId parentId : NodeId} {c : String}

/-- What holds before an operation and after one that succeeds holds after the operation. -/
theorem orSame_induction {P : RuntimeStore → Prop} {result : Except RouteError RuntimeStore}
    (hbefore : P store) (hafter : ∀ next, result = .ok next → P next) : P (store.orSame result) := by
  cases result with
  | ok next => exact hafter next rfl
  | error => exact hbefore

/-! ## One node -/

/-- The entry of one node is written again: the tree is as it was, and the node has this
connection. -/
structure Rewrites (store : RuntimeStore) (nodeId : NodeId) (connectionId : Option String)
    (store' : RuntimeStore) : Prop where
  entry : ∃ route route', store.nodes.get nodeId = some route ∧
    store'.nodes = store.nodes.insert nodeId route' ∧ links route' = links route ∧
    route'.connectionId = connectionId
  roots : store'.rootIds = store.rootIds

theorem Rewrites.isForest {connectionId : Option String}
    (hwrite : store.Rewrites nodeId connectionId store') (h : store.IsForest) : store'.IsForest := by
  obtain ⟨route, route', hget, hnodes, hlinks, -⟩ := hwrite.entry
  refine h.congr (fun n => ?_) hwrite.roots
  rw [hnodes]
  exact map_links_insert hget hlinks n

theorem Rewrites.connectionIdForNode {connectionId : Option String}
    (hwrite : store.Rewrites nodeId connectionId store') (n : NodeId) :
    store'.connectionIdForNode n =
      if n = nodeId then connectionId else store.connectionIdForNode n := by
  obtain ⟨route, route', -, hnodes, -, rfl⟩ := hwrite.entry
  rw [RuntimeStore.connectionIdForNode, hnodes, FiniteMap.get_insert]
  split <;> rfl

theorem rewrites_bind {state : ConnectionState}
    (hok : store.bindConnection nodeId c state = .ok store') :
    store.Rewrites nodeId (some c) store' := by
  rw [bindConnection] at hok
  split at hok
  · cases hok
  next route hget =>
    cases hok
    exact ⟨⟨route, _, hget, rfl, rfl, rfl⟩, rfl⟩

theorem rewrites_disconnect (hok : store.disconnectNode nodeId = .ok store') :
    store.Rewrites nodeId none store' := by
  rw [disconnectNode] at hok
  split at hok
  · cases hok
  next route hget =>
    cases hok
    exact ⟨⟨route, _, hget, rfl, rfl, rfl⟩, rfl⟩

theorem connectionIdForNode_of_get {route : RuntimeNode} (hget : store.nodes.get nodeId = some route) :
    route.connectionId = store.connectionIdForNode nodeId := by
  rw [connectionIdForNode, hget]
  rfl

theorem rewrites_readiness {readiness : NodeReadiness} {reason : String}
    (hok : store.applyNodeReadiness nodeId readiness reason = .ok store') :
    store.Rewrites nodeId (store.connectionIdForNode nodeId) store' ∧
      store'.connectionNodes = store.connectionNodes := by
  rw [applyNodeReadiness] at hok
  split at hok
  · cases hok
  next route hget =>
    cases hok
    exact ⟨⟨⟨route, _, hget, rfl, rfl, (connectionIdForNode_of_get hget :)⟩, rfl⟩, rfl⟩

theorem rewrites_updateState {state : ConnectionState}
    (hok : store.updateConnectionState nodeId state = .ok store') :
    store.Rewrites nodeId (store.connectionIdForNode nodeId) store' ∧
      store'.connectionNodes = store.connectionNodes := by
  rw [updateConnectionState] at hok
  split at hok
  · cases hok
  next route hget =>
    cases hok
    exact ⟨⟨⟨route, _, hget, rfl, rfl, (connectionIdForNode_of_get hget :)⟩, rfl⟩, rfl⟩

theorem rewrites_updateOrigin {origin : NodeOrigin}
    (hok : store.updateOrigin nodeId origin = .ok store') :
    store.Rewrites nodeId (store.connectionIdForNode nodeId) store' ∧
      store'.connectionNodes = store.connectionNodes := by
  rw [updateOrigin] at hok
  split at hok
  · cases hok
  next route hget =>
    cases hok
    exact ⟨⟨⟨route, _, hget, rfl, rfl, (connectionIdForNode_of_get hget :)⟩, rfl⟩, rfl⟩

/-! ## The tree -/

/-- What an operation may count on: new identifiers, one parent for each node, room below it, and
maps that are visited as a whole. -/
def Allowed (store : RuntimeStore) : TreeOperation → Prop
  | .upsertChildNode parentId nodeId _ _ _ =>
    store.nodes.get nodeId = none ∧ store.depthOf parentId < maxSessionTreeDepth.toNat ∨
      store.parentOf nodeId = some parentId
  | .drillDown _ nodeId _ _ => store.nodes.get nodeId = none
  | .expandManualPreset _ generated hops _ _ => store.Generates generated (hops.length + 1)
  | .expandManualPresetUnderParent _ _ generated hops _ _ =>
    store.Generates generated (hops.length + 1)
  | .applySnapshot snapshot visited => ∀ n, n ∈ visited ↔ n ∈ snapshot.ids
  | .reconcileWithConnections _ visited => ∀ n, n ∈ visited ↔ n ∈ store.nodes.keys
  | _ => True

theorem exists_removeSubtree (h : store.IsForest) (nodeId : NodeId) :
    ∃ store' removed, store.removeSubtree nodeId = some (store', removed) := by
  obtain ⟨removed, hremoved⟩ : ∃ removed, store.subtreePostorder nodeId = some removed := by
    cases hget : store.nodes.get nodeId with
    | none => exact ⟨_, subtreePostorder_of_none hget⟩
    | some route =>
      obtain ⟨removed, hremoved, -⟩ := exists_subtreePostorder h (mem_forest_of_get hget)
      exact ⟨removed, hremoved⟩
  exact ⟨_, removed, by rw [removeSubtree, hremoved]; rfl⟩

theorem map_links_reconcile (connections : String → Option ConnectionState) (n : NodeId) :
    ((store.nodes.mapValues (RuntimeNode.reconcile connections)).get n).map links =
      (store.nodes.get n).map links := by
  rw [FiniteMap.get_mapValues, Option.map_map]
  congr 1
  funext route
  show links (route.reconcile connections) = links route
  rw [RuntimeNode.reconcile]
  split
  · rfl
  · split <;> rfl

/-- **Every operation comes back, and leaves a forest.** -/
theorem IsForest.step (h : store.IsForest) {operation : TreeOperation}
    (hallowed : store.Allowed operation) :
    ∃ store', store.step operation = some store' ∧ store'.IsForest := by
  cases operation with
  | upsertNode nodeId config origin nowMs => exact ⟨_, rfl, h.upsertNode⟩
  | upsertChildNode parentId nodeId config origin nowMs =>
    refine ⟨_, rfl, orSame_induction h fun next hok => ?_⟩
    rcases hallowed with ⟨hget, hdepth⟩ | hparent
    · cases hparent : store.nodes.get parentId with
      | none =>
        rw [upsertChildNodeWithOrigin, hparent] at hok
        cases hok
      | some parent => exact h.upsertChild hparent hget hdepth hok
    · exact h.upsertChild_again hparent hok
  | drillDown parentId nodeId config nowMs =>
    exact ⟨_, rfl, orSame_induction h fun next hok => h.drillDown hallowed hok⟩
  | expandManualPreset savedConnectionId generated hops target nowMs =>
    exact ⟨_, rfl, h.expandManualPreset hallowed⟩
  | expandManualPresetUnderParent parentId savedConnectionId generated hops target nowMs =>
    exact ⟨_, rfl, h.expandManualPresetUnderParent hallowed⟩
  | removeSubtree nodeId =>
    obtain ⟨store', removed, hok⟩ := exists_removeSubtree h nodeId
    exact ⟨store', by rw [RuntimeStore.step, hok]; rfl, (removed_of_removeSubtree h hok).isForest h⟩
  | applySnapshot snapshot visited =>
    refine ⟨_, rfl, orSame_induction h fun next hok => ?_⟩
    by_cases hvalid : snapshot.Valid
    · obtain ⟨next', hok', hentries, hroots, -⟩ := applySnapshot_of_valid hvalid hallowed
      cases hok.symm.trans hok'
      exact isForest_of_entries hvalid hentries hroots
    · obtain ⟨error, herror⟩ := @applySnapshot_of_not_valid _ visited hvalid
      cases hok.symm.trans herror
  | clear => exact ⟨_, rfl, isForest_new⟩
  | bindConnection nodeId connectionId state =>
    exact ⟨_, rfl, orSame_induction h fun next hok => (rewrites_bind hok).isForest h⟩
  | disconnectNode nodeId =>
    exact ⟨_, rfl, orSame_induction h fun next hok => (rewrites_disconnect hok).isForest h⟩
  | applyNodeReadiness nodeId readiness reason =>
    exact ⟨_, rfl, orSame_induction h fun next hok => (rewrites_readiness hok).1.isForest h⟩
  | updateConnectionState nodeId state =>
    exact ⟨_, rfl, orSame_induction h fun next hok => (rewrites_updateState hok).1.isForest h⟩
  | updateOrigin nodeId origin =>
    exact ⟨_, rfl, orSame_induction h fun next hok => (rewrites_updateOrigin hok).1.isForest h⟩
  | reconcileWithConnections connections visited =>
    exact ⟨_, rfl, h.congr (map_links_reconcile connections) rfl⟩

/-- All operations of a run may count on what they need. -/
def AllowedAll : RuntimeStore → List TreeOperation → Prop
  | _, [] => True
  | store, operation :: operations =>
    store.Allowed operation ∧ ∀ next, store.step operation = some next → next.AllowedAll operations

theorem IsForest.run : ∀ (operations : List TreeOperation) {store : RuntimeStore}, store.IsForest →
    store.AllowedAll operations → ∃ store', store.run operations = some store' ∧ store'.IsForest
  | [], store, h, _ => ⟨store, rfl, h⟩
  | operation :: operations, store, h, hallowed => by
    obtain ⟨next, hstep, hnext⟩ := h.step hallowed.1
    obtain ⟨store', hrun, hforest⟩ := hnext.run operations (hallowed.2 next hstep)
    exact ⟨store', by rw [RuntimeStore.run, hstep]; exact hrun, hforest⟩

/-- **The traversals come back**, and list what they should. -/
structure Traversed (store : RuntimeStore) : Prop where
  flatten : ∃ flat, store.flatten = some flat ∧ (flat.map (·.id)).Nodup ∧
    (∀ n, n ∈ flat.map (·.id) ↔ n ∈ store.forest.nodes) ∧
    (flat.map (·.id)).Pairwise (fun a b => ¬ store.forest.Ancestor b a) ∧
    ∀ node ∈ flat, ∃ route, store.nodes.get node.id = some route ∧
      node = store.flatNode node.id route
  path : ∀ n ∈ store.forest.nodes, ∃ path, store.pathToNode n = some (.ok path) ∧
    path.getLast? = some n ∧ path.IsChain (fun a b => store.parentOf b = some a) ∧
    ∀ r, path.head? = some r → r ∈ store.rootIds
  postorder : ∀ n ∈ store.forest.nodes, ∃ below, store.subtreePostorder n = some below ∧
    below.Nodup ∧ below.Pairwise (fun a b => ¬ store.forest.Ancestor a b) ∧
    ∀ m, m ∈ below ↔ m ∈ store.forest.nodes ∧ (m = n ∨ store.forest.Ancestor n m)

theorem IsForest.traversed (h : store.IsForest) : store.Traversed where
  flatten := exists_flatten h
  path _ hn := exists_pathToNode h hn
  postorder _ hn := exists_subtreePostorder h hn

/-- **The session tree stays a forest** in every run, and it can be traversed. -/
theorem session_tree_stays_forest (operations : List TreeOperation)
    (hallowed : new.AllowedAll operations) :
    ∃ store, new.run operations = some store ∧ store.IsForest ∧ store.Traversed := by
  obtain ⟨store, hrun, h⟩ := isForest_new.run operations hallowed
  exact ⟨store, hrun, h, h.traversed⟩

/-- A root with a child. -/
def rootAndChild : List TreeOperation :=
  [.upsertNode "root" (configOf .agent) .direct 1,
    .upsertChildNode "root" "child" (configOf .agent) .direct 2]

theorem rootAndChild_allowed : new.AllowedAll rootAndChild := by
  refine ⟨trivial, fun next hnext => ⟨.inl ⟨?_, ?_⟩, fun _ _ => trivial⟩⟩
  · cases hnext
    rfl
  · cases hnext
    decide

theorem session_tree_stays_forest_child :
    ∃ store, new.run rootAndChild = some store ∧ store.IsForest ∧ store.Traversed :=
  session_tree_stays_forest rootAndChild rootAndChild_allowed

/-! ## Removals and snapshots in runs -/

/-- **A removal takes what is within its node and nothing else**, in every run. -/
theorem removal_in_run (operations : List TreeOperation) (hallowed : new.AllowedAll operations)
    (nodeId : NodeId) :
    ∃ store store' removed, new.run operations = some store ∧
      store.removeSubtree nodeId = some (store', removed) ∧ store'.IsForest ∧
      (∀ n, n ∈ removed ↔ n = nodeId ∨ n ∈ store.forest.nodes ∧ store.forest.Ancestor nodeId n) ∧
      (∀ n, n ∈ store'.forest.nodes ↔ n ∈ store.forest.nodes ∧ n ∉ removed) ∧
      (∀ n ∈ store'.forest.nodes, store'.parentOf n = store.parentOf n ∧
        store'.childrenOf n = (store.childrenOf n).filter (fun id => id ≠ nodeId) ∧
        store'.depthOf n = store.depthOf n) ∧
      store'.rootIds = store.rootIds.filter fun id => id ≠ nodeId := by
  obtain ⟨store, hrun, h⟩ := isForest_new.run operations hallowed
  obtain ⟨store', removed, hok⟩ := exists_removeSubtree h nodeId
  have hremoved := removed_of_removeSubtree h hok
  have hmem : ∀ n, n ∈ store'.forest.nodes ↔ n ∈ store.forest.nodes ∧ n ∉ removed := by
    intro n
    rw [mem_forest_links, mem_forest_links]
    by_cases hn : n ∈ removed
    · simp [hremoved.gone n hn, hn]
    · rw [hremoved.kept n hn, Option.isSome_map]
      simp [hn]
  refine ⟨store, store', removed, hrun, hok, hremoved.isForest h, hremoved.mem, hmem,
    fun n hn => ?_, hremoved.roots⟩
  have hkept := hremoved.kept n ((hmem n).mp hn).2
  obtain ⟨route, hroute⟩ := mem_forest.mp ((hmem n).mp hn).1
  rw [parentOf_eq, parentOf_eq, childrenOf_eq, childrenOf_eq, depthOf_eq, depthOf_eq, hkept, hroute]
  exact ⟨rfl, rfl, rfl⟩

theorem removal_in_run_child :
    ∃ store store' removed, new.run rootAndChild = some store ∧
      store.removeSubtree "root" = some (store', removed) ∧ store'.IsForest ∧
      (∀ n, n ∈ removed ↔ n = "root" ∨ n ∈ store.forest.nodes ∧ store.forest.Ancestor "root" n) ∧
      (∀ n, n ∈ store'.forest.nodes ↔ n ∈ store.forest.nodes ∧ n ∉ removed) ∧
      (∀ n ∈ store'.forest.nodes, store'.parentOf n = store.parentOf n ∧
        store'.childrenOf n = (store.childrenOf n).filter (fun id => id ≠ "root") ∧
        store'.depthOf n = store.depthOf n) ∧
      store'.rootIds = store.rootIds.filter fun id => id ≠ "root" :=
  removal_in_run rootAndChild rootAndChild_allowed "root"

/-- **A snapshot is accepted just when it is a forest of little depth**; a refused one changes
nothing, an accepted one leaves a forest with its parents, and what a run exports is restored. -/
theorem snapshots_in_run (operations : List TreeOperation) (hallowed : new.AllowedAll operations) :
    ∃ store, new.run operations = some store ∧
      (∀ snapshot visited, (∀ n, n ∈ visited ↔ n ∈ snapshot.ids) →
        (snapshot.Valid ∧ ∃ store', applySnapshot snapshot visited = .ok store' ∧ store'.IsForest ∧
            (∀ n, n ∈ store'.forest.nodes ↔ n ∈ snapshot.ids) ∧
            ∀ n, store'.parentOf n = snapshot.parentById n) ∨
          ¬ snapshot.Valid ∧ store.step (.applySnapshot snapshot visited) = some store) ∧
      ∀ visited visited' nowMs, visited.Nodup → (∀ n, n ∈ visited ↔ n ∈ store.nodes.keys) →
        (∀ n, n ∈ visited' ↔ n ∈ store.nodes.keys) →
          applySnapshot (store.exportSnapshot visited nowMs) visited' =
            .ok (store.rebuildConnectionIndex visited') := by
  obtain ⟨store, hrun, h⟩ := isForest_new.run operations hallowed
  refine ⟨store, hrun, fun snapshot visited hvisited => ?_,
    fun visited visited' nowMs hnodup hvisited hvisited' =>
      applySnapshot_export hnodup hvisited nowMs h hvisited'⟩
  by_cases hvalid : snapshot.Valid
  · obtain ⟨store', hok, hentries, hroots, -⟩ := applySnapshot_of_valid hvalid hvisited
    refine .inl ⟨hvalid, store', hok, isForest_of_entries hvalid hentries hroots, fun n => ?_,
      fun n => ?_⟩
    · rw [← isSome_entryFor, ← hentries]
      exact store'.nodes.mem_keys n
    · rw [parentOf, hentries, bind_parentId_entryFor]
  · obtain ⟨error, herror⟩ := @applySnapshot_of_not_valid _ visited hvalid
    exact .inr ⟨hvalid, by rw [RuntimeStore.step, herror]; rfl⟩

theorem snapshots_in_run_child :
    ∃ store, new.run rootAndChild = some store ∧
      (∀ snapshot visited, (∀ n, n ∈ visited ↔ n ∈ snapshot.ids) →
        (snapshot.Valid ∧ ∃ store', applySnapshot snapshot visited = .ok store' ∧ store'.IsForest ∧
            (∀ n, n ∈ store'.forest.nodes ↔ n ∈ snapshot.ids) ∧
            ∀ n, store'.parentOf n = snapshot.parentById n) ∨
          ¬ snapshot.Valid ∧ store.step (.applySnapshot snapshot visited) = some store) ∧
      ∀ visited visited' nowMs, visited.Nodup → (∀ n, n ∈ visited ↔ n ∈ store.nodes.keys) →
        (∀ n, n ∈ visited' ↔ n ∈ store.nodes.keys) →
          applySnapshot (store.exportSnapshot visited nowMs) visited' =
            .ok (store.rebuildConnectionIndex visited') :=
  snapshots_in_run rootAndChild rootAndChild_allowed

/-- **Each candidate is below exactly one of the chosen roots**, in every run. -/
theorem minimal_roots_in_run (operations : List TreeOperation) (hallowed : new.AllowedAll operations)
    (candidates : List NodeId) :
    ∃ store roots, new.run operations = some store ∧
      store.minimalSubtreeRoots candidates = some roots ∧ roots.Nodup ∧
      (∀ r ∈ roots, r ∈ candidates ∧ r ∈ store.forest.nodes) ∧
      (∀ r ∈ roots, ∀ r' ∈ roots, ¬ store.forest.Ancestor r r') ∧
      ∀ n ∈ candidates, n ∈ store.forest.nodes →
        ∃ r ∈ roots, store.forest.Within r n ∧
          ∀ r' ∈ roots, store.forest.Within r' n → r' = r := by
  obtain ⟨store, hrun, h⟩ := isForest_new.run operations hallowed
  obtain ⟨roots, hroots, hmem, hpair, hcover⟩ := exists_minimalSubtreeRoots h candidates
  have : Std.Symm fun a b => ¬ store.forest.Within a b ∧ ¬ store.forest.Within b a :=
    ⟨fun _ _ hab => hab.symm⟩
  have hapart : ∀ r ∈ roots, ∀ r' ∈ roots, r ≠ r' → ¬ store.forest.Within r r' :=
    fun r hr r' hr' hne => (hpair.forall hr hr' hne).1
  refine ⟨store, roots, hrun, hroots, ?_, hmem, fun r hr r' hr' hancestor => ?_,
    fun n hn hnode => ?_⟩
  · refine hpair.imp fun {a b} hab => ?_
    rintro rfl
    exact hab.1 within_self
  · by_cases hsame : r = r'
    · rw [hsame] at hancestor
      exact h.levels.acyclic (hmem r' hr').2 hancestor
    · exact hapart r hr r' hr' hsame (.inr hancestor)
  · obtain ⟨r, hr, hwithin⟩ := hcover n hn hnode
    refine ⟨r, hr, hwithin, fun r' hr' hwithin' => ?_⟩
    by_contra hne
    rcases hwithin.total hwithin' with habove | habove
    · exact hapart r hr r' hr' (Ne.symm hne) habove
    · exact hapart r' hr' r hr hne habove

theorem minimal_roots_in_run_child :
    ∃ store roots, new.run rootAndChild = some store ∧
      store.minimalSubtreeRoots ["child", "root", "gone"] = some roots ∧ roots.Nodup ∧
      (∀ r ∈ roots, r ∈ ["child", "root", "gone"] ∧ r ∈ store.forest.nodes) ∧
      (∀ r ∈ roots, ∀ r' ∈ roots, ¬ store.forest.Ancestor r r') ∧
      ∀ n ∈ ["child", "root", "gone"], n ∈ store.forest.nodes →
        ∃ r ∈ roots, store.forest.Within r n ∧
          ∀ r' ∈ roots, store.forest.Within r' n → r' = r :=
  minimal_roots_in_run rootAndChild rootAndChild_allowed ["child", "root", "gone"]

/-! ## The index of the connections -/

/-- The index names no node for a connection that the node does not have. -/
def IndexSound (store : RuntimeStore) : Prop :=
  ∀ c n, store.nodeIdForConnection c = some n → store.connectionIdForNode n = some c

/-- The index names the node of every connection. -/
def IndexExact (store : RuntimeStore) : Prop :=
  ∀ c n, store.nodeIdForConnection c = some n ↔ store.connectionIdForNode n = some c

theorem exact_new : new.IndexExact := by
  intro c n
  constructor <;> intro h <;> cases h

theorem IndexExact.sound (h : store.IndexExact) : store.IndexSound := fun c n => (h c n).mp

/-- The operation binds no connection that another node has. -/
def Exclusive (store : RuntimeStore) : TreeOperation → Prop
  | .bindConnection nodeId connectionId _ =>
    ∀ n, store.connectionIdForNode n = some connectionId → n = nodeId
  | .applySnapshot snapshot _ => ∀ a ∈ snapshot.nodes, ∀ b ∈ snapshot.nodes, ∀ c,
    a.route.connectionId = some c → b.route.connectionId = some c → a = b
  | _ => True

/-- Both what the index says and what the nodes have are the same. -/
def SameConnections (store store' : RuntimeStore) : Prop :=
  (∀ n, store'.connectionIdForNode n = store.connectionIdForNode n) ∧
    store'.connectionNodes = store.connectionNodes

theorem SameConnections.sound (h : store.SameConnections store') (hsound : store.IndexSound) :
    store'.IndexSound := by
  intro c n hc
  rw [nodeIdForConnection, h.2] at hc
  rw [h.1]
  exact hsound c n hc

theorem SameConnections.exact (h : store.SameConnections store') (hexact : store.IndexExact) :
    store'.IndexExact := by
  intro c n
  rw [nodeIdForConnection, h.2, h.1]
  exact hexact c n

theorem SameConnections.trans {store'' : RuntimeStore} (h : store.SameConnections store')
    (h' : store'.SameConnections store'') : store.SameConnections store'' :=
  ⟨fun n => (h'.1 n).trans (h.1 n), h'.2.trans h.2⟩

/-- An entry that is added or replaced with the connection it had. -/
theorem connectionIdForNode_insert {nodes : FiniteMap NodeId RuntimeNode} {route : RuntimeNode}
    (h : route.connectionId = (nodes.get nodeId).bind (·.connectionId)) (n : NodeId) :
    ((nodes.insert nodeId route).get n).bind (·.connectionId) =
      (nodes.get n).bind (·.connectionId) := by
  rw [FiniteMap.get_insert]
  split
  next hn => rw [hn, ← h]; rfl
  next => rfl

/-- A node that is written again with the connection it had. -/
theorem Rewrites.sameConnections
    (h : store.Rewrites nodeId (store.connectionIdForNode nodeId) store' ∧
      store'.connectionNodes = store.connectionNodes) : store.SameConnections store' := by
  refine ⟨fun n => ?_, h.2⟩
  rw [h.1.connectionIdForNode]
  split
  next hn => rw [hn]
  next => rfl

theorem sameConnections_upsertNode {config : SshConfig} {origin : NodeOrigin} {nowMs : UInt64} :
    store.SameConnections (store.upsertNodeWithOrigin nodeId config origin nowMs) := by
  rw [upsertNodeWithOrigin]
  cases hget : store.nodes.get nodeId with
  | some route => exact ⟨connectionIdForNode_insert (by rw [hget]; rfl), rfl⟩
  | none => exact ⟨connectionIdForNode_insert (by rw [hget]; rfl), rfl⟩

theorem sameConnections_upsertChild {config : SshConfig} {origin : NodeOrigin} {nowMs : UInt64}
    (hok : store.upsertChildNodeWithOrigin parentId nodeId config origin nowMs = .ok store') :
    store.SameConnections store' := by
  rw [upsertChildNodeWithOrigin] at hok
  cases hparent : store.nodes.get parentId with
  | none =>
    rw [hparent] at hok
    cases hok
  | some parent =>
    rw [hparent] at hok
    cases hok
    have hchild : ∀ n, ((store.withChild parentId nodeId parent).get n).bind (·.connectionId) =
        store.connectionIdForNode n := by
      intro n
      rw [withChild]
      split
      · rfl
      · exact connectionIdForNode_insert (by rw [hparent]; rfl) n
    refine ⟨fun n => ?_, rfl⟩
    rw [← hchild n]
    refine connectionIdForNode_insert ?_ n
    cases hget : (store.withChild parentId nodeId parent).get nodeId with
    | none => rfl
    | some route => rfl

theorem sameConnections_appendChain {nowMs : UInt64} : ∀ (chain : List ChainNode)
    (store : RuntimeStore) (parentId : NodeId),
    store.SameConnections (appendChain nowMs store parentId chain).1
  | [], _, _ => ⟨fun _ => rfl, rfl⟩
  | node :: chain, store, parentId => by
    rw [appendChain]
    split
    next => exact ⟨fun _ => rfl, rfl⟩
    next next hok =>
      exact (sameConnections_upsertChild hok).trans (sameConnections_appendChain chain next _)

theorem get_foldl_index (connection : NodeId → Option String) : ∀ (visited : List NodeId)
    (index : FiniteMap String NodeId),
    (visited.foldl (fun index n => (connection n).elim index (index.insert · n)) index).get c = some n →
      n ∈ visited ∧ connection n = some c ∨ index.get c = some n
  | [], _, h => .inr h
  | first :: visited, index, h => by
    rcases get_foldl_index connection visited _ h with ⟨hn, hc⟩ | h
    · exact .inl ⟨List.mem_cons_of_mem first hn, hc⟩
    · dsimp only at h
      cases hfirst : connection first with
      | none =>
        rw [hfirst] at h
        exact .inr h
      | some c' =>
        rw [hfirst, Option.elim_some, FiniteMap.get_insert] at h
        split at h
        next hc =>
          cases h
          exact .inl ⟨List.mem_cons_self, by rw [hfirst, hc]⟩
        next => exact .inr h

theorem isSome_foldl_index (connection : NodeId → Option String) : ∀ (visited : List NodeId)
    (index : FiniteMap String NodeId),
    (∃ n ∈ visited, connection n = some c) ∨ (index.get c).isSome = true →
      ((visited.foldl (fun index n => (connection n).elim index (index.insert · n)) index).get
        c).isSome = true
  | [], _, h => by simpa using h
  | first :: visited, index, h => by
    refine isSome_foldl_index connection visited _ ?_
    rcases h with ⟨n, hn, hc⟩ | h
    · rcases List.mem_cons.mp hn with rfl | hn
      · refine .inr ?_
        dsimp only
        rw [hc, Option.elim_some, FiniteMap.get_insert_self]
        rfl
      · exact .inl ⟨n, hn, hc⟩
    · refine .inr ?_
      dsimp only
      cases hfirst : connection first with
      | none => exact h
      | some c' =>
        rw [Option.elim_some, FiniteMap.get_insert]
        split
        · rfl
        · exact h

/-- **An index that is made again says what the nodes have.** -/
theorem sound_rebuild (store : RuntimeStore) (visited : List NodeId) :
    (store.rebuildConnectionIndex visited).IndexSound := by
  intro c n hc
  rcases get_foldl_index store.connectionIdForNode visited _ hc with ⟨-, h⟩ | h
  · exact h
  · cases h

theorem exact_rebuild {visited : List NodeId} (hvisited : ∀ n, n ∈ visited ↔ n ∈ store.nodes.keys)
    (hunique : ∀ m n c, store.connectionIdForNode m = some c → store.connectionIdForNode n = some c →
      m = n) : (store.rebuildConnectionIndex visited).IndexExact := by
  intro c n
  refine ⟨sound_rebuild store visited c n, fun hc => ?_⟩
  have hmem : n ∈ visited := by
    rw [hvisited]
    obtain ⟨route, hroute, -⟩ := Option.bind_eq_some_iff.mp hc
    exact FiniteMap.mem_keys_of_get hroute
  obtain ⟨m, hm⟩ := Option.isSome_iff_exists.mp
    (isSome_foldl_index store.connectionIdForNode visited .empty (.inl ⟨n, hmem, hc⟩))
  have hbound := sound_rebuild store visited c m hm
  rw [hunique n m c hc hbound]
  exact hm

theorem sameConnections_detach (nodeId : NodeId) : store.SameConnections (store.detach nodeId) := by
  rw [detach]
  split
  · refine ⟨fun n => ?_, rfl⟩
    show ((store.nodes.modify _ _).get n).bind (·.connectionId) = _
    rw [FiniteMap.get_modify]
    split
    · rw [Option.bind_map]
      rfl
    · rfl
  · exact ⟨fun _ => rfl, rfl⟩

theorem connectionIdForNode_removeNode (id n : NodeId) :
    (store.removeNode id).connectionIdForNode n =
      if n = id then none else store.connectionIdForNode n := by
  show ((store.nodes.erase id).get n).bind _ = _
  rw [FiniteMap.get_erase]
  split <;> rfl

theorem connectionIdForNode_removeNodes : ∀ (removed : List NodeId) (store : RuntimeStore) (n : NodeId),
    (removed.foldl removeNode store).connectionIdForNode n =
      if n ∈ removed then none else store.connectionIdForNode n := by
  intro removed store n
  rw [connectionIdForNode, get_removeNodes]
  split <;> rfl

theorem index_removeNodes : ∀ (removed : List NodeId) (store : RuntimeStore),
    (removed.foldl removeNode store).nodeIdForConnection c = some n ↔
      store.nodeIdForConnection c = some n ∧
        ∀ m ∈ removed, store.connectionIdForNode m ≠ some c
  | [], _ => by simp
  | id :: removed, store => by
    rw [List.foldl_cons, index_removeNodes removed, List.forall_mem_cons, ← and_assoc]
    have hindex : (store.removeNode id).nodeIdForConnection c = some n ↔
        store.nodeIdForConnection c = some n ∧ store.connectionIdForNode id ≠ some c := by
      show (((store.connectionIdForNode id)).elim store.connectionNodes
        store.connectionNodes.erase).get c = some n ↔ _
      cases hid : store.connectionIdForNode id with
      | none => simp [nodeIdForConnection]
      | some c' =>
        rw [Option.elim_some, FiniteMap.get_erase]
        by_cases hc : c = c'
        · simp [hc]
        · simp [hc, Ne.symm hc, nodeIdForConnection]
    rw [hindex]
    refine and_congr_right fun ⟨_, hid⟩ => forall₂_congr fun m _ => ?_
    rw [connectionIdForNode_removeNode]
    by_cases hm : m = id
    · simp [hm, hid]
    · simp [hm]

theorem IndexSound.removeSubtree (h : store.IndexSound) {removed : List NodeId}
    (hok : store.removeSubtree nodeId = some (store', removed)) : store'.IndexSound := by
  rw [RuntimeStore.removeSubtree, Option.map_eq_some_iff] at hok
  obtain ⟨removed, -, heq⟩ := hok
  obtain ⟨rfl, rfl⟩ := Prod.mk.inj heq
  have hdetach := (sameConnections_detach nodeId).sound h
  intro c n hc
  obtain ⟨hc, hnot⟩ := (index_removeNodes removed _).mp hc
  have hbound := hdetach c n hc
  rw [connectionIdForNode_removeNodes, if_neg fun hn => hnot n hn hbound, hbound]

theorem IndexExact.removeSubtree (h : store.IndexExact) {removed : List NodeId}
    (hok : store.removeSubtree nodeId = some (store', removed)) : store'.IndexExact := by
  intro c n
  refine ⟨h.sound.removeSubtree hok c n, fun hc => ?_⟩
  rw [RuntimeStore.removeSubtree, Option.map_eq_some_iff] at hok
  obtain ⟨removed, -, heq⟩ := hok
  obtain ⟨rfl, rfl⟩ := Prod.mk.inj heq
  have hdetach := (sameConnections_detach nodeId).exact h
  rw [connectionIdForNode_removeNodes] at hc
  split at hc
  · cases hc
  next hn =>
    have hindex := (hdetach c n).mpr hc
    refine (index_removeNodes removed _).mpr ⟨hindex, fun m hm hbound => hn ?_⟩
    have hindex' := (hdetach c m).mpr hbound
    rw [hindex] at hindex'
    cases hindex'
    exact hm

/-! ## Bindings -/

/-- The index follows a node that is written again with this connection. -/
def Reindexes (store : RuntimeStore) (nodeId : NodeId) (connectionId : Option String)
    (store' : RuntimeStore) : Prop :=
  ∀ c, store'.nodeIdForConnection c =
    if connectionId = some c then some nodeId
    else if store.connectionIdForNode nodeId = some c then none
    else store.nodeIdForConnection c

theorem reindexes_bind {state : ConnectionState}
    (hok : store.bindConnection nodeId c state = .ok store') :
    store.Reindexes nodeId (some c) store' := by
  intro c'
  rw [bindConnection] at hok
  split at hok
  · cases hok
  next route hget =>
    cases hok
    rw [← connectionIdForNode_of_get hget]
    show (FiniteMap.insert _ c nodeId).get c' = _
    rw [FiniteMap.get_insert]
    by_cases hc : c' = c
    · rw [if_pos hc, if_pos (by rw [hc])]
    · rw [if_neg hc, if_neg fun he => hc (Option.some_inj.mp he).symm]
      -- the entry of the former connection goes, unless it is written again
      cases hprevious : route.connectionId with
      | none => rfl
      | some previous =>
        dsimp only
        by_cases hp : previous = c
        · rw [if_neg (not_not.mpr hp), if_neg fun he => hc ((Option.some_inj.mp he).symm.trans hp)]
          rfl
        · rw [if_pos hp, FiniteMap.get_erase]
          by_cases hp' : c' = previous
          · rw [if_pos hp', if_pos (by rw [hp'])]
          · rw [if_neg hp', if_neg fun he => hp' (Option.some_inj.mp he).symm]
            rfl

theorem reindexes_disconnect (hok : store.disconnectNode nodeId = .ok store') :
    store.Reindexes nodeId none store' := by
  intro c
  rw [disconnectNode] at hok
  split at hok
  · cases hok
  next route hget =>
    cases hok
    rw [← connectionIdForNode_of_get hget, if_neg nofun]
    show (route.connectionId.elim store.connectionNodes store.connectionNodes.erase).get c = _
    cases route.connectionId with
    | none => rfl
    | some c' =>
      rw [Option.elim_some, FiniteMap.get_erase]
      by_cases hc : c = c'
      · rw [if_pos hc, if_pos (by rw [hc])]
      · rw [if_neg hc, if_neg fun he => hc (Option.some_inj.mp he).symm]
        rfl

theorem IndexSound.rewrite {connectionId : Option String} (h : store.IndexSound)
    (hwrite : store.Rewrites nodeId connectionId store')
    (hindex : store.Reindexes nodeId connectionId store') : store'.IndexSound := by
  intro c n hc
  rw [hindex] at hc
  rw [hwrite.connectionIdForNode]
  split at hc
  next hnew =>
    cases hc
    rw [if_pos rfl, hnew]
  next =>
    split at hc
    · cases hc
    next hformer =>
      have hbound := h c n hc
      rw [if_neg, hbound]
      rintro rfl
      exact hformer hbound

theorem IndexExact.rewrite {connectionId : Option String} (h : store.IndexExact)
    (hexclusive : ∀ c n, connectionId = some c → store.connectionIdForNode n = some c → n = nodeId)
    (hwrite : store.Rewrites nodeId connectionId store')
    (hindex : store.Reindexes nodeId connectionId store') : store'.IndexExact := by
  intro c n
  refine ⟨h.sound.rewrite hwrite hindex c n, fun hc => ?_⟩
  rw [hwrite.connectionIdForNode] at hc
  rw [hindex]
  split at hc
  next hn => rw [if_pos hc, hn]
  next hn =>
    have hbound := (h c n).mpr hc
    rw [if_neg fun hnew => hn (hexclusive c n hnew hc), if_neg, hbound]
    intro hformer
    have hother := (h c nodeId).mpr hformer
    rw [hbound] at hother
    exact hn (Option.some_inj.mp hother)

/-- A node that is reconciled has no connection that it did not have. -/
theorem connectionId_reconcile {connections : String → Option ConnectionState} {route : RuntimeNode}
    (h : (route.reconcile connections).connectionId = some c) : route.connectionId = some c := by
  rw [RuntimeNode.reconcile] at h
  split at h
  · exact h
  · split at h
    · exact h
    · cases h

theorem connectionIdForNode_reconcile {connections : String → Option ConnectionState}
    {visited : List NodeId}
    (h : (store.reconcileWithConnections connections visited).connectionIdForNode n = some c) :
    store.connectionIdForNode n = some c := by
  rw [connectionIdForNode, reconcileWithConnections] at h
  obtain ⟨route', hroute', hc⟩ := Option.bind_eq_some_iff.mp h
  obtain ⟨route, hroute, rfl⟩ :=
    Option.map_eq_some_iff.mp ((FiniteMap.get_mapValues _ _ n).symm.trans hroute')
  rw [connectionIdForNode, hroute]
  exact connectionId_reconcile hc

theorem IndexExact.reconcile (h : store.IndexExact) (connections : String → Option ConnectionState)
    {visited : List NodeId} (hvisited : ∀ n, n ∈ visited ↔ n ∈ store.nodes.keys) :
    (store.reconcileWithConnections connections visited).IndexExact := by
  refine exact_rebuild hvisited fun m n c hm hn => ?_
  have hm' := (h c m).mpr (@connectionIdForNode_reconcile store m c connections visited hm)
  have hn' := (h c n).mpr (@connectionIdForNode_reconcile store n c connections visited hn)
  exact Option.some_inj.mp (hm'.symm.trans hn')

variable {snapshot : NodeTreeSnapshot} {visited : List NodeId}

/-- The node of a snapshot that a connection of its entries comes from. -/
theorem exists_of_connectionId_entryFor (h : (entryFor snapshot n).bind (·.connectionId) = some c) :
    ∃ node ∈ snapshot.nodes, node.id = n ∧ node.route.connectionId = some c := by
  obtain ⟨route, hroute, hc⟩ := Option.bind_eq_some_iff.mp h
  obtain ⟨node, hnode, hid, rfl⟩ := entryFor_eq_some hroute
  exact ⟨node, hnode, hid, hc⟩

theorem index_applySnapshot (hvisited : ∀ n, n ∈ visited ↔ n ∈ snapshot.ids)
    (hok : applySnapshot snapshot visited = .ok store') :
    store'.IndexSound ∧ (store.Exclusive (.applySnapshot snapshot visited) → store'.IndexExact) := by
  by_cases hvalid : snapshot.Valid
  · obtain ⟨next, hnext, hentries, -, hrebuilt⟩ := applySnapshot_of_valid hvalid hvisited
    cases hok.symm.trans hnext
    rw [hrebuilt]
    refine ⟨sound_rebuild store' visited, fun hexclusive => exact_rebuild (fun n => ?_)
      fun m n c hm hn => ?_⟩
    · rw [hvisited, ← isSome_entryFor, ← hentries]
      exact (store'.nodes.mem_keys n).symm
    · rw [connectionIdForNode, hentries] at hm hn
      obtain ⟨a, ha, rfl, hac⟩ := exists_of_connectionId_entryFor hm
      obtain ⟨b, hb, rfl, hbc⟩ := exists_of_connectionId_entryFor hn
      rw [hexclusive a ha b hb c hac hbc]
  · obtain ⟨error, herror⟩ := @applySnapshot_of_not_valid _ visited hvalid
    cases hok.symm.trans herror

/-! ## The index in runs -/

theorem sameConnections_expandManualPreset {savedConnectionId : String} {generated : Nat → NodeId}
    {hops : List SshConfig} {target : SshConfig} {nowMs : UInt64} :
    store.SameConnections
      (store.expandManualPreset savedConnectionId generated hops target nowMs).1 := by
  cases hops with
  | nil => exact sameConnections_upsertNode
  | cons hop hops =>
    rw [expandManualPreset]
    split
    · exact ⟨fun _ => rfl, rfl⟩
    · exact sameConnections_upsertNode.trans (sameConnections_appendChain _ _ _)

theorem sameConnections_expandUnderParent {savedConnectionId : String} {generated : Nat → NodeId}
    {hops : List SshConfig} {target : SshConfig} {nowMs : UInt64} :
    store.SameConnections
      (store.expandManualPresetUnderParent parentId savedConnectionId generated hops target
        nowMs).1 := by
  rw [expandManualPresetUnderParent]
  split
  · exact ⟨fun _ => rfl, rfl⟩
  · split
    · exact ⟨fun _ => rfl, rfl⟩
    · split
      · exact ⟨fun _ => rfl, rfl⟩
      · exact sameConnections_appendChain _ _ _

theorem sameConnections_drillDown {config : SshConfig} {nowMs : UInt64}
    (hok : store.drillDown parentId nodeId config nowMs = .ok store') :
    store.SameConnections store' := by
  rw [drillDown] at hok
  split at hok
  · cases hok
  · split at hok
    · cases hok
    · split at hok
      · cases hok
      · exact sameConnections_upsertChild hok

/-- What every operation does to the index: nothing false gets into it, and nothing is lost when no
connection is bound twice. -/
theorem index_step {operation : TreeOperation} (hallowed : store.Allowed operation)
    (hstep : store.step operation = some store') :
    (store.IndexSound → store'.IndexSound) ∧
      (store.Exclusive operation → store.IndexExact → store'.IndexExact) := by
  have hsame : store.SameConnections store' →
      (store.IndexSound → store'.IndexSound) ∧
        (store.Exclusive operation → store.IndexExact → store'.IndexExact) :=
    fun h => ⟨h.sound, fun _ => h.exact⟩
  have hrefused : store.SameConnections store := ⟨fun _ => rfl, rfl⟩
  cases operation with
  | upsertNode nodeId config origin nowMs =>
    cases hstep
    exact hsame sameConnections_upsertNode
  | upsertChildNode parentId nodeId config origin nowMs =>
    cases hstep
    exact hsame (orSame_induction hrefused fun next hok => sameConnections_upsertChild hok)
  | drillDown parentId nodeId config nowMs =>
    cases hstep
    exact hsame (orSame_induction hrefused fun next hok => sameConnections_drillDown hok)
  | expandManualPreset savedConnectionId generated hops target nowMs =>
    cases hstep
    exact hsame sameConnections_expandManualPreset
  | expandManualPresetUnderParent parentId savedConnectionId generated hops target nowMs =>
    cases hstep
    exact hsame sameConnections_expandUnderParent
  | removeSubtree nodeId =>
    obtain ⟨⟨next, removed⟩, hok, rfl⟩ := Option.map_eq_some_iff.mp hstep
    exact ⟨fun h => h.removeSubtree hok, fun _ h => h.removeSubtree hok⟩
  | applySnapshot snapshot visited =>
    cases hstep
    cases hok : applySnapshot snapshot visited with
    | ok next =>
      have hindex := @index_applySnapshot store next snapshot visited hallowed hok
      exact ⟨fun _ => hindex.1, fun hexclusive _ => hindex.2 hexclusive⟩
    | error => exact ⟨hrefused.sound, fun _ => hrefused.exact⟩
  | clear =>
    cases hstep
    exact ⟨fun _ => exact_new.sound, fun _ _ => exact_new⟩
  | bindConnection nodeId connectionId state =>
    cases hstep
    refine ⟨fun h => orSame_induction h fun next hok => ?_,
      fun hexclusive h => orSame_induction h fun next hok => ?_⟩
    · exact h.rewrite (rewrites_bind hok) (reindexes_bind hok)
    · refine h.rewrite (fun c n hc hn => hexclusive n ?_) (rewrites_bind hok) (reindexes_bind hok)
      rw [hn, hc]
  | disconnectNode nodeId =>
    cases hstep
    refine ⟨fun h => orSame_induction h fun next hok => ?_,
      fun _ h => orSame_induction h fun next hok => ?_⟩
    · exact h.rewrite (rewrites_disconnect hok) (reindexes_disconnect hok)
    · exact h.rewrite (fun _ _ hc => (by cases hc)) (rewrites_disconnect hok) (reindexes_disconnect hok)
  | applyNodeReadiness nodeId readiness reason =>
    cases hstep
    exact hsame (orSame_induction hrefused fun next hok =>
      Rewrites.sameConnections (rewrites_readiness hok))
  | updateConnectionState nodeId state =>
    cases hstep
    exact hsame (orSame_induction hrefused fun next hok =>
      Rewrites.sameConnections (rewrites_updateState hok))
  | updateOrigin nodeId origin =>
    cases hstep
    exact hsame (orSame_induction hrefused fun next hok =>
      Rewrites.sameConnections (rewrites_updateOrigin hok))
  | reconcileWithConnections connections visited =>
    cases hstep
    exact ⟨fun _ => sound_rebuild _ visited, fun _ h => h.reconcile connections hallowed⟩

/-- No operation of a run binds a connection that another node has. -/
def ExclusiveAll : RuntimeStore → List TreeOperation → Prop
  | _, [] => True
  | store, operation :: operations =>
    store.Exclusive operation ∧
      ∀ next, store.step operation = some next → next.ExclusiveAll operations

theorem index_run : ∀ (operations : List TreeOperation) {store store' : RuntimeStore},
    store.AllowedAll operations → store.run operations = some store' →
      (store.IndexSound → store'.IndexSound) ∧
        (store.ExclusiveAll operations → store.IndexExact → store'.IndexExact)
  | [], store, store', _, hrun => by
    cases hrun
    exact ⟨id, fun _ => id⟩
  | operation :: operations, store, store', hallowed, hrun => by
    obtain ⟨next, hstep, hnext⟩ := Option.bind_eq_some_iff.mp hrun
    have hfirst := index_step hallowed.1 hstep
    have hrest := index_run operations (hallowed.2 next hstep) hnext
    refine ⟨fun h => hrest.1 (hfirst.1 h), fun hexclusive h => ?_⟩
    exact hrest.2 (hexclusive.2 next hstep) (hfirst.2 hexclusive.1 h)

/-- **The index of the connections stays right**: it never names a node that does not have the
connection, and it names the node of every connection when none is bound twice. -/
theorem connection_index_in_run (operations : List TreeOperation)
    (hallowed : new.AllowedAll operations) :
    ∃ store, new.run operations = some store ∧ store.IndexSound ∧
      (new.ExclusiveAll operations → store.IndexExact) := by
  obtain ⟨store, hrun, -⟩ := isForest_new.run operations hallowed
  have hindex := index_run operations hallowed hrun
  exact ⟨store, hrun, hindex.1 exact_new.sound, fun hexclusive => hindex.2 hexclusive exact_new⟩

/-- A root that is bound. -/
def boundRoot : List TreeOperation :=
  [.upsertNode "root" (configOf .agent) .direct 1, .bindConnection "root" "link" .active]

theorem connection_index_in_run_bound :
    ∃ store, new.run boundRoot = some store ∧ store.IndexSound ∧ store.IndexExact := by
  obtain ⟨store, hrun, hsound, hexact⟩ :=
    connection_index_in_run boundRoot ⟨trivial, fun _ _ => ⟨trivial, fun _ _ => trivial⟩⟩
  refine ⟨store, hrun, hsound, hexact ⟨trivial, fun next hnext => ⟨?_, fun _ _ => trivial⟩⟩⟩
  cases hnext
  intro n hn
  rw [sameConnections_upsertNode.1] at hn
  cases hn

end OxideTerm.Ssh.RuntimeStore
