import OxideTerm.Lib.FiniteMap
import OxideTerm.Lib.Traversal
import OxideTerm.Ssh.Events
import OxideTerm.Ssh.SessionTree

/-!
# The store of the session tree

What the operations of `NodeRuntimeStore` do to the nodes, to the list of roots and to the index of
connections. Identifiers that the source generates are arguments here, and so is the order in which
a concurrent map is visited where it matters. Handles of terminals and transfers are left out.
-/

namespace OxideTerm.Ssh

open OxideTerm.Lib

/-! ## States -/

inductive RouteError where
  | nodeNotFound (nodeId : String)
  | parentNotConnected (nodeId : String)
  | maxDepthExceeded (limit : UInt32)
  | connectionError (reason : String)
deriving DecidableEq

def maxSessionTreeDepth : UInt32 := 10

inductive ConnectionState where
  | connecting
  | active
  | idle
  | linkDown
  | reconnecting
  | disconnecting
  | disconnected
  | error (reason : String)
deriving DecidableEq

def readinessForConnectionState : ConnectionState → NodeReadiness
  | .active => .ready
  | .idle => .ready
  | .connecting => .connecting
  | .reconnecting => .connecting
  | .error _ => .error
  | .linkDown => .error
  | .disconnecting => .disconnected
  | .disconnected => .disconnected

def NodeOrigin.originType : NodeOrigin → String
  | .manualPreset _ _ => "manual_preset"
  | .autoRoute _ _ _ => "auto_route"
  | .drillDown _ => "drill_down"
  | .direct => "direct"
  | .restored _ => "restored"

def errorForConnectionState : ConnectionState → Option String
  | .error reason => some reason
  | .linkDown => some "Link down"
  | _ => none

/-- An entry with what it has of a live connection. -/
structure RuntimeNode extends NodeRuntimeEntry where
  connectionId : Option String
  readiness : NodeReadiness
  error : Option String
deriving DecidableEq

/-- An entry without its connection. -/
def RuntimeNode.disconnect (route : RuntimeNode) : RuntimeNode :=
  { route with
    connectionId := none
    readiness := .disconnected
    error := none
    generation := route.generation + 1 }

/-- A node after the states of all connections are known. -/
def RuntimeNode.reconcile (connections : String → Option ConnectionState) (route : RuntimeNode) :
    RuntimeNode :=
  match route.connectionId with
  | none => { route with readiness := .disconnected, error := none }
  | some connectionId =>
    match connections connectionId with
    | some state =>
      { route with
        readiness := readinessForConnectionState state
        error := errorForConnectionState state
        generation := route.generation + 1 }
    | none => route.disconnect

structure RuntimeStore where
  nodes : FiniteMap NodeId RuntimeNode
  rootIds : List NodeId
  connectionNodes : FiniteMap String NodeId

namespace RuntimeStore

def new : RuntimeStore := ⟨.empty, [], .empty⟩

/-- The entry that an upsert makes. -/
def newNode (config : SshConfig) (parentId : Option NodeId) (depth : UInt32) (origin : NodeOrigin)
    (nowMs : UInt64) : RuntimeNode where
  config := config
  parentId := parentId
  childrenIds := []
  depth := depth
  origin := origin
  createdAtMs := nowMs
  generation := 0
  connectionId := none
  readiness := .disconnected
  error := none

/-! ## Nodes that are added -/

variable (store : RuntimeStore)

def upsertNodeWithOrigin (nodeId : NodeId) (config : SshConfig) (origin : NodeOrigin)
    (nowMs : UInt64) : RuntimeStore :=
  match store.nodes.get nodeId with
  | some route =>
    { store with
      nodes := store.nodes.insert nodeId
        { route with config := config, origin := origin, generation := route.generation + 1 } }
  | none =>
    { store with
      nodes := store.nodes.insert nodeId (newNode config none 0 origin nowMs)
      rootIds := if store.rootIds.contains nodeId then store.rootIds else store.rootIds ++ [nodeId] }

/-- The nodes with the child noted at its parent. -/
def withChild (parentId nodeId : NodeId) (parent : RuntimeNode) : FiniteMap NodeId RuntimeNode :=
  if parent.childrenIds.contains nodeId then store.nodes
  else
    store.nodes.insert parentId
      { parent with
        childrenIds := parent.childrenIds ++ [nodeId]
        generation := parent.generation + 1 }

def upsertChildNodeWithOrigin (parentId nodeId : NodeId) (config : SshConfig) (origin : NodeOrigin)
    (nowMs : UInt64) : Except RouteError RuntimeStore :=
  match store.nodes.get parentId with
  | none => .error (.nodeNotFound parentId)
  | some parent =>
    let nodes := store.withChild parentId nodeId parent
    let child :=
      match nodes.get nodeId with
      | some route =>
        { route with
          config := config
          parentId := some parentId
          depth := parent.depth + 1
          origin := origin
          generation := route.generation + 1 }
      | none => newNode config (some parentId) (parent.depth + 1) origin nowMs
    .ok
      { store with
        nodes := nodes.insert nodeId child
        rootIds := store.rootIds.filter fun id => id ≠ nodeId }

/-- `drill_down`, with the identifier that it generates. -/
def drillDown (parentId nodeId : NodeId) (config : SshConfig) (nowMs : UInt64) :
    Except RouteError RuntimeStore :=
  match store.nodes.get parentId with
  | none => .error (.nodeNotFound parentId)
  | some parent =>
    if parent.readiness ≠ .ready then .error (.parentNotConnected parentId)
    else if maxSessionTreeDepth < parent.depth + 1 then
      .error (.maxDepthExceeded maxSessionTreeDepth)
    else
      store.upsertChildNodeWithOrigin parentId nodeId config
        (.drillDown (nowMs.toInt64.toInt.tdiv 1000)) nowMs

/-- A node that an expansion adds. -/
structure ChainNode where
  nodeId : NodeId
  config : SshConfig
  origin : NodeOrigin

/-- The nodes of a chain, each one below the one in front of it. -/
def appendChain (nowMs : UInt64) :
    RuntimeStore → NodeId → List ChainNode → RuntimeStore × Except RouteError Unit
  | store, _, [] => (store, .ok ())
  | store, parentId, node :: rest =>
    match store.upsertChildNodeWithOrigin parentId node.nodeId node.config node.origin nowMs with
    | .error error => (store, .error error)
    | .ok next => appendChain nowMs next node.nodeId rest

/-- The hops and the target of a preset, with the identifiers that are generated for them. -/
def presetChain (savedConnectionId : String) (generated : Nat → NodeId) (hops : List SshConfig)
    (target : SshConfig) : List ChainNode :=
  ((hops ++ [target]).zipIdx).map fun entry =>
    ⟨generated entry.2, entry.1, .manualPreset savedConnectionId (.ofNat entry.2)⟩

/-- `expand_manual_preset`; the chain of a list of hops that does not fit in 32 bits is too deep. -/
def expandManualPreset (savedConnectionId : String) (generated : Nat → NodeId)
    (hops : List SshConfig) (target : SshConfig) (nowMs : UInt64) :
    RuntimeStore × Except RouteError Unit :=
  match hops with
  | [] => (store.upsertNodeWithOrigin (generated 0) target .direct nowMs, .ok ())
  | hop :: _ =>
    if maxSessionTreeDepth.toNat < hops.length + 1 then
      (store, .error (.maxDepthExceeded maxSessionTreeDepth))
    else
      appendChain nowMs
        (store.upsertNodeWithOrigin (generated 0) hop (.manualPreset savedConnectionId 0) nowMs)
        (generated 0) (presetChain savedConnectionId generated hops target).tail

def expandManualPresetUnderParent (parentId : NodeId) (savedConnectionId : String)
    (generated : Nat → NodeId) (hops : List SshConfig) (target : SshConfig) (nowMs : UInt64) :
    RuntimeStore × Except RouteError Unit :=
  match store.nodes.get parentId with
  | none => (store, .error (.nodeNotFound parentId))
  | some parent =>
    if parent.readiness ≠ .ready then (store, .error (.parentNotConnected parentId))
    else if maxSessionTreeDepth.toNat < parent.depth.toNat + (hops.length + 1) then
      (store, .error (.maxDepthExceeded maxSessionTreeDepth))
    else appendChain nowMs store parentId (presetChain savedConnectionId generated hops target)

/-! ## Traversals -/

def childrenOf (nodeId : NodeId) : List NodeId :=
  ((store.nodes.get nodeId).map (·.childrenIds)).getD []

def parentOf (nodeId : NodeId) : Option NodeId := (store.nodes.get nodeId).bind (·.parentId)

/-- The source does not count the levels it goes down; it comes back if these are enough. -/
def subtreePostorder (nodeId : NodeId) : Option (List NodeId) :=
  Forest.collect (fun n below => below ++ [n]) store.childrenOf (store.nodes.keys.card + 1) nodeId

structure FlatNode where
  id : NodeId
  parentId : Option NodeId
  depth : UInt32
  host : List Char
  port : UInt16
  username : List Char
  state : NodeReadiness
  error : Option String
  hasChildren : Bool
  isLastChild : Bool
  originType : String
  sshConnectionId : Option String
deriving DecidableEq

def flatNode (nodeId : NodeId) (route : RuntimeNode) : FlatNode where
  id := nodeId
  parentId := route.parentId
  depth := route.depth
  host := route.config.host
  port := route.config.port
  username := route.config.username
  state := route.readiness
  error := route.error
  originType := route.origin.originType
  sshConnectionId := route.connectionId
  hasChildren := !route.childrenIds.isEmpty
  isLastChild :=
    match route.parentId with
    | some parentId =>
      (store.nodes.get parentId).all fun parent => parent.childrenIds.getLast? == some nodeId
    | none => store.rootIds.getLast? == some nodeId

/-- `flatten`, where an identifier without a node lists nothing. -/
def flatten : Option (List FlatNode) :=
  (store.rootIds.mapM (Forest.collect (· :: ·) store.childrenOf (store.nodes.keys.card + 1))).map
    fun lists => lists.flatten.filterMap fun nodeId =>
      (store.nodes.get nodeId).map (store.flatNode nodeId)

/-- The loop of `path_to_node`, so many steps up at most. -/
def pathUp : Nat → NodeId → Option (Except RouteError (List NodeId))
  | 0, _ => none
  | fuel + 1, nodeId =>
    match store.nodes.get nodeId with
    | none => some (.error (.nodeNotFound nodeId))
    | some node =>
      match node.parentId with
      | none => some (.ok [nodeId])
      | some parentId => (pathUp fuel parentId).map (·.map (nodeId :: ·))

def pathToNode (nodeId : NodeId) : Option (Except RouteError (List NodeId)) :=
  (store.pathUp (store.nodes.keys.card + 1) nodeId).map (·.map List.reverse)

/-- The loop of `node_is_descendant_or_same`, so many steps up at most. -/
def isDescendantOrSame (ancestorId : NodeId) : Nat → NodeId → Option Bool
  | 0, _ => none
  | fuel + 1, candidateId =>
    if candidateId = ancestorId then some true
    else
      match store.parentOf candidateId with
      | none => some false
      | some parentId => isDescendantOrSame ancestorId fuel parentId

def nodeIsDescendantOrSame (nodeId ancestorId : NodeId) : Option Bool :=
  store.isDescendantOrSame ancestorId (store.nodes.keys.card + 1) nodeId

/-- What candidates are sorted by. -/
def candidateKey (nodeId : NodeId) : Nat ×ₗ NodeId :=
  toLex (((store.nodes.get nodeId).map (·.depth.toNat)).getD (2 ^ 32 - 1), nodeId)

def minimalSubtreeRoots (candidateNodeIds : List NodeId) : Option (List NodeId) :=
  ((candidateNodeIds.filter fun nodeId => (store.nodes.get nodeId).isSome).mergeSort
      fun a b => decide (store.candidateKey a ≤ store.candidateKey b)).foldlM
    (Forest.keepUncovered store.nodeIsDescendantOrSame) []

/-! ## Nodes that are removed -/

def removeNode (nodeId : NodeId) : RuntimeStore :=
  { store with
    nodes := store.nodes.erase nodeId
    connectionNodes :=
      ((store.nodes.get nodeId).bind (·.connectionId)).elim store.connectionNodes
        store.connectionNodes.erase }

/-- What is left of a node where it hangs. -/
def detach (nodeId : NodeId) : RuntimeStore :=
  match store.parentOf nodeId with
  | some parentId =>
    { store with
      nodes := store.nodes.modify parentId fun parent =>
        { parent with
          childrenIds := parent.childrenIds.filter fun id => id ≠ nodeId
          generation := parent.generation + 1 } }
  | none => { store with rootIds := store.rootIds.filter fun id => id ≠ nodeId }

def removeSubtree (nodeId : NodeId) : Option (RuntimeStore × List NodeId) :=
  (store.subtreePostorder nodeId).map fun removed =>
    (removed.foldl removeNode (store.detach nodeId), removed)

/-- `clear`, which leaves what a new store has. -/
def clear : RuntimeStore := new

/-! ## Connections -/

def bindConnection (nodeId : NodeId) (connectionId : String) (state : ConnectionState) :
    Except RouteError RuntimeStore :=
  match store.nodes.get nodeId with
  | none => .error (.nodeNotFound nodeId)
  | some route =>
    let connectionNodes :=
      match route.connectionId with
      | some previousId =>
        if previousId ≠ connectionId then store.connectionNodes.erase previousId
        else store.connectionNodes
      | none => store.connectionNodes
    .ok
      { store with
        connectionNodes := connectionNodes.insert connectionId nodeId
        nodes := store.nodes.insert nodeId
          { route with
            connectionId := some connectionId
            generation := route.generation + 1
            readiness := readinessForConnectionState state
            error := errorForConnectionState state } }

def disconnectNode (nodeId : NodeId) : Except RouteError RuntimeStore :=
  match store.nodes.get nodeId with
  | none => .error (.nodeNotFound nodeId)
  | some route =>
    .ok
      { store with
        connectionNodes := route.connectionId.elim store.connectionNodes store.connectionNodes.erase
        nodes := store.nodes.insert nodeId route.disconnect }

def applyNodeReadiness (nodeId : NodeId) (readiness : NodeReadiness) (reason : String) :
    Except RouteError RuntimeStore :=
  match store.nodes.get nodeId with
  | none => .error (.nodeNotFound nodeId)
  | some route =>
    .ok
      { store with
        nodes := store.nodes.insert nodeId
          { route with
            generation := route.generation + 1
            readiness := readiness
            error := if readiness = .error ∧ reason ≠ "" then some reason else none } }

/-- `update_connection_state`. -/
def updateConnectionState (nodeId : NodeId) (state : ConnectionState) :
    Except RouteError RuntimeStore :=
  match store.nodes.get nodeId with
  | none => .error (.nodeNotFound nodeId)
  | some route =>
    .ok
      { store with
        nodes := store.nodes.insert nodeId
          { route with
            generation := route.generation + 1
            readiness := readinessForConnectionState state
            error := errorForConnectionState state } }

/-- `update_origin`, whose count saturates. -/
def updateOrigin (nodeId : NodeId) (origin : NodeOrigin) : Except RouteError RuntimeStore :=
  match store.nodes.get nodeId with
  | none => .error (.nodeNotFound nodeId)
  | some route =>
    .ok
      { store with
        nodes := store.nodes.insert nodeId
          { route with
            origin := origin
            generation := .ofNat (min (route.generation.toNat + 1) (2 ^ 64 - 1)) } }

def nodeIdForConnection (connectionId : String) : Option NodeId :=
  store.connectionNodes.get connectionId

def connectionIdForNode (nodeId : NodeId) : Option String :=
  (store.nodes.get nodeId).bind (·.connectionId)

/-- The index of the connections, from the nodes in the order in which they are visited. -/
def rebuildConnectionIndex (visited : List NodeId) : RuntimeStore :=
  { store with
    connectionNodes := visited.foldl
      (fun index nodeId =>
        ((store.nodes.get nodeId).bind (·.connectionId)).elim index (index.insert · nodeId))
      .empty }

def reconcileWithConnections (connections : String → Option ConnectionState)
    (visited : List NodeId) : RuntimeStore :=
  rebuildConnectionIndex
    { store with nodes := store.nodes.mapValues (RuntimeNode.reconcile connections) } visited

end RuntimeStore

/-! ## Snapshots -/

structure NodeTreeSnapshotNode where
  id : NodeId
  route : RuntimeNode
deriving DecidableEq

structure NodeTreeSnapshot where
  version : UInt32
  exportedAtMs : UInt64
  rootIds : List NodeId
  nodes : List NodeTreeSnapshotNode
deriving DecidableEq

/-- What snapshots are sorted by. -/
def NodeTreeSnapshotNode.sortKey (node : NodeTreeSnapshotNode) : Nat ×ₗ Nat ×ₗ NodeId :=
  toLex (node.route.depth.toNat, toLex (node.route.createdAtMs.toNat, node.id))

def rootIdsFromNodes (nodes : List NodeTreeSnapshotNode) : List NodeId :=
  (nodes.filter fun node => node.route.parentId.isNone).map (·.id)

/-- The loop of `ordered_snapshot_ids` over one of its lists, with what has been seen. -/
def unseen (seen : List NodeId) : List NodeId → List NodeId
  | [] => []
  | id :: rest => if seen.contains id then unseen seen rest else id :: unseen (id :: seen) rest

def orderedSnapshotIds (preferred derived : List NodeId) : List NodeId :=
  let ordered := unseen [] (preferred.filter derived.contains)
  ordered ++ unseen ordered derived

namespace NodeTreeSnapshot

variable (snapshot : NodeTreeSnapshot)

def ids : List NodeId := snapshot.nodes.map (·.id)

/-- `parent_by_id`. -/
def parentById (nodeId : NodeId) : Option NodeId :=
  (snapshot.nodes.find? fun node => node.id = nodeId).bind (·.route.parentId)

/-- The inner loop of `validate_snapshot_parent_graph`: a node that is met twice, if there is one. -/
def repeated : Nat → List NodeId → NodeId → Option NodeId
  | 0, _, _ => none
  | fuel + 1, path, nodeId =>
    if path.contains nodeId then some nodeId
    else (snapshot.parentById nodeId).bind (repeated fuel (nodeId :: path))

def validateParentGraph : Except RouteError Unit :=
  match snapshot.ids.findSome? (snapshot.repeated (snapshot.ids.length + 1) []) with
  | some nodeId =>
    .error (.connectionError ("invalid node tree snapshot: parent cycle contains " ++ nodeId))
  | none => .ok ()

/-- The loop of `snapshot_node_depth`, so many steps up at most. -/
def nodeDepth : Nat → NodeId → Nat
  | 0, _ => 0
  | fuel + 1, nodeId =>
    (snapshot.parentById nodeId).elim 0 fun parentId => nodeDepth fuel parentId + 1

/-- `snapshot_node_depth`, whose addition saturates. -/
def snapshotNodeDepth (nodeId : NodeId) : UInt32 :=
  .ofNat (min (snapshot.nodeDepth snapshot.ids.length nodeId) (2 ^ 32 - 1))

def derivedChildren (nodeId : NodeId) : List NodeId :=
  (snapshot.nodes.filter fun node => node.route.parentId = some nodeId).map (·.id)

/-- What is checked before anything is changed. -/
def validate : Except RouteError Unit :=
  if ¬ snapshot.ids.Nodup then
    .error (.connectionError "invalid node tree snapshot: duplicate node identifiers")
  else
    match snapshot.nodes.findSome? fun node =>
        node.route.parentId.filter fun parentId => !snapshot.ids.contains parentId with
    | some parentId => .error (.nodeNotFound parentId)
    | none =>
      match snapshot.validateParentGraph with
      | .error error => .error error
      | .ok () =>
        if snapshot.ids.any fun nodeId => maxSessionTreeDepth < snapshot.snapshotNodeDepth nodeId then
          .error (.maxDepthExceeded maxSessionTreeDepth)
        else .ok ()

/-- The entry that stands for a node of the snapshot. -/
def restored (node : NodeTreeSnapshotNode) : RuntimeNode :=
  { node.route with
    childrenIds := orderedSnapshotIds node.route.childrenIds (snapshot.derivedChildren node.id)
    depth := snapshot.snapshotNodeDepth node.id }

end NodeTreeSnapshot

namespace RuntimeStore

variable (store : RuntimeStore)

/-- `export_snapshot`, with the order in which the nodes are visited. -/
def exportSnapshot (visited : List NodeId) (nowMs : UInt64) : NodeTreeSnapshot where
  version := 1
  exportedAtMs := nowMs
  rootIds := store.rootIds
  nodes :=
    (visited.filterMap fun nodeId => (store.nodes.get nodeId).map fun route => ⟨nodeId, route⟩).mergeSort
      fun a b => decide (a.sortKey ≤ b.sortKey)

/-- The entry with the links that lead to nodes. -/
def reconciled (route : RuntimeNode) : RuntimeNode :=
  let children := route.childrenIds.filter fun id => (store.nodes.get id).isSome
  if (route.parentId.filter fun parentId => (store.nodes.get parentId).isNone).isSome then
    { route with childrenIds := children, parentId := none, depth := 0 }
  else { route with childrenIds := children }

/-- The roots in the order of their creation. -/
def computedRoots (visited : List NodeId) : List NodeId :=
  (visited.filter fun nodeId => (store.nodes.get nodeId).any (·.parentId.isNone)).mergeSort
    fun a b => decide (((store.nodes.get a).map (·.createdAtMs)).getD 0 ≤
      ((store.nodes.get b).map (·.createdAtMs)).getD 0)

/-- `reconcile_topology`, with the order in which the nodes are visited. -/
def reconcileTopology (visited : List NodeId) : RuntimeStore :=
  let nodes := store.nodes.mapValues store.reconciled
  let computed := computedRoots { store with nodes := nodes } visited
  let roots := store.rootIds.filter fun id =>
    (nodes.get id).isSome && computed.contains id
  let roots := computed.foldl (fun roots id => if roots.contains id then roots else roots ++ [id]) roots
  rebuildConnectionIndex { store with nodes := nodes, rootIds := roots } visited

/-- `apply_snapshot`, with the order in which the new nodes are visited. -/
def applySnapshot (snapshot : NodeTreeSnapshot) (visited : List NodeId) :
    Except RouteError RuntimeStore :=
  match snapshot.validate with
  | .error error => .error error
  | .ok () =>
    .ok <| reconcileTopology
      { nodes := .ofList (snapshot.nodes.map fun node => (node.id, snapshot.restored node))
        rootIds := orderedSnapshotIds snapshot.rootIds (rootIdsFromNodes snapshot.nodes)
        connectionNodes := .ofList (snapshot.nodes.filterMap fun node =>
          node.route.connectionId.map fun connectionId => (connectionId, node.id)) } visited

/-! ## Restarts -/

/-- The entries in the order in which the nodes are visited. -/
def entries (visited : List NodeId) : List (NodeId × NodeRuntimeEntry) :=
  visited.filterMap fun nodeId =>
    (store.nodes.get nodeId).map fun route => (nodeId, route.toNodeRuntimeEntry)

theorem entries_sublist : ∀ visited : List NodeId,
    ((store.entries visited).map Prod.fst).Sublist visited
  | [] => .slnil
  | nodeId :: visited => by
    rw [entries, List.filterMap_cons]
    cases store.nodes.get nodeId with
    | none => exact (entries_sublist visited).cons nodeId
    | some route => exact (entries_sublist visited).cons_cons nodeId

/-- The store as it is persisted. -/
def tree (visited : List NodeId) (hvisited : visited.Nodup) : NodeRuntimeStore :=
  ⟨store.entries visited, store.rootIds, (store.entries_sublist visited).nodup hvisited⟩

end RuntimeStore

section Restart

/-! `reread` is what a configuration is when it is read back, and `savedOriginConfig` looks up the
saved connections. -/

variable (reread : SshConfig → SshConfig) (savedOriginConfig : NodeOrigin → Option SshConfig)

/-- A persisted node with its configuration, if there is one. -/
def restoredNode (node : NodeTreePersistenceNode) : Option NodeTreeSnapshotNode :=
  ((node.config.map reread).or (savedOriginConfig node.origin)).map fun config =>
    { id := node.id
      route :=
        { config := config
          parentId := node.parentId
          childrenIds := node.childrenIds
          depth := node.depth
          origin := node.origin
          createdAtMs := node.createdAtMs
          generation := node.generation
          connectionId := none
          readiness := .disconnected
          error := none } }

/-- The snapshot that `restore_session_tree_snapshot` makes of what is read. -/
def restoredSnapshot (persisted : NodeTreePersistenceSnapshot) : NodeTreeSnapshot :=
  let restoredNodes := persisted.nodes.filterMap (restoredNode reread savedOriginConfig)
  { version := persisted.version
    exportedAtMs := persisted.exportedAtMs
    rootIds := persisted.rootIds.filter fun id => (restoredNodes.map (·.id)).contains id
    nodes := restoredNodes }

/-- `restore_session_tree_snapshot` of what was persisted, into a store that is new. -/
def RuntimeStore.restart (store : RuntimeStore) (visited : List NodeId) (hvisited : visited.Nodup)
    (nowMs : UInt64) (visited' : List NodeId) : RuntimeStore :=
  match RuntimeStore.applySnapshot (restoredSnapshot reread savedOriginConfig
      ((store.tree visited hvisited).exportPersistenceSnapshot nowMs)) visited' with
  | .ok store' => store'
  | .error _ => .new

end Restart

/-! ## Runs -/

inductive TreeOperation where
  | upsertNode (nodeId : NodeId) (config : SshConfig) (origin : NodeOrigin) (nowMs : UInt64)
  | upsertChildNode (parentId nodeId : NodeId) (config : SshConfig) (origin : NodeOrigin)
      (nowMs : UInt64)
  | drillDown (parentId nodeId : NodeId) (config : SshConfig) (nowMs : UInt64)
  | expandManualPreset (savedConnectionId : String) (generated : Nat → NodeId)
      (hops : List SshConfig) (target : SshConfig) (nowMs : UInt64)
  | expandManualPresetUnderParent (parentId : NodeId) (savedConnectionId : String)
      (generated : Nat → NodeId) (hops : List SshConfig) (target : SshConfig) (nowMs : UInt64)
  | removeSubtree (nodeId : NodeId)
  | applySnapshot (snapshot : NodeTreeSnapshot) (visited : List NodeId)
  | clear
  | bindConnection (nodeId : NodeId) (connectionId : String) (state : ConnectionState)
  | disconnectNode (nodeId : NodeId)
  | applyNodeReadiness (nodeId : NodeId) (readiness : NodeReadiness) (reason : String)
  | updateConnectionState (nodeId : NodeId) (state : ConnectionState)
  | updateOrigin (nodeId : NodeId) (origin : NodeOrigin)
  | reconcileWithConnections (connections : String → Option ConnectionState) (visited : List NodeId)

namespace RuntimeStore

/-- An operation that fails leaves the store as it is. -/
def orSame (store : RuntimeStore) : Except RouteError RuntimeStore → RuntimeStore
  | .ok next => next
  | .error _ => store

/-- The store after an operation, if it comes back. -/
def step (store : RuntimeStore) : TreeOperation → Option RuntimeStore
  | .upsertNode nodeId config origin nowMs =>
    some (store.upsertNodeWithOrigin nodeId config origin nowMs)
  | .upsertChildNode parentId nodeId config origin nowMs =>
    some (store.orSame (store.upsertChildNodeWithOrigin parentId nodeId config origin nowMs))
  | .drillDown parentId nodeId config nowMs =>
    some (store.orSame (store.drillDown parentId nodeId config nowMs))
  | .expandManualPreset savedConnectionId generated hops target nowMs =>
    some (store.expandManualPreset savedConnectionId generated hops target nowMs).1
  | .expandManualPresetUnderParent parentId savedConnectionId generated hops target nowMs =>
    some (store.expandManualPresetUnderParent parentId savedConnectionId generated hops target
      nowMs).1
  | .removeSubtree nodeId => (store.removeSubtree nodeId).map (·.1)
  | .applySnapshot snapshot visited => some (store.orSame (applySnapshot snapshot visited))
  | .clear => some clear
  | .bindConnection nodeId connectionId state =>
    some (store.orSame (store.bindConnection nodeId connectionId state))
  | .disconnectNode nodeId => some (store.orSame (store.disconnectNode nodeId))
  | .applyNodeReadiness nodeId readiness reason =>
    some (store.orSame (store.applyNodeReadiness nodeId readiness reason))
  | .updateConnectionState nodeId state =>
    some (store.orSame (store.updateConnectionState nodeId state))
  | .updateOrigin nodeId origin => some (store.orSame (store.updateOrigin nodeId origin))
  | .reconcileWithConnections connections visited =>
    some (store.reconcileWithConnections connections visited)

def run : RuntimeStore → List TreeOperation → Option RuntimeStore
  | store, [] => some store
  | store, operation :: operations => (store.step operation).bind (run · operations)

end RuntimeStore

end OxideTerm.Ssh
