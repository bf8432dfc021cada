import Mathlib.Data.Prod.Lex
import Mathlib.Data.String.Basic
import OxideTerm.Lib.Forest
import OxideTerm.Ssh.Config

/-!
# The session tree

The nodes of the session tree with their links, and what of them is persisted. Secrets that only the
running program knows are not persisted: a node is left out if its configuration has one and no saved
connection stands for it, and so is everything below it.

Handles of live connections, terminals and transfers are left out, as they do not reach the
persisted snapshot.
-/

namespace OxideTerm.Ssh

open OxideTerm.Lib

abbrev NodeId := String

inductive NodeOrigin where
  | manualPreset (savedConnectionId : String) (hopIndex : UInt32)
  | autoRoute (targetHost routeId : String) (hopIndex : UInt32)
  | drillDown (timestamp : Int)
  | direct
  | restored (savedConnectionId : String)
deriving DecidableEq

def NodeOrigin.savedConnectionId : NodeOrigin → Option String
  | .manualPreset savedConnectionId _ => some savedConnectionId
  | .restored savedConnectionId => some savedConnectionId
  | .autoRoute _ _ _ => none
  | .drillDown _ => none
  | .direct => none

structure NodeRuntimeEntry where
  config : SshConfig
  parentId : Option NodeId
  childrenIds : List NodeId
  depth : UInt32
  origin : NodeOrigin
  createdAtMs : UInt64
  generation : UInt64
deriving DecidableEq

/-- The store, with its map in the order in which it is visited. -/
structure NodeRuntimeStore where
  nodes : List (NodeId × NodeRuntimeEntry)
  rootIds : List NodeId
  distinct : (nodes.map Prod.fst).Nodup

structure NodeTreePersistenceNode where
  id : NodeId
  parentId : Option NodeId
  childrenIds : List NodeId
  depth : UInt32
  origin : NodeOrigin
  config : Option SshConfig
  createdAtMs : UInt64
  generation : UInt64
deriving DecidableEq

structure NodeTreePersistenceSnapshot where
  version : UInt32
  exportedAtMs : UInt64
  rootIds : List NodeId
  nodes : List NodeTreePersistenceNode
deriving DecidableEq

/-- The node as it is persisted, if it may be. -/
def persistenceNode (id : NodeId) (route : NodeRuntimeEntry) : Option NodeTreePersistenceNode :=
  let node config : NodeTreePersistenceNode :=
    { id
      parentId := route.parentId
      childrenIds := route.childrenIds
      depth := route.depth
      origin := route.origin
      config
      createdAtMs := route.createdAtMs
      generation := route.generation }
  if route.origin.savedConnectionId.isSome then some (node none)
  else if route.config.hasRuntimeAuthSecret then none
  else some (node (some route.config))

/-- What snapshots are sorted by. -/
def NodeTreePersistenceNode.sortKey (node : NodeTreePersistenceNode) : Nat ×ₗ Nat ×ₗ NodeId :=
  toLex (node.depth.toNat, toLex (node.createdAtMs.toNat, node.id))

/-- **What is persisted.** -/
def NodeRuntimeStore.exportPersistenceSnapshot (store : NodeRuntimeStore) (nowMs : UInt64) :
    NodeTreePersistenceSnapshot :=
  let nodes := store.nodes.filterMap fun entry => persistenceNode entry.1 entry.2
  -- a child cannot be restored without its parent
  let nodes := prune (·.id) (·.parentId) nodes
  let retainedIds := nodes.map (·.id)
  let nodes := nodes.map fun node =>
    { node with childrenIds := node.childrenIds.filter fun childId => retainedIds.contains childId }
  let nodes := nodes.mergeSort fun a b => decide (a.sortKey ≤ b.sortKey)
  { version := 1
    exportedAtMs := nowMs
    rootIds := store.rootIds.filter fun nodeId => retainedIds.contains nodeId
    nodes }

/-! ## As forests -/

def NodeRuntimeStore.forest (store : NodeRuntimeStore) : Forest NodeId :=
  .ofList Prod.fst (·.2.parentId) (·.2.childrenIds) store.nodes store.rootIds

def NodeTreePersistenceSnapshot.forest (snapshot : NodeTreePersistenceSnapshot) : Forest NodeId :=
  .ofList (·.id) (·.parentId) (·.childrenIds) snapshot.nodes snapshot.rootIds

end OxideTerm.Ssh
