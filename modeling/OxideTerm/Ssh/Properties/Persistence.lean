import OxideTerm.Ssh.SessionTree

/-!
# What is persisted of the session tree

A snapshot has the nodes that can be restored together with all that is above them. It is the
restriction of the tree to these nodes, so it is a tree again, and no secret is in it.
-/

namespace OxideTerm.Ssh

open OxideTerm.Lib

/-! ## Secrets -/

/-- The secret that a method of authentication holds. -/
inductive AuthMethod.Holds : AuthMethod → List Char → Prop
  | password (secret : List Char) : Holds (.password false secret) secret
  | key (keyPath secret : List Char) : Holds (.key keyPath (some secret)) secret
  | managedKey (keyId secret : List Char) : Holds (.managedKey keyId (some secret)) secret
  | certificate (keyPath certPath secret : List Char) :
      Holds (.certificate keyPath certPath (some secret)) secret
  | fallback {fallback : AuthMethod} {secret : List Char} (serverIdentity : Option (List Char))
      (delegateCredentials : Bool) (h : fallback.Holds secret) :
      Holds (.kerberosPreferred serverIdentity delegateCredentials fallback) secret

/-- The secret is the target's or a hop's. -/
inductive SshConfig.Holds (config : SshConfig) (secret : List Char) : Prop
  | target (h : config.auth.Holds secret)
  | hop {chain : List ProxyHopConfig} {hop : ProxyHopConfig} (hchain : config.proxyChain = some chain)
      (hhop : hop ∈ chain) (h : hop.auth.Holds secret)

theorem AuthMethod.hasRuntimeSecret_of_holds {auth : AuthMethod} {secret : List Char}
    (h : auth.Holds secret) : auth.hasRuntimeSecret = true := by
  induction h with
  | fallback _ _ _ ih => exact ih
  | _ => rfl

theorem SshConfig.hasRuntimeAuthSecret_of_holds {config : SshConfig} {secret : List Char}
    (h : config.Holds secret) : config.hasRuntimeAuthSecret = true := by
  rw [SshConfig.hasRuntimeAuthSecret, Bool.or_eq_true]
  cases h with
  | target h => exact .inl (AuthMethod.hasRuntimeSecret_of_holds h)
  | hop hchain hhop h =>
    right
    rw [hchain]
    exact List.any_eq_true.mpr ⟨_, hhop, AuthMethod.hasRuntimeSecret_of_holds h⟩

/-! ## Nodes that can be restored -/

/-- A saved connection stands for the node, or its configuration has no secret. -/
def NodeRuntimeEntry.Persistable (route : NodeRuntimeEntry) : Prop :=
  route.origin.savedConnectionId.isSome = true ∨ route.config.hasRuntimeAuthSecret = false

namespace NodeRuntimeStore

/-- There is such a node, and it may be persisted. -/
def Persistable (store : NodeRuntimeStore) (id : NodeId) : Prop :=
  ∃ route, (id, route) ∈ store.nodes ∧ route.Persistable

/-- The node and all that is above it may be persisted. -/
def Restorable (store : NodeRuntimeStore) (id : NodeId) : Prop :=
  store.Persistable id ∧ ∀ ancestor, store.forest.Ancestor ancestor id → store.Persistable ancestor

theorem upClosed_restorable (store : NodeRuntimeStore) :
    store.forest.UpClosed {id | store.Restorable id} := by
  rintro id ⟨-, habove⟩ parent hparent
  exact ⟨habove parent (.parent hparent), fun ancestor h => habove ancestor (.above hparent h)⟩

theorem parent_forest (store : NodeRuntimeStore) {id : NodeId} {route : NodeRuntimeEntry}
    (h : (id, route) ∈ store.nodes) : store.forest.parent id = route.parentId :=
  Forest.parent_ofList store.distinct h

end NodeRuntimeStore

/-! ## Candidates -/

/-- The node with its children, as it is persisted. -/
def NodeRuntimeEntry.persisted (route : NodeRuntimeEntry) (id : NodeId) :
    NodeTreePersistenceNode where
  id := id
  parentId := route.parentId
  childrenIds := route.childrenIds
  depth := route.depth
  origin := route.origin
  config := if route.origin.savedConnectionId.isSome then none else some route.config
  createdAtMs := route.createdAtMs
  generation := route.generation

theorem persistenceNode_eq_some_iff {id : NodeId} {route : NodeRuntimeEntry}
    {node : NodeTreePersistenceNode} :
    persistenceNode id route = some node ↔ route.Persistable ∧ node = route.persisted id := by
  rw [persistenceNode, NodeRuntimeEntry.Persistable, NodeRuntimeEntry.persisted]
  by_cases hsaved : route.origin.savedConnectionId.isSome = true
  · simp only [hsaved, if_true, Option.some.injEq, true_or, true_and]
    exact eq_comm
  · by_cases hsecret : route.config.hasRuntimeAuthSecret = true
    · simp [hsaved, hsecret]
    · simp only [hsaved, hsecret, if_false, Option.some.injEq, false_or, true_and,
        Bool.false_eq_true]
      exact eq_comm

namespace NodeRuntimeStore

/-- The nodes that are persisted, unless what is above them is not. -/
def candidates (store : NodeRuntimeStore) : List NodeTreePersistenceNode :=
  store.nodes.filterMap fun entry => persistenceNode entry.1 entry.2

/-- The nodes that are persisted, still with all their children. -/
def retained (store : NodeRuntimeStore) : List NodeTreePersistenceNode :=
  prune (·.id) (·.parentId) store.candidates

variable {store : NodeRuntimeStore}

theorem exists_route {node : NodeTreePersistenceNode} (h : node ∈ store.candidates) :
    ∃ route, (node.id, route) ∈ store.nodes ∧ route.Persistable ∧ node = route.persisted node.id := by
  obtain ⟨⟨id, route⟩, hmem, hnode⟩ := List.mem_filterMap.mp h
  obtain ⟨hpersistable, rfl⟩ := persistenceNode_eq_some_iff.mp hnode
  exact ⟨route, hmem, hpersistable, rfl⟩

theorem mem_candidates {id : NodeId} {route : NodeRuntimeEntry} (h : (id, route) ∈ store.nodes)
    (hpersistable : route.Persistable) : route.persisted id ∈ store.candidates :=
  List.mem_filterMap.mpr ⟨(id, route), h, persistenceNode_eq_some_iff.mpr ⟨hpersistable, rfl⟩⟩

theorem parent_candidate {node : NodeTreePersistenceNode} (h : node ∈ store.candidates) :
    store.forest.parent node.id = node.parentId := by
  obtain ⟨route, hroute, -, hnode⟩ := exists_route h
  rw [store.parent_forest hroute, hnode]
  rfl

theorem nodup_candidates (store : NodeRuntimeStore) :
    (store.candidates.map (·.id)).Nodup := by
  refine (?_ : (store.candidates.map (·.id)).Sublist (store.nodes.map Prod.fst)).nodup store.distinct
  rw [candidates]
  generalize store.nodes = nodes
  induction nodes with
  | nil => exact .slnil
  | cons entry nodes ih =>
    rw [List.filterMap_cons, List.map_cons]
    cases hnode : persistenceNode entry.1 entry.2 with
    | none => exact ih.cons _
    | some node =>
      obtain ⟨-, rfl⟩ := persistenceNode_eq_some_iff.mp hnode
      exact ih.cons_cons _

theorem nodup_retained (store : NodeRuntimeStore) : (store.retained.map (·.id)).Nodup :=
  ((prune_sublist _).map _).nodup store.nodup_candidates

theorem mem_candidates_of_mem_retained {node : NodeTreePersistenceNode}
    (h : node ∈ store.retained) : node ∈ store.candidates :=
  (prune_sublist _).subset h

/-- **The nodes that are persisted are those that can be restored.** -/
theorem mem_retained_iff {id : NodeId} :
    id ∈ store.retained.map (·.id) ↔ store.Restorable id := by
  constructor
  · have hpersistable : ∀ id ∈ store.retained.map (·.id), store.Persistable id := by
      intro id hid
      obtain ⟨node, hnode, rfl⟩ := List.mem_map.mp hid
      obtain ⟨route, hroute, hpersistable, -⟩ := exists_route (mem_candidates_of_mem_retained hnode)
      exact ⟨route, hroute, hpersistable⟩
    have hclosed : store.forest.UpClosed {id | id ∈ store.retained.map (·.id)} := by
      intro id hid parent hparent
      obtain ⟨node, hnode, rfl⟩ := List.mem_map.mp hid
      rw [parent_candidate (mem_candidates_of_mem_retained hnode)] at hparent
      obtain ⟨other, hother, hname⟩ := prune_closed store.candidates node hnode parent hparent
      exact List.mem_map.mpr ⟨other, hother, hname⟩
    intro hid
    exact ⟨hpersistable id hid, fun ancestor h => hpersistable ancestor (hclosed.ancestor h hid)⟩
  · intro hid
    have hnodes : ∀ id, store.Restorable id → ∃ node ∈ store.candidates, node.id = id := by
      rintro id ⟨⟨route, hroute, hpersistable⟩, -⟩
      exact ⟨_, mem_candidates hroute hpersistable, rfl⟩
    obtain ⟨node, hnode, rfl⟩ := hnodes id hid
    refine List.mem_map.mpr ⟨node, ?_, rfl⟩
    -- the candidates that can be restored have their parents among them
    have hpart : ∀ node ∈ {node | node ∈ store.candidates ∧ store.Restorable node.id},
        node ∈ store.candidates := fun _ h => h.1
    refine subset_prune store.candidates hpart ?_ node ⟨hnode, hid⟩
    rintro node ⟨hnode, hid⟩ parent hparent
    have hrestorable : store.Restorable parent :=
      store.upClosed_restorable node.id hid parent ((parent_candidate hnode).trans hparent)
    obtain ⟨other, hother, rfl⟩ := hnodes parent hrestorable
    exact ⟨other, ⟨hother, hrestorable⟩, rfl⟩

/-! ## The snapshot -/

/-- A node with those of its children that are persisted. -/
def trimmed (store : NodeRuntimeStore) (node : NodeTreePersistenceNode) :
    NodeTreePersistenceNode :=
  { node with childrenIds :=
      node.childrenIds.filter fun childId => (store.retained.map (·.id)).contains childId }

theorem nodes_perm (store : NodeRuntimeStore) (nowMs : UInt64) :
    (store.exportPersistenceSnapshot nowMs).nodes.Perm (store.retained.map store.trimmed) :=
  List.mergeSort_perm _ _

theorem names_perm (store : NodeRuntimeStore) (nowMs : UInt64) :
    ((store.exportPersistenceSnapshot nowMs).nodes.map (·.id)).Perm (store.retained.map (·.id)) := by
  have hperm := (store.nodes_perm nowMs).map (·.id)
  rwa [List.map_map] at hperm

theorem exists_of_mem_snapshot {nowMs : UInt64} {node : NodeTreePersistenceNode}
    (h : node ∈ (store.exportPersistenceSnapshot nowMs).nodes) :
    ∃ route, (node.id, route) ∈ store.nodes ∧ route.Persistable ∧
      node = store.trimmed (route.persisted node.id) := by
  obtain ⟨full, hfull, rfl⟩ := List.mem_map.mp ((store.nodes_perm nowMs).mem_iff.mp h)
  obtain ⟨route, hroute, hpersistable, hnode⟩ :=
    exists_route (mem_candidates_of_mem_retained hfull)
  exact ⟨route, hroute, hpersistable, congrArg store.trimmed hnode⟩

open scoped Classical in
theorem contains_retained (store : NodeRuntimeStore) :
    (fun id => (store.retained.map (·.id)).contains id) =
      fun id => decide (id ∈ {id | store.Restorable id}) := by
  funext id
  rw [Bool.eq_iff_iff, List.contains_iff_mem, decide_eq_true_iff, mem_retained_iff]
  rfl

/-- **The snapshot is the tree, restricted to what can be restored.** -/
theorem forest_exportPersistenceSnapshot (store : NodeRuntimeStore) (nowMs : UInt64) :
    (store.exportPersistenceSnapshot nowMs).forest =
      store.forest.restrict {id | store.Restorable id} := by
  have hnames := store.names_perm nowMs
  refine Forest.ofList_eq_restrict store.distinct (hnames.nodup_iff.mpr store.nodup_retained) ?_ ?_
    store.upClosed_restorable ?_
  · intro id
    rw [hnames.mem_iff, mem_retained_iff]
    refine ⟨fun h => ⟨?_, h⟩, fun h => h.2⟩
    obtain ⟨⟨route, hroute, -⟩, -⟩ := h
    exact List.mem_map.mpr ⟨(id, route), hroute, rfl⟩
  · intro node hnode
    obtain ⟨route, hroute, -, hfields⟩ := exists_of_mem_snapshot hnode
    refine ⟨(node.id, route), hroute, rfl, ?_, ?_⟩
    · rw [hfields]
      rfl
    · rw [hfields, trimmed, contains_retained]
      rfl
  · rw [← contains_retained]
    rfl

end NodeRuntimeStore

/-! ## The largest part -/

/-- A snapshot has what can be restored of a tree, and no secret. -/
structure LargestRestorable (store : NodeRuntimeStore) (snapshot : NodeTreePersistenceSnapshot) :
    Prop where
  /-- The nodes are those that can be restored with all that is above them, each of them once. -/
  nodes : ∀ id, id ∈ snapshot.nodes.map (·.id) ↔ store.Restorable id
  distinct : (snapshot.nodes.map (·.id)).Nodup
  /-- No other part of the tree that may be persisted is larger. -/
  largest : ∀ part : Set NodeId, store.forest.UpClosed part → (∀ id ∈ part, store.Persistable id) →
    ∀ id ∈ part, id ∈ snapshot.nodes.map (·.id)
  /-- The links are the restrictions of the links of the tree, and a forest again. -/
  links : snapshot.forest = store.forest.restrict {id | store.Restorable id}
  wellFormed : snapshot.forest.WellFormed
  /-- Besides the links, nodes are persisted as they are. -/
  fields : ∀ node ∈ snapshot.nodes, ∃ route, (node.id, route) ∈ store.nodes ∧
    node = { route.persisted node.id with childrenIds := node.childrenIds }
  /-- No configuration holds a secret. -/
  secretFree : ∀ node ∈ snapshot.nodes, ∀ config ∈ node.config,
    config.hasRuntimeAuthSecret = false ∧ ∀ secret, ¬ config.Holds secret

/-! ## A tree with a secret -/

def configOf (auth : AuthMethod) : SshConfig where
  totp := none
  host := ['h']
  port := 22
  username := ['u']
  auth := auth
  proxyChain := none
  upstreamProxy := none
  proxyCommand := none
  agentForwarding := false
  identityAgent := none
  agentForwardingSocket := none
  legacySshCompatibility := false
  sshChannelStrategy := .multiplexed
  sshAlgorithms := .default

/-- A root with a password and a child of it, and a root that a saved connection stands for. -/
def secretRoot : NodeRuntimeStore where
  nodes := [
    ("child", {
      config := configOf .agent
      parentId := some "root"
      childrenIds := []
      depth := 1
      origin := .drillDown 0
      createdAtMs := 2
      generation := 0 }),
    ("root", {
      config := configOf (.password false ['p'])
      parentId := none
      childrenIds := ["child"]
      depth := 0
      origin := .direct
      createdAtMs := 1
      generation := 1 }),
    ("saved", {
      config := configOf (.password false ['p'])
      parentId := none
      childrenIds := []
      depth := 0
      origin := .restored "connection"
      createdAtMs := 3
      generation := 0 })]
  rootIds := ["root", "saved"]
  distinct := by decide

theorem mem_secretRoot {id : NodeId} :
    id ∈ secretRoot.forest.nodes ↔ id = "child" ∨ id = "root" ∨ id = "saved" := by
  show id ∈ ["child", "root", "saved"] ↔ _
  simp

theorem parent_secretRoot {id parent : NodeId} :
    secretRoot.forest.parent id = some parent ↔ id = "child" ∧ parent = "root" := by
  by_cases hchild : id = "child"
  · subst hchild
    rw [show secretRoot.forest.parent "child" = some "root" by rfl, Option.some.injEq]
    exact ⟨fun h => ⟨rfl, h.symm⟩, fun h => h.2.symm⟩
  · refine ⟨fun h => ?_, fun h => absurd h.1 hchild⟩
    by_cases hmem : id ∈ secretRoot.forest.nodes
    · rcases mem_secretRoot.mp hmem with rfl | rfl | rfl
      · exact absurd rfl hchild
      · cases h
      · cases h
    · rw [show secretRoot.forest.parent id = none by
        exact congrArg (Option.bind · _) (Forest.find?_name_eq_none hmem)] at h
      cases h

theorem secretRoot_wellFormed : secretRoot.forest.WellFormed where
  parent_mem := by
    intro id _ parent hparent
    obtain ⟨-, rfl⟩ := parent_secretRoot.mp hparent
    exact mem_secretRoot.mpr (.inr (.inl rfl))
  mem_children := by
    intro parent hparent id
    rw [parent_secretRoot, mem_secretRoot]
    rcases mem_secretRoot.mp hparent with rfl | rfl | rfl
    · show id ∈ [] ↔ _
      simp
    · show id ∈ ["child"] ↔ _
      rw [List.mem_singleton]
      exact ⟨fun h => ⟨.inl h, h, rfl⟩, fun h => h.2.1⟩
    · show id ∈ [] ↔ _
      simp
  nodup_children := by
    intro parent hparent
    rcases mem_secretRoot.mp hparent with rfl | rfl | rfl <;> decide
  mem_roots := by
    intro id
    show id ∈ ["root", "saved"] ↔ _
    rw [mem_secretRoot, Option.eq_none_iff_forall_ne_some]
    simp only [ne_eq, parent_secretRoot, not_and, List.mem_cons, List.not_mem_nil, or_false]
    constructor
    · rintro (rfl | rfl)
      · exact ⟨.inr (.inl rfl), fun _ h => absurd h (by decide)⟩
      · exact ⟨.inr (.inr rfl), fun _ h => absurd h (by decide)⟩
    · rintro ⟨rfl | h, hparent⟩
      · exact absurd rfl (hparent "root" rfl)
      · exact h
  nodup_roots := by decide
  acyclic := by
    intro id _ hcycle
    have habove : ∀ {ancestor id : NodeId}, secretRoot.forest.Ancestor ancestor id →
        ancestor = "root" ∧ id = "child" := by
      intro ancestor id h
      induction h with
      | parent h => exact ⟨(parent_secretRoot.mp h).2, (parent_secretRoot.mp h).1⟩
      | above h _ ih => exact ⟨ih.1, (parent_secretRoot.mp h).1⟩
    obtain ⟨hroot, hchild⟩ := habove hcycle
    rw [hroot] at hchild
    exact absurd hchild (by decide)

/-! ## Main result -/

/-- **A snapshot of a forest is the largest part of it that can be restored.** -/
theorem exportPersistenceSnapshot_largest (store : NodeRuntimeStore)
    (h : store.forest.WellFormed) (nowMs : UInt64) :
    LargestRestorable store (store.exportPersistenceSnapshot nowMs) where
  nodes := by
    intro id
    rw [(store.names_perm nowMs).mem_iff, NodeRuntimeStore.mem_retained_iff]
  distinct := (store.names_perm nowMs).nodup_iff.mpr store.nodup_retained
  largest := by
    intro part hclosed hpersistable id hid
    rw [(store.names_perm nowMs).mem_iff, NodeRuntimeStore.mem_retained_iff]
    exact ⟨hpersistable id hid, fun ancestor h => hpersistable ancestor (hclosed.ancestor h hid)⟩
  links := store.forest_exportPersistenceSnapshot nowMs
  wellFormed := by
    rw [store.forest_exportPersistenceSnapshot]
    exact h.restrict store.upClosed_restorable
  fields := by
    intro node hnode
    obtain ⟨route, hroute, -, hfields⟩ := NodeRuntimeStore.exists_of_mem_snapshot hnode
    refine ⟨route, hroute, ?_⟩
    rw [hfields]
    rfl
  secretFree := by
    intro node hnode config hconfig
    obtain ⟨route, -, hpersistable, hfields⟩ := NodeRuntimeStore.exists_of_mem_snapshot hnode
    have hfree : config.hasRuntimeAuthSecret = false := by
      rw [hfields] at hconfig
      change (if route.origin.savedConnectionId.isSome then none else some route.config) =
        some config at hconfig
      split at hconfig
      · cases hconfig
      · next hsaved =>
        cases hconfig
        exact hpersistable.resolve_left hsaved
    refine ⟨hfree, fun secret hholds => ?_⟩
    rw [SshConfig.hasRuntimeAuthSecret_of_holds hholds] at hfree
    cases hfree

/-- Of the tree with a secret, the saved connection is left. -/
theorem exportPersistenceSnapshot_largest_secretRoot :
    LargestRestorable secretRoot (secretRoot.exportPersistenceSnapshot 7) :=
  exportPersistenceSnapshot_largest secretRoot secretRoot_wellFormed 7

end OxideTerm.Ssh
