import OxideTerm.Ssh.RuntimeStore

/-!
# The session tree stays a forest

The operations that add nodes add a root or a child, those that remove nodes cut off what is within
one, and the others leave the links as they are. So the links agree with each other in every run, and
the traversals come back.
-/

namespace OxideTerm.Ssh.RuntimeStore

open OxideTerm.Lib OxideTerm.Lib.Forest

variable {store store' : RuntimeStore} {nodeId parentId n : NodeId} {route : RuntimeNode}

/-! ## The tree of a store -/

def forest (store : RuntimeStore) : Forest NodeId where
  nodes := {n | n ∈ store.nodes.keys}
  parent := store.parentOf
  children := store.childrenOf
  roots := store.rootIds

def depthOf (store : RuntimeStore) (n : NodeId) : Nat :=
  ((store.nodes.get n).map (·.depth.toNat)).getD 0

/-- **The links of the nodes agree, depths count what is above, and no path is too long.** -/
structure IsForest (store : RuntimeStore) : Prop where
  wellFormed : store.forest.WellFormed
  levels : store.forest.Levels store.depthOf
  bounded : ∀ n, store.depthOf n ≤ maxSessionTreeDepth.toNat

theorem mem_forest : n ∈ store.forest.nodes ↔ ∃ route, store.nodes.get n = some route :=
  (store.nodes.mem_keys n).trans Option.isSome_iff_exists

theorem mem_forest_of_get (h : store.nodes.get n = some route) : n ∈ store.forest.nodes :=
  mem_forest.mpr ⟨route, h⟩

theorem notMem_forest (h : store.nodes.get n = none) : n ∉ store.forest.nodes := by
  intro hn
  obtain ⟨route, hroute⟩ := mem_forest.mp hn
  rw [h] at hroute
  cases hroute

theorem parentOf_of_get (h : store.nodes.get n = some route) : store.parentOf n = route.parentId := by
  rw [parentOf, h]
  rfl

theorem childrenOf_of_get (h : store.nodes.get n = some route) :
    store.childrenOf n = route.childrenIds := by
  rw [childrenOf, h]
  rfl

theorem depthOf_of_get (h : store.nodes.get n = some route) :
    store.depthOf n = route.depth.toNat := by
  rw [depthOf, h]
  rfl

theorem filter_ne_of_notMem {ids : List NodeId} (h : nodeId ∉ ids) :
    ids.filter (fun id => id ≠ nodeId) = ids := by
  rw [List.filter_eq_self]
  exact fun id hid => decide_eq_true (ne_of_mem_of_not_mem hid h)

/-- What the tree takes from an entry. -/
def links (route : RuntimeNode) : Option NodeId × List NodeId × UInt32 :=
  (route.parentId, route.childrenIds, route.depth)

theorem mem_forest_links : n ∈ store.forest.nodes ↔ ((store.nodes.get n).map links).isSome := by
  rw [Option.isSome_map]
  exact store.nodes.mem_keys n

theorem parentOf_eq : store.parentOf n = ((store.nodes.get n).map links).bind (·.1) := by
  rw [parentOf, Option.bind_map]
  rfl

theorem childrenOf_eq : store.childrenOf n = (((store.nodes.get n).map links).map (·.2.1)).getD [] := by
  rw [childrenOf, Option.map_map]
  rfl

theorem depthOf_eq : store.depthOf n = (((store.nodes.get n).map links).map (·.2.2.toNat)).getD 0 := by
  rw [depthOf, Option.map_map]
  rfl

/-- **Where no link changes the tree is the same.** -/
theorem IsForest.congr (h : store.IsForest)
    (hlinks : ∀ n, (store'.nodes.get n).map links = (store.nodes.get n).map links)
    (hroots : store'.rootIds = store.rootIds) : store'.IsForest := by
  have hdepth : store'.depthOf = store.depthOf := by
    funext n
    rw [depthOf_eq, depthOf_eq, hlinks]
  have hforest : store'.forest = store.forest := by
    rw [forest, forest, hroots]
    congr 1
    · ext n
      show n ∈ store'.forest.nodes ↔ n ∈ store.forest.nodes
      rw [mem_forest_links, mem_forest_links, hlinks]
    · funext n
      rw [parentOf_eq, parentOf_eq, hlinks]
    · funext n
      rw [childrenOf_eq, childrenOf_eq, hlinks]
  exact ⟨hforest ▸ h.wellFormed, by rw [hforest, hdepth]; exact h.levels, hdepth ▸ h.bounded⟩

/-- An entry that is replaced by one with the same links. -/
theorem map_links_insert {route' : RuntimeNode} (h : store.nodes.get nodeId = some route)
    (hlinks : links route' = links route) (n : NodeId) :
    ((store.nodes.insert nodeId route').get n).map links = (store.nodes.get n).map links := by
  rw [FiniteMap.get_insert]
  split
  next hn => rw [hn, h, Option.map_some, Option.map_some, hlinks]
  next => rfl

theorem isForest_new : new.IsForest where
  wellFormed :=
    { parent_mem := fun _ h => absurd h (Finset.notMem_empty _)
      mem_children := fun _ h => absurd h (Finset.notMem_empty _)
      nodup_children := fun _ h => absurd h (Finset.notMem_empty _)
      mem_roots := fun _ => ⟨fun h => absurd h List.not_mem_nil,
        fun h => absurd h.1 (Finset.notMem_empty _)⟩
      nodup_roots := List.nodup_nil
      acyclic := fun _ h => absurd h (Finset.notMem_empty _) }
  levels :=
    { root := fun _ h => absurd h (Finset.notMem_empty _)
      child := fun _ h => absurd h (Finset.notMem_empty _) }
  bounded _ := Nat.zero_le _

/-! ## Nodes that are added -/

section Added

variable {config : SshConfig} {origin : NodeOrigin} {nowMs : UInt64}

/-- **An upsert of a node adds a root or leaves the tree as it is.** -/
theorem IsForest.upsertNode (h : store.IsForest) :
    (store.upsertNodeWithOrigin nodeId config origin nowMs).IsForest := by
  rw [upsertNodeWithOrigin]
  cases hget : store.nodes.get nodeId with
  | some route => exact h.congr (map_links_insert hget rfl) rfl
  | none =>
    have hnot := notMem_forest hget
    have hroot : store.rootIds.contains nodeId = false := by
      rw [← Bool.not_eq_true, List.contains_iff_mem]
      exact fun hmem => hnot ((h.wellFormed.mem_roots nodeId).mp hmem).1
    dsimp only
    rw [hroot, if_neg Bool.false_ne_true]
    generalize hnodes : store.nodes.insert nodeId (newNode config none 0 origin nowMs) = nodes
    have hentry : ∀ n, nodes.get n =
        if n = nodeId then some (newNode config none 0 origin nowMs) else store.nodes.get n := by
      intro n
      rw [← hnodes, FiniteMap.get_insert]
    have hforest : forest ⟨nodes, store.rootIds ++ [nodeId], store.connectionNodes⟩ =
        store.forest.addRoot nodeId := by
      rw [forest, addRoot]
      congr 1
      · ext n
        show n ∈ nodes.keys ↔ n = nodeId ∨ n ∈ store.nodes.keys
        rw [nodes.mem_keys, store.nodes.mem_keys, hentry]
        by_cases hn : n = nodeId <;> simp [hn]
      · funext n
        show (nodes.get n).bind _ = if n = nodeId then none else (store.nodes.get n).bind _
        rw [hentry]
        by_cases hn : n = nodeId <;> simp [hn, newNode]
      · funext n
        show ((nodes.get n).map _).getD [] = if n = nodeId then [] else ((store.nodes.get n).map _).getD []
        rw [hentry]
        by_cases hn : n = nodeId <;> simp [hn, newNode]
    have hdepth : ∀ n, depthOf ⟨nodes, store.rootIds ++ [nodeId], store.connectionNodes⟩ n =
        if n = nodeId then 0 else store.depthOf n := by
      intro n
      show ((nodes.get n).map _).getD 0 = if n = nodeId then 0 else ((store.nodes.get n).map _).getD 0
      rw [hentry]
      by_cases hn : n = nodeId <;> simp [hn, newNode]
    refine ⟨?_, ?_, fun n => ?_⟩
    · rw [hforest]
      exact h.wellFormed.addRoot h.levels hnot
    · rw [hforest]
      exact (h.levels.addRoot hnot).congr fun n _ => hdepth n
    · rw [hdepth]
      split
      · exact Nat.zero_le _
      · exact h.bounded n

/-- The parent with a child more. -/
def adopt (parent : RuntimeNode) (nodeId : NodeId) : RuntimeNode :=
  { parent with
    childrenIds := parent.childrenIds ++ [nodeId]
    generation := parent.generation + 1 }

theorem notMem_children (h : store.IsForest) {parent : RuntimeNode}
    (hparent : store.nodes.get parentId = some parent) (hget : store.nodes.get nodeId = none) :
    parent.childrenIds.contains nodeId = false := by
  rw [← Bool.not_eq_true, List.contains_iff_mem]
  intro hmem
  rw [← childrenOf_of_get hparent] at hmem
  exact notMem_forest hget
    ((h.wellFormed.mem_children parentId (mem_forest_of_get hparent) nodeId).mp hmem).1

/-- What an upsert of a new child does. -/
theorem upsertChild_fresh (h : store.IsForest) {parent : RuntimeNode}
    (hparent : store.nodes.get parentId = some parent) (hget : store.nodes.get nodeId = none) :
    ∃ store', store.upsertChildNodeWithOrigin parentId nodeId config origin nowMs = .ok store' ∧
      (∀ n, store'.nodes.get n =
        if n = nodeId then some (newNode config (some parentId) (parent.depth + 1) origin nowMs)
        else if n = parentId then some (adopt parent nodeId) else store.nodes.get n) ∧
      store'.rootIds = store.rootIds ∧ store'.connectionNodes = store.connectionNodes := by
  have hne : nodeId ≠ parentId := by
    rintro rfl
    rw [hget] at hparent
    cases hparent
  have hnone : (store.nodes.insert parentId (adopt parent nodeId)).get nodeId = none := by
    rw [FiniteMap.get_insert_of_ne _ hne, hget]
  have hroots := filter_ne_of_notMem fun hroot =>
    notMem_forest hget ((h.wellFormed.mem_roots nodeId).mp hroot).1
  have hchild : store.withChild parentId nodeId parent =
      store.nodes.insert parentId (adopt parent nodeId) := by
    rw [withChild, notMem_children h hparent hget]
    rfl
  refine ⟨{ store with
      nodes := (store.nodes.insert parentId (adopt parent nodeId)).insert nodeId
        (newNode config (some parentId) (parent.depth + 1) origin nowMs)
      rootIds := store.rootIds.filter fun id => id ≠ nodeId }, ?_, fun n => ?_, hroots, rfl⟩
  · rw [upsertChildNodeWithOrigin, hparent]
    simp only [hchild, hnone]
  · show ((store.nodes.insert parentId (adopt parent nodeId)).insert nodeId _).get n = _
    rw [FiniteMap.get_insert, FiniteMap.get_insert]

/-- An upsert of a new child below a node that is not on the last level. -/
theorem IsForest.upsertChild (h : store.IsForest) {parent : RuntimeNode}
    (hparent : store.nodes.get parentId = some parent) (hget : store.nodes.get nodeId = none)
    (hdepth : store.depthOf parentId < maxSessionTreeDepth.toNat)
    (hok : store.upsertChildNodeWithOrigin parentId nodeId config origin nowMs = .ok store') :
    store'.IsForest := by
  obtain ⟨store'', hok', hentry, hroots, -⟩ :=
    @upsertChild_fresh _ _ _ config origin nowMs h _ hparent hget
  cases hok.symm.trans hok'
  have hmem := mem_forest_of_get hparent
  have hnot := notMem_forest hget
  have hparentDepth := depthOf_of_get hparent
  have hnext : (parent.depth + 1).toNat = parent.depth.toNat + 1 := by
    rw [UInt32.toNat_add, UInt32.toNat_one, Nat.mod_eq_of_lt]
    have hsmall : maxSessionTreeDepth.toNat < 2 ^ 32 := UInt32.toNat_lt _
    omega
  have hparentOf := parentOf_of_get hparent
  have hchildrenOf := childrenOf_of_get hparent
  have hne : parentId ≠ nodeId := ne_of_mem_of_not_mem hmem hnot
  have hforest : store'.forest = store.forest.addChild parentId nodeId := by
    rw [forest, addChild, hroots]
    congr 1
    · ext n
      show n ∈ store'.nodes.keys ↔ n = nodeId ∨ n ∈ store.nodes.keys
      rw [store'.nodes.mem_keys, store.nodes.mem_keys, hentry]
      by_cases hn : n = nodeId
      · simp [hn]
      · by_cases hp : n = parentId <;> simp [hn, hp, hne, hparent]
    · funext n
      show (store'.nodes.get n).bind _ = if n = nodeId then some parentId else store.parentOf n
      rw [hentry]
      by_cases hn : n = nodeId
      · simp [hn, newNode]
      · by_cases hp : n = parentId
        · simp [hp, hne, hparentOf, adopt]
        · simp [hn, hp, parentOf]
    · funext n
      show ((store'.nodes.get n).map _).getD [] = if n = nodeId then [] else
        if n = parentId then store.childrenOf parentId ++ [nodeId] else store.childrenOf n
      rw [hentry]
      by_cases hn : n = nodeId
      · simp [hn, newNode]
      · by_cases hp : n = parentId
        · simp [hp, hne, hchildrenOf, adopt]
        · simp [hn, hp, childrenOf]
  have hdepths : ∀ n, store'.depthOf n =
      if n = nodeId then store.depthOf parentId + 1 else store.depthOf n := by
    intro n
    rw [depthOf, hentry]
    by_cases hn : n = nodeId
    · simp [hn, newNode, hnext, hparentDepth]
    · by_cases hp : n = parentId
      · simp [hp, hne, hparentDepth, adopt]
      · simp [hn, hp, depthOf]
  refine ⟨?_, ?_, fun n => ?_⟩
  · rw [hforest]
    exact h.wellFormed.addChild h.levels hmem hnot
  · rw [hforest]
    exact (h.levels.addChild hmem hnot).congr fun n _ => hdepths n
  · rw [hdepths]
    split
    · exact hdepth
    · exact h.bounded n

/-- A child that is there already stays where it is. -/
theorem IsForest.upsertChild_again (h : store.IsForest)
    (hparentOf : store.parentOf nodeId = some parentId)
    (hok : store.upsertChildNodeWithOrigin parentId nodeId config origin nowMs = .ok store') :
    store'.IsForest := by
  obtain ⟨route, hget, hlink⟩ := Option.bind_eq_some_iff.mp hparentOf
  have hnode := mem_forest_of_get hget
  obtain ⟨parent, hparent⟩ := mem_forest.mp (h.wellFormed.parent_mem nodeId hnode parentId hparentOf)
  have hcontains : parent.childrenIds.contains nodeId = true := by
    rw [List.contains_iff_mem]
    have hchildren := (h.wellFormed.mem_children parentId (mem_forest_of_get hparent) nodeId).mpr
      ⟨hnode, hparentOf⟩
    exact childrenOf_of_get hparent ▸ hchildren
  have hdepth : parent.depth + 1 = route.depth := by
    have hlevel := (h.levels.child nodeId hnode parentId hparentOf).2
    have hbound := h.bounded nodeId
    rw [depthOf_of_get hget, depthOf_of_get hparent] at hlevel
    rw [depthOf_of_get hget] at hbound
    have hsmall : maxSessionTreeDepth.toNat < 2 ^ 32 := UInt32.toNat_lt _
    rw [← UInt32.toNat_inj, UInt32.toNat_add, UInt32.toNat_one, Nat.mod_eq_of_lt (by omega), hlevel]
  have hroots : store.rootIds.filter (fun id => id ≠ nodeId) = store.rootIds := by
    refine filter_ne_of_notMem fun hroot => ?_
    cases hparentOf.symm.trans ((h.wellFormed.mem_roots nodeId).mp hroot).2
  rw [upsertChildNodeWithOrigin, hparent] at hok
  simp only [withChild, hcontains, if_true, hget, Except.ok.injEq] at hok
  subst hok
  refine h.congr (map_links_insert hget ?_) hroots
  rw [links, links, hlink, hdepth]

/-- **A chain of new nodes below a node hangs in the tree**, if it ends on the last level at most. -/
theorem IsForest.appendChain : ∀ (chain : List ChainNode) {store : RuntimeStore} {parentId : NodeId},
    store.IsForest → parentId ∈ store.forest.nodes →
    (∀ node ∈ chain, store.nodes.get node.nodeId = none) → (chain.map (·.nodeId)).Nodup →
    store.depthOf parentId + chain.length ≤ maxSessionTreeDepth.toNat →
      (appendChain nowMs store parentId chain).1.IsForest ∧
        (appendChain nowMs store parentId chain).2 = .ok ()
  | [], _, _, h, _, _, _, _ => ⟨h, rfl⟩
  | node :: chain, store, parentId, h, hparent, hfresh, hnodup, hdepth => by
    obtain ⟨hget, hfresh⟩ := List.forall_mem_cons.mp hfresh
    rw [List.map_cons, List.nodup_cons] at hnodup
    rw [List.length_cons] at hdepth
    obtain ⟨parent, hparent⟩ := mem_forest.mp hparent
    obtain ⟨next, hok, hentry, -⟩ :=
      @upsertChild_fresh _ _ _ node.config node.origin nowMs h _ hparent hget
    have hnext := h.upsertChild hparent hget (by omega) hok
    have hmem : node.nodeId ∈ next.forest.nodes := mem_forest_of_get (by rw [hentry, if_pos rfl])
    have hlevel : next.depthOf node.nodeId = store.depthOf parentId + 1 := by
      have hne : parentId ≠ node.nodeId := by
        rintro rfl
        rw [hget] at hparent
        cases hparent
      have hlink : next.parentOf node.nodeId = some parentId := by
        rw [parentOf, hentry, if_pos rfl]
        rfl
      rw [(hnext.levels.child _ hmem _ hlink).2, depthOf, hentry, if_neg hne, if_pos rfl, depthOf,
        hparent]
      rfl
    have hrest : ∀ other ∈ chain, next.nodes.get other.nodeId = none := by
      intro other hother
      have hne : other.nodeId ≠ node.nodeId := by
        intro he
        exact hnodup.1 (he ▸ List.mem_map_of_mem hother)
      have hnone := hfresh other hother
      rw [hentry, if_neg hne, if_neg ?_, hnone]
      rintro he
      rw [he, hparent] at hnone
      cases hnone
    rw [RuntimeStore.appendChain, hok]
    exact IsForest.appendChain chain hnext hmem hrest hnodup.2 (by omega)

theorem IsForest.drillDown (h : store.IsForest) (hget : store.nodes.get nodeId = none)
    (hok : store.drillDown parentId nodeId config nowMs = .ok store') : store'.IsForest := by
  rw [RuntimeStore.drillDown] at hok
  cases hparent : store.nodes.get parentId with
  | none =>
    rw [hparent] at hok
    cases hok
  | some parent =>
    rw [hparent] at hok
    dsimp only at hok
    split at hok
    · cases hok
    · split at hok
      · cases hok
      · next hdepth =>
        refine h.upsertChild hparent hget ?_ hok
        have hbound := h.bounded parentId
        rw [UInt32.lt_iff_toNat_lt, UInt32.toNat_add, UInt32.toNat_one] at hdepth
        have hsmall : maxSessionTreeDepth.toNat + 1 < 2 ^ 32 := by decide
        rw [depthOf_of_get hparent] at hbound ⊢
        rw [Nat.mod_eq_of_lt (by omega)] at hdepth
        omega

theorem map_nodeId_presetChain (savedConnectionId : String) (generated : Nat → NodeId)
    (hops : List SshConfig) (target : SshConfig) :
    (presetChain savedConnectionId generated hops target).map (·.nodeId) =
      (List.range (hops.length + 1)).map generated := by
  rw [presetChain, List.map_map]
  have hsnd : (hops ++ [target]).zipIdx.map Prod.snd = List.range (hops.length + 1) := by
    rw [List.zipIdx_map_snd, List.length_append, List.range_eq_range']
    rfl
  rw [← hsnd, List.map_map]
  rfl

/-- The identifiers of an expansion are new and differ. -/
def Generates (store : RuntimeStore) (generated : Nat → NodeId) (count : Nat) : Prop :=
  (∀ i < count, store.nodes.get (generated i) = none) ∧
    ∀ i < count, ∀ j < count, generated i = generated j → i = j

theorem Generates.chain {savedConnectionId : String} {generated : Nat → NodeId}
    {hops : List SshConfig} {target : SshConfig}
    (h : store.Generates generated (hops.length + 1)) :
    (∀ node ∈ presetChain savedConnectionId generated hops target,
      store.nodes.get node.nodeId = none) ∧
    ((presetChain savedConnectionId generated hops target).map (·.nodeId)).Nodup := by
  constructor
  · intro node hnode
    have hmem := List.mem_map_of_mem (f := (·.nodeId)) hnode
    rw [map_nodeId_presetChain] at hmem
    obtain ⟨i, hi, hid⟩ := List.mem_map.mp hmem
    rw [← hid]
    exact h.1 i (List.mem_range.mp hi)
  · rw [map_nodeId_presetChain]
    refine List.Nodup.map_on (fun i hi j hj => ?_) List.nodup_range
    exact h.2 i (List.mem_range.mp hi) j (List.mem_range.mp hj)

theorem length_presetChain (savedConnectionId : String) (generated : Nat → NodeId)
    (hops : List SshConfig) (target : SshConfig) :
    (presetChain savedConnectionId generated hops target).length = hops.length + 1 := by
  rw [presetChain, List.length_map, List.length_zipIdx, List.length_append]
  rfl

theorem IsForest.expandManualPreset (h : store.IsForest) {savedConnectionId : String}
    {generated : Nat → NodeId} {hops : List SshConfig} {target : SshConfig}
    (hgenerated : store.Generates generated (hops.length + 1)) :
    (store.expandManualPreset savedConnectionId generated hops target nowMs).1.IsForest := by
  cases hops with
  | nil => exact h.upsertNode
  | cons hop hops =>
    obtain ⟨hfresh, hnodup⟩ := @hgenerated.chain store savedConnectionId generated (hop :: hops) target
    have hlength := length_presetChain savedConnectionId generated (hop :: hops) target
    rw [RuntimeStore.expandManualPreset]
    split
    · exact h
    · next hdepth =>
      obtain ⟨root, chain, hchain⟩ : ∃ root chain,
          presetChain savedConnectionId generated (hop :: hops) target = root :: chain := ⟨_, _, rfl⟩
      have hrootId : root.nodeId = generated 0 := by
        have hhead := congrArg List.head? (map_nodeId_presetChain savedConnectionId generated
          (hop :: hops) target)
        rw [hchain, List.range_succ_eq_map] at hhead
        exact Option.some_inj.mp hhead
      rw [hchain, List.length_cons] at hlength
      rw [hchain] at hfresh hnodup ⊢
      obtain ⟨hroot, hfresh⟩ := List.forall_mem_cons.mp hfresh
      rw [List.map_cons, List.nodup_cons] at hnodup
      rw [hrootId] at hroot hnodup
      have hentry : ∀ n, (store.upsertNodeWithOrigin (generated 0) hop
          (.manualPreset savedConnectionId 0) nowMs).nodes.get n = if n = generated 0 then
            some (newNode hop none 0 (.manualPreset savedConnectionId 0) nowMs)
          else store.nodes.get n := by
        intro n
        rw [upsertNodeWithOrigin, hroot]
        exact FiniteMap.get_insert _ _ _ _
      refine (IsForest.appendChain chain h.upsertNode
        (mem_forest_of_get (by rw [hentry, if_pos rfl])) (fun node hnode => ?_) hnodup.2 ?_).1
      · have hne : node.nodeId ≠ generated 0 := fun he =>
          hnodup.1 (he ▸ List.mem_map_of_mem (f := (·.nodeId)) hnode)
        rw [hentry, if_neg hne]
        exact hfresh node hnode
      · rw [depthOf, hentry, if_pos rfl]
        simp only [newNode, Option.map_some, Option.getD_some, UInt32.toNat_zero]
        omega

theorem IsForest.expandManualPresetUnderParent (h : store.IsForest) {savedConnectionId : String}
    {generated : Nat → NodeId} {hops : List SshConfig} {target : SshConfig}
    (hgenerated : store.Generates generated (hops.length + 1)) :
    (store.expandManualPresetUnderParent parentId savedConnectionId generated hops target
      nowMs).1.IsForest := by
  rw [RuntimeStore.expandManualPresetUnderParent]
  cases hparent : store.nodes.get parentId with
  | none => exact h
  | some parent =>
    dsimp only
    split
    · exact h
    · split
      · exact h
      · next hdepth =>
        obtain ⟨hfresh, hnodup⟩ := @hgenerated.chain store savedConnectionId generated hops target
        refine (IsForest.appendChain _ h (mem_forest_of_get hparent) hfresh hnodup ?_).1
        rw [depthOf_of_get hparent, length_presetChain]
        omega

end Added

/-! ## Traversals -/

theorem depthOf_lt_card (h : store.IsForest) (hn : n ∈ store.forest.nodes) :
    store.depthOf n < store.nodes.keys.card := h.levels.depth_lt_card (fun _ => Iff.rfl) hn

/-- **What is within a node is listed once, children before their parents.** -/
theorem exists_subtreePostorder (h : store.IsForest) (hn : n ∈ store.forest.nodes) :
    ∃ removed, store.subtreePostorder n = some removed ∧
      store.forest.Lists (fun a b => ¬ store.forest.Ancestor a b) {m | store.forest.Within n m}
        removed := by
  refine exists_collect h.levels (visits_concat _) h.wellFormed (store.nodes.keys.card + 1) hn
    (fun m hm => (depthOf_lt_card h hm).le) ?_
  omega

theorem subtreePostorder_of_none (h : store.nodes.get n = none) :
    store.subtreePostorder n = some [n] := by
  have hchildren : store.childrenOf n = [] := by
    rw [childrenOf, h]
    rfl
  rw [subtreePostorder, collect, hchildren]
  rfl

theorem map_id_flatNodes {ids : List NodeId} (h : ∀ n ∈ ids, n ∈ store.forest.nodes) :
    (ids.filterMap fun n => (store.nodes.get n).map (store.flatNode n)).map (·.id) = ids := by
  induction ids with
  | nil => rfl
  | cons n ids ih =>
    obtain ⟨hn, hids⟩ := List.forall_mem_cons.mp h
    obtain ⟨route, hroute⟩ := mem_forest.mp hn
    rw [List.filterMap_cons, hroute]
    show _ :: _ = _
    rw [ih hids]
    rfl

/-- **The flat list has every node once, behind its parent**, with what is known of it. -/
theorem exists_flatten (h : store.IsForest) :
    ∃ flat, store.flatten = some flat ∧ (flat.map (·.id)).Nodup ∧
      (∀ n, n ∈ flat.map (·.id) ↔ n ∈ store.forest.nodes) ∧
      (flat.map (·.id)).Pairwise (fun a b => ¬ store.forest.Ancestor b a) ∧
      ∀ node ∈ flat, ∃ route, store.nodes.get node.id = some route ∧
        node = store.flatNode node.id route := by
  have hdepth : ∀ m ∈ store.forest.nodes, store.depthOf m < store.nodes.keys.card + 1 :=
    fun m hm => Nat.lt_succ_of_lt (depthOf_lt_card h hm)
  obtain ⟨lists, hlists, hnodup, hpairwise, hmem⟩ :=
    exists_collect_roots h.levels (visits_cons _) h.wellFormed hdepth
  have hids := map_id_flatNodes fun n hn => ((hmem n).mp hn).1
  refine ⟨_, by rw [flatten]; exact congrArg (Option.map _) hlists, ?_, fun n => ?_, ?_,
    fun node hnode => ?_⟩
  · rw [hids]
    exact hnodup
  · rw [hids, hmem]
    exact ⟨fun hn => hn.1, fun hn => ⟨hn, Set.mem_univ n⟩⟩
  · rw [hids]
    exact hpairwise
  · obtain ⟨n, -, hn⟩ := List.mem_filterMap.mp hnode
    obtain ⟨route, hroute, rfl⟩ := Option.map_eq_some_iff.mp hn
    exact ⟨route, hroute, rfl⟩

theorem exists_pathUp (h : store.IsForest) : ∀ (fuel : Nat) {n : NodeId}, n ∈ store.forest.nodes →
    store.depthOf n < fuel →
      ∃ up, store.pathUp fuel n = some (.ok up) ∧ up.head? = some n ∧
        up.IsChain (fun b a => store.parentOf b = some a) ∧
        ∀ r, up.getLast? = some r → r ∈ store.rootIds
  | 0, _, _, hfuel => absurd hfuel (Nat.not_lt_zero _)
  | fuel + 1, n, hn, hfuel => by
    obtain ⟨route, hroute⟩ := mem_forest.mp hn
    have hparentOf := parentOf_of_get hroute
    rw [pathUp, hroute]
    cases hparent : route.parentId with
    | none =>
      refine ⟨[n], by simp [hparent], rfl, .singleton n, fun r hr => ?_⟩
      obtain rfl : n = r := by simpa using hr
      exact (h.wellFormed.mem_roots n).mpr ⟨hn, hparentOf.trans hparent⟩
    | some p =>
      have hlink : store.parentOf n = some p := hparentOf.trans hparent
      obtain ⟨hmem, hlevel⟩ := h.levels.child n hn p hlink
      obtain ⟨up, hup, hhead, hchain, hlast⟩ := exists_pathUp h fuel hmem (by omega)
      obtain ⟨rest, rfl⟩ := List.head?_eq_some_iff.mp hhead
      refine ⟨n :: p :: rest, by simp only [hparent, hup]; rfl, rfl, .cons_cons hlink hchain, fun r hr => ?_⟩
      rw [List.getLast?_cons_cons] at hr
      exact hlast r hr

/-- **The path to a node leads from a root along the links.** -/
theorem exists_pathToNode (h : store.IsForest) (hn : n ∈ store.forest.nodes) :
    ∃ path, store.pathToNode n = some (.ok path) ∧ path.getLast? = some n ∧
      path.IsChain (fun a b => store.parentOf b = some a) ∧
      ∀ r, path.head? = some r → r ∈ store.rootIds := by
  obtain ⟨up, hup, hhead, hchain, hlast⟩ :=
    exists_pathUp h (store.nodes.keys.card + 1) hn (Nat.lt_succ_of_lt (depthOf_lt_card h hn))
  refine ⟨up.reverse, by rw [pathToNode, hup]; rfl, by rw [List.getLast?_reverse, hhead], ?_, ?_⟩
  · rw [List.isChain_reverse]
    exact hchain
  · intro r hr
    rw [List.head?_reverse] at hr
    exact hlast r hr

/-! ## Nodes that cover the candidates -/

theorem exists_isDescendantOrSame (h : store.IsForest) (ancestorId : NodeId) : ∀ (fuel : Nat)
    {n : NodeId}, n ∈ store.forest.nodes → store.depthOf n < fuel →
      ∃ b, store.isDescendantOrSame ancestorId fuel n = some b ∧
        (b = true ↔ store.forest.Within ancestorId n)
  | 0, _, _, hfuel => absurd hfuel (Nat.not_lt_zero _)
  | fuel + 1, n, hn, hfuel => by
    rw [isDescendantOrSame]
    by_cases hsame : n = ancestorId
    · exact ⟨true, by rw [if_pos hsame], by simp [hsame, Forest.within_self]⟩
    · rw [if_neg hsame]
      have habove : store.forest.Within ancestorId n ↔ store.forest.Ancestor ancestorId n := by
        simp [Forest.Within, hsame]
      rw [habove, Forest.ancestor_iff]
      cases hparent : store.parentOf n with
      | none =>
        refine ⟨false, rfl, ?_⟩
        have hnone : store.forest.parent n = none := hparent
        simp [hnone]
      | some p =>
        have hsome : store.forest.parent n = some p := hparent
        obtain ⟨hmem, hlevel⟩ := h.levels.child n hn p hsome
        obtain ⟨b, hb, hiff⟩ := exists_isDescendantOrSame h ancestorId fuel hmem (by omega)
        exact ⟨b, hb, by simp [hsome, hiff]⟩

/-- **The chosen roots cover every candidate, and none of them is below another.** -/
theorem exists_minimalSubtreeRoots (h : store.IsForest) (candidates : List NodeId) :
    ∃ roots, store.minimalSubtreeRoots candidates = some roots ∧
      (∀ r ∈ roots, r ∈ candidates ∧ r ∈ store.forest.nodes) ∧
      roots.Pairwise (fun a b => ¬ store.forest.Within a b ∧ ¬ store.forest.Within b a) ∧
      ∀ n ∈ candidates, n ∈ store.forest.nodes → ∃ r ∈ roots, store.forest.Within r n := by
  rw [minimalSubtreeRoots]
  generalize hsorted : ((candidates.filter fun n => (store.nodes.get n).isSome).mergeSort
    fun a b => decide (store.candidateKey a ≤ store.candidateKey b)) = sorted
  have hmem : ∀ n, n ∈ sorted ↔ n ∈ candidates ∧ n ∈ store.forest.nodes := by
    intro n
    rw [← hsorted, (List.mergeSort_perm _ _).mem_iff, List.mem_filter]
    exact and_congr_right fun _ => (store.nodes.mem_keys n).symm
  have hdepth : sorted.Pairwise fun a b => store.depthOf a ≤ store.depthOf b := by
    have hkeys : sorted.Pairwise fun a b => decide (store.candidateKey a ≤ store.candidateKey b) := by
      rw [← hsorted]
      refine List.pairwise_mergeSort (fun a b c hab hbc => ?_) (fun a b => ?_) _
      · rw [decide_eq_true_iff] at hab hbc ⊢
        exact hab.trans hbc
      · rw [Bool.or_eq_true, decide_eq_true_iff, decide_eq_true_iff]
        exact le_total _ _
    refine hkeys.imp_of_mem fun {a b} ha hb hle => ?_
    obtain ⟨route, hroute⟩ := mem_forest.mp ((hmem a).mp ha).2
    obtain ⟨route', hroute'⟩ := mem_forest.mp ((hmem b).mp hb).2
    rw [decide_eq_true_iff, candidateKey, candidateKey, hroute, hroute'] at hle
    rw [depthOf_of_get hroute, depthOf_of_get hroute']
    exact (Prod.Lex.toLex_le_toLex.mp hle).elim Nat.le_of_lt fun he => Nat.le_of_eq he.1
  obtain ⟨roots, hroots, -, hsub, hpair, hcover⟩ :=
    Forest.exists_foldlM_keepUncovered (R := store.forest.Within) (fun _ => Forest.within_self)
      (fun n hn r => exists_isDescendantOrSame h r _ ((hmem n).mp hn).2
        (Nat.lt_succ_of_lt (depthOf_lt_card h ((hmem n).mp hn).2)))
      (List.Pairwise.nil (R := fun a b => ¬ store.forest.Within a b))
  rw [List.nil_append] at hsub
  refine ⟨roots, hroots, fun r hr => (hmem r).mp (hsub.subset hr), ?_, fun n hn hnode =>
    hcover n ((hmem n).mpr ⟨hn, hnode⟩)⟩
  refine (hpair.and (hdepth.sublist hsub)).imp_of_mem fun {a b} ha hb hab => ⟨hab.1, ?_⟩
  -- what is above a node has less depth, and the list is sorted by depth
  rintro (rfl | hbelow)
  · exact hab.1 Forest.within_self
  · have hlt := (h.levels.ancestor hbelow ((hmem a).mp (hsub.subset ha)).2).2
    omega

/-! ## Nodes that are removed -/

theorem get_removeNodes : ∀ (removed : List NodeId) (store : RuntimeStore) (n : NodeId),
    (removed.foldl removeNode store).nodes.get n =
      if n ∈ removed then none else store.nodes.get n
  | [], _, _ => by simp
  | id :: removed, store, n => by
    rw [List.foldl_cons, get_removeNodes removed]
    show (if n ∈ removed then none else (store.nodes.erase id).get n) = _
    rw [FiniteMap.get_erase]
    by_cases hn : n = id <;> by_cases hmem : n ∈ removed <;> simp [hn, hmem]

theorem rootIds_removeNodes : ∀ (removed : List NodeId) (store : RuntimeStore),
    (removed.foldl removeNode store).rootIds = store.rootIds
  | [], _ => rfl
  | id :: removed, store => by
    rw [List.foldl_cons, rootIds_removeNodes removed]
    rfl

/-- An entry without a child. -/
theorem links_detach (h : n ∈ store.forest.nodes) :
    ((store.detach nodeId).nodes.get n).map links =
      if store.parentOf nodeId = some n then
        ((store.nodes.get n).map links).map fun entry =>
          (entry.1, entry.2.1.filter fun id => id ≠ nodeId, entry.2.2)
      else (store.nodes.get n).map links := by
  obtain ⟨route, hroute⟩ := mem_forest.mp h
  rw [detach]
  cases hparent : store.parentOf nodeId with
  | none => simp
  | some p =>
    dsimp only
    rw [FiniteMap.get_modify]
    by_cases hn : n = p
    · subst hn
      rw [if_pos rfl, if_pos rfl, hroute]
      rfl
    · rw [if_neg hn, if_neg fun he => hn (Option.some_inj.mp he).symm]

/-- **What a removal leaves.** -/
structure Removed (store : RuntimeStore) (nodeId : NodeId) (store' : RuntimeStore)
    (removed : List NodeId) : Prop where
  mem : ∀ n, n ∈ removed ↔ n = nodeId ∨ n ∈ store.forest.nodes ∧ store.forest.Ancestor nodeId n
  gone : ∀ n ∈ removed, store'.nodes.get n = none
  kept : ∀ n ∉ removed, ((store'.nodes.get n).map links) =
    ((store.nodes.get n).map links).map fun entry =>
      (entry.1, entry.2.1.filter fun id => id ≠ nodeId, entry.2.2)
  roots : store'.rootIds = store.rootIds.filter fun id => id ≠ nodeId

/-- A removal keeps the links of what it leaves, but for those to the node it cuts off. -/
theorem removed_of_removeSubtree (h : store.IsForest) {removed : List NodeId}
    (hok : store.removeSubtree nodeId = some (store', removed)) :
    store.Removed nodeId store' removed := by
  rw [RuntimeStore.removeSubtree, Option.map_eq_some_iff] at hok
  obtain ⟨removed, hremoved, heq⟩ := hok
  obtain ⟨rfl, rfl⟩ := Prod.mk.inj heq
  have hmem : ∀ n, n ∈ removed ↔
      n = nodeId ∨ n ∈ store.forest.nodes ∧ store.forest.Ancestor nodeId n := by
    intro n
    cases hget : store.nodes.get nodeId with
    | none =>
      cases (subtreePostorder_of_none hget).symm.trans hremoved
      have hnot : ¬ (n ∈ store.forest.nodes ∧ store.forest.Ancestor nodeId n) := fun hn =>
        notMem_forest hget (h.levels.ancestor hn.2 hn.1).1
      simp [hnot]
    | some route =>
      obtain ⟨removed', hremoved', -, -, hlists⟩ := exists_subtreePostorder h (mem_forest_of_get hget)
      cases hremoved'.symm.trans hremoved
      rw [hlists]
      constructor
      · rintro ⟨hn, rfl | habove⟩
        · exact .inl rfl
        · exact .inr ⟨hn, habove⟩
      · rintro (rfl | ⟨hn, habove⟩)
        · exact ⟨mem_forest_of_get hget, within_self⟩
        · exact ⟨hn, .inr habove⟩
  refine ⟨hmem, fun n hn => by rw [get_removeNodes, if_pos hn], fun n hn => ?_, ?_⟩
  · rw [get_removeNodes, if_neg hn]
    cases hget : store.nodes.get n with
    | none =>
      have hnone : (store.detach nodeId).nodes.get n = none := by
        rw [detach]
        split
        · dsimp only
          rw [FiniteMap.get_modify, hget]
          split <;> rfl
        · exact hget
      rw [hnone]
      rfl
    | some route =>
      have hnode := mem_forest_of_get hget
      rw [links_detach hnode]
      split
      next => rw [hget]
      next hparent =>
        have hchildren : route.childrenIds.filter (fun id => id ≠ nodeId) = route.childrenIds := by
          rw [← childrenOf_of_get hget]
          exact filter_ne_of_notMem fun hid =>
            hparent ((h.wellFormed.mem_children n hnode nodeId).mp hid).2
        rw [hget]
        simp only [Option.map_some, links, hchildren]
  · rw [rootIds_removeNodes, detach]
    split
    next p hparent =>
      refine (filter_ne_of_notMem fun hroot => ?_).symm
      cases hparent.symm.trans ((h.wellFormed.mem_roots nodeId).mp hroot).2
    next => rfl

theorem Removed.isForest {removed : List NodeId} (h : store.IsForest)
    (hremoved : store.Removed nodeId store' removed) : store'.IsForest := by
  have hkeep : ∀ n, n ∈ store.forest.nodes → (n ∉ removed ↔ ¬ store.forest.Within nodeId n) := by
    intro n hn
    rw [hremoved.mem]
    refine not_congr ⟨?_, ?_⟩
    · rintro (rfl | ⟨-, habove⟩)
      · exact within_self
      · exact .inr habove
    · rintro (rfl | habove)
      · exact .inl rfl
      · exact .inr ⟨hn, habove⟩
  have hclosed := store.forest.upClosed_compl_within nodeId
  -- below a node that is kept, only the node itself is cut off
  have hchild : ∀ n, ¬ store.forest.Within nodeId n → ∀ c, store.parentOf c = some n →
      (¬ store.forest.Within nodeId c ↔ c ≠ nodeId) := by
    intro n hn c hc
    refine not_congr ⟨?_, fun he => he ▸ within_self⟩
    rintro (rfl | habove)
    · rfl
    · obtain ⟨p, hp, hwithin⟩ := ancestor_iff.mp habove
      cases hc.symm.trans hp
      exact absurd hwithin hn
  have hmem : ∀ n, n ∈ store'.forest.nodes ↔ n ∈ store.forest.nodes ∧ ¬ store.forest.Within nodeId n := by
    intro n
    by_cases hn : n ∈ removed
    · rw [mem_forest_links, hremoved.gone n hn]
      simp only [Option.map_none, Option.isSome_none, Bool.false_eq_true, false_iff, not_and]
      exact fun hnode => not_not.mpr (by
        by_contra hwithin
        exact (hkeep n hnode).mpr hwithin hn)
    · rw [mem_forest_links, hremoved.kept n hn, Option.isSome_map, ← mem_forest_links]
      exact ⟨fun hnode => ⟨hnode, (hkeep n hnode).mp hn⟩, And.left⟩
  have hnone : ∀ n, ¬ (n ∈ store.forest.nodes ∧ n ∈ {m | ¬ store.forest.Within nodeId m}) →
      store'.nodes.get n = none := by
    intro n hn
    exact FiniteMap.get_of_notMem fun hnode => hn ((hmem n).mp hnode)
  have hforest : store'.forest = store.forest.restrict {m | ¬ store.forest.Within nodeId m} := by
    rw [forest, restrict]
    congr 1
    · ext n
      exact hmem n
    · funext n
      show store'.parentOf n = (store.forest.restrict _).parent n
      by_cases hn : n ∈ store.forest.nodes ∧ n ∈ {m | ¬ store.forest.Within nodeId m}
      · rw [parent_restrict hclosed hn.1 hn.2, parentOf_eq,
          hremoved.kept n ((hkeep n hn.1).mpr hn.2), Option.bind_map]
        exact parentOf_eq.symm
      · rw [(links_restrict_of_not hn).1, parentOf, hnone n hn]
        rfl
    · funext n
      show store'.childrenOf n = (store.forest.restrict _).children n
      by_cases hn : n ∈ store.forest.nodes ∧ n ∈ {m | ¬ store.forest.Within nodeId m}
      · rw [children_restrict hn.1 hn.2, childrenOf_eq, hremoved.kept n ((hkeep n hn.1).mpr hn.2)]
        obtain ⟨route, hroute⟩ := mem_forest.mp hn.1
        have hchildren : store.forest.children n = route.childrenIds := childrenOf_of_get hroute
        rw [hroute, hchildren]
        refine List.filter_congr fun c hc => ?_
        have hlink := ((h.wellFormed.mem_children n hn.1 c).mp (hchildren ▸ hc)).2
        simp [hchild n hn.2 c hlink]
      · rw [(links_restrict_of_not hn).2, childrenOf, hnone n hn]
        rfl
    · show store'.rootIds = (store.forest.restrict _).roots
      rw [hremoved.roots]
      refine List.filter_congr fun r hr => ?_
      have hnoparent : store.forest.parent r = none := ((h.wellFormed.mem_roots r).mp hr).2
      have hwithin : store.forest.Within nodeId r ↔ r = nodeId := by
        refine ⟨?_, fun he => he ▸ within_self⟩
        rintro (rfl | habove)
        · rfl
        · obtain ⟨p, hp, -⟩ := ancestor_iff.mp habove
          cases hnoparent.symm.trans hp
      simp [hwithin]
  have hdepths : ∀ n ∈ store'.forest.nodes, store'.depthOf n = store.depthOf n := by
    intro n hn
    obtain ⟨hnode, hwithin⟩ := (hmem n).mp hn
    rw [depthOf_eq, depthOf_eq, hremoved.kept n ((hkeep n hnode).mpr hwithin), Option.map_map]
    rfl
  refine ⟨?_, ?_, fun n => ?_⟩
  · rw [hforest]
    exact h.wellFormed.restrict hclosed
  · refine Levels.congr ?_ hdepths
    rw [hforest]
    exact h.levels.restrict hclosed
  · by_cases hn : n ∈ store'.forest.nodes
    · rw [hdepths n hn]
      exact h.bounded n
    · rw [depthOf, FiniteMap.get_of_notMem hn]
      exact Nat.zero_le _

end OxideTerm.Ssh.RuntimeStore
