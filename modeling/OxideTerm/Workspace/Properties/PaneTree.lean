import Mathlib.Data.List.Nodup
import OxideTerm.Workspace.PaneTree

/-!
# No pane is lost by an edit

The trees of the callers have distinct panes and at least two children in every group. On them an
edit succeeds where its pane is in the tree, and the panes from left to right show what it did: a
subtree was put beside a pane, a pane was taken out, or a leaf was exchanged.
-/

namespace OxideTerm.Workspace

open List

/-! ## Sizes -/

/-- Sizes change no node. -/
theorem map_node_withSizes : ∀ (children : PaneChildren) (sizes : List Float32),
    (withSizes children sizes).map (·.node) = children.map (·.node)
  | [], [] => rfl
  | [], _ :: _ => rfl
  | _ :: _, [] => rfl
  | child :: children, size :: sizes =>
    congrArg (child.node :: ·) (map_node_withSizes children sizes)

theorem map_node_normalizeChildren (children : PaneChildren) :
    (normalizeChildren children).map (·.node) = children.map (·.node) :=
  map_node_withSizes children _

namespace PaneNode

/-- What holds of a group when it holds of its children, holds of every tree. -/
@[elab_as_elim, induction_eliminator]
theorem induct {motive : PaneNode → Prop} (page : ∀ paneId tabId, motive (page paneId tabId))
    (leaf : ∀ paneId sessionId, motive (leaf paneId sessionId))
    (group : ∀ id direction children, (∀ child ∈ children, motive child.node) →
      motive (group id direction children)) : ∀ node, motive node :=
  @PaneNode.rec motive (fun children => ∀ child ∈ children, motive child.node)
    (fun child => motive child.node) page leaf group
    (fun _ h => absurd h not_mem_nil)
    (fun _ _ hchild hchildren => forall_mem_cons.mpr ⟨hchild, hchildren⟩)
    (fun _ _ hnode => hnode)

/-! ## The panes of a tree -/

theorem collectChildren_eq (children : PaneChildren)
    (h : ∀ child ∈ children, ∀ panes, child.node.collectPaneIds panes = panes ++ child.node.panes)
    (panes : List PaneId) :
    collectChildren panes children = panes ++ children.flatMap (·.node.panes) := by
  induction children generalizing panes with
  | nil => rw [collectChildren, flatMap_nil, append_nil]
  | cons child children ih =>
    obtain ⟨hchild, hchildren⟩ := forall_mem_cons.mp h
    rw [collectChildren, hchild, ih hchildren, flatMap_cons, append_assoc]

theorem collectPaneIds_eq (node : PaneNode) (panes : List PaneId) :
    node.collectPaneIds panes = panes ++ node.panes := by
  induction node generalizing panes with
  | page paneId tabId => rfl
  | leaf paneId sessionId => rfl
  | group id direction children ih =>
    rw [PaneNode.panes, collectPaneIds, collectPaneIds, collectChildren_eq children ih,
      collectChildren_eq children ih, nil_append]

@[simp] theorem panes_page (paneId : PaneId) (tabId : TabId) : (page paneId tabId).panes = [paneId] :=
  rfl

@[simp] theorem panes_leaf (paneId : PaneId) (sessionId : TerminalSessionId) :
    (leaf paneId sessionId).panes = [paneId] := rfl

@[simp] theorem panes_group (id : PaneId) (direction : SplitDirection) (children : PaneChildren) :
    (group id direction children).panes = children.flatMap (·.node.panes) := by
  rw [panes, collectPaneIds, collectChildren_eq children fun child _ => child.node.collectPaneIds_eq,
    nil_append]

theorem anyContainsPane_iff (target : PaneId) (children : PaneChildren)
    (h : ∀ child ∈ children, child.node.containsPane target = true ↔ target ∈ child.node.panes) :
    anyContainsPane target children = true ↔ target ∈ children.flatMap (·.node.panes) := by
  induction children with
  | nil => simp [anyContainsPane]
  | cons child children ih =>
    obtain ⟨hchild, hchildren⟩ := forall_mem_cons.mp h
    rw [anyContainsPane, Bool.or_eq_true, hchild, ih hchildren, flatMap_cons, mem_append]

@[simp] theorem containsPane_iff {target : PaneId} (node : PaneNode) :
    node.containsPane target = true ↔ target ∈ node.panes := by
  induction node with
  | page paneId tabId => simp [containsPane, eq_comm]
  | leaf paneId sessionId => simp [containsPane, eq_comm]
  | group id direction children ih =>
    rw [containsPane, anyContainsPane_iff target children ih, panes_group]

/-! ## The trees of the callers -/

/-- Every group has at least two children. -/
inductive Branching : PaneNode → Prop where
  | page (paneId : PaneId) (tabId : TabId) : Branching (page paneId tabId)
  | leaf (paneId : PaneId) (sessionId : TerminalSessionId) : Branching (leaf paneId sessionId)
  | group (id : PaneId) (direction : SplitDirection) {children : PaneChildren}
    (hlength : 2 ≤ children.length) (hchildren : ∀ child ∈ children, Branching child.node) :
    Branching (group id direction children)

/-- Every group below the root has at least two children. -/
inductive BranchingBelow : PaneNode → Prop where
  | page (paneId : PaneId) (tabId : TabId) : BranchingBelow (page paneId tabId)
  | leaf (paneId : PaneId) (sessionId : TerminalSessionId) : BranchingBelow (leaf paneId sessionId)
  | group (id : PaneId) (direction : SplitDirection) {children : PaneChildren}
    (hchildren : ∀ child ∈ children, Branching child.node) :
    BranchingBelow (group id direction children)

theorem branching_group_iff {id : PaneId} {direction : SplitDirection} {children : PaneChildren} :
    (group id direction children).Branching ↔
      2 ≤ children.length ∧ ∀ child ∈ children, child.node.Branching := by
  constructor
  · intro h
    cases h with
    | group _ _ hlength hchildren => exact ⟨hlength, hchildren⟩
  · rintro ⟨hlength, hchildren⟩
    exact .group _ _ hlength hchildren

/-- The first pane of a tree is in it. -/
theorem exists_firstPaneId {node : PaneNode} (h : node.Branching) :
    ∃ pane, node.firstPaneId = some pane ∧ pane ∈ node.panes := by
  induction node with
  | page paneId tabId => exact ⟨paneId, rfl, mem_singleton_self _⟩
  | leaf paneId sessionId => exact ⟨paneId, rfl, mem_singleton_self _⟩
  | group id direction children ih =>
    obtain ⟨hlength, hchildren⟩ := branching_group_iff.mp h
    rcases children with _ | ⟨child, children⟩
    · cases hlength
    · obtain ⟨pane, hfirst, hpane⟩ := ih child mem_cons_self (hchildren child mem_cons_self)
      refine ⟨pane, ?_, ?_⟩
      · rw [firstPaneId, hfirst]
      · rw [panes_group, flatMap_cons]
        exact mem_append_left _ hpane

/-! ## Inserting -/

section Inserting

variable (activePaneId groupId : PaneId) (direction : SplitDirection) (newNode : PaneNode)
  (before : Bool)

/-- What stands in the place of the pane. -/
def placed : List PaneId :=
  if before then newNode.panes ++ [activePaneId] else activePaneId :: newNode.panes

theorem panes_beside {old : PaneNode} (h : old.panes = [activePaneId]) :
    (beside groupId direction newNode old before).panes = placed activePaneId newNode before := by
  rw [beside, panes_group, placed]
  cases before <;> simp [h]

theorem branching_beside {old : PaneNode} (hnew : newNode.Branching) (hold : old.Branching) :
    (beside groupId direction newNode old before).Branching := by
  refine branching_group_iff.mpr ⟨?_, fun child hchild => ?_⟩
  · cases before <;> simp
  · obtain ⟨node, hnode, rfl⟩ := mem_map.mp hchild
    have hpair : node = newNode ∨ node = old := by
      cases before with
      | true => simpa using hnode
      | false => simpa [or_comm] using hnode
    rcases hpair with rfl | rfl
    · exact hnew
    · exact hold

theorem insertInFirst_of_notMem (children : PaneChildren)
    (h : activePaneId ∉ children.flatMap (·.node.panes)) :
    insertInFirst activePaneId groupId direction newNode before children = (false, children) := by
  induction children with
  | nil => rfl
  | cons child children ih =>
    rw [flatMap_cons, mem_append, not_or] at h
    rw [insertInFirst, if_neg fun hcontains => h.1 ((containsPane_iff _).mp hcontains), ih h.2]

theorem insertBeside_of_notMem {node : PaneNode} (h : activePaneId ∉ node.panes) :
    insertBeside activePaneId groupId direction newNode before node = (false, node) := by
  cases node with
  | page paneId tabId => exact if_neg fun heq => h (mem_singleton.mpr (Eq.symm heq))
  | leaf paneId sessionId => exact if_neg fun heq => h (mem_singleton.mpr (Eq.symm heq))
  | group id direction' children =>
    rw [panes_group] at h
    rw [insertBeside, insertInFirst_of_notMem _ _ _ _ _ children h]

/-- What was done to a list of panes: the new panes stand beside the old one. -/
def PlacedIn (panes after : List PaneId) : Prop :=
  ∃ front behind, panes = front ++ activePaneId :: behind ∧
    after = front ++ placed activePaneId newNode before ++ behind

variable {activePaneId newNode before}

theorem PlacedIn.append {panes after : List PaneId} (h : PlacedIn activePaneId newNode before panes after)
    (front behind : List PaneId) :
    PlacedIn activePaneId newNode before (front ++ panes ++ behind) (front ++ after ++ behind) := by
  obtain ⟨first, last, rfl, rfl⟩ := h
  exact ⟨front ++ first, last ++ behind, by simp, by simp⟩

variable (activePaneId newNode before)

/-- The insertion into one tree. -/
def InsertsInto (node : PaneNode) : Prop :=
  ∃ after, insertBeside activePaneId groupId direction newNode before node = (true, after) ∧
    PlacedIn activePaneId newNode before node.panes after.panes ∧
    (newNode.Branching → node.Branching → after.Branching)

theorem insertInFirst_of_mem (children : PaneChildren)
    (hnode : ∀ child ∈ children, activePaneId ∈ child.node.panes →
      InsertsInto activePaneId groupId direction newNode before child.node)
    (h : activePaneId ∈ children.flatMap (·.node.panes)) :
    ∃ after, insertInFirst activePaneId groupId direction newNode before children = (true, after) ∧
      PlacedIn activePaneId newNode before (children.flatMap (·.node.panes))
        (after.flatMap (·.node.panes)) ∧
      after.length = children.length ∧
      (newNode.Branching → (∀ child ∈ children, child.node.Branching) →
        ∀ child ∈ after, child.node.Branching) := by
  induction children with
  | nil => cases h
  | cons child children ih =>
    obtain ⟨hchild, hchildren⟩ := forall_mem_cons.mp hnode
    by_cases hmem : activePaneId ∈ child.node.panes
    · -- the pane is in this child
      obtain ⟨after, hinsert, hplaced, hbranching⟩ := hchild hmem
      refine ⟨⟨after, child.size⟩ :: children, ?_, ?_, rfl, fun hnew hall => ?_⟩
      · rw [insertInFirst, if_pos ((containsPane_iff _).mpr hmem), hinsert]
      · exact hplaced.append [] _
      · obtain ⟨hfirst, hrest⟩ := forall_mem_cons.mp hall
        exact forall_mem_cons.mpr ⟨hbranching hnew hfirst, hrest⟩
    · rw [flatMap_cons, mem_append] at h
      obtain ⟨after, hinsert, hplaced, hlength, hbranching⟩ :=
        ih hchildren (h.resolve_left hmem)
      refine ⟨child :: after, ?_, ?_, congrArg (· + 1) hlength, fun hnew hall => ?_⟩
      · rw [insertInFirst, if_neg fun hcontains => hmem ((containsPane_iff _).mp hcontains), hinsert]
      · have hbehind := hplaced.append child.node.panes []
        rwa [append_nil, append_nil] at hbehind
      · obtain ⟨hfirst, hrest⟩ := forall_mem_cons.mp hall
        exact forall_mem_cons.mpr ⟨hfirst, hbranching hnew hrest⟩

/-- **A subtree is put beside every pane of the tree.** -/
theorem insertBeside_of_mem {node : PaneNode} (h : activePaneId ∈ node.panes) :
    InsertsInto activePaneId groupId direction newNode before node := by
  induction node with
  | page paneId tabId =>
    obtain rfl := mem_singleton.mp h
    refine ⟨_, if_pos rfl, ⟨[], [], rfl, ?_⟩, fun hnew hold => ?_⟩
    · rw [panes_beside _ _ _ _ _ (panes_page activePaneId tabId), append_nil, nil_append]
    · exact branching_beside _ _ _ _ hnew hold
  | leaf paneId sessionId =>
    obtain rfl := mem_singleton.mp h
    refine ⟨_, if_pos rfl, ⟨[], [], rfl, ?_⟩, fun hnew hold => ?_⟩
    · rw [panes_beside _ _ _ _ _ (panes_leaf activePaneId sessionId), append_nil, nil_append]
    · exact branching_beside _ _ _ _ hnew hold
  | group id direction' children ih =>
    rw [panes_group] at h
    obtain ⟨after, hinsert, hplaced, hlength, hbranching⟩ :=
      insertInFirst_of_mem _ groupId direction _ _ children ih h
    refine ⟨group id direction' after, ?_, ?_, fun hnew hold => ?_⟩
    · rw [insertBeside, hinsert]
    · rwa [panes_group, panes_group]
    · obtain ⟨htwo, hall⟩ := branching_group_iff.mp hold
      exact branching_group_iff.mpr ⟨hlength.symm ▸ htwo, hbranching hnew hall⟩

end Inserting

/-! ## Closing -/

section Closing

variable {target : PaneId}

theorem notMem_of_isPane_false {node : PaneNode} (h : target ∉ node.panes) :
    node.isPane target = false := by
  cases node with
  | page paneId tabId => exact decide_eq_false fun heq => h (mem_singleton.mpr (Eq.symm heq))
  | leaf paneId sessionId => exact decide_eq_false fun heq => h (mem_singleton.mpr (Eq.symm heq))
  | group id direction children => rfl

theorem closeInFirst_of_notMem (children : PaneChildren)
    (h : target ∉ children.flatMap (·.node.panes)) :
    closeInFirst target children = some (false, children) := by
  induction children with
  | nil => rfl
  | cons child children ih =>
    rw [flatMap_cons, mem_append, not_or] at h
    rw [closeInFirst, notMem_of_isPane_false h.1, if_neg Bool.false_ne_true,
      if_neg fun hcontains => h.1 ((containsPane_iff _).mp hcontains), ih h.2]
    rfl

/-- Where the pane is not in the tree, nothing is closed. -/
theorem closePane_of_notMem {node : PaneNode} (h : target ∉ node.panes) :
    node.closePane target = some (none, node) := by
  cases node with
  | page paneId tabId => rfl
  | leaf paneId sessionId => rfl
  | group id direction children =>
    rw [panes_group] at h
    rw [closePane, closeInFirst_of_notMem children h]
    rfl

/-- A group that is left with one child gives way to it. -/
theorem branching_replaced {node : PaneNode} {id : PaneId} {direction : SplitDirection}
    {children : PaneChildren} (hnode : node = group id direction children) (hne : children ≠ [])
    (hchildren : ∀ child ∈ children, child.node.Branching) :
    (node.singleChildReplacement.getD node).Branching ∧
      (node.singleChildReplacement.getD node).panes = node.panes := by
  subst hnode
  rcases children with _ | ⟨child, _ | ⟨second, children⟩⟩
  · exact absurd rfl hne
  · refine ⟨hchildren child mem_cons_self, ?_⟩
    rw [panes_group, flatMap_cons, flatMap_nil, append_nil]
    rfl
  · exact ⟨branching_group_iff.mpr ⟨by simp, hchildren⟩, rfl⟩

/-- Closing a pane of a group: one pane less, and one child less at most. -/
def ClosesIn (target : PaneId) (node : PaneNode) : Prop :=
  ∀ id direction children, node = group id direction children →
    ∃ pane after, node.closePane target = some (some pane, group id direction after) ∧
      (group id direction after).panes = node.panes.erase target ∧
      pane ∈ (group id direction after).panes ∧
      children.length ≤ after.length + 1 ∧ ∀ child ∈ after, child.node.Branching

theorem closeInFirst_of_mem (children : PaneChildren)
    (hbranching : ∀ child ∈ children, child.node.Branching)
    (hnode : ∀ child ∈ children, target ∈ child.node.panes → ClosesIn target child.node)
    (h : target ∈ children.flatMap (·.node.panes)) :
    ∃ after, closeInFirst target children = some (true, after) ∧
      after.flatMap (·.node.panes) = (children.flatMap (·.node.panes)).erase target ∧
      children.length ≤ after.length + 1 ∧ ∀ child ∈ after, child.node.Branching := by
  induction children with
  | nil => cases h
  | cons child children ih =>
    obtain ⟨hfirst, hrest⟩ := forall_mem_cons.mp hbranching
    obtain ⟨hchild, hchildren⟩ := forall_mem_cons.mp hnode
    by_cases hmem : target ∈ child.node.panes
    · rw [flatMap_cons, erase_append_left _ hmem]
      have hcontains := (containsPane_iff child.node).mpr hmem
      -- a pane goes away with its place, a group stays or gives way to its last child
      cases hkind : child.node with
      | page paneId tabId =>
        rw [hkind] at hmem
        obtain rfl := mem_singleton.mp hmem
        refine ⟨children, ?_, ?_, Nat.le_refl _, hrest⟩
        · rw [closeInFirst, hkind, isPane, if_pos (decide_eq_true rfl)]
        · rw [panes_page, erase_cons_head, nil_append]
      | leaf paneId sessionId =>
        rw [hkind] at hmem
        obtain rfl := mem_singleton.mp hmem
        refine ⟨children, ?_, ?_, Nat.le_refl _, hrest⟩
        · rw [closeInFirst, hkind, isPane, if_pos (decide_eq_true rfl)]
        · rw [panes_leaf, erase_cons_head, nil_append]
      | group id direction grandchildren =>
        obtain ⟨pane, after, hclose, hpanes, -, hlength, hafter⟩ := hchild hmem _ _ _ hkind
        rw [hkind] at hfirst
        have hne : after ≠ [] := by
          rintro rfl
          have htwo := (branching_group_iff.mp hfirst).1
          rw [length_nil] at hlength
          omega
        obtain ⟨hreplaced, hsame⟩ := @branching_replaced _ id direction after rfl hne hafter
        let kept := (group id direction after).singleChildReplacement.getD (group id direction after)
        refine ⟨⟨kept, child.size⟩ :: children, ?_, ?_, Nat.le_succ _,
          forall_mem_cons.mpr ⟨hreplaced, hrest⟩⟩
        · rw [closeInFirst, if_neg, if_pos hcontains, hclose]
          · rfl
          · rw [hkind, isPane]
            exact Bool.false_ne_true
        · rw [flatMap_cons, hsame, hpanes, hkind]
    · rw [flatMap_cons, mem_append] at h
      obtain ⟨after, hclose, hpanes, hlength, hafter⟩ :=
        ih hrest hchildren (h.resolve_left hmem)
      refine ⟨child :: after, ?_, ?_, Nat.succ_le_succ hlength,
        forall_mem_cons.mpr ⟨hfirst, hafter⟩⟩
      · rw [closeInFirst, notMem_of_isPane_false hmem, if_neg Bool.false_ne_true,
          if_neg fun hcontains => hmem ((containsPane_iff _).mp hcontains), hclose]
        rfl
      · rw [flatMap_cons, flatMap_cons, erase_append_right _ hmem, hpanes]

theorem flatMap_panes_congr {children after : PaneChildren}
    (h : after.map (·.node) = children.map (·.node)) :
    after.flatMap (·.node.panes) = children.flatMap (·.node.panes) := by
  have hmap : ∀ children : PaneChildren,
      children.flatMap (·.node.panes) = (children.map (·.node)).flatMap panes :=
    fun children => (flatMap_map _ _ _).symm
  rw [hmap, hmap, h]

theorem forall_node_congr {children after : PaneChildren} {p : PaneNode → Prop}
    (h : after.map (·.node) = children.map (·.node)) (hall : ∀ child ∈ children, p child.node) :
    ∀ child ∈ after, p child.node := by
  intro child hchild
  have hmem : child.node ∈ children.map (·.node) := h ▸ mem_map_of_mem hchild
  obtain ⟨other, hother, heq⟩ := mem_map.mp hmem
  exact heq ▸ hall other hother

/-- **One pane is taken out of a group that contains it.** -/
theorem closePane_of_mem {node : PaneNode} (hbranching : node.Branching) (h : target ∈ node.panes) :
    ClosesIn target node := by
  induction node with
  | page paneId tabId =>
    intro id direction children heq
    cases heq
  | leaf paneId sessionId =>
    intro id direction children heq
    cases heq
  | group id direction children ih =>
    intro id' direction' children' heq
    cases heq
    obtain ⟨htwo, hall⟩ := branching_group_iff.mp hbranching
    rw [panes_group] at h
    obtain ⟨after, hclose, hpanes, hlength, hafter⟩ := closeInFirst_of_mem children hall
      (fun child hchild hmem => ih child hchild (hall child hchild) hmem) h
    have hsame := map_node_normalizeChildren after
    have hbranches := forall_node_congr hsame hafter
    have hcount : (normalizeChildren after).length = after.length := by
      have := congrArg length hsame
      rwa [length_map, length_map] at this
    rcases hnormal : normalizeChildren after with _ | ⟨first, rest⟩
    · rw [hnormal, length_nil] at hcount
      omega
    · rw [hnormal] at hsame hbranches hcount
      obtain ⟨pane, hfirst, hpane⟩ := exists_firstPaneId (hbranches first mem_cons_self)
      refine ⟨pane, first :: rest, ?_, ?_, ?_, hcount ▸ hlength, hbranches⟩
      · simp [closePane, hclose, hnormal, hfirst]
      · rw [panes_group, panes_group, flatMap_panes_congr hsame, hpanes]
      · rw [panes_group, flatMap_cons]
        exact mem_append_left _ hpane

end Closing

/-! ## Exchanging a session -/

section Replacing

/-- What stands at a place of the layout. -/
inductive Content where
  | page (paneId : PaneId) (tabId : TabId)
  | leaf (paneId : PaneId) (sessionId : TerminalSessionId)

def Content.Shows (sessionId : TerminalSessionId) : Content → Prop
  | page _ _ => False
  | leaf _ sessionId' => sessionId' = sessionId

mutual

/-- What the tree shows from left to right. -/
def contents : PaneNode → List Content
  | page paneId tabId => [.page paneId tabId]
  | leaf paneId sessionId => [.leaf paneId sessionId]
  | group _ _ children => contentsOf children

def contentsOf : PaneChildren → List Content
  | [] => []
  | ⟨node, _⟩ :: children => node.contents ++ contentsOf children

end

mutual

/-- The tree without what it shows. -/
def outline : PaneNode → PaneNode
  | page _ _ => page ⟨0⟩ ⟨0⟩
  | leaf _ _ => page ⟨0⟩ ⟨0⟩
  | group id direction children => group id direction (outlineOf children)

def outlineOf : PaneChildren → PaneChildren
  | [] => []
  | ⟨node, size⟩ :: children => ⟨node.outline, size⟩ :: outlineOf children

end

variable (oldSessionId : TerminalSessionId) (newPaneId : PaneId) (newSessionId : TerminalSessionId)

/-- The answer to an exchange, and what it does to the contents: nothing, or the first leaf of the
session is another one. -/
def ExchangedIn (old : Option PaneId) (before after : List Content) : Prop :=
  (old = none ∧ after = before ∧ ∀ content ∈ before, ¬ content.Shows oldSessionId) ∨
    ∃ paneId front behind, old = some paneId ∧
      before = front ++ .leaf paneId oldSessionId :: behind ∧
      after = front ++ .leaf newPaneId newSessionId :: behind ∧
      ∀ content ∈ front, ¬ content.Shows oldSessionId

/-- The exchange in one tree. -/
def Exchanges (node : PaneNode) : Prop :=
  ∃ old after, node.replaceSession oldSessionId newPaneId newSessionId = (old, after) ∧
    ExchangedIn oldSessionId newPaneId newSessionId old node.contents after.contents ∧
    after.outline = node.outline ∧ (old = none → after = node)

theorem replaceFirst_cases (children : PaneChildren)
    (hnode : ∀ child ∈ children, Exchanges oldSessionId newPaneId newSessionId child.node) :
    ∃ old after, replaceFirst oldSessionId newPaneId newSessionId children = (old, after) ∧
      ExchangedIn oldSessionId newPaneId newSessionId old (contentsOf children) (contentsOf after) ∧
      outlineOf after = outlineOf children ∧ (old = none → after = children) := by
  induction children with
  | nil => exact ⟨none, [], rfl, .inl ⟨rfl, rfl, fun _ h => absurd h not_mem_nil⟩, rfl, fun _ => rfl⟩
  | cons child children ih =>
    obtain ⟨⟨old, after, hreplace, hexchanged, houtline, hsame⟩, hchildren⟩ :=
      forall_mem_cons.mp hnode
    rcases hexchanged with ⟨rfl, hcontents, hother⟩ | ⟨paneId, front, behind, rfl, hbefore, hafter, hfirst⟩
    · -- the next children
      obtain ⟨old, rest, hrest, hexchanged, houtlines, hsames⟩ := ih hchildren
      obtain rfl := hsame rfl
      refine ⟨old, ⟨child.node, child.size⟩ :: rest, ?_, ?_, ?_, fun hnone => ?_⟩
      · rw [replaceFirst, hreplace, hrest]
      · rcases hexchanged with ⟨rfl, hcontents, hothers⟩ |
          ⟨paneId, front, behind, rfl, hbefore, hafter, hfirst⟩
        · refine .inl ⟨rfl, ?_, ?_⟩
          · rw [contentsOf, contentsOf, hcontents]
          · rw [contentsOf]
            exact fun content hmem => (mem_append.mp hmem).elim (hother _) (hothers _)
        · refine .inr ⟨paneId, child.node.contents ++ front, behind, rfl, ?_, ?_, ?_⟩
          · rw [contentsOf, hbefore, append_assoc]
          · rw [contentsOf, hafter, append_assoc]
          · exact fun content hmem => (mem_append.mp hmem).elim (hother _) (hfirst _)
      · rw [outlineOf, outlineOf, houtlines]
      · rw [hsames hnone]
    · refine ⟨some paneId, ⟨after, child.size⟩ :: children, ?_, .inr ⟨paneId, front,
        behind ++ contentsOf children, rfl, ?_, ?_, hfirst⟩, ?_, fun hnone => absurd hnone ?_⟩
      · rw [replaceFirst, hreplace]
      · rw [contentsOf, hbefore, append_assoc, cons_append]
      · rw [contentsOf, hafter, append_assoc, cons_append]
      · rw [outlineOf, outlineOf, houtline]
      · exact Option.some_ne_none paneId

/-- **A session is exchanged in the first leaf that shows it, in place.** -/
theorem replaceSession_cases (node : PaneNode) :
    Exchanges oldSessionId newPaneId newSessionId node := by
  induction node with
  | page paneId tabId =>
    refine ⟨none, _, rfl, .inl ⟨rfl, rfl, fun content hmem => ?_⟩, rfl, fun _ => rfl⟩
    rw [mem_singleton.mp hmem]
    exact not_false
  | leaf paneId sessionId =>
    by_cases hsession : sessionId = oldSessionId
    · subst hsession
      exact ⟨some paneId, _, if_pos rfl, .inr ⟨paneId, [], [], rfl, rfl, rfl,
        fun _ h => absurd h not_mem_nil⟩, rfl, fun hnone => absurd hnone (Option.some_ne_none _)⟩
    · refine ⟨none, _, if_neg hsession, .inl ⟨rfl, rfl, fun content hmem => ?_⟩, rfl, fun _ => rfl⟩
      rw [mem_singleton.mp hmem]
      exact hsession
  | group id direction children ih =>
    obtain ⟨old, after, hreplace, hexchanged, houtline, hsame⟩ :=
      replaceFirst_cases oldSessionId newPaneId newSessionId children ih
    refine ⟨old, group id direction after, ?_, hexchanged, ?_, fun hnone => ?_⟩
    · rw [replaceSession, hreplace]
    · rw [outline, outline, houtline]
    · rw [hsame hnone]

end Replacing

/-! ## The layouts of the callers -/

/-- Distinct panes, and at least two children in every group. -/
structure LaidOut (root : PaneNode) : Prop where
  distinct : root.panes.Nodup
  branching : root.Branching

/-- An insertion of a subtree with fresh panes keeps the layout in order. -/
theorem LaidOut.insertBeside {root newNode : PaneNode} (h : root.LaidOut) (hnew : newNode.LaidOut)
    (hfresh : newNode.panes.Disjoint root.panes) (activePaneId groupId : PaneId)
    (direction : SplitDirection) (before : Bool) :
    (insertBeside activePaneId groupId direction newNode before root).2.LaidOut := by
  by_cases hmem : activePaneId ∈ root.panes
  · obtain ⟨after, hinsert, ⟨front, behind, hpanes, hafter⟩, hbranching⟩ :=
      insertBeside_of_mem activePaneId groupId direction newNode before hmem
    rw [hinsert]
    refine ⟨?_, hbranching hnew.branching h.branching⟩
    -- the same panes as the new ones before the old ones
    have hperm : after.panes ~ newNode.panes ++ root.panes := by
      rw [hafter, hpanes, placed]
      split
      · simpa using (perm_append_comm_assoc front newNode.panes (activePaneId :: behind))
      · calc front ++ activePaneId :: newNode.panes ++ behind
            = front ++ activePaneId :: (newNode.panes ++ behind) := by simp
          _ ~ front ++ (newNode.panes ++ activePaneId :: behind) :=
            Perm.append_left front perm_middle.symm
          _ ~ newNode.panes ++ (front ++ activePaneId :: behind) :=
            perm_append_comm_assoc front newNode.panes (activePaneId :: behind)
    exact hperm.nodup_iff.mpr (nodup_append'.mpr ⟨hnew.distinct, h.distinct, hfresh⟩)
  · rw [insertBeside_of_notMem _ _ _ _ _ hmem]
    exact h

/-- **Closing in a tab keeps the layout in order.** -/
theorem LaidOut.closeInTab {root after : PaneNode} {next : Option PaneId} {target : PaneId}
    (h : root.LaidOut) (hclose : root.closeInTab target = some (next, after)) : after.LaidOut := by
  rw [PaneNode.closeInTab] at hclose
  by_cases hmem : target ∈ root.panes
  · cases root with
    | page paneId tabId =>
      cases hclose
      exact h
    | leaf paneId sessionId =>
      cases hclose
      exact h
    | group id direction children =>
      obtain ⟨pane, kept, hkept, hpanes, hpane, hlength, hchildren⟩ :=
        closePane_of_mem h.branching hmem id direction children rfl
      rw [hkept] at hclose
      cases hclose
      have hne : kept ≠ [] := by
        rintro rfl
        have htwo := (branching_group_iff.mp h.branching).1
        rw [length_nil] at hlength
        omega
      obtain ⟨hbranching, hsame⟩ := @branching_replaced _ id direction kept rfl hne hchildren
      exact ⟨by rw [hsame, hpanes]; exact h.distinct.erase target, hbranching⟩
  · rw [closePane_of_notMem hmem] at hclose
    cases hclose
    exact h

/-! ## The edits -/

/-- **No edit loses a pane.** -/
theorem edits_lose_no_pane {root : PaneNode} (hroot : root.LaidOut) :
    (∀ newNode : PaneNode, newNode.LaidOut → newNode.panes.Disjoint root.panes →
      ∀ activePaneId groupId direction before inserted after,
        insertBeside activePaneId groupId direction newNode before root = (inserted, after) →
        (inserted = true ↔ activePaneId ∈ root.panes) ∧ (inserted = false → after = root) ∧
        (inserted = true →
          PlacedIn activePaneId newNode before root.panes after.panes ∧ after.LaidOut)) ∧
    (∀ target id direction children, root = group id direction children →
      ∃ fallback after, root.closePane target = some (fallback, after) ∧
        (fallback.isSome ↔ target ∈ root.panes) ∧ (fallback = none → after = root) ∧
        ∀ pane, fallback = some pane → after.panes = root.panes.filter (· ≠ target) ∧
          after.BranchingBelow ∧ pane ∈ after.panes) ∧
    ∀ oldSessionId newPaneId newSessionId old after,
      root.replaceSession oldSessionId newPaneId newSessionId = (old, after) →
      ExchangedIn oldSessionId newPaneId newSessionId old root.contents after.contents ∧
        after.outline = root.outline ∧ (old = none → after = root) := by
  refine ⟨?_, ?_, ?_⟩
  · intro newNode hnew hfresh activePaneId groupId direction before inserted after hinsert
    have hafter := hroot.insertBeside hnew hfresh activePaneId groupId direction before
    rw [hinsert] at hafter
    by_cases hmem : activePaneId ∈ root.panes
    · obtain ⟨after', hinsert', hplaced, -⟩ :=
        insertBeside_of_mem activePaneId groupId direction newNode before hmem
      cases hinsert.symm.trans hinsert'
      exact ⟨iff_of_true rfl hmem, fun h => absurd h (by decide), fun _ => ⟨hplaced, hafter⟩⟩
    · cases hinsert.symm.trans (insertBeside_of_notMem _ groupId direction newNode before hmem)
      exact ⟨iff_of_false Bool.false_ne_true hmem, fun _ => rfl, fun h => absurd h (by decide)⟩
  · intro target id direction children heq
    by_cases hmem : target ∈ root.panes
    · obtain ⟨pane, after, hclose, hpanes, hpane, -, hchildren⟩ :=
        closePane_of_mem hroot.branching hmem id direction children heq
      refine ⟨some pane, _, hclose, iff_of_true rfl hmem, fun h => absurd h (by simp), ?_⟩
      rintro _ ⟨⟩
      refine ⟨?_, .group id direction hchildren, hpane⟩
      rw [hpanes, hroot.distinct.erase_eq_filter]
      exact filter_congr fun other _ => by simp [bne, Bool.beq_eq_decide_eq]
    · exact ⟨none, root, closePane_of_notMem hmem, iff_of_false (by simp) hmem, fun _ => rfl,
        fun pane h => absurd h (by simp)⟩
  · intro oldSessionId newPaneId newSessionId old after hreplace
    obtain ⟨old', after', hreplace', hexchanged, houtline, hsame⟩ :=
      replaceSession_cases oldSessionId newPaneId newSessionId root
    cases hreplace.symm.trans hreplace'
    exact ⟨hexchanged, houtline, hsame⟩

theorem edits_lose_no_pane_pair :
    ∃ after,
      closePane ⟨2⟩ (group ⟨3⟩ .horizontal [⟨leaf ⟨1⟩ ⟨11⟩, 30⟩, ⟨page ⟨2⟩ ⟨22⟩, 70⟩]) =
        some (some ⟨1⟩, after) ∧ after.panes = [⟨1⟩] := by
  have hlaidOut : (group ⟨3⟩ .horizontal [⟨leaf ⟨1⟩ ⟨11⟩, 30⟩, ⟨page ⟨2⟩ ⟨22⟩, 70⟩]).LaidOut := by
    constructor
    · decide
    · refine branching_group_iff.mpr ⟨Nat.le_refl 2, forall_mem_cons.mpr ⟨.leaf _ _, ?_⟩⟩
      exact forall_mem_cons.mpr ⟨.page _ _, fun _ h => absurd h not_mem_nil⟩
  obtain ⟨fallback, after, hclose, hsome, -, hclosed⟩ :=
    (edits_lose_no_pane hlaidOut).2.1 ⟨2⟩ _ _ _ rfl
  obtain ⟨pane, rfl⟩ := Option.isSome_iff_exists.mp (hsome.mpr (by decide))
  obtain ⟨hpanes, -, hpane⟩ := hclosed pane rfl
  have hone : after.panes = [⟨1⟩] := hpanes.trans (by decide)
  rw [hone] at hpane
  obtain rfl := mem_singleton.mp hpane
  exact ⟨after, hclose, hone⟩

end PaneNode

end OxideTerm.Workspace
