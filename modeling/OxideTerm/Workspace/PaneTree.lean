import Mathlib.Data.List.Basic

/-!
# Pane trees

The layout of a tab: panes in nested split groups, with the edits of a layout. An edit changes the
tree in place, so the tree comes back with the answer also where the edit fails. `none` stands for
the panic of an index outside a group.
-/

namespace OxideTerm.Workspace

structure TerminalSessionId where
  value : UInt64
deriving DecidableEq

structure TabId where
  value : UInt64
deriving DecidableEq

structure PaneId where
  value : UInt64
deriving DecidableEq

inductive SplitDirection where
  | horizontal
  | vertical
deriving DecidableEq

/-- A split child keeps its layout share beside the node it sizes. -/
structure PaneSplitChild (Node : Type) where
  node : Node
  size : Float32

inductive PaneNode where
  | page (paneId : PaneId) (tabId : TabId)
  | leaf (paneId : PaneId) (sessionId : TerminalSessionId)
  | group (id : PaneId) (direction : SplitDirection) (children : List (PaneSplitChild PaneNode))

abbrev PaneChildren := List (PaneSplitChild PaneNode)

/-! ## Sizes -/

def equalSizes (count : Nat) : List Float32 := List.replicate count (100 / count.toFloat32)

/-- `f32::EPSILON`. -/
def epsilon : Float32 := 1.1920929e-7

def balancedSizes (sizes : List Float32) (count : Nat) : List Float32 :=
  if count = 0 then []
  else if sizes.length ≠ count then equalSizes count
  else
    let total := sizes.foldl (· + ·) 0
    if total ≤ epsilon then equalSizes count else sizes.map fun size => size / total * 100

/-- The children with the sizes at their places. -/
def withSizes : PaneChildren → List Float32 → PaneChildren
  | child :: children, size :: sizes => { child with size } :: withSizes children sizes
  | children, _ => children

def normalizeChildren (children : PaneChildren) : PaneChildren :=
  withSizes children (balancedSizes (children.map (·.size)) children.length)

namespace PaneNode

/-! ## What is in a tree -/

mutual

def collectPaneIds (panes : List PaneId) : PaneNode → List PaneId
  | page paneId _ => panes ++ [paneId]
  | leaf paneId _ => panes ++ [paneId]
  | group _ _ children => collectChildren panes children

def collectChildren (panes : List PaneId) : PaneChildren → List PaneId
  | [] => panes
  | ⟨node, _⟩ :: children => collectChildren (node.collectPaneIds panes) children

end

/-- The panes from left to right. -/
def panes (node : PaneNode) : List PaneId := node.collectPaneIds []

mutual

def containsPane (target : PaneId) : PaneNode → Bool
  | page paneId _ => paneId = target
  | leaf paneId _ => paneId = target
  | group _ _ children => anyContainsPane target children

def anyContainsPane (target : PaneId) : PaneChildren → Bool
  | [] => false
  | ⟨node, _⟩ :: children => node.containsPane target || anyContainsPane target children

end

def firstPaneId : PaneNode → Option PaneId
  | page paneId _ => some paneId
  | leaf paneId _ => some paneId
  | group _ _ [] => none
  | group _ _ (⟨node, _⟩ :: _) => node.firstPaneId

/-! ## Edits -/

mutual

def replaceSession (oldSessionId : TerminalSessionId) (newPaneId : PaneId)
    (newSessionId : TerminalSessionId) : PaneNode → Option PaneId × PaneNode
  | leaf paneId sessionId =>
    if sessionId = oldSessionId then (some paneId, leaf newPaneId newSessionId)
    else (none, leaf paneId sessionId)
  | page paneId tabId => (none, page paneId tabId)
  | group id direction children =>
    let (old, children) := replaceFirst oldSessionId newPaneId newSessionId children
    (old, group id direction children)

/-- The first child with an answer. -/
def replaceFirst (oldSessionId : TerminalSessionId) (newPaneId : PaneId)
    (newSessionId : TerminalSessionId) : PaneChildren → Option PaneId × PaneChildren
  | [] => (none, [])
  | ⟨node, size⟩ :: children =>
    match node.replaceSession oldSessionId newPaneId newSessionId with
    | (some old, node) => (some old, ⟨node, size⟩ :: children)
    | (none, node) =>
      let (old, children) := replaceFirst oldSessionId newPaneId newSessionId children
      (old, ⟨node, size⟩ :: children)

end

/-- The new node beside the pane, each with half of its space. -/
def beside (groupId : PaneId) (direction : SplitDirection) (newNode old : PaneNode)
    (before : Bool) : PaneNode :=
  group groupId direction
    ((if before then [newNode, old] else [old, newNode]).map fun node => ⟨node, 50⟩)

mutual

def insertBeside (activePaneId groupId : PaneId) (direction : SplitDirection) (newNode : PaneNode)
    (before : Bool) : PaneNode → Bool × PaneNode
  | leaf paneId sessionId =>
    if paneId = activePaneId then
      (true, beside groupId direction newNode (leaf paneId sessionId) before)
    else (false, leaf paneId sessionId)
  | page paneId tabId =>
    if paneId = activePaneId then
      (true, beside groupId direction newNode (page paneId tabId) before)
    else (false, page paneId tabId)
  | group id direction' children =>
    let (inserted, children) :=
      insertInFirst activePaneId groupId direction newNode before children
    (inserted, group id direction' children)

/-- In the first child that contains the pane. -/
def insertInFirst (activePaneId groupId : PaneId) (direction : SplitDirection) (newNode : PaneNode)
    (before : Bool) : PaneChildren → Bool × PaneChildren
  | [] => (false, [])
  | ⟨node, size⟩ :: children =>
    if node.containsPane activePaneId then
      let (inserted, node) := insertBeside activePaneId groupId direction newNode before node
      (inserted, ⟨node, size⟩ :: children)
    else
      let (inserted, children) :=
        insertInFirst activePaneId groupId direction newNode before children
      (inserted, ⟨node, size⟩ :: children)

end

/-- The only child of a group, which is taken out of it. -/
def singleChildReplacement : PaneNode → Option PaneNode
  | group _ _ [child] => some child.node
  | _ => none

/-- A pane of this name, not a group. -/
def isPane (target : PaneId) : PaneNode → Bool
  | page paneId _ => paneId = target
  | leaf paneId _ => paneId = target
  | group _ _ _ => false

mutual

def closePane (target : PaneId) : PaneNode → Option (Option PaneId × PaneNode)
  | page paneId tabId => some (none, page paneId tabId)
  | leaf paneId sessionId => some (none, leaf paneId sessionId)
  | group id direction children => do
    let (removed, children) ← closeInFirst target children
    if !removed then return (none, group id direction children)
    let children := normalizeChildren children
    match children with
    | [] => return (none, group id direction children)
    | child :: _ => return (some (← child.node.firstPaneId), group id direction children)

/-- The loop over the children: whether something was removed, and what is left. -/
def closeInFirst (target : PaneId) : PaneChildren → Option (Bool × PaneChildren)
  | [] => some (false, [])
  | ⟨node, size⟩ :: children =>
    if node.isPane target then some (true, children)
    else if node.containsPane target then do
      let (fallback, node) ← node.closePane target
      let node := node.singleChildReplacement.getD node
      return (fallback.isSome, ⟨node, size⟩ :: children)
    else do
      let (removed, children) ← closeInFirst target children
      return (removed, ⟨node, size⟩ :: children)

end

/-- `TabHost::close_pane` for the root of a tab: a root with one child gives way to it. -/
def closeInTab (target : PaneId) (root : PaneNode) : Option (Option PaneId × PaneNode) := do
  let (next, root) ← root.closePane target
  if next.isNone then return (none, root)
  return (next, root.singleChildReplacement.getD root)

end PaneNode

end OxideTerm.Workspace
