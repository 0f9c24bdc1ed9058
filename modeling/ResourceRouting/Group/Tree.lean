import ResourceRouting.StringSet

/-!
# Group trees

The groups below a place in the hierarchy, each with the resources that joined exactly it.

**Forests** (`GroupForest`). The children of a node, in the order of their segments. A forest is its
first node with that node's children and the forest of the later siblings, so it is an ordinary
inductive type.

**Growing a tree** (`GroupTree.graft`). Resources are added at a sequence of segments, and nodes are
made on the way where there are none.
-/

namespace ResourceRouting

/-- Sibling nodes of the group tree, ordered by segment. -/
inductive GroupForest where
  | nil
  | node (segment : String) (resources : StringSet) (children siblings : GroupForest)
  deriving DecidableEq

/-- A node of the group tree with all below it. -/
structure GroupTree where
  /-- The resources that joined exactly this group. -/
  resources : StringSet
  /-- The groups right below, by their last segment. -/
  children : GroupForest
  deriving DecidableEq

namespace GroupForest

/-- The nodes of a forest as trees, each with its segment. -/
def toList : GroupForest → List (String × GroupTree)
  | .nil => []
  | .node segment resources children siblings =>
    (segment, ⟨resources, children⟩) :: siblings.toList

def find? (segment : String) : GroupForest → Option GroupTree
  | .nil => none
  | .node segment' resources children siblings =>
    if segment = segment' then some ⟨resources, children⟩ else siblings.find? segment

/-- The forest in which a segment has the given tree. -/
def insert (segment : String) (tree : GroupTree) : GroupForest → GroupForest
  | .nil => .node segment tree.resources tree.children .nil
  | .node segment' resources children siblings =>
    if segment = segment' then
      .node segment tree.resources tree.children siblings
    else if segment < segment' then
      .node segment tree.resources tree.children (.node segment' resources children siblings)
    else
      .node segment' resources children (siblings.insert segment tree)

/-- Siblings with a line of new nodes before them, whose last node holds the resources. -/
def sprout (ids : StringSet) (segment : String) (below : List String) (siblings : GroupForest) :
    GroupForest :=
  match below with
  | [] => .node segment ids .nil siblings
  | next :: below => .node segment ∅ (sprout ids next below .nil) siblings

/-- The forest with resources added at a segment and the segments below it. -/
def graft (ids : StringSet) :
    GroupForest → (segment : String) → (below : List String) → GroupForest
  | .nil, segment, below => sprout ids segment below .nil
  | .node segment' resources children siblings, segment, below =>
    if segment = segment' then
      match below with
      | [] => .node segment' (resources ∪ ids) children siblings
      | next :: below => .node segment' resources (children.graft ids next below) siblings
    else if segment < segment' then
      sprout ids segment below (.node segment' resources children siblings)
    else
      .node segment' resources children (siblings.graft ids segment below)

def allResources : GroupForest → StringSet
  | .nil => ∅
  | .node _ resources children siblings =>
    resources ∪ children.allResources ∪ siblings.allResources

end GroupForest

namespace GroupTree

def empty : GroupTree := ⟨∅, .nil⟩

def isEmpty (tree : GroupTree) : Bool := tree.resources.isEmpty && tree.children == .nil

/-- The tree with resources added at the node that segments lead to. -/
def graft (tree : GroupTree) (ids : StringSet) : (segments : List String) → GroupTree
  | [] => { tree with resources := tree.resources ∪ ids }
  | segment :: below => { tree with children := tree.children.graft ids segment below }

/-- The resources of a node and of all nodes below it. -/
def allResources (tree : GroupTree) : StringSet := tree.resources ∪ tree.children.allResources

/-- The node that segments lead to. -/
def at? (tree : GroupTree) : (segments : List String) → Option GroupTree
  | [] => some tree
  | segment :: below => (tree.children.find? segment).bind fun child => child.at? below

end GroupTree

end ResourceRouting
