import ResourceRouting.Catalog.Basic
import ResourceRouting.Group.Tree

/-!
# The group tree of a catalog

The tree is grown from the paths: every known group makes a node, and every membership puts its
resource at the node of its group. Empty segments of a path make no node, so paths that differ only
in them meet at one.
-/

namespace ResourceRouting

namespace GroupTree

/-- A tree with resources added at several places. -/
def graftAll (tree : GroupTree) (placements : List (List String × StringSet)) : GroupTree :=
  placements.foldl (fun tree (segments, ids) => tree.graft ids segments) tree

end GroupTree

namespace Catalog

/-- The known groups within a path, as places without resources. -/
def knownPlacements (c : Catalog) (above : String) : List (List String × StringSet) :=
  (c.knownGroups.toList.filter (GroupPath.covers above)).map fun group =>
    (GroupPath.segmentsBelow above group, ∅)

/-- The memberships of one resource within a path, as places with the resource. -/
def memberPlacements (above id : String) (a : Attributes) : List (List String × StringSet) :=
  (a.groups.toList.filter (GroupPath.covers above)).map fun group =>
    (GroupPath.segmentsBelow above group, {id})

/-- All places in the tree at a path. -/
def placements (c : Catalog) (above : String) : List (List String × StringSet) :=
  c.knownPlacements above ++ c.entries.toList.flatMap fun (id, a) => memberPlacements above id a

/-- The tree of a group, if the group is known. The root, which is the empty path, always is. -/
def groupTree? (c : Catalog) (path : String) : Option GroupTree :=
  if path = "" ∨ path ∈ c.knownGroups then
    some (GroupTree.empty.graftAll (c.placements path))
  else
    none

/-- The tree of a group, or that of the root if no group is given. -/
def groupTreeAt? (c : Catalog) (path : Option String) : Option GroupTree :=
  c.groupTree? (path.getD "")

end Catalog

end ResourceRouting
