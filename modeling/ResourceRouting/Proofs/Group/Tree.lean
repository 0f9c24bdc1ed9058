import ResourceRouting.Catalog.GroupTree

/-!
# What a group tree holds

Resources that are added to a tree are found in it, wherever they are put and whichever nodes have
to be made on the way, and nothing else is found. So a tree that is grown from an empty one holds
what was placed in it, in any order (`mem_allResources_graftAll`). Its first node holds what was
placed without segments to follow (`mem_resources_graftAll`).
-/

namespace ResourceRouting

variable {ids : StringSet} {x : String}

namespace GroupForest

theorem mem_allResources_sprout {segment : String} {below : List String} {siblings : GroupForest} :
    x ∈ (sprout ids segment below siblings).allResources ↔
      x ∈ ids ∨ x ∈ siblings.allResources := by
  induction below generalizing segment siblings with
  | nil => simp [sprout, allResources]
  | cons next below ih => simp [sprout, allResources, ih]

theorem mem_allResources_graft {forest : GroupForest} {segment : String} {below : List String} :
    x ∈ (forest.graft ids segment below).allResources ↔ x ∈ forest.allResources ∨ x ∈ ids := by
  induction forest generalizing segment below with
  | nil =>
    rw [graft, mem_allResources_sprout]
    exact or_comm
  | node segment' resources children siblings ihchildren ihsiblings =>
    unfold graft
    by_cases hsame : segment = segment'
    · rw [if_pos hsame]
      cases below with
      | nil =>
        simp only [allResources, StringSet.mem_union]
        grind
      | cons next below =>
        simp only [allResources, StringSet.mem_union, ihchildren]
        grind
    · rw [if_neg hsame]
      by_cases hlt : segment < segment'
      · rw [if_pos hlt, mem_allResources_sprout]
        exact or_comm
      · rw [if_neg hlt]
        simp only [allResources, StringSet.mem_union, ihsiblings]
        grind

end GroupForest

namespace GroupTree

theorem mem_allResources_empty : x ∉ empty.allResources := by
  simp [empty, allResources, GroupForest.allResources]

theorem mem_allResources_graft {tree : GroupTree} {segments : List String} :
    x ∈ (tree.graft ids segments).allResources ↔ x ∈ tree.allResources ∨ x ∈ ids := by
  cases segments with
  | nil =>
    simp only [graft, allResources, StringSet.mem_union]
    grind
  | cons segment below =>
    simp only [graft, allResources, StringSet.mem_union, GroupForest.mem_allResources_graft]
    grind

/-- **A grown tree holds what it held before and what was placed in it.** -/
theorem mem_allResources_graftAll {tree : GroupTree}
    {placements : List (List String × StringSet)} :
    x ∈ (tree.graftAll placements).allResources ↔
      x ∈ tree.allResources ∨ ∃ placement ∈ placements, x ∈ placement.2 := by
  unfold graftAll
  induction placements generalizing tree with
  | nil => simp
  | cons placement placements ih =>
    simp only [List.foldl_cons, ih, mem_allResources_graft, List.mem_cons, exists_eq_or_imp,
      or_assoc]

theorem allResources_graftAll_perm {tree : GroupTree}
    {placements placements' : List (List String × StringSet)} (h : placements.Perm placements') :
    (tree.graftAll placements).allResources = (tree.graftAll placements').allResources := by
  refine StringSet.ext fun x => ?_
  rw [mem_allResources_graftAll, mem_allResources_graftAll]
  exact or_congr_right (exists_congr fun placement => and_congr_left' h.mem_iff)

/-! ## The first node -/

/-- Resources are added at the node itself only where no segments lead on. -/
theorem mem_resources_graft {tree : GroupTree} {segments : List String} :
    x ∈ (tree.graft ids segments).resources ↔ x ∈ tree.resources ∨ (segments = [] ∧ x ∈ ids) := by
  cases segments with
  | nil => simp [graft]
  | cons segment below => simp [graft]

theorem mem_resources_graftAll {tree : GroupTree} {placements : List (List String × StringSet)} :
    x ∈ (tree.graftAll placements).resources ↔
      x ∈ tree.resources ∨ ∃ placement ∈ placements, placement.1 = [] ∧ x ∈ placement.2 := by
  unfold graftAll
  induction placements generalizing tree with
  | nil => simp
  | cons placement placements ih =>
    simp only [List.foldl_cons, ih, mem_resources_graft, List.mem_cons, exists_eq_or_imp, or_assoc]

end GroupTree

end ResourceRouting
