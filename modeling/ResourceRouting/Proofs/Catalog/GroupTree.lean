import ResourceRouting.Proofs.Catalog.KnownGroups
import ResourceRouting.Proofs.Group.Tree

/-!
# The group tree holds what the postings cover

The resources in a group are told in two ways: from the postings, which are kept for each covered
group, and from the tree, which is grown anew from the paths of known groups and memberships.

**Theorem (`groupTree_covers_select`).** There is a tree exactly for the root and the known groups,
and it holds the resources that are listed under the group; for the root these are all that have a
group. Under a group that is not known nothing is listed.

Paths with empty segments share nodes in the tree, while the postings keep them apart. This does not
matter for all resources of a tree: every membership within the group is placed in it somewhere, and
no other is. Both sides thus come down to the memberships that the group covers
(`mem_placements_iff`, `Consistent.mem_select_group_iff`).
-/

namespace ResourceRouting

namespace Catalog

variable {c : Catalog} {x : String}

/-! ## What is placed in a tree -/

theorem exists_placement_iff (c : Catalog) (above x : String) (segments : List String) :
    (∃ placement ∈ c.placements above, placement.1 = segments ∧ x ∈ placement.2) ↔
      ∃ group ∈ c.membershipsOf x, GroupPath.covers above group = true ∧
        GroupPath.segmentsBelow above group = segments := by
  have hknown : ∀ placement ∈ c.knownPlacements above, x ∉ placement.2 := by
    rintro placement hplacement
    obtain ⟨group, -, rfl⟩ := List.mem_map.1 hplacement
    simp
  constructor
  · rintro ⟨placement, hplacement, hsegments, hx⟩
    rcases List.mem_append.1 hplacement with hplacement | hplacement
    · exact absurd hx (hknown placement hplacement)
    · obtain ⟨⟨id, a⟩, hentry, hmember⟩ := List.mem_flatMap.1 hplacement
      obtain ⟨group, hgroup, rfl⟩ := List.mem_map.1 hmember
      obtain rfl : id = x := by simpa using hx
      rw [List.mem_filter, Std.ExtTreeSet.mem_toList] at hgroup
      rw [Std.ExtTreeMap.mem_toList_iff_getElem?_eq_some] at hentry
      exact ⟨group, mem_membershipsOf.2 ⟨a, hentry, hgroup.1⟩, hgroup.2, hsegments⟩
  · rintro ⟨group, hgroup, hcovers, hsegments⟩
    obtain ⟨a, ha, hmem⟩ := mem_membershipsOf.1 hgroup
    refine ⟨(GroupPath.segmentsBelow above group, {x}), ?_, hsegments, by simp⟩
    refine List.mem_append_right _
      (List.mem_flatMap.2 ⟨(x, a), ?_, List.mem_map.2 ⟨group, ?_, rfl⟩⟩)
    · exact Std.ExtTreeMap.mem_toList_iff_getElem?_eq_some.2 ha
    · exact List.mem_filter.2 ⟨Std.ExtTreeSet.mem_toList.2 hmem, hcovers⟩

theorem mem_placements_iff (c : Catalog) (above x : String) :
    (∃ placement ∈ c.placements above, x ∈ placement.2) ↔
      ∃ group ∈ c.membershipsOf x, GroupPath.covers above group = true := by
  constructor
  · rintro ⟨placement, hplacement, hx⟩
    obtain ⟨group, hgroup, hcovers, -⟩ :=
      (c.exists_placement_iff above x placement.1).1 ⟨placement, hplacement, rfl, hx⟩
    exact ⟨group, hgroup, hcovers⟩
  · rintro ⟨group, hgroup, hcovers⟩
    obtain ⟨placement, hplacement, -, hx⟩ :=
      (c.exists_placement_iff above x _).2 ⟨group, hgroup, hcovers, rfl⟩
    exact ⟨placement, hplacement, hx⟩

/-- A tree is grown from nothing but its placements. -/
theorem eq_graftAll_of_groupTree? {path : String} {tree : GroupTree}
    (h : c.groupTree? path = some tree) : tree = GroupTree.empty.graftAll (c.placements path) := by
  unfold groupTree? at h
  split at h
  · exact (Option.some.inj h).symm
  · cases h

theorem mem_allResources_groupTree {path : String} {tree : GroupTree}
    (h : c.groupTree? path = some tree) :
    x ∈ tree.allResources ↔
      ∃ group ∈ c.membershipsOf x, GroupPath.covers path group = true := by
  rw [eq_graftAll_of_groupTree? h, GroupTree.mem_allResources_graftAll, mem_placements_iff]
  exact or_iff_right GroupTree.mem_allResources_empty

/-! ## What is listed under a group -/

theorem Consistent.mem_select_group_iff (h : c.Consistent) {path : String} (hpath : path ≠ "") :
    x ∈ c.select (.check (.equals .group path)) ↔
      ∃ group ∈ c.membershipsOf x, GroupPath.covers path group = true := by
  rw [h.mem_select_group]
  simp only [GroupPath.covers_iff_mem_ancestry hpath]

/-- Having a group is having a membership within the root. -/
theorem Consistent.mem_select_anyGroup_iff (h : c.Consistent) :
    x ∈ c.select (.check (.present .group)) ↔
      ∃ group ∈ c.membershipsOf x, GroupPath.covers "" group = true := by
  rw [h.mem_select_iff]
  simp only [Attributes.IsUnder, Attributes.Passes, mem_membershipsOf, GroupPath.covers_root,
    and_true]
  constructor
  · rintro ⟨a, ha, group, hgroup⟩
    exact ⟨group, a, ha, hgroup⟩
  · rintro ⟨group, a, ha, hgroup⟩
    exact ⟨a, ha, group, hgroup⟩

theorem select_group_eq_empty {history : List Edit} {path : String} (hpath : path ≠ "")
    (hunknown : path ∉ (replay history).knownGroups) :
    (replay history).select (.check (.equals .group path)) = ∅ := by
  refine StringSet.ext fun x => iff_of_false ?_ (by simp)
  rw [(consistent_replay history).mem_select_group_iff hpath]
  rintro ⟨group, hgroup, hcovers⟩
  -- With the membership its group would be known, and with that the group above it.
  have hgroupKnown := membershipsKnown_replay history x group hgroup
  rw [GroupPath.covers_iff_mem_ancestry hpath] at hcovers
  exact hunknown (mem_knownGroups_of_mem_ancestry hgroupKnown hcovers)

/-! ## The tree of a group -/

theorem exists_groupTree?_root (c : Catalog) : ∃ tree, c.groupTree? "" = some tree := by
  simp [groupTree?]

theorem groupTree?_eq_none_iff {path : String} (hpath : path ≠ "") :
    c.groupTree? path = none ↔ path ∉ c.knownGroups := by
  unfold groupTree?
  by_cases hknown : path ∈ c.knownGroups <;> simp [hpath, hknown]

/-- **The group tree holds what is listed under the group**, after any history. -/
theorem groupTree_covers_select (history : List Edit) :
    let c := replay history
    (∀ path, path ≠ "" →
      (c.groupTreeAt? (some path) = none ↔ path ∉ c.knownGroups) ∧
        (path ∉ c.knownGroups → c.select (.check (.equals .group path)) = ∅) ∧
        ∀ tree, c.groupTreeAt? (some path) = some tree →
          tree.allResources = c.select (.check (.equals .group path))) ∧
      c.groupTreeAt? none = c.groupTreeAt? (some "") ∧
      (∃ tree, c.groupTreeAt? none = some tree ∧
        tree.allResources = c.select (.check (.present .group))) ∧
      (∀ path order tree, c.groupTreeAt? path = some tree →
        order.Perm (c.placements (path.getD "")) →
          (GroupTree.empty.graftAll order).allResources = tree.allResources) ∧
      ∀ path group, GroupPath.covers path group = true →
        ∃ cut : group.Pos, cut.offset.byteIdx = path.utf8ByteSize ∧
          GroupPath.segmentsBelow path group =
            GroupPath.segments (group.sliceFrom cut).copy.toList := by
  intro c
  have hc : c.Consistent := consistent_replay history
  refine ⟨fun path hpath => ⟨groupTree?_eq_none_iff hpath, select_group_eq_empty hpath,
    fun tree htree => ?_⟩, rfl, ?_, fun path order tree htree horder => ?_,
    fun path group => GroupPath.exists_cut_of_covers⟩
  · refine StringSet.ext fun x => ?_
    rw [hc.mem_select_group_iff hpath]
    exact mem_allResources_groupTree htree
  · obtain ⟨root, hroot⟩ := exists_groupTree?_root c
    refine ⟨root, hroot, StringSet.ext fun x => ?_⟩
    rw [hc.mem_select_anyGroup_iff, mem_allResources_groupTree hroot]
  · rw [eq_graftAll_of_groupTree? htree]
    exact GroupTree.allResources_graftAll_perm horder

/-- Two memberships whose paths differ in an empty segment share a node, and both resources are
listed under the group above it. -/
theorem groupTree_of_lamps :
    let history : List Edit := [.register ⟨"lamp", "light", ∅⟩, .register ⟨"bulb", "light", ∅⟩,
      .join "lamp" "House//Kitchen", .join "bulb" "House/Kitchen"]
    let c := replay history
    let lamps := c.select (.check (.equals .group "House"))
    "lamp" ∈ lamps ∧ "bulb" ∈ lamps ∧
      (∃ tree, c.groupTreeAt? (some "House") = some tree ∧ tree.allResources = lamps ∧
        (tree.at? ["Kitchen"]).map (·.resources) = some lamps ∧
        (GroupTree.empty.graftAll (c.placements "House").reverse).allResources = lamps) ∧
      "Garden" ∉ c.knownGroups ∧ c.select (.check (.equals .group "Garden")) = ∅ ∧
      GroupPath.covers "House" "House//Kitchen" = true ∧
      ∃ cut : String.Pos "House//Kitchen", cut.offset.byteIdx = 5 := by
  intro history c lamps
  obtain ⟨hgroup, -, -, horder, hcut⟩ := groupTree_covers_select history
  obtain ⟨-, -, hhouse⟩ := hgroup "House" (by decide)
  obtain ⟨-, hgarden, -⟩ := hgroup "Garden" (by decide)
  have hunknown : "Garden" ∉ c.knownGroups := by decide +kernel
  have hcovers : GroupPath.covers "House" "House//Kitchen" = true := by decide +kernel
  obtain ⟨cut, hoffset, -⟩ := hcut "House" "House//Kitchen" hcovers
  have htree : c.groupTreeAt? (some "House") =
      some (GroupTree.empty.graftAll (c.placements "House")) := by decide +kernel
  have hall := hhouse _ htree
  have hreverse := horder (some "House") _ _ htree (List.reverse_perm _)
  exact ⟨by decide +kernel, by decide +kernel,
    ⟨_, htree, hall, by decide +kernel, hreverse.trans hall⟩, hunknown, hgarden hunknown, hcovers,
    cut, hoffset⟩

end Catalog

end ResourceRouting
