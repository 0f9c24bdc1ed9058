import ResourceRouting.Proofs.Catalog.GroupTree

/-!
# Who is shown at the node of a group

The node of a group is meant to show the resources that joined exactly this group. It is found from
a path by its segments, and empty segments do not count. So a path that goes on with nothing but
separators ends at the same node, although it is another group to the catalog: it is known, joined,
left and deleted apart.

**Theorem (`groupNode_up_to_separators`).** The node shows the resources that joined the group or
its path with separators behind it. No member of the group is missing. The node is exact only as
long as all whom it shows by the second kind of path joined the group, too.

That this does not always hold is `groupNode_not_exact`.
-/

namespace ResourceRouting.Catalog

variable {c : Catalog} {x path : String} {tree : GroupTree}

theorem mem_resources_groupTree (h : c.groupTree? path = some tree) :
    x ∈ tree.resources ↔ ∃ n, GroupPath.padded path n ∈ c.membershipsOf x := by
  have hempty : x ∉ GroupTree.empty.resources := by simp [GroupTree.empty]
  rw [eq_graftAll_of_groupTree? h, GroupTree.mem_resources_graftAll, exists_placement_iff,
    or_iff_right hempty]
  constructor
  · rintro ⟨group, hgroup, hcovers, hnil⟩
    obtain ⟨n, rfl⟩ := (GroupPath.segmentsBelow_eq_nil_iff hcovers).1 hnil
    exact ⟨n, hgroup⟩
  · rintro ⟨n, hgroup⟩
    have hcovers := GroupPath.covers_padded path n
    exact ⟨_, hgroup, hcovers, (GroupPath.segmentsBelow_eq_nil_iff hcovers).2 ⟨n, rfl⟩⟩

/-- **The node of a known group shows who joined the group or its path with separators behind it**,
after any history and in whatever order the memberships are placed. It shows all members, and no
others exactly if whoever joined such a path joined the group, too. -/
theorem groupNode_up_to_separators (history : List Edit) (path : String)
    (hknown : path ∈ (replay history).knownGroups) :
    let c := replay history
    ∃ tree, c.groupTreeAt? (some path) = some tree ∧
      (∀ x, x ∈ tree.resources ↔ ∃ n, GroupPath.padded path n ∈ c.membershipsOf x) ∧
      (∀ x, path ∈ c.membershipsOf x → x ∈ tree.resources) ∧
      ((∀ x, x ∈ tree.resources ↔ path ∈ c.membershipsOf x) ↔
        ∀ x n, GroupPath.padded path n ∈ c.membershipsOf x → path ∈ c.membershipsOf x) ∧
      ∀ order, order.Perm (c.placements path) →
        (GroupTree.empty.graftAll order).resources = tree.resources := by
  intro c
  have htree : c.groupTreeAt? (some path) = some (GroupTree.empty.graftAll (c.placements path)) :=
    if_pos (Or.inr hknown)
  have hshown : ∀ x, x ∈ (GroupTree.empty.graftAll (c.placements path)).resources ↔
      ∃ n, GroupPath.padded path n ∈ c.membershipsOf x := fun x => mem_resources_groupTree htree
  have hmember : ∀ x, path ∈ c.membershipsOf x →
      x ∈ (GroupTree.empty.graftAll (c.placements path)).resources := by
    intro x hx
    rw [hshown]
    exact ⟨0, by rwa [GroupPath.padded_zero]⟩
  refine ⟨_, htree, hshown, hmember, ?_, fun order horder => ?_⟩
  · constructor
    · intro hexact x n hn
      exact (hexact x).1 ((hshown x).2 ⟨n, hn⟩)
    · intro hjoined x
      refine ⟨fun hx => ?_, hmember x⟩
      obtain ⟨n, hn⟩ := (hshown x).1 hx
      exact hjoined x n hn
  · refine StringSet.ext fun x => ?_
    rw [GroupTree.mem_resources_graftAll, GroupTree.mem_resources_graftAll]
    exact or_congr_right (exists_congr fun placement => and_congr_left' horder.mem_iff)

/-- A bulb that joined a group and a lamp that joined its path with a separator behind it are both
shown. -/
theorem groupNode_of_lamp_and_bulb :
    let history : List Edit := [.register ⟨"lamp", "light", ∅⟩, .register ⟨"bulb", "light", ∅⟩,
      .join "lamp" "House/", .join "bulb" "House"]
    let c := replay history
    "House" ∈ c.knownGroups ∧ "House" ∈ c.membershipsOf "bulb" ∧
      "House" ∉ c.membershipsOf "lamp" ∧
      ∃ tree, c.groupTreeAt? (some "House") = some tree ∧ "bulb" ∈ tree.resources ∧
        "lamp" ∈ tree.resources ∧
        (GroupTree.empty.graftAll (c.placements "House").reverse).resources = tree.resources := by
  intro history c
  have hknown : "House" ∈ c.knownGroups := by decide +kernel
  have hbulb : "House" ∈ c.membershipsOf "bulb" := by decide +kernel
  have hlamp : GroupPath.padded "House" 1 ∈ c.membershipsOf "lamp" := by decide +kernel
  obtain ⟨tree, htree, hshown, hmember, -, horder⟩ :=
    groupNode_up_to_separators history "House" hknown
  exact ⟨hknown, hbulb, by decide +kernel, tree, htree, hmember _ hbulb, (hshown _).2 ⟨1, hlamp⟩,
    horder _ (List.reverse_perm _)⟩

/-- **The node of a group is not exact**: a lamp that joined `House/` is shown at `House`. -/
theorem groupNode_not_exact :
    ¬∀ history path, path ≠ "" → path ∈ (replay history).knownGroups →
      ∃ tree, (replay history).groupTreeAt? (some path) = some tree ∧
        ∀ x, x ∈ tree.resources ↔ path ∈ (replay history).membershipsOf x := by
  intro hexact
  let history : List Edit := [.register ⟨"lamp", "light", ∅⟩, .join "lamp" "House/"]
  have hknown : "House" ∈ (replay history).knownGroups := by decide +kernel
  have hpadded : GroupPath.padded "House" 1 ∈ (replay history).membershipsOf "lamp" := by
    decide +kernel
  have hnot : "House" ∉ (replay history).membershipsOf "lamp" := by decide +kernel
  obtain ⟨tree, htree, hiff⟩ := hexact history "House" (by decide) hknown
  have hshown : "lamp" ∈ tree.resources := (mem_resources_groupTree htree).2 ⟨1, hpadded⟩
  exact hnot ((hiff "lamp").1 hshown)

end ResourceRouting.Catalog
