import ResourceRouting.Proofs.Catalog.GroupTree
import ResourceRouting.Proofs.Group.Nodes
import ResourceRouting.Proofs.Group.Segments

/-!
# The group tree mirrors the known paths

Suppose that all paths that were ever created or joined are made of segments. Then the tree of the
root and the list of known groups are two views of the same thing.

**Nodes.** The root tree has a node below it at some segments exactly when the path through them is
known (`hasNode_root_iff`). A node is made on the way to every known path. It stands for a known
path itself, as the known groups are closed under ancestry and what is above a well-formed path is
the path through its first segments.

**Resources.** Each node shows the resources that joined just its path. No two known paths lead to
one node, as a well-formed path is got back from its segments.

**Subtrees.** The tree of a known group is the subtree of the root tree at its segments
(`groupTree?_eq_at?`). Both have the same nodes with the same resources, because the paths within
the group are those whose segments go on from its own, and that is all that there is to a tree.

Main result: `groupTree_mirrors_paths`.
-/

namespace ResourceRouting

/-- A group was created under this path, or a resource joined it with success. -/
def History.Used (history : List Edit) (path : String) : Prop :=
  ∃ before e after, history = before ++ e :: after ∧
    (e = .createGroup path ∨
      ∃ id, e = .join id path ∧ ((Catalog.replay before).apply e).1 = .flag true)

theorem History.Used.mem {history : List Edit} {path : String} (h : Used history path) :
    .createGroup path ∈ history ∨ ∃ id, .join id path ∈ history := by
  obtain ⟨before, e, after, rfl, rfl | ⟨id, rfl, -⟩⟩ := h
  · exact Or.inl (by simp)
  · exact Or.inr ⟨id, by simp⟩

theorem History.Known.exists_used {history : List Edit} {path : String} (h : Known history path) :
    ∃ group, group ≠ "" ∧ path ∈ GroupPath.ancestry group ∧ Used history group := by
  obtain ⟨before, e, after, hhistory, ⟨group, hpath, hmade⟩, -⟩ := h
  rcases hmade with ⟨he, hgroup⟩ | ⟨id, he, hanswer⟩
  · exact ⟨group, hgroup, hpath, before, e, after, hhistory, Or.inl he⟩
  · have hjoined := hanswer
    rw [he] at hjoined
    have hgroup : group ≠ "" := (Catalog.join_answer_iff.1 (EditAnswer.flag.inj hjoined)).2.1
    exact ⟨group, hgroup, hpath, before, e, after, hhistory, Or.inr ⟨id, he, hanswer⟩⟩

namespace Catalog

open GroupPath

variable {c : Catalog} {above path x : String} {names : List String} {root tree : GroupTree}

/-! ## Nodes and resources in any tree -/

/-- There is a place for every known group, and none besides. -/
theorem MembershipsKnown.exists_place_iff (h : c.MembershipsKnown) (above : String)
    (leads : List String → Prop) :
    (∃ placement ∈ c.placements above, leads placement.1) ↔
      ∃ group ∈ c.knownGroups, covers above group = true ∧ leads (segmentsBelow above group) := by
  constructor
  · rintro ⟨placement, hplacement, hleads⟩
    rcases List.mem_append.1 hplacement with hplacement | hplacement
    · obtain ⟨group, hgroup, rfl⟩ := List.mem_map.1 hplacement
      rw [List.mem_filter, Std.ExtTreeSet.mem_toList] at hgroup
      exact ⟨group, hgroup.1, hgroup.2, hleads⟩
    · -- A membership makes no place of its own, as its group is known.
      obtain ⟨⟨id, a⟩, hentry, hmember⟩ := List.mem_flatMap.1 hplacement
      obtain ⟨group, hgroup, rfl⟩ := List.mem_map.1 hmember
      rw [List.mem_filter, Std.ExtTreeSet.mem_toList] at hgroup
      rw [Std.ExtTreeMap.mem_toList_iff_getElem?_eq_some] at hentry
      have hknown := h id group (mem_membershipsOf.2 ⟨a, hentry, hgroup.1⟩)
      exact ⟨group, hknown, hgroup.2, hleads⟩
  · rintro ⟨group, hgroup, hcovers, hleads⟩
    refine ⟨(segmentsBelow above group, ∅), ?_, hleads⟩
    refine List.mem_append_left _ (List.mem_map.2 ⟨group, ?_, rfl⟩)
    exact List.mem_filter.2 ⟨Std.ExtTreeSet.mem_toList.2 hgroup, hcovers⟩

theorem exists_groupTree?_of_known (h : path ∈ c.knownGroups) :
    ∃ tree, c.groupTree? path = some tree := by
  simp [groupTree?, h]

theorem ordered_groupTree? (h : c.groupTree? path = some tree) : tree.Ordered := by
  rw [eq_graftAll_of_groupTree? h]
  exact GroupTree.ordered_graftAll GroupTree.ordered_empty _

/-- A tree has the nodes on the ways to the known groups within its own. -/
theorem MembershipsKnown.hasNode_groupTree? (h : c.MembershipsKnown)
    (htree : c.groupTree? above = some tree) :
    tree.HasNode names ↔ names = [] ∨
      ∃ group ∈ c.knownGroups, covers above group = true ∧ names <+: segmentsBelow above group := by
  rw [eq_graftAll_of_groupTree? htree, GroupTree.hasNode_graftAll GroupTree.ordered_empty,
    GroupTree.hasNode_empty]
  exact or_congr_right (h.exists_place_iff above (names <+: ·))

theorem shows_groupTree? (htree : c.groupTree? above = some tree) :
    tree.Shows names x ↔ ∃ group ∈ c.membershipsOf x,
      covers above group = true ∧ segmentsBelow above group = names := by
  rw [eq_graftAll_of_groupTree? htree, GroupTree.shows_graftAll GroupTree.ordered_empty,
    exists_placement_iff]
  exact or_iff_right GroupTree.not_shows_empty

/-! ## Well-formed paths -/

/-- All known groups have well-formed paths, none of which is the root. -/
def PathsWellFormed (c : Catalog) : Prop := ∀ path ∈ c.knownGroups, WellFormed path ∧ path ≠ ""

theorem pathsWellFormed_replay {history : List Edit}
    (h : ∀ path, History.Used history path → WellFormed path) :
    (replay history).PathsWellFormed := by
  intro path hpath
  rw [mem_knownGroups_replay_iff] at hpath
  obtain ⟨group, hgroup, habove, hused⟩ := hpath.exists_used
  exact (h group hused).of_mem_ancestry hgroup habove

section

variable {history : List Edit} (h : (replay history).PathsWellFormed)

include h

/-- **The root tree has a node at segments exactly when the path through them is known.** -/
theorem hasNode_root_iff (hroot : (replay history).groupTree? "" = some root) (hne : names ≠ []) :
    root.HasNode names ↔ (∀ name ∈ names, separator ∉ name.toList) ∧
      ofSegments names ∈ (replay history).knownGroups := by
  rw [(membershipsKnown_replay history).hasNode_groupTree? hroot, or_iff_right hne]
  constructor
  · rintro ⟨group, hgroup, -, below, hbelow⟩
    rw [segmentsBelow_root] at hbelow
    have hwf := (h group hgroup).1
    have hsegments : ∀ name ∈ names ++ below, IsSegment name := hbelow ▸ hwf.isSegment
    have hnames : ∀ name ∈ names, IsSegment name := fun name hname =>
      hsegments name (List.mem_append_left below hname)
    refine ⟨fun name hname => (hnames name hname).2, ?_⟩
    -- The path through the first segments is above the known one.
    refine mem_knownGroups_of_mem_ancestry hgroup ?_
    rw [← covers_iff_mem_ancestry (ofSegments_ne_root hnames hne), ← hwf.ofSegments_segments,
      ← hbelow]
    exact covers_ofSegments_append names below
  · rintro ⟨hseparators, hknown⟩
    obtain ⟨hwf, hpath⟩ := h _ hknown
    have hnames := hwf.isSegment_of_ofSegments hpath hseparators
    have hbelow : segmentsBelow "" (ofSegments names) = names := by
      rw [segmentsBelow_root, segments_ofSegments hnames]
    exact ⟨ofSegments names, hknown, covers_root _, by simp [hbelow]⟩

/-- **The root tree shows at segments those who joined the path through them.** -/
theorem shows_root_iff (hroot : (replay history).groupTree? "" = some root)
    (hnode : root.HasNode names) :
    root.Shows names x ↔ ofSegments names ∈ (replay history).membershipsOf x := by
  have hwf : ∀ group ∈ (replay history).membershipsOf x, WellFormed group ∧ group ≠ "" :=
    fun group hgroup => h group (membershipsKnown_replay history x group hgroup)
  rw [shows_groupTree? hroot]
  simp only [segmentsBelow_root]
  constructor
  · rintro ⟨group, hgroup, -, rfl⟩
    rwa [(hwf group hgroup).1.ofSegments_segments]
  · intro hgroup
    obtain ⟨hpath, hne⟩ := hwf _ hgroup
    have hnames : names ≠ [] := by
      rintro rfl
      exact hne rfl
    have hseparators := ((hasNode_root_iff h hroot hnames).1 hnode).1
    refine ⟨_, hgroup, covers_root _, ?_⟩
    exact segments_ofSegments (hpath.isSegment_of_ofSegments hne hseparators)

/-- **The tree of a known group is the subtree at its segments.** -/
theorem groupTree?_eq_at? (hroot : (replay history).groupTree? "" = some root)
    (hpath : path ∈ (replay history).knownGroups) :
    (replay history).groupTree? path = root.at? (segments path.toList) := by
  have hmembers := membershipsKnown_replay history
  obtain ⟨hwf, hne⟩ := h path hpath
  obtain ⟨tree, htree⟩ := exists_groupTree?_of_known hpath
  have hnode : root.HasNode (segments path.toList) := by
    rw [hmembers.hasNode_groupTree? hroot]
    exact Or.inr ⟨path, hpath, covers_root path, by simp [segmentsBelow_root]⟩
  obtain ⟨node, hnode⟩ := hnode
  rw [htree, hnode]
  have hsegments := hwf.segments_ne_nil hne
  refine congrArg some (GroupTree.eq_of_sameNodes (ordered_groupTree? htree)
    ((ordered_groupTree? hroot).at? hnode) ⟨fun below => ?_, fun below x => ?_⟩)
  · rw [← GroupTree.hasNode_append hnode, hmembers.hasNode_groupTree? htree,
      hmembers.hasNode_groupTree? hroot]
    have hstart : below = [] → ∃ group ∈ (replay history).knownGroups,
        covers path group = true ∧ below <+: segmentsBelow path group := by
      rintro rfl
      exact ⟨path, hpath, covers_iff.2 (Or.inr (Or.inl rfl)), List.nil_prefix⟩
    have hnotRoot : segments path.toList ++ below ≠ [] :=
      List.append_ne_nil_of_left_ne_nil hsegments below
    rw [or_iff_right_of_imp hstart, or_iff_right hnotRoot]
    refine exists_congr fun group => and_congr_right fun hgroup => ?_
    rw [segmentsBelow_root, hwf.append_prefix_iff (h group hgroup).1, covers_root]
    simp
  · rw [← GroupTree.shows_append hnode, shows_groupTree? htree, shows_groupTree? hroot]
    refine exists_congr fun group => and_congr_right fun hgroup => ?_
    have hgroupWf := (h group (hmembers x group hgroup)).1
    rw [segmentsBelow_root, hwf.segments_eq_append_iff hgroupWf, covers_root]
    simp

end

/-! ## The tree and the paths -/

/-- **The group tree mirrors the known paths**, after any history that used well-formed paths only.
The root tree has a node at segments when the path through them is known. The node shows those who
joined just this path, and the root itself shows none. The tree of a known group is the subtree at
its segments. No tree depends on the order in which the resources are visited. -/
theorem groupTree_mirrors_paths {history : List Edit}
    (h : ∀ path, History.Used history path → WellFormed path) :
    let c := replay history
    ∃ root, c.groupTreeAt? none = some root ∧
      (∀ names, names ≠ [] → (root.HasNode names ↔
        (∀ name ∈ names, separator ∉ name.toList) ∧ ofSegments names ∈ c.knownGroups)) ∧
      (∀ names node, names ≠ [] → root.at? names = some node →
        ∀ x, x ∈ node.resources ↔ ofSegments names ∈ c.membershipsOf x) ∧
      root.resources = ∅ ∧
      (∀ path ∈ c.knownGroups, ∃ names, names ≠ [] ∧ (∀ name ∈ names, IsSegment name) ∧
        ofSegments names = path ∧
        ∃ tree, c.groupTreeAt? (some path) = some tree ∧ root.at? names = some tree) ∧
      ∀ path order tree, c.groupTreeAt? path = some tree →
        order.Perm (c.placements (path.getD "")) → GroupTree.empty.graftAll order = tree := by
  intro c
  have hc : c.PathsWellFormed := pathsWellFormed_replay h
  obtain ⟨root, hroot⟩ := exists_groupTree?_root c
  refine ⟨root, hroot, fun names => hasNode_root_iff hc hroot, fun names node hne hnode x => ?_,
    StringSet.ext fun x => ?_, fun path hpath => ?_, fun path order tree htree horder => ?_⟩
  · rw [← shows_root_iff hc hroot ⟨node, hnode⟩, GroupTree.Shows, hnode]
    simp
  · rw [← GroupTree.shows_nil, shows_root_iff hc hroot (GroupTree.hasNode_nil root)]
    refine iff_of_false (fun hmember => ?_) (by simp)
    exact (hc _ (membershipsKnown_replay history x _ hmember)).2 rfl
  · obtain ⟨hwf, hne⟩ := hc path hpath
    obtain ⟨tree, htree⟩ := exists_groupTree?_of_known hpath
    refine ⟨segments path.toList, hwf.segments_ne_nil hne, hwf.isSegment, hwf.ofSegments_segments,
      tree, htree, ?_⟩
    rw [← groupTree?_eq_at? hc hroot hpath]
    exact htree
  · rw [eq_graftAll_of_groupTree? htree]
    exact GroupTree.graftAll_perm GroupTree.ordered_empty horder

/-- A group that was created below another has the node of that one on its way. -/
theorem groupTree_mirrors_of_cellar :
    let history : List Edit := [.register ⟨"lamp", "light", ∅⟩, .join "lamp" "House/Kitchen",
      .createGroup "House/Cellar/Rack", .createGroup "Garden"]
    let c := replay history
    (∀ path, History.Used history path → WellFormed path) ∧
      ∃ root, c.groupTreeAt? none = some root ∧ root.HasNode ["House", "Cellar"] ∧
        ¬root.HasNode ["Cellar"] ∧ root.resources = ∅ ∧
        (∃ kitchen, root.at? ["House", "Kitchen"] = some kitchen ∧ "lamp" ∈ kitchen.resources) ∧
        c.groupTreeAt? (some "House/Cellar") = root.at? ["House", "Cellar"] := by
  intro history c
  have hused : ∀ path, History.Used history path → WellFormed path := by
    intro path hpath
    have hnamed : (path = "House/Cellar/Rack" ∨ path = "Garden") ∨ path = "House/Kitchen" := by
      simpa [history] using hpath.mem
    rcases hnamed with (rfl | rfl) | rfl
    · exact ⟨["House", "Cellar", "Rack"], by decide, by decide +kernel⟩
    · exact ⟨["Garden"], by decide, by decide +kernel⟩
    · exact ⟨["House", "Kitchen"], by decide, by decide +kernel⟩
  obtain ⟨root, hroot, hnode, hshown, hempty, hsubtree, -⟩ := groupTree_mirrors_paths hused
  have hcellar : root.HasNode ["House", "Cellar"] :=
    (hnode _ (by decide)).2 ⟨by decide, by decide +kernel⟩
  have hno : ¬root.HasNode ["Cellar"] := by
    rw [hnode _ (by decide)]
    exact fun h => absurd h.2 (by decide +kernel)
  obtain ⟨kitchen, hkitchen⟩ := (hnode ["House", "Kitchen"] (by decide)).2
    ⟨by decide, by decide +kernel⟩
  have hlamp : "lamp" ∈ kitchen.resources :=
    (hshown _ kitchen (by decide) hkitchen "lamp").2 (by decide +kernel)
  refine ⟨hused, root, hroot, hcellar, hno, hempty, ⟨kitchen, hkitchen, hlamp⟩, ?_⟩
  obtain ⟨names, -, hnames, hpath, tree, htree, hat⟩ := hsubtree "House/Cellar" (by decide +kernel)
  have hsegments : names = ["House", "Cellar"] := by
    rw [← segments_ofSegments hnames, hpath]
    decide +kernel
  rw [htree, ← hsegments, hat]

end Catalog

end ResourceRouting
