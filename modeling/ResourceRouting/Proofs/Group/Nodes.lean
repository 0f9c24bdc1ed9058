import ResourceRouting.Proofs.Group.Tree

/-!
# The nodes of a group tree

Which nodes a tree has (`GroupTree.HasNode`) and which resources are shown at each
(`GroupTree.Shows`) is all that there is to a tree. Siblings stand in the order of their segments
(`GroupTree.Ordered`), so trees with the same nodes are equal (`GroupTree.eq_of_sameNodes`).

Adding resources makes the nodes on the way and shows the resources at the last of them
(`hasNode_graft`, `shows_graft`). A tree that is grown from an empty one has the nodes on the ways
to all places and shows at each what was placed there. The order of the placements does not matter:
it gives the very same tree (`graftAll_perm`).
-/

namespace ResourceRouting

variable {ids : StringSet} {x : String}

/-! ## Siblings in order -/

namespace GroupForest

/-- Siblings stand in the order of their segments, each segment once, at every level. -/
def Ordered : GroupForest → Prop
  | .nil => True
  | .node segment _ children siblings =>
    (∀ later tree, siblings.find? later = some tree → segment < later) ∧
      children.Ordered ∧ siblings.Ordered

variable {forest children siblings : GroupForest} {segment : String} {below : List String}

theorem find?_eq_none (h : ∀ later tree, siblings.find? later = some tree → segment < later)
    {earlier : String} (hearlier : ¬segment < earlier) : siblings.find? earlier = none := by
  cases hfind : siblings.find? earlier with
  | none => rfl
  | some tree => exact absurd (h earlier tree hfind) hearlier

theorem find?_sprout (ids : StringSet) (segment : String) (below : List String)
    (siblings : GroupForest) (s : String) :
    (sprout ids segment below siblings).find? s =
      if s = segment then some (GroupTree.empty.graft ids below) else siblings.find? s := by
  cases below with
  | nil =>
    have hids : ∅ ∪ ids = ids := StringSet.ext fun x => by simp
    simp [sprout, find?, GroupTree.graft, GroupTree.empty, hids]
  | cons next below => rfl

/-- **Adding resources at a segment changes the tree there and no other**; if there is none, it is
grown from an empty one. -/
theorem find?_graft (h : forest.Ordered) (ids : StringSet) (segment : String)
    (below : List String) (s : String) :
    (forest.graft ids segment below).find? s =
      if s = segment then some (((forest.find? segment).getD .empty).graft ids below)
      else forest.find? s := by
  induction forest with
  | nil => rw [graft, find?_sprout]; rfl
  | node segment' resources children siblings _ ihsiblings =>
    obtain ⟨hlater, -, hsiblings⟩ := h
    unfold graft
    by_cases hsame : segment = segment'
    · subst hsame
      rw [if_pos rfl]
      cases below <;> by_cases hs : s = segment <;> simp [find?, GroupTree.graft, hs]
    · rw [if_neg hsame]
      have hfind : (node segment' resources children siblings).find? segment =
          siblings.find? segment := if_neg hsame
      by_cases hlt : segment < segment'
      · have hnone := find?_eq_none hlater (String.lt_asymm hlt)
        rw [if_pos hlt, find?_sprout, hfind, hnone]
        rfl
      · rw [if_neg hlt, hfind]
        by_cases hs : s = segment'
        · subst hs
          simp [find?, Ne.symm hsame]
        · simp [find?, hs, ihsiblings hsiblings]

theorem ordered_sprout (ids : StringSet) (below : List String)
    (hlater : ∀ later tree, siblings.find? later = some tree → segment < later)
    (hsiblings : siblings.Ordered) : (sprout ids segment below siblings).Ordered := by
  induction below generalizing segment siblings with
  | nil => exact ⟨hlater, trivial, hsiblings⟩
  | cons next below ih =>
    have hnil : ∀ later tree, nil.find? later = some tree → next < later := by
      intro later tree hfind
      cases hfind
    exact ⟨hlater, ih hnil trivial, hsiblings⟩

theorem ordered_graft (h : forest.Ordered) (ids : StringSet) (segment : String)
    (below : List String) : (forest.graft ids segment below).Ordered := by
  induction forest generalizing segment below with
  | nil =>
    refine ordered_sprout ids below (fun later tree hfind => ?_) trivial
    cases hfind
  | node segment' resources children siblings ihchildren ihsiblings =>
    obtain ⟨hlater, hchildren, hsiblings⟩ := h
    unfold graft
    by_cases hsame : segment = segment'
    · rw [if_pos hsame]
      cases below with
      | nil => exact ⟨hlater, hchildren, hsiblings⟩
      | cons next below => exact ⟨hlater, ihchildren hchildren next below, hsiblings⟩
    · rw [if_neg hsame]
      by_cases hlt : segment < segment'
      · rw [if_pos hlt]
        refine ordered_sprout ids below (fun later tree hfind => ?_)
          ⟨hlater, hchildren, hsiblings⟩
        rw [find?] at hfind
        split at hfind
        · rename_i heq
          rwa [heq]
        · exact String.lt_trans hlt (hlater later tree hfind)
      · rw [if_neg hlt]
        refine ⟨fun later tree hfind => ?_, hchildren, ihsiblings hsiblings segment below⟩
        rw [find?_graft hsiblings] at hfind
        split at hfind
        · rename_i heq
          rw [heq]
          rcases Std.lt_trichotomy segment segment' with h | h | h
          · exact absurd h hlt
          · exact absurd h hsame
          · exact h
        · exact hlater later tree hfind

end GroupForest

/-! ## Nodes -/

namespace GroupTree

variable {tree tree' node : GroupTree} {segments path : List String} {segment : String}

/-- All siblings in a tree stand in order. -/
def Ordered (tree : GroupTree) : Prop := tree.children.Ordered

/-- Whether segments lead to a node. -/
def HasNode (tree : GroupTree) (path : List String) : Prop := ∃ node, tree.at? path = some node

/-- Whether segments lead to a node that shows a resource. -/
def Shows (tree : GroupTree) (path : List String) (x : String) : Prop :=
  ∃ node, tree.at? path = some node ∧ x ∈ node.resources

theorem hasNode_nil (tree : GroupTree) : tree.HasNode [] := ⟨tree, rfl⟩

theorem shows_nil : tree.Shows [] x ↔ x ∈ tree.resources := by
  simp [Shows, at?]

theorem hasNode_cons : tree.HasNode (segment :: path) ↔
    ∃ child, tree.children.find? segment = some child ∧ child.HasNode path := by
  simp only [HasNode, at?, Option.bind_eq_some_iff]
  exact ⟨fun ⟨node, child, hchild, hnode⟩ => ⟨child, hchild, node, hnode⟩,
    fun ⟨child, hchild, node, hnode⟩ => ⟨node, child, hchild, hnode⟩⟩

theorem shows_cons : tree.Shows (segment :: path) x ↔
    ∃ child, tree.children.find? segment = some child ∧ child.Shows path x := by
  simp only [Shows, at?, Option.bind_eq_some_iff]
  exact ⟨fun ⟨node, ⟨child, hchild, hnode⟩, hx⟩ => ⟨child, hchild, node, hnode, hx⟩,
    fun ⟨child, hchild, node, hnode, hx⟩ => ⟨node, ⟨child, hchild, hnode⟩, hx⟩⟩

theorem at?_append (tree : GroupTree) (path below : List String) :
    tree.at? (path ++ below) = (tree.at? path).bind fun node => node.at? below := by
  induction path generalizing tree with
  | nil => rfl
  | cons segment path ih =>
    rw [List.cons_append, at?, at?, Option.bind_assoc]
    exact congrArg _ (funext fun child => ih child)

/-- What segments lead to from a node is what longer ones lead to from above. -/
theorem hasNode_append (h : tree.at? path = some node) (below : List String) :
    tree.HasNode (path ++ below) ↔ node.HasNode below := by
  rw [HasNode, at?_append, h]
  rfl

theorem shows_append (h : tree.at? path = some node) (below : List String) :
    tree.Shows (path ++ below) x ↔ node.Shows below x := by
  rw [Shows, at?_append, h]
  rfl

/-! ## Growing -/

theorem ordered_empty : empty.Ordered := trivial

theorem hasNode_empty : empty.HasNode path ↔ path = [] := by
  cases path with
  | nil => exact iff_of_true (hasNode_nil empty) rfl
  | cons segment path => simp [hasNode_cons, empty, GroupForest.find?]

theorem not_shows_empty : ¬empty.Shows path x := by
  cases path with
  | nil => simp [shows_nil, empty]
  | cons segment path => simp [shows_cons, empty, GroupForest.find?]

theorem Ordered.find? (h : tree.Ordered) {child : GroupTree}
    (hchild : tree.children.find? segment = some child) : child.Ordered := by
  obtain ⟨resources, children⟩ := tree
  induction children with
  | nil => cases hchild
  | node segment' resources' children siblings _ ihsiblings =>
    obtain ⟨-, hchildren, hsiblings⟩ := h
    simp only [GroupForest.find?] at hchild
    split at hchild
    · obtain rfl := Option.some.inj hchild
      exact hchildren
    · exact ihsiblings hsiblings hchild

theorem Ordered.at? (h : tree.Ordered) (hnode : tree.at? path = some node) : node.Ordered := by
  induction path generalizing tree with
  | nil =>
    obtain rfl := Option.some.inj hnode
    exact h
  | cons segment path ih =>
    obtain ⟨child, hchild, hnode⟩ := Option.bind_eq_some_iff.1 hnode
    exact ih (h.find? hchild) hnode

/-- The child at a segment, or an empty tree in its place. -/
def childAt (tree : GroupTree) (segment : String) : GroupTree :=
  (tree.children.find? segment).getD empty

theorem Ordered.childAt (h : tree.Ordered) (segment : String) : (tree.childAt segment).Ordered := by
  unfold GroupTree.childAt
  cases hchild : tree.children.find? segment with
  | none => exact trivial
  | some child => exact h.find? hchild

theorem hasNode_childAt :
    (tree.childAt segment).HasNode path ↔ path = [] ∨ tree.HasNode (segment :: path) := by
  rw [hasNode_cons, childAt]
  cases tree.children.find? segment with
  | none => simp [hasNode_empty]
  | some child =>
    have hnil : path = [] → child.HasNode path := by
      rintro rfl
      exact hasNode_nil child
    simpa using hnil

theorem shows_childAt : (tree.childAt segment).Shows path x ↔ tree.Shows (segment :: path) x := by
  rw [shows_cons, childAt]
  cases tree.children.find? segment with
  | none => simp [not_shows_empty]
  | some child => simp

theorem ordered_graft (h : tree.Ordered) (ids : StringSet) (segments : List String) :
    (tree.graft ids segments).Ordered := by
  cases segments with
  | nil => exact h
  | cons segment below => exact GroupForest.ordered_graft h ids segment below

theorem find?_graft (h : tree.Ordered) (ids : StringSet) (segment : String) (below : List String)
    (s : String) : (tree.graft ids (segment :: below)).children.find? s =
      if s = segment then some ((tree.childAt segment).graft ids below)
      else tree.children.find? s :=
  GroupForest.find?_graft h ids segment below s

/-- **Adding resources makes the nodes on the way**, and no others. -/
theorem hasNode_graft (h : tree.Ordered) :
    (tree.graft ids segments).HasNode path ↔ tree.HasNode path ∨ path <+: segments := by
  induction segments generalizing tree path with
  | nil =>
    cases path with
    | nil => simp [hasNode_nil]
    | cons s path => simp [hasNode_cons, graft]
  | cons segment below ih =>
    cases path with
    | nil => simp [hasNode_nil]
    | cons s path =>
      rw [hasNode_cons, find?_graft h, List.cons_prefix_cons]
      by_cases hs : s = segment
      · subst hs
        have hstart : path = [] → path <+: below := by
          rintro rfl
          exact List.nil_prefix
        simp only [if_true, Option.some.injEq, exists_eq_left', ih (h.childAt s), hasNode_childAt,
          true_and]
        grind
      · simp [hs, hasNode_cons]

/-- **Added resources are shown at the node that their segments lead to**, and at no other. -/
theorem shows_graft (h : tree.Ordered) :
    (tree.graft ids segments).Shows path x ↔
      tree.Shows path x ∨ (segments = path ∧ x ∈ ids) := by
  induction segments generalizing tree path with
  | nil =>
    cases path with
    | nil => simp [shows_nil, graft]
    | cons s path => simp [shows_cons, graft]
  | cons segment below ih =>
    cases path with
    | nil => simp [shows_nil, graft]
    | cons s path =>
      rw [shows_cons, find?_graft h]
      by_cases hs : s = segment
      · subst hs
        simp [ih (h.childAt s), shows_childAt]
      · simp [hs, Ne.symm hs, shows_cons]

section

variable {placements : List (List String × StringSet)}

theorem ordered_graftAll (h : tree.Ordered) (placements : List (List String × StringSet)) :
    (tree.graftAll placements).Ordered := by
  unfold graftAll
  induction placements generalizing tree with
  | nil => exact h
  | cons placement placements ih => exact ih (ordered_graft h placement.2 placement.1)

/-- **A grown tree has the nodes on the ways to all places.** -/
theorem hasNode_graftAll (h : tree.Ordered) :
    (tree.graftAll placements).HasNode path ↔
      tree.HasNode path ∨ ∃ placement ∈ placements, path <+: placement.1 := by
  unfold graftAll
  induction placements generalizing tree with
  | nil => simp
  | cons placement placements ih =>
    simp only [List.foldl_cons, ih (ordered_graft h _ _), hasNode_graft h, List.mem_cons,
      exists_eq_or_imp, or_assoc]

/-- **A grown tree shows at each node what was placed there.** -/
theorem shows_graftAll (h : tree.Ordered) :
    (tree.graftAll placements).Shows path x ↔
      tree.Shows path x ∨ ∃ placement ∈ placements, placement.1 = path ∧ x ∈ placement.2 := by
  unfold graftAll
  induction placements generalizing tree with
  | nil => simp
  | cons placement placements ih =>
    simp only [List.foldl_cons, ih (ordered_graft h _ _), shows_graft h, List.mem_cons,
      exists_eq_or_imp, or_assoc]

end

/-! ## Trees with the same nodes -/

/-- The trees have nodes at the same segments, and each shows the same resources. -/
structure SameNodes (tree tree' : GroupTree) : Prop where
  hasNode (path : List String) : tree.HasNode path ↔ tree'.HasNode path
  shows (path : List String) (x : String) : tree.Shows path x ↔ tree'.Shows path x

theorem SameNodes.resources_eq (h : SameNodes tree tree') : tree.resources = tree'.resources := by
  refine StringSet.ext fun x => ?_
  have hshows := h.shows [] x
  rwa [shows_nil, shows_nil] at hshows

theorem SameNodes.children (h : SameNodes tree tree') (segment : String) :
    Option.Rel SameNodes (tree.children.find? segment) (tree'.children.find? segment) := by
  have hnode := fun path => h.hasNode (segment :: path)
  have hshows := fun path x => h.shows (segment :: path) x
  simp only [hasNode_cons, shows_cons] at hnode hshows
  cases hchild : tree.children.find? segment with
  | none =>
    cases hchild' : tree'.children.find? segment with
    | none => exact .none
    | some child' =>
      have hsome : ∃ child, tree'.children.find? segment = some child ∧ child.HasNode [] :=
        ⟨child', hchild', hasNode_nil child'⟩
      rw [← hnode, hchild] at hsome
      simp at hsome
  | some child =>
    have hsome : ∃ child, tree.children.find? segment = some child ∧ child.HasNode [] :=
      ⟨child, hchild, hasNode_nil child⟩
    rw [hnode] at hsome
    obtain ⟨child', hchild', -⟩ := hsome
    rw [hchild']
    simp only [hchild, hchild', Option.some.injEq, exists_eq_left'] at hnode hshows
    exact .some ⟨hnode, hshows⟩

end GroupTree

namespace GroupForest

open GroupTree

theorem find?_of_lt {segment earlier : String} {resources : StringSet}
    {children siblings : GroupForest} (h : (node segment resources children siblings).Ordered)
    (hearlier : earlier < segment) :
    (node segment resources children siblings).find? earlier = none := by
  have hne : earlier ≠ segment := by
    rintro rfl
    exact String.lt_irrefl earlier hearlier
  rw [find?, if_neg hne]
  exact find?_eq_none h.1 (String.lt_asymm hearlier)

/-- **Siblings in order are determined by their nodes.** -/
theorem eq_of_sameNodes {forest forest' : GroupForest} (h : forest.Ordered) (h' : forest'.Ordered)
    (hsame : ∀ s, Option.Rel SameNodes (forest.find? s) (forest'.find? s)) : forest = forest' := by
  induction forest generalizing forest' with
  | nil =>
    cases forest' with
    | nil => rfl
    | node segment' resources' children' siblings' =>
      have hfirst := hsame segment'
      rw [find?, find?, if_pos rfl] at hfirst
      cases hfirst
  | node segment resources children siblings ihchildren ihsiblings =>
    have hfirst := hsame segment
    rw [find?, if_pos rfl] at hfirst
    cases forest' with
    | nil => cases hfirst
    | node segment' resources' children' siblings' =>
      -- The first segments are the same, as the lesser would be missing on the other side.
      have hsegment : segment = segment' := by
        rcases Std.lt_trichotomy segment segment' with hlt | heq | hlt
        · rw [find?_of_lt h' hlt] at hfirst
          cases hfirst
        · exact heq
        · have hother := hsame segment'
          rw [find?_of_lt h hlt, find?, if_pos rfl] at hother
          cases hother
      subst hsegment
      obtain ⟨hlater, hchildren, hsiblings⟩ := h
      obtain ⟨hlater', hchildren', hsiblings'⟩ := h'
      rw [find?, if_pos rfl] at hfirst
      obtain ⟨hnodes⟩ := hfirst
      have hresources : resources = resources' := hnodes.resources_eq
      have hbelow : children = children' := ihchildren hchildren hchildren' hnodes.children
      have hothers : siblings = siblings' := by
        refine ihsiblings hsiblings hsiblings' fun s => ?_
        by_cases hs : s = segment
        · rw [hs, find?_eq_none hlater (String.lt_irrefl segment),
            find?_eq_none hlater' (String.lt_irrefl segment)]
          exact .none
        · have hlaterSame := hsame s
          rwa [find?, find?, if_neg hs, if_neg hs] at hlaterSame
      rw [hresources, hbelow, hothers]

end GroupForest

namespace GroupTree

/-- **Trees in order with the same nodes are equal.** -/
theorem eq_of_sameNodes {tree tree' : GroupTree} (h : tree.Ordered) (h' : tree'.Ordered)
    (hsame : SameNodes tree tree') : tree = tree' := by
  have hresources : tree.resources = tree'.resources := hsame.resources_eq
  have hchildren : tree.children = tree'.children :=
    GroupForest.eq_of_sameNodes h h' hsame.children
  cases tree
  cases tree'
  simp_all

/-- **The order of the placements does not matter**: the grown trees are the same. -/
theorem graftAll_perm {tree : GroupTree} (h : tree.Ordered)
    {placements placements' : List (List String × StringSet)}
    (hperm : placements.Perm placements') :
    tree.graftAll placements = tree.graftAll placements' := by
  refine eq_of_sameNodes (ordered_graftAll h _) (ordered_graftAll h _)
    ⟨fun path => ?_, fun path x => ?_⟩
  · rw [hasNode_graftAll h, hasNode_graftAll h]
    exact or_congr_right (exists_congr fun placement => and_congr_left' hperm.mem_iff)
  · rw [shows_graftAll h, shows_graftAll h]
    exact or_congr_right (exists_congr fun placement => and_congr_left' hperm.mem_iff)

end GroupTree

end ResourceRouting
