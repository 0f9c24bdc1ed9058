import ResourceRouting.Proofs.Catalog.Canonical
import ResourceRouting.Proofs.Catalog.KnownGroups

/-!
# Deleting groups

The deletion of a group is one cut through three things: the memberships of every resource, what is
listed under every group, and the known groups. What lies in the group goes, and all else stays.

**Theorem (`deleteGroup_exact`).** The resources with a membership in the group are answered. Of all
memberships those in the group end, and type and interfaces stay. Under the groups that lie in the
group nothing is listed any more, and under any other group those are missing who were listed for
memberships in the deleted group alone. The known groups in the group are forgotten; the groups
above it stay, and so do those whose paths go on from its own without a separator.

Deleting a group again, or a group that is not known, changes nothing at all
(`deleteGroup_eq_self`), and the order of two deletions does not matter (`deleteGroup_comm`). These
are about the catalog as a whole. It is enough to compare attributes and known groups, as they
determine the rest (`eq_of_attributes`).
-/

namespace ResourceRouting

theorem Attributes.outside_comm (a : Attributes) (d e : String) :
    (a.outside d).outside e = (a.outside e).outside d := by
  have hgroups : ((a.outside d).outside e).groups = ((a.outside e).outside d).groups := by
    refine StringSet.ext fun group => ?_
    simp only [outside, StringSet.mem_keep]
    exact and_right_comm
  exact congrArg (fun groups => { a with groups }) hgroups

namespace Catalog

variable {c : Catalog} {path x : String}

/-! ## Who is affected -/

theorem getElem?_membersWithin (c : Catalog) (path x : String) :
    (c.membersWithin path)[x]? =
      (c.attributes? x).filter fun a => StringSet.anyMember a.groups (GroupPath.covers path) :=
  Std.ExtTreeMap.getElem?_filter'

theorem mem_deleteGroup_answer :
    x ∈ (c.deleteGroup path).1 ↔
      ∃ group ∈ c.membershipsOf x, GroupPath.covers path group = true := by
  have hanswer : (c.deleteGroup path).1 = StringSet.ofList (c.membersWithin path).keys := rfl
  rw [hanswer, StringSet.mem_ofList, mem_keys_iff, getElem?_membersWithin]
  unfold membershipsOf
  cases c.attributes? x <;> simp

/-- **The deletion of a group in which nothing lies changes nothing.** -/
theorem deleteGroup_eq_self
    (hmembers : ∀ x, ∀ group ∈ c.membershipsOf x, ¬GroupPath.covers path group = true)
    (hknown : ∀ group ∈ c.knownGroups, ¬GroupPath.covers path group = true) :
    c.deleteGroup path = (∅, c) := by
  have hnone : c.membersWithin path = ∅ := by
    refine Std.ExtTreeMap.ext_getElem? fun x => ?_
    rw [getElem?_membersWithin, Std.ExtTreeMap.getElem?_empty, Option.filter_eq_none_iff]
    intro a ha hany
    obtain ⟨group, hgroup, hcovers⟩ := StringSet.anyMember_eq_true.1 hany
    exact hmembers x group (mem_membershipsOf.2 ⟨a, ha, hgroup⟩) hcovers
  have hkept : (StringSet.keep c.knownGroups fun group => !GroupPath.covers path group) =
      c.knownGroups := by
    refine StringSet.ext fun group => ?_
    rw [StringSet.mem_keep]
    exact and_iff_left_of_imp fun hgroup => by simp [hknown group hgroup]
  have hkeys : (c.membersWithin path).keys = [] := Std.ExtTreeMap.keys_eq_nil_iff.2 hnone
  have hchanges : (c.membersWithin path).toList = [] := Std.ExtTreeMap.toList_eq_nil_iff.2 hnone
  have hempty : StringSet.ofList [] = ∅ := StringSet.ext fun x => by simp
  simp only [deleteGroup, hkeys, hchanges, List.foldl_nil, hempty, hkept]

theorem deleteGroup_of_unknown (hmembers : c.MembershipsKnown)
    (hclosed : ∀ group ∈ c.knownGroups, ∀ above ∈ GroupPath.ancestry group, above ∈ c.knownGroups)
    (hpath : path ≠ "") (hunknown : path ∉ c.knownGroups) : c.deleteGroup path = (∅, c) := by
  have hknown : ∀ group ∈ c.knownGroups, ¬GroupPath.covers path group = true := by
    intro group hgroup hcovers
    rw [GroupPath.covers_iff_mem_ancestry hpath] at hcovers
    exact hunknown (hclosed group hgroup path hcovers)
  exact deleteGroup_eq_self (fun x group hgroup => hknown group (hmembers x group hgroup)) hknown

theorem deleteGroup_again (c : Catalog) (path : String) :
    (c.deleteGroup path).2.deleteGroup path = (∅, (c.deleteGroup path).2) :=
  deleteGroup_eq_self (fun _ _ hgroup => (mem_membershipsOf_deleteGroup.1 hgroup).2)
    fun _ hgroup => (mem_knownGroups_deleteGroup.1 hgroup).2

/-- **Groups may be deleted in any order.** -/
theorem deleteGroup_comm (hc : c.Consistent) (ht : c.Tidy) (d e : String) :
    ((c.deleteGroup d).2.deleteGroup e).2 = ((c.deleteGroup e).2.deleteGroup d).2 := by
  refine eq_of_attributes ((hc.after (.deleteGroup d)).after (.deleteGroup e))
    ((hc.after (.deleteGroup e)).after (.deleteGroup d))
    ((ht.after (.deleteGroup d)).after (.deleteGroup e))
    ((ht.after (.deleteGroup e)).after (.deleteGroup d)) (fun x => ?_) ?_
  · simp only [attributes?_deleteGroup, Option.map_map]
    exact Option.map_congr fun a _ => a.outside_comm d e
  · refine StringSet.ext fun group => ?_
    simp only [mem_knownGroups_deleteGroup]
    exact and_right_comm

/-! ## What is left -/

theorem attributes?_deleteGroup_eq_some {a : Attributes} (ha : c.attributes? x = some a) :
    ∃ b, (c.deleteGroup path).2.attributes? x = some b ∧ b.type = a.type ∧
      b.interfaces = a.interfaces ∧
      ∀ group, group ∈ b.groups ↔ group ∈ a.groups ∧ ¬GroupPath.covers path group = true := by
  refine ⟨a.outside path, by rw [attributes?_deleteGroup, ha, Option.map_some], rfl, rfl,
    fun group => ?_⟩
  simp [Attributes.outside]

theorem Consistent.select_deleteGroup_of_covers (h : c.Consistent) {below : String}
    (hbelow : GroupPath.covers path below = true) :
    (c.deleteGroup path).2.select (.check (.equals .group below)) = ∅ := by
  refine StringSet.ext fun x => iff_of_false ?_ (by simp)
  have hleft : (c.deleteGroup path).2.Consistent := h.after (.deleteGroup path)
  rw [hleft.mem_select_group]
  rintro ⟨group, hgroup, hmem⟩
  exact (mem_membershipsOf_deleteGroup.1 hgroup).2 (GroupPath.covers_of_mem_ancestry hbelow hmem)

/-- Under another group those are missing who were listed for memberships in the deleted group
alone. -/
theorem Consistent.mem_select_deleteGroup (h : c.Consistent) {other : String} :
    x ∈ (c.deleteGroup path).2.select (.check (.equals .group other)) ↔
      x ∈ c.select (.check (.equals .group other)) ∧
        ¬∀ group ∈ c.membershipsOf x, other ∈ GroupPath.ancestry group →
          GroupPath.covers path group = true := by
  have hleft : (c.deleteGroup path).2.Consistent := h.after (.deleteGroup path)
  rw [hleft.mem_select_group, h.mem_select_group]
  simp only [mem_membershipsOf_deleteGroup, not_forall]
  constructor
  · rintro ⟨group, ⟨hgroup, hnot⟩, hmem⟩
    exact ⟨⟨group, hgroup, hmem⟩, group, hgroup, hmem, hnot⟩
  · rintro ⟨-, group, hgroup, hmem, hnot⟩
    exact ⟨group, ⟨hgroup, hnot⟩, hmem⟩

/-- **The deletion of a group is exact**, after any history. -/
theorem deleteGroup_exact (history : List Edit) (path : String) :
    let c := replay history
    let left := (c.deleteGroup path).2
    (∀ x, x ∈ (c.deleteGroup path).1 ↔
        ∃ group ∈ c.membershipsOf x, GroupPath.covers path group = true) ∧
      (∀ x, left.attributes? x = none ↔ c.attributes? x = none) ∧
      (∀ x a, c.attributes? x = some a → ∃ b, left.attributes? x = some b ∧ b.type = a.type ∧
        b.interfaces = a.interfaces ∧
        ∀ group, group ∈ b.groups ↔ group ∈ a.groups ∧ ¬GroupPath.covers path group = true) ∧
      (∀ below, GroupPath.covers path below = true →
        left.select (.check (.equals .group below)) = ∅) ∧
      (∀ other, ¬GroupPath.covers path other = true → ∀ x,
        x ∈ left.select (.check (.equals .group other)) ↔
          x ∈ c.select (.check (.equals .group other)) ∧
            ¬∀ group ∈ c.membershipsOf x, other ∈ GroupPath.ancestry group →
              GroupPath.covers path group = true) ∧
      (∀ group, group ∈ left.knownGroups ↔
        group ∈ c.knownGroups ∧ ¬GroupPath.covers path group = true) ∧
      (∀ above ∈ c.knownGroups, GroupPath.covers above path = true → above ≠ path →
        above ∈ left.knownGroups) ∧
      (∀ sibling ∈ c.knownGroups, ∀ first rest, path ≠ "" → first ≠ GroupPath.separator →
        sibling.toList = path.toList ++ first :: rest → sibling ∈ left.knownGroups) ∧
      left.deleteGroup path = (∅, left) ∧
      (path ≠ "" → path ∉ c.knownGroups → c.deleteGroup path = (∅, c)) ∧
      ∀ other, (left.deleteGroup other).2 = ((c.deleteGroup other).2.deleteGroup path).2 := by
  intro c left
  have hc : c.Consistent := consistent_replay history
  refine ⟨fun x => mem_deleteGroup_answer, fun x => ?_,
    fun x a ha => attributes?_deleteGroup_eq_some ha,
    fun below hbelow => hc.select_deleteGroup_of_covers hbelow,
    fun other _ x => hc.mem_select_deleteGroup, fun group => mem_knownGroups_deleteGroup,
    fun above habove hcovers hne => ?_, fun sibling hsibling first rest hpath hfirst hrest => ?_,
    c.deleteGroup_again path, ?_, fun other => deleteGroup_comm hc (tidy_replay history) path other⟩
  · rw [attributes?_deleteGroup, Option.map_eq_none_iff]
  · refine mem_knownGroups_deleteGroup.2 ⟨habove, fun hback => ?_⟩
    exact hne (GroupPath.covers_antisymm hcovers hback)
  · exact mem_knownGroups_deleteGroup.2
      ⟨hsibling, GroupPath.not_covers_of_append hpath hfirst hrest⟩
  · exact deleteGroup_of_unknown (membershipsKnown_replay history)
      fun group hgroup above habove => mem_knownGroups_of_mem_ancestry hgroup habove

/-- When the kitchen is deleted, a bulb that is in the hall, too, stays in the house and a lamp does
not. The house and the kitchenette stay known. There is no garden to delete. -/
theorem deleteGroup_of_kitchen :
    let history : List Edit := [.register ⟨"lamp", "light", ∅⟩, .register ⟨"bulb", "light", ∅⟩,
      .join "lamp" "House/Kitchen", .join "bulb" "House/Kitchen/Counter", .join "bulb" "House/Hall",
      .createGroup "House/Kitchenette"]
    let kitchen := "House/Kitchen"
    let c := replay history
    let left := (c.deleteGroup kitchen).2
    let house : Key := .check (.equals .group "House")
    let counter : Key := .check (.equals .group "House/Kitchen/Counter")
    let a : Attributes := ⟨"light", ∅, StringSet.ofList ["House/Kitchen/Counter", "House/Hall"]⟩
    c.attributes? "bulb" = some a ∧
      (∃ b, left.attributes? "bulb" = some b ∧ b.type = "light" ∧ "House/Hall" ∈ b.groups) ∧
      GroupPath.covers kitchen "House/Kitchen/Counter" = true ∧ left.select counter = ∅ ∧
      ¬GroupPath.covers kitchen "House" = true ∧ "bulb" ∈ left.select house ∧
      "lamp" ∉ left.select house ∧ "House" ∈ left.knownGroups ∧
      "House/Kitchenette" ∈ left.knownGroups ∧ "Garden" ∉ c.knownGroups ∧
      c.deleteGroup "Garden" = (∅, c) := by
  intro history kitchen c left house counter a
  obtain ⟨-, -, hkept, hbelow, hother, -, habove, hsibling, -⟩ := deleteGroup_exact history kitchen
  obtain ⟨-, -, -, -, -, -, -, -, -, hunknown, -⟩ := deleteGroup_exact history "Garden"
  have ha : c.attributes? "bulb" = some a := by decide +kernel
  have hcounter : GroupPath.covers kitchen "House/Kitchen/Counter" = true := by decide +kernel
  have hhouse : ¬GroupPath.covers kitchen "House" = true := by decide +kernel
  have hgarden : "Garden" ∉ c.knownGroups := by decide +kernel
  obtain ⟨b, hb, htype, -, hgroups⟩ := hkept "bulb" a ha
  have hhall : "House/Hall" ∈ b.groups :=
    (hgroups "House/Hall").2 ⟨by decide +kernel, by decide +kernel⟩
  have hbulb : "bulb" ∈ left.select house := by
    refine (hother "House" hhouse "bulb").2 ⟨by decide +kernel, fun hall => ?_⟩
    exact absurd (hall "House/Hall" (by decide +kernel) (by decide +kernel)) (by decide +kernel)
  have hstays : "House" ∈ left.knownGroups :=
    habove "House" (by decide +kernel) (by decide +kernel) (by decide)
  have hkitchenette : "House/Kitchenette" ∈ left.knownGroups :=
    hsibling "House/Kitchenette" (by decide +kernel) 'e' ['t', 't', 'e'] (by decide) (by decide)
      (by decide +kernel)
  exact ⟨ha, ⟨b, hb, htype, hhall⟩, hcounter, hbelow _ hcounter, hhouse, hbulb, by decide +kernel,
    hstays, hkitchenette, hgarden, hunknown (by decide) hgarden⟩

end Catalog

end ResourceRouting
