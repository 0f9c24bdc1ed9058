import ResourceRouting.Proofs.Catalog.History
import ResourceRouting.Proofs.Group.Path

/-!
# Which groups are known

A group becomes known with all groups above it, when it is created or when a resource joins it anew,
and is forgotten when it or a group above it is deleted. Members do not matter: a group without any
stays known, and so does one whose members have been removed.

The known groups are thus what remains of a history (`History.Known`). Whatever makes a group known
makes the groups above it known, and whatever deletes one of these deletes the group, too. So the
known groups are closed under ancestry. A membership remains no longer than its group is known, but
a resource that joins a group again makes nothing known; that its group is known by then is an
invariant (`MembershipsKnown`).

Main result: `known_groups_follow_history`.
-/

namespace ResourceRouting

/-- Whether a change of a catalog makes a group known, as one that it names or as one above it. -/
def Edit.Introduces (c : Catalog) (path : String) (e : Edit) : Prop :=
  ∃ group, path ∈ GroupPath.ancestry group ∧
    ((e = .createGroup group ∧ group ≠ "") ∨
      ∃ id, e = .join id group ∧ (c.apply e).1 = .flag true)

/-- Whether a change deletes a group or one above it. -/
def Edit.Deletes (path : String) (e : Edit) : Prop :=
  ∃ above, e = .deleteGroup above ∧ GroupPath.covers above path = true

/-- The group was made known and not deleted since. -/
def History.Known (history : List Edit) (path : String) : Prop :=
  Remains (fun before e => e.Introduces (Catalog.replay before) path) (Edit.Deletes path) history

theorem History.Known.of_mem_ancestry {history : List Edit} {path above : String}
    (h : Known history path) (habove : above ∈ GroupPath.ancestry path) : Known history above := by
  refine Remains.mono h ?_ ?_
  · rintro before e ⟨group, hpath, hmade⟩
    exact ⟨group, GroupPath.mem_ancestry_trans hpath habove, hmade⟩
  · rintro e ⟨deleted, he, hcovers⟩
    exact ⟨deleted, he, GroupPath.covers_of_mem_ancestry hcovers habove⟩

namespace Catalog

variable {c : Catalog}

/-! ## One change -/

theorem mem_knownGroups_after (c : Catalog) (e : Edit) (path : String) :
    path ∈ (c.after e).knownGroups ↔
      e.Introduces c path ∨ (path ∈ c.knownGroups ∧ ¬e.Deletes path) := by
  unfold Edit.Introduces Edit.Deletes
  cases e with
  | register r => simp
  | unregister id => simp
  | join id group => simp [apply, flagged, or_comm, and_comm]
  | leave id group => simp
  | createGroup group => simp [or_comm, and_comm]
  | deleteGroup above => simp

/-- Every group that a resource is a member of is known. -/
def MembershipsKnown (c : Catalog) : Prop :=
  ∀ id, ∀ group ∈ c.membershipsOf id, group ∈ c.knownGroups

theorem MembershipsKnown.after (h : c.MembershipsKnown) (e : Edit) :
    (c.after e).MembershipsKnown := by
  intro id group hgroup
  rw [mem_knownGroups_after]
  rcases (mem_membershipsOf_after c e id group).1 hgroup with ⟨rfl, hpath, hid⟩ | ⟨hgroup, hparts⟩
  · by_cases hmember : group ∈ c.membershipsOf id
    · exact Or.inr ⟨h id group hmember, by rintro ⟨above, he, -⟩; cases he⟩
    · refine Or.inl ⟨group, GroupPath.self_mem_ancestry group, Or.inr ⟨id, rfl, ?_⟩⟩
      exact congrArg EditAnswer.flag (join_answer_iff.2 ⟨hid, hpath, hmember⟩)
  · exact Or.inr ⟨h id group hgroup, fun hdeletes => hparts (Or.inr (Or.inr hdeletes))⟩

/-! ## All changes -/

theorem mem_knownGroups_replay_iff (history : List Edit) (path : String) :
    path ∈ (replay history).knownGroups ↔ History.Known history path := by
  refine iff_remains (fun history => path ∈ (replay history).knownGroups) ?_
    (fun history e => ?_) history
  · simp [replay, empty]
  · rw [replay_concat, mem_knownGroups_after]

theorem membershipsKnown_empty : MembershipsKnown empty := by
  intro id group hgroup
  simp [membershipsOf, attributes?, empty] at hgroup

theorem membershipsKnown_replay (history : List Edit) : (replay history).MembershipsKnown :=
  replay_keeps membershipsKnown_empty (fun _ e h => h.after e) history

theorem mem_knownGroups_of_mem_ancestry {history : List Edit} {path above : String}
    (h : path ∈ (replay history).knownGroups) (habove : above ∈ GroupPath.ancestry path) :
    above ∈ (replay history).knownGroups := by
  rw [mem_knownGroups_replay_iff] at h ⊢
  exact h.of_mem_ancestry habove

/-- **The known groups follow the history.** A group is known when it or one below it was created or
joined, with success, and neither it nor one above it was deleted since. With every known group and
every membership the groups above it are known. Leaving a group and removing a resource change
nothing, and the creation of a group answers whether it was unknown. -/
theorem known_groups_follow_history (history : List Edit) :
    let c := replay history
    (∀ path, path ∈ c.knownGroups ↔ History.Known history path) ∧
      (∀ path ∈ c.knownGroups, ∀ above ∈ GroupPath.ancestry path, above ∈ c.knownGroups) ∧
      (∀ id, ∀ group ∈ c.membershipsOf id, ∀ above ∈ GroupPath.ancestry group,
        above ∈ c.knownGroups) ∧
      (∀ id path, (c.after (.leave id path)).knownGroups = c.knownGroups) ∧
      (∀ id, (c.after (.unregister id)).knownGroups = c.knownGroups) ∧
      ∀ path, (c.apply (.createGroup path)).1.Says (path ≠ "" ∧ path ∉ c.knownGroups) := by
  intro c
  refine ⟨mem_knownGroups_replay_iff history, fun path hpath above habove => ?_,
    fun id group hgroup above habove => ?_, knownGroups_leave c, knownGroups_unregister c,
    fun path => ⟨_, rfl, createGroup_answer_iff⟩⟩
  · exact mem_knownGroups_of_mem_ancestry hpath habove
  · exact mem_knownGroups_of_mem_ancestry (membershipsKnown_replay history id group hgroup) habove

/-- A group with an empty segment in its path has the group before it above it, and keeps it known
when the only member is removed. -/
theorem known_groups_of_lamp :
    let history : List Edit := [.register ⟨"lamp", "light", ∅⟩, .join "lamp" "House//Kitchen",
      .createGroup "Garden", .deleteGroup "Garden"]
    let c := replay history
    "House//Kitchen" ∈ c.membershipsOf "lamp" ∧ "House/" ∈ GroupPath.ancestry "House//Kitchen" ∧
      "House/" ∈ c.knownGroups ∧ "House" ∈ GroupPath.ancestry "House/" ∧ "House" ∈ c.knownGroups ∧
      "House" ∈ (c.after (.unregister "lamp")).knownGroups ∧ "Garden" ∉ c.knownGroups := by
  intro history c
  obtain ⟨hknown, hclosed, hmembers, -, hunregister, -⟩ := known_groups_follow_history history
  have hlamp : "House//Kitchen" ∈ c.membershipsOf "lamp" := by decide +kernel
  have hbelow : "House/" ∈ GroupPath.ancestry "House//Kitchen" := by decide +kernel
  have habove : "House" ∈ GroupPath.ancestry "House/" := by decide +kernel
  have hmiddle : "House/" ∈ c.knownGroups := hmembers "lamp" _ hlamp _ hbelow
  have hhouse : "House" ∈ c.knownGroups := hclosed _ hmiddle _ habove
  refine ⟨hlamp, hbelow, hmiddle, habove, hhouse, ?_, by decide +kernel⟩
  rwa [hunregister]

end Catalog

end ResourceRouting
