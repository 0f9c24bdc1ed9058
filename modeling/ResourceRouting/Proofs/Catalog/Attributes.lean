import ResourceRouting.Proofs.Catalog.Consistency

/-!
# What a change does to what is known of a resource

Every change of a catalog is described by what becomes of the attributes of each resource and of the
known groups. A registration sets type and interfaces and keeps the memberships. Joining and leaving
change the memberships of one resource. The deletion of a group cuts the memberships of every
resource at once, and of each only those that lie in the group.

A change that has no effect needs no case of its own: joining a group again adds nothing, and
resources without memberships in a deleted group keep all that they have.
-/

namespace ResourceRouting

/-! ## Memberships -/

namespace Attributes

/-- The attributes with a membership more. -/
def joined (a : Attributes) (path : String) : Attributes :=
  { a with groups := a.groups.insert path }

/-- The attributes with a membership less. -/
def left (a : Attributes) (path : String) : Attributes :=
  { a with groups := a.groups.erase path }

/-- The attributes without the memberships in a group. -/
def outside (a : Attributes) (path : String) : Attributes :=
  { a with groups := StringSet.keep a.groups fun group => !GroupPath.covers path group }

variable {a : Attributes} {path : String}

theorem joined_of_mem (h : path ∈ a.groups) : a.joined path = a := by
  have hgroups : a.groups.insert path = a.groups := by
    refine StringSet.ext fun group => ?_
    rw [Std.ExtTreeSet.mem_insert, Std.LawfulEqCmp.compare_eq_iff_eq]
    exact or_iff_right_of_imp fun heq => heq ▸ h
  rw [joined, hgroups]

theorem left_of_not_mem (h : path ∉ a.groups) : a.left path = a := by
  have hgroups : a.groups.erase path = a.groups := by
    refine StringSet.ext fun group => ?_
    rw [Std.ExtTreeSet.mem_erase, Ne, Std.LawfulEqCmp.compare_eq_iff_eq]
    exact and_iff_right_of_imp fun hgroup heq => h (heq ▸ hgroup)
  rw [left, hgroups]

theorem outside_of_forall (h : ∀ group ∈ a.groups, ¬GroupPath.covers path group = true) :
    a.outside path = a := by
  have hgroups :
      StringSet.keep a.groups (fun group => !GroupPath.covers path group) = a.groups := by
    refine StringSet.ext fun group => ?_
    rw [StringSet.mem_keep]
    exact and_iff_left_of_imp fun hgroup => by simp [h group hgroup]
  rw [outside, hgroups]

end Attributes

namespace Catalog

variable {c : Catalog}

/-- The groups that a resource joined itself; none if it is not registered. -/
def membershipsOf (c : Catalog) (id : String) : StringSet :=
  ((c.attributes? id).map (·.groups)).getD ∅

theorem mem_membershipsOf {id path : String} :
    path ∈ c.membershipsOf id ↔ ∃ a, c.attributes? id = some a ∧ path ∈ a.groups := by
  unfold membershipsOf
  cases c.attributes? id <;> simp

theorem Consistent.mem_select_group (h : c.Consistent) {path x : String} :
    x ∈ c.select (.check (.equals .group path)) ↔
      ∃ group ∈ c.membershipsOf x, path ∈ GroupPath.ancestry group := by
  rw [h.mem_select_iff]
  simp only [Attributes.IsUnder, Attributes.Passes, mem_membershipsOf]
  constructor
  · rintro ⟨a, ha, group, hgroup, hpath⟩
    exact ⟨group, ⟨a, ha, hgroup⟩, hpath⟩
  · rintro ⟨group, ⟨a, ha, hgroup⟩, hpath⟩
    exact ⟨a, ha, group, hgroup, hpath⟩

/-! ## Attributes -/

@[simp] theorem attributes?_register (c : Catalog) (r : Resource) (x : String) :
    (c.register r).2.attributes? x =
      if r.id = x then some ⟨r.type, r.interfaces, c.membershipsOf r.id⟩ else c.attributes? x := by
  unfold register membershipsOf attributes?
  cases c.entries[r.id]? <;> simp [withdraw, Std.ExtTreeMap.getElem?_insert]

@[simp] theorem attributes?_setGroups (c : Catalog) (id : String) (groups : StringSet)
    (x : String) : (c.setGroups id groups).attributes? x =
      if id = x then (c.attributes? x).map fun a => { a with groups } else c.attributes? x := by
  unfold attributes?
  cases h : c.entries[id]? with
  | none =>
    rw [setGroups, h]
    by_cases hx : id = x
    · rw [if_pos hx, ← hx, h]
      rfl
    · rw [if_neg hx]
  | some a =>
    rw [entries_setGroups h]
    by_cases hx : id = x
    · subst hx
      simp [h]
    · simp [Std.ExtTreeMap.getElem?_insert, hx]

@[simp] theorem attributes?_learn (c : Catalog) (path x : String) :
    (c.learn path).attributes? x = c.attributes? x := rfl

@[simp] theorem attributes?_unregister (c : Catalog) (id x : String) :
    (c.unregister id).2.attributes? x = if id = x then none else c.attributes? x := by
  unfold unregister
  cases h : c.entries[id]? with
  | none =>
    by_cases hx : id = x
    · rw [if_pos hx, ← hx]
      exact h
    · rw [if_neg hx]
  | some a =>
    by_cases hx : id = x
    · simp [attributes?, hx]
    · simp [attributes?, Std.ExtTreeMap.getElem?_erase, Std.ExtTreeMap.getElem?_insert, withdraw,
        entries_setGroups h, hx]

@[simp] theorem attributes?_join (c : Catalog) (id path x : String) :
    (c.join id path).2.attributes? x =
      if id = x ∧ path ≠ "" then (c.attributes? x).map (·.joined path) else c.attributes? x := by
  unfold join
  by_cases hpath : path = ""
  · simp [hpath]
  · rw [if_neg hpath]
    by_cases hx : id = x
    · subst hx
      rw [if_pos ⟨rfl, hpath⟩]
      cases h : c.entries[id]? with
      | none => simp [attributes?, h]
      | some a =>
        by_cases hmem : path ∈ a.groups
        · simp [attributes?, h, hmem, Attributes.joined_of_mem]
        · simp [attributes?, h, hmem, learn, entries_setGroups h, Attributes.joined]
    · rw [if_neg (fun h => hx h.1)]
      split
      · rfl
      · split
        · rfl
        · rw [attributes?_learn, attributes?_setGroups, if_neg hx]

@[simp] theorem attributes?_leave (c : Catalog) (id path x : String) :
    (c.leave id path).2.attributes? x =
      if id = x then (c.attributes? x).map (·.left path) else c.attributes? x := by
  unfold leave
  by_cases hx : id = x
  · subst hx
    rw [if_pos rfl]
    cases h : c.entries[id]? with
    | none => simp [attributes?, h]
    | some a =>
      by_cases hmem : path ∈ a.groups
      · simp [attributes?, h, hmem, entries_setGroups h, Attributes.left]
      · simp [attributes?, h, hmem, Attributes.left_of_not_mem]
  · rw [if_neg hx]
    split
    · rfl
    · split
      · rw [attributes?_setGroups, if_neg hx]
      · rfl

@[simp] theorem attributes?_createGroup (c : Catalog) (path x : String) :
    (c.createGroup path).2.attributes? x = c.attributes? x := by
  unfold createGroup
  split <;> rfl

/-! ## Deleting a group -/

theorem mem_membersWithin {id path : String} {a : Attributes} :
    (id, a) ∈ (c.membersWithin path).toList ↔
      c.attributes? id = some a ∧ ∃ group ∈ a.groups, GroupPath.covers path group = true := by
  rw [membersWithin, Std.ExtTreeMap.mem_toList_iff_getElem?_eq_some,
    Std.ExtTreeMap.getElem?_filter', Option.filter_eq_some_iff, StringSet.anyMember_eq_true]
  rfl

section

variable (remaining : Attributes → StringSet) {changes : List (String × Attributes)} {x : String}

theorem attributes?_setGroupsEach_of_not_mem (h : ∀ change ∈ changes, change.1 ≠ x) :
    (changes.foldl (fun c (id, a) => c.setGroups id (remaining a)) c).attributes? x =
      c.attributes? x := by
  induction changes generalizing c with
  | nil => rfl
  | cons change changes ih =>
    rw [List.forall_mem_cons] at h
    rw [List.foldl_cons, ih h.2, attributes?_setGroups, if_neg h.1]

/-- A resource that is named once gets the memberships that are named with it. -/
theorem attributes?_setGroupsEach_of_mem {a : Attributes}
    (hdistinct : (changes.map Prod.fst).Nodup) (h : (x, a) ∈ changes) :
    (changes.foldl (fun c (id, a) => c.setGroups id (remaining a)) c).attributes? x =
      (c.attributes? x).map fun b => { b with groups := remaining a } := by
  induction changes generalizing c with
  | nil => cases h
  | cons change changes ih =>
    rw [List.map_cons, List.nodup_cons] at hdistinct
    rw [List.foldl_cons]
    rcases List.mem_cons.1 h with rfl | h
    · have hlater : ∀ later ∈ changes, later.1 ≠ x := by
        intro later hlater heq
        exact hdistinct.1 (List.mem_map.2 ⟨later, hlater, heq⟩)
      rw [attributes?_setGroupsEach_of_not_mem remaining hlater, attributes?_setGroups, if_pos rfl]
    · have hne : change.1 ≠ x := by
        intro heq
        exact hdistinct.1 (heq ▸ List.mem_map_of_mem h)
      rw [ih hdistinct.2 h, attributes?_setGroups, if_neg hne]

end

/-- **The deletion of a group cuts the memberships in it, of every resource.** -/
@[simp] theorem attributes?_deleteGroup (c : Catalog) (path x : String) :
    (c.deleteGroup path).2.attributes? x = (c.attributes? x).map (·.outside path) := by
  by_cases hx : ∃ a, (x, a) ∈ (c.membersWithin path).toList
  · obtain ⟨a, hmember⟩ := hx
    have hdistinct : ((c.membersWithin path).toList.map Prod.fst).Nodup := by
      rw [Std.ExtTreeMap.map_fst_toList_eq_keys]
      exact Std.ExtTreeMap.nodup_keys
    have ha : c.attributes? x = some a := (mem_membersWithin.1 hmember).1
    refine (attributes?_setGroupsEach_of_mem (fun a => (a.outside path).groups)
      hdistinct hmember).trans ?_
    rw [ha]
    rfl
  · have hothers : ∀ change ∈ (c.membersWithin path).toList, change.1 ≠ x := by
      rintro ⟨id, a⟩ hchange rfl
      exact hx ⟨a, hchange⟩
    refine (attributes?_setGroupsEach_of_not_mem (fun a => (a.outside path).groups)
      hothers).trans ?_
    cases ha : c.attributes? x with
    | none => rfl
    | some a =>
      -- No membership lies in the group, so cutting them leaves all.
      have hnone : ∀ group ∈ a.groups, ¬GroupPath.covers path group = true := by
        intro group hgroup hcovers
        exact hx ⟨a, mem_membersWithin.2 ⟨ha, group, hgroup, hcovers⟩⟩
      rw [Option.map_some, Attributes.outside_of_forall hnone]

/-! ## Memberships after a change -/

@[simp] theorem membershipsOf_register (c : Catalog) (r : Resource) (x : String) :
    (c.register r).2.membershipsOf x = c.membershipsOf x := by
  rw [membershipsOf, attributes?_register]
  by_cases hx : r.id = x
  · rw [if_pos hx, ← hx]
    rfl
  · rw [if_neg hx]
    rfl

@[simp] theorem mem_membershipsOf_unregister {id x group : String} :
    group ∈ (c.unregister id).2.membershipsOf x ↔ id ≠ x ∧ group ∈ c.membershipsOf x := by
  rw [membershipsOf, attributes?_unregister]
  by_cases hx : id = x
  · simp [hx]
  · simp [hx, membershipsOf]

@[simp] theorem mem_membershipsOf_join {id path x group : String} :
    group ∈ (c.join id path).2.membershipsOf x ↔
      group ∈ c.membershipsOf x ∨
        (id = x ∧ path = group ∧ path ≠ "" ∧ c.isRegistered id = true) := by
  rw [membershipsOf, attributes?_join, isRegistered_eq_isSome]
  by_cases hx : id = x ∧ path ≠ ""
  · obtain ⟨rfl, hpath⟩ := hx
    unfold membershipsOf
    cases c.attributes? id with
    | none => simp
    | some a => simp [hpath, Attributes.joined, Std.ExtTreeSet.mem_insert, or_comm]
  · rw [if_neg hx]
    exact (or_iff_left fun h => hx ⟨h.1, h.2.2.1⟩).symm

@[simp] theorem mem_membershipsOf_leave {id path x group : String} :
    group ∈ (c.leave id path).2.membershipsOf x ↔
      group ∈ c.membershipsOf x ∧ ¬(id = x ∧ path = group) := by
  rw [membershipsOf, attributes?_leave]
  by_cases hx : id = x
  · subst hx
    unfold membershipsOf
    cases c.attributes? id with
    | none => simp
    | some a => simp [Attributes.left, Std.ExtTreeSet.mem_erase, and_comm]
  · simp [hx, membershipsOf]

@[simp] theorem membershipsOf_createGroup (c : Catalog) (path x : String) :
    (c.createGroup path).2.membershipsOf x = c.membershipsOf x := by
  rw [membershipsOf, attributes?_createGroup]
  rfl

@[simp] theorem mem_membershipsOf_deleteGroup {path x group : String} :
    group ∈ (c.deleteGroup path).2.membershipsOf x ↔
      group ∈ c.membershipsOf x ∧ ¬GroupPath.covers path group = true := by
  rw [membershipsOf, attributes?_deleteGroup]
  unfold membershipsOf
  cases c.attributes? x with
  | none => simp
  | some a => simp [Attributes.outside]

/-! ## Known groups -/

@[simp] theorem knownGroups_setGroups (c : Catalog) (id : String) (groups : StringSet) :
    (c.setGroups id groups).knownGroups = c.knownGroups := by
  unfold setGroups
  split <;> rfl

@[simp] theorem knownGroups_register (c : Catalog) (r : Resource) :
    (c.register r).2.knownGroups = c.knownGroups := by
  unfold register
  cases c.entries[r.id]? <;> rfl

@[simp] theorem knownGroups_unregister (c : Catalog) (id : String) :
    (c.unregister id).2.knownGroups = c.knownGroups := by
  unfold unregister
  split
  · rfl
  · exact knownGroups_setGroups c id ∅

@[simp] theorem knownGroups_leave (c : Catalog) (id path : String) :
    (c.leave id path).2.knownGroups = c.knownGroups := by
  unfold leave
  split
  · rfl
  · split
    · exact knownGroups_setGroups c id _
    · rfl

@[simp] theorem mem_knownGroups_learn {path p : String} :
    p ∈ (c.learn path).knownGroups ↔ p ∈ c.knownGroups ∨ p ∈ GroupPath.ancestry path := by
  simp [learn]

/-- A group becomes known with all above it when a resource joins it anew. -/
@[simp] theorem mem_knownGroups_join {id path p : String} :
    p ∈ (c.join id path).2.knownGroups ↔
      p ∈ c.knownGroups ∨ ((c.join id path).1 = true ∧ p ∈ GroupPath.ancestry path) := by
  unfold join
  split
  · simp
  · split
    · simp
    · split
      · simp
      · simp

@[simp] theorem mem_knownGroups_createGroup {path p : String} :
    p ∈ (c.createGroup path).2.knownGroups ↔
      p ∈ c.knownGroups ∨ (path ≠ "" ∧ p ∈ GroupPath.ancestry path) := by
  unfold createGroup
  by_cases hpath : path = ""
  · simp [hpath]
  · simp [hpath]

theorem knownGroups_setGroupsEach (remaining : Attributes → StringSet)
    (changes : List (String × Attributes)) (c : Catalog) :
    (changes.foldl (fun c (id, a) => c.setGroups id (remaining a)) c).knownGroups =
      c.knownGroups := by
  induction changes generalizing c with
  | nil => rfl
  | cons change changes ih => rw [List.foldl_cons, ih, knownGroups_setGroups]

@[simp] theorem mem_knownGroups_deleteGroup {path p : String} :
    p ∈ (c.deleteGroup path).2.knownGroups ↔
      p ∈ c.knownGroups ∧ ¬GroupPath.covers path p = true := by
  rw [deleteGroup, StringSet.mem_keep,
    knownGroups_setGroupsEach fun a => StringSet.keep a.groups fun g => !GroupPath.covers path g]
  simp

/-! ## Answers -/

theorem register_answer (c : Catalog) (r : Resource) :
    (c.register r).1 = !c.isRegistered r.id := by
  rw [isRegistered_eq_isSome]
  unfold register attributes?
  cases c.entries[r.id]? <;> rfl

theorem unregister_answer (c : Catalog) (id : String) :
    (c.unregister id).1 = c.isRegistered id := by
  rw [isRegistered_eq_isSome]
  unfold unregister attributes?
  cases c.entries[id]? <;> rfl

theorem join_answer_iff {id path : String} :
    (c.join id path).1 = true ↔
      c.isRegistered id = true ∧ path ≠ "" ∧ path ∉ c.membershipsOf id := by
  rw [isRegistered_eq_isSome]
  unfold join membershipsOf attributes?
  by_cases hpath : path = ""
  · simp [hpath]
  · cases c.entries[id]? with
    | none => simp [hpath]
    | some a => by_cases hmem : path ∈ a.groups <;> simp [hpath, hmem]

theorem leave_answer_iff {id path : String} :
    (c.leave id path).1 = true ↔ path ∈ c.membershipsOf id := by
  unfold leave membershipsOf attributes?
  cases c.entries[id]? with
  | none => simp
  | some a => by_cases hmem : path ∈ a.groups <;> simp [hmem]

theorem createGroup_answer_iff {path : String} :
    (c.createGroup path).1 = true ↔ path ≠ "" ∧ path ∉ c.knownGroups := by
  unfold createGroup
  by_cases hpath : path = ""
  · simp [hpath]
  · simp [hpath, ← Std.ExtTreeSet.contains_iff_mem]

end Catalog

end ResourceRouting
