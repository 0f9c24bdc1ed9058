import ResourceRouting.Proofs.Catalog.Attributes
import ResourceRouting.Proofs.History

/-!
# What a history says of a resource

A catalog holds what the latest changes said. All that is known of a resource can be read off the
history of changes, without replaying it.

- A resource is **registered** (`History.Registered`) when a registration was not followed by its
  removal.
- Its type and interfaces are those of its **newest** registration (`History.Newest`).
- It is a **member** of a group (`History.Member`) when it joined the group while it was registered
  and neither left it, nor was removed, nor saw the group or one above it deleted. A removal ends a
  membership for good: a later registration does not bring it back.

Each of these is a fact that remains of a history (`Remains`), so one step lemma carries it over all
histories: `isRegistered_after`, `shows_after` and `mem_membershipsOf_after`. The main result is
`replay_follows_history`, which adds what the changes answer and how many resources there are.
-/

namespace ResourceRouting

/-- An answer is a flag that is up exactly when a statement is true. -/
def EditAnswer.Says (answer : EditAnswer) (statement : Prop) : Prop :=
  ∃ value, answer = .flag value ∧ (value = true ↔ statement)

/-- Whether a change ends the membership of a resource in a group. -/
def Edit.Parts (id path : String) (e : Edit) : Prop :=
  e = .leave id path ∨ e = .unregister id ∨
    ∃ above, e = .deleteGroup above ∧ GroupPath.covers above path = true

/-- Whether a change replaces or removes the attributes that a resource was registered with. -/
def Edit.Overrides (id : String) (e : Edit) : Prop :=
  e = .unregister id ∨ ∃ r, e = .register r ∧ r.id = id

/-! ## Facts about histories -/

namespace History

/-- The resource was registered and not removed since. -/
def Registered (history : List Edit) (id : String) : Prop :=
  Remains (fun _ e => ∃ r, e = .register r ∧ r.id = id) (· = .unregister id) history

/-- The resource was registered like this, and neither registered again nor removed since. -/
def Newest (history : List Edit) (r : Resource) : Prop :=
  Remains (fun _ e => e = .register r) (Edit.Overrides r.id) history

/-- The resource joined the group while it was registered, and nothing has parted them since. -/
def Member (history : List Edit) (id path : String) : Prop :=
  Remains (fun before e => e = .join id path ∧ path ≠ "" ∧ Registered before id)
    (Edit.Parts id path) history

end History

namespace Catalog

variable {c : Catalog}

/-- Whether a resource is registered with just this type and these interfaces. -/
def Shows (c : Catalog) (r : Resource) : Prop :=
  ∃ a, c.attributes? r.id = some a ∧ a.type = r.type ∧ a.interfaces = r.interfaces

/-! ## One change -/

@[simp] theorem after_register (c : Catalog) (r : Resource) :
    c.after (.register r) = (c.register r).2 := rfl

@[simp] theorem after_unregister (c : Catalog) (id : String) :
    c.after (.unregister id) = (c.unregister id).2 := rfl

@[simp] theorem after_join (c : Catalog) (id path : String) :
    c.after (.join id path) = (c.join id path).2 := rfl

@[simp] theorem after_leave (c : Catalog) (id path : String) :
    c.after (.leave id path) = (c.leave id path).2 := rfl

@[simp] theorem after_createGroup (c : Catalog) (path : String) :
    c.after (.createGroup path) = (c.createGroup path).2 := rfl

@[simp] theorem after_deleteGroup (c : Catalog) (path : String) :
    c.after (.deleteGroup path) = (c.deleteGroup path).2 := rfl

theorem isRegistered_after (c : Catalog) (e : Edit) (id : String) :
    (c.after e).isRegistered id = true ↔
      (∃ r, e = .register r ∧ r.id = id) ∨ (c.isRegistered id = true ∧ ¬e = .unregister id) := by
  rw [isRegistered_eq_isSome, isRegistered_eq_isSome]
  cases e with
  | register r => by_cases h : r.id = id <;> simp [h]
  | unregister x => by_cases h : x = id <;> simp [h]
  | join x path => by_cases h : x = id ∧ path ≠ "" <;> simp [h]
  | leave x path => by_cases h : x = id <;> simp [h]
  | createGroup path => simp
  | deleteGroup path => simp

/-- Only registrations and removals of a resource touch its type and interfaces. -/
theorem shows_after (c : Catalog) (e : Edit) (r : Resource) :
    (c.after e).Shows r ↔ e = .register r ∨ (c.Shows r ∧ ¬e.Overrides r.id) := by
  unfold Shows Edit.Overrides
  cases e with
  | register s =>
    by_cases h : s.id = r.id
    · have hsame : s = r ↔ s.type = r.type ∧ s.interfaces = r.interfaces := by
        cases s
        cases r
        simpa using fun _ _ => h
      simp [h, hsame]
    · have hne : s ≠ r := fun heq => h (heq ▸ rfl)
      simp [h, hne]
  | unregister x => by_cases h : x = r.id <;> simp [h]
  | join x path => by_cases h : x = r.id ∧ path ≠ "" <;> simp [h, Attributes.joined]
  | leave x path => by_cases h : x = r.id <;> simp [h, Attributes.left]
  | createGroup path => simp
  | deleteGroup path => simp [Attributes.outside]

theorem mem_membershipsOf_after (c : Catalog) (e : Edit) (id path : String) :
    path ∈ (c.after e).membershipsOf id ↔
      (e = .join id path ∧ path ≠ "" ∧ c.isRegistered id = true) ∨
        (path ∈ c.membershipsOf id ∧ ¬e.Parts id path) := by
  unfold Edit.Parts
  cases e with
  | register r => simp
  | unregister x => simp [and_comm]
  | join x group =>
    rw [after_join, mem_membershipsOf_join]
    constructor
    · rintro (hmem | ⟨rfl, rfl, hpath, hid⟩)
      · exact Or.inr ⟨hmem, by simp⟩
      · exact Or.inl ⟨rfl, hpath, hid⟩
    · rintro (⟨heq, hpath, hid⟩ | ⟨hmem, -⟩)
      · cases heq
        exact Or.inr ⟨rfl, rfl, hpath, hid⟩
      · exact Or.inl hmem
  | leave x group => simp
  | createGroup group => simp
  | deleteGroup above => simp

/-! ## All changes -/

theorem replay_concat (history : List Edit) (e : Edit) :
    replay (history ++ [e]) = (replay history).after e := by
  rw [replay, List.foldl_append]
  rfl

theorem isRegistered_replay_iff (history : List Edit) (id : String) :
    (replay history).isRegistered id = true ↔ History.Registered history id := by
  refine iff_remains (fun history => (replay history).isRegistered id = true) ?_
    (fun history e => ?_) history
  · simp [replay, isRegistered, empty]
  · rw [replay_concat, isRegistered_after]

theorem shows_replay_iff (history : List Edit) (r : Resource) :
    (replay history).Shows r ↔ History.Newest history r := by
  refine iff_remains (fun history => (replay history).Shows r) ?_ (fun history e => ?_) history
  · simp [replay, Shows, attributes?, empty]
  · rw [replay_concat, shows_after]

theorem mem_membershipsOf_replay_iff (history : List Edit) (id path : String) :
    path ∈ (replay history).membershipsOf id ↔ History.Member history id path := by
  refine iff_remains (fun history => path ∈ (replay history).membershipsOf id) ?_
    (fun history e => ?_) history
  · simp [replay, membershipsOf, attributes?, empty]
  · rw [replay_concat, mem_membershipsOf_after, isRegistered_replay_iff]

theorem exists_ids_of_size (c : Catalog) :
    ∃ ids : List String, ids.Nodup ∧ (∀ id, id ∈ ids ↔ c.isRegistered id = true) ∧
      ids.length = c.size := by
  refine ⟨c.entries.keys, Std.ExtTreeMap.nodup_keys, fun id => ?_, Std.ExtTreeMap.length_keys⟩
  rw [isRegistered, Std.ExtTreeMap.contains_iff_mem, Std.ExtTreeMap.mem_keys]

/-- **A catalog follows its history.** After any history, a resource is registered, has a type and
interfaces, and is a member of a group, as the history says. The next change answers whether the
resource is new, was registered, becomes a member, or was one. The size is the number of registered
resources. -/
theorem replay_follows_history (history : List Edit) :
    let c := replay history
    (∀ id, c.isRegistered id = true ↔ History.Registered history id) ∧
      (∀ r, c.Shows r ↔ History.Newest history r) ∧
      (∀ id path, path ∈ c.membershipsOf id ↔ History.Member history id path) ∧
      (∀ r : Resource, (c.apply (.register r)).1.Says ¬History.Registered history r.id) ∧
      (∀ id, (c.apply (.unregister id)).1.Says (History.Registered history id)) ∧
      (∀ id path, (c.apply (.join id path)).1.Says
        (History.Registered history id ∧ path ≠ "" ∧ ¬History.Member history id path)) ∧
      (∀ id path, (c.apply (.leave id path)).1.Says (History.Member history id path)) ∧
      ∃ ids : List String, ids.Nodup ∧ (∀ id, id ∈ ids ↔ History.Registered history id) ∧
        ids.length = c.size := by
  intro c
  have hregistered := isRegistered_replay_iff history
  have hmember := mem_membershipsOf_replay_iff history
  refine ⟨hregistered, shows_replay_iff history, hmember, fun r => ?_, fun id => ?_,
    fun id path => ?_, fun id path => ?_, ?_⟩
  · refine ⟨_, rfl, ?_⟩
    rw [register_answer, Bool.not_eq_true', ← Bool.not_eq_true, hregistered]
  · refine ⟨_, rfl, ?_⟩
    rw [unregister_answer, hregistered]
  · refine ⟨_, rfl, ?_⟩
    rw [join_answer_iff, hregistered, hmember]
  · refine ⟨_, rfl, ?_⟩
    rw [leave_answer_iff, hmember]
  · obtain ⟨ids, hnodup, hmem, hlength⟩ := exists_ids_of_size c
    exact ⟨ids, hnodup, fun id => (hmem id).trans (hregistered id), hlength⟩

end Catalog

end ResourceRouting
