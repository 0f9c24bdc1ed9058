import ResourceRouting.Catalog.Edit
import ResourceRouting.Proofs.Selection.Meaning

/-!
# The postings of a catalog are those of its resources

A catalog says the same thing twice: in the attributes of every resource, and in postings that are
changed step by step.

**Mirrors** (`Postings.Mirrors`). Postings mirror the entries when the ids under each value are
those of the resources that have it. This is local: when one resource is entered, changed or
removed, the postings have to be right for that resource and unchanged for the others
(`Postings.Mirrors.insert`, `Postings.Mirrors.erase`).

**Consistency** (`Catalog.Consistent`). The postings of types, of interfaces and of covered groups
all mirror the entries. Every change keeps this, whatever its arguments (`Consistent.after`), so it
holds after any history (`consistent_replay`). Most changes are made of two, the replacement of
memberships and a change of the known groups, so only these and the registration of resources have
to be looked at (`after_keeps`).

Main result: `mem_select_replay_iff`. What is listed under a key is what a scan of all attributes
finds.
-/

namespace ResourceRouting

/-! ## Mirrors -/

namespace Postings

/-- Under each value there are the resources that have it. -/
def Mirrors (p : Postings) (entries : Std.ExtTreeMap String Attributes)
    (values : Attributes → StringSet) : Prop :=
  ∀ value id, id ∈ p.ids value ↔ ∃ a, entries[id]? = some a ∧ value ∈ values a

variable {p p' : Postings} {entries : Std.ExtTreeMap String Attributes}
  {values : Attributes → StringSet}

theorem mirrors_empty (values : Attributes → StringSet) : Mirrors ∅ ∅ values := by
  intro value id
  simp

/-- When a resource is entered or changed, only that resource has to be looked at. -/
theorem Mirrors.insert (h : p.Mirrors entries values) {id : String} {a : Attributes}
    (hothers : ∀ value x, x ≠ id → (x ∈ p'.ids value ↔ x ∈ p.ids value))
    (hid : ∀ value, id ∈ p'.ids value ↔ value ∈ values a) :
    p'.Mirrors (entries.insert id a) values := by
  intro value x
  by_cases hx : x = id
  · subst hx
    rw [hid value, Std.ExtTreeMap.getElem?_insert_self]
    simp
  · rw [hothers value x hx, h value x]
    simp [Std.ExtTreeMap.getElem?_insert, Ne.symm hx]

/-- When a resource is removed, it has to be gone and the others have to be as they were. -/
theorem Mirrors.erase (h : p.Mirrors entries values) {id : String}
    (hothers : ∀ value x, x ≠ id → (x ∈ p'.ids value ↔ x ∈ p.ids value))
    (hid : ∀ value, id ∉ p'.ids value) : p'.Mirrors (entries.erase id) values := by
  intro value x
  by_cases hx : x = id
  · subst hx
    simp [hid value]
  · rw [hothers value x hx, h value x]
    simp [Std.ExtTreeMap.getElem?_erase, Ne.symm hx]

theorem Mirrors.mem_ids_iff (h : p.Mirrors entries values) {id : String} {a : Attributes}
    (ha : entries[id]? = some a) (value : String) : id ∈ p.ids value ↔ value ∈ values a := by
  rw [h value id]
  simp [ha]

theorem Mirrors.not_mem_ids (h : p.Mirrors entries values) {id : String}
    (hid : entries[id]? = none) (value : String) : id ∉ p.ids value := by
  rw [h value id]
  simp [hid]

end Postings

/-- Whether the resource with an id and attributes belongs under a key. -/
def Attributes.IsUnder (a : Attributes) (id : String) : Key → Prop
  | .all => True
  | .check k => a.Passes id k

namespace Catalog

/-- The type of a resource as a set of values. -/
def typeOf (a : Attributes) : StringSet := {a.type}

/-- The groups that a resource is in, joined or above a joined one. -/
def coveringOf (a : Attributes) : StringSet := GroupPath.coverage a.groups

@[simp] theorem mem_typeOf {a : Attributes} {value : String} :
    value ∈ typeOf a ↔ a.type = value := by
  simp [typeOf]

/-- All postings mirror the entries. -/
structure Consistent (c : Catalog) : Prop where
  byType : c.byType.Mirrors c.entries typeOf
  byInterface : c.byInterface.Mirrors c.entries (·.interfaces)
  byGroup : c.byGroup.Mirrors c.entries coveringOf

theorem consistent_empty : Consistent empty :=
  ⟨Postings.mirrors_empty _, Postings.mirrors_empty _, Postings.mirrors_empty _⟩

variable {c : Catalog}

/-! ## Memberships -/

/-- The postings of groups after a resource has moved from some memberships to others. -/
theorem mirrors_moved {groups : StringSet} {a : Attributes} {id : String}
    (h : c.byGroup.Mirrors c.entries coveringOf) (ha : c.entries[id]? = some a) :
    Postings.Mirrors
      ((c.byGroup.dropAll (GroupPath.coverage a.groups \ GroupPath.coverage groups) id).addAll
        (GroupPath.coverage groups \ GroupPath.coverage a.groups) id)
      (c.entries.insert id { a with groups }) coveringOf := by
  refine h.insert ?_ ?_
  · intro value x hx
    simp [Ne.symm hx]
  · -- Only what is in one of the two coverages is touched, and it ends as the new one has it.
    intro value
    have hbefore : id ∈ c.byGroup.ids value ↔ value ∈ GroupPath.coverage a.groups :=
      h.mem_ids_iff ha value
    rw [Postings.mem_ids_addAll, Postings.mem_ids_dropAll, hbefore, StringSet.mem_sdiff,
      StringSet.mem_sdiff]
    simp only [and_true, coveringOf]
    by_cases hold : value ∈ GroupPath.coverage a.groups <;>
      by_cases hnew : value ∈ GroupPath.coverage groups <;> simp only [hold, hnew] <;> simp

theorem Consistent.setGroups (h : c.Consistent) (id : String) (groups : StringSet) :
    (c.setGroups id groups).Consistent := by
  unfold Catalog.setGroups
  cases ha : c.entries[id]? with
  | none => exact h
  | some a =>
    have htype := h.byType.mem_ids_iff ha
    have hinterface := h.byInterface.mem_ids_iff ha
    exact {
      byType := h.byType.insert (fun _ _ _ => Iff.rfl) htype
      byInterface := h.byInterface.insert (fun _ _ _ => Iff.rfl) hinterface
      byGroup := mirrors_moved h.byGroup ha }

/-- Which groups are known is no matter of the postings. -/
theorem Consistent.withKnownGroups (h : c.Consistent) (knownGroups : StringSet) :
    Consistent { c with knownGroups } :=
  ⟨h.byType, h.byInterface, h.byGroup⟩

/-! ## Registration -/

/-- A resource that is registered anew is entered under its type and its interfaces. Those that it
had before have been withdrawn, its groups stay. -/
theorem Consistent.register (h : c.Consistent) (r : Resource) : (c.register r).2.Consistent := by
  unfold Catalog.register
  cases ha : c.entries[r.id]? with
  | none =>
    have htype := h.byType.not_mem_ids ha
    have hinterface := h.byInterface.not_mem_ids ha
    have hgroup := h.byGroup.not_mem_ids ha
    refine ⟨h.byType.insert ?_ ?_, h.byInterface.insert ?_ ?_, h.byGroup.insert ?_ ?_⟩
    · intro value x hx
      simp [Ne.symm hx]
    · intro value
      simp [htype]
    · intro value x hx
      simp [Ne.symm hx]
    · intro value
      simp [hinterface]
    · intro value x hx
      rfl
    · intro value
      simp [hgroup, coveringOf]
  | some a =>
    have htype := h.byType.mem_ids_iff ha
    have hinterface := h.byInterface.mem_ids_iff ha
    have hgroup := h.byGroup.mem_ids_iff ha
    refine ⟨h.byType.insert ?_ ?_, h.byInterface.insert ?_ ?_, h.byGroup.insert ?_ hgroup⟩
    · intro value x hx
      simp [withdraw, Ne.symm hx]
    · intro value
      simp [withdraw, htype]
    · intro value x hx
      simp [withdraw, Ne.symm hx]
    · intro value
      simp [withdraw, hinterface]
    · intro value x hx
      rfl

theorem entries_setGroups {id : String} {a : Attributes} (ha : c.entries[id]? = some a)
    (groups : StringSet) :
    (c.setGroups id groups).entries = c.entries.insert id { a with groups } := by
  simp [Catalog.setGroups, ha]

theorem Consistent.unregister (h : c.Consistent) (id : String) :
    (c.unregister id).2.Consistent := by
  unfold Catalog.unregister
  cases ha : c.entries[id]? with
  | none => exact h
  | some a =>
    -- Without memberships the resource is in no group, and the rest is withdrawn.
    have hleft := h.setGroups id ∅
    have hentry : (c.setGroups id ∅).entries[id]? = some { a with groups := ∅ } := by
      rw [entries_setGroups ha, Std.ExtTreeMap.getElem?_insert_self]
    have htype := hleft.byType.mem_ids_iff hentry
    have hinterface := hleft.byInterface.mem_ids_iff hentry
    have hgroup := hleft.byGroup.mem_ids_iff hentry
    refine ⟨hleft.byType.erase ?_ ?_, hleft.byInterface.erase ?_ ?_, hleft.byGroup.erase ?_ ?_⟩
    · intro value x hx
      simp [withdraw, Ne.symm hx]
    · intro value
      simp [withdraw, htype]
    · intro value x hx
      simp [withdraw, Ne.symm hx]
    · intro value
      simp [withdraw, hinterface]
    · intro value x hx
      rfl
    · intro value
      simp [withdraw, hgroup, coveringOf]

/-! ## Histories -/

section

variable {P : Catalog → Prop}

theorem setGroupsEach_keeps (hgroups : ∀ c id groups, P c → P (c.setGroups id groups)) (h : P c)
    (remaining : Attributes → StringSet) (changes : List (String × Attributes)) :
    P (changes.foldl (fun c (id, a) => c.setGroups id (remaining a)) c) := by
  induction changes generalizing c with
  | nil => exact h
  | cons change changes ih => exact ih (hgroups c change.1 _ h)

/-- **What every change keeps.** Joining, leaving, and creating and deleting groups do no more than
to replace memberships and to change which groups are known. -/
theorem after_keeps (hgroups : ∀ c id groups, P c → P (c.setGroups id groups))
    (hknown : ∀ c knownGroups, P c → P { c with knownGroups })
    (hregister : ∀ c r, P c → P (c.register r).2)
    (hunregister : ∀ c id, P c → P (c.unregister id).2) (h : P c) (e : Edit) : P (c.after e) := by
  cases e with
  | register r => exact hregister c r h
  | unregister id => exact hunregister c id h
  | join id path =>
    show P (c.join id path).2
    unfold join
    split
    · exact h
    · split
      · exact h
      · split
        · exact h
        · exact hknown _ _ (hgroups c id _ h)
  | leave id path =>
    show P (c.leave id path).2
    unfold leave
    split
    · exact h
    · split
      · exact hgroups c id _ h
      · exact h
  | createGroup path =>
    show P (c.createGroup path).2
    unfold createGroup
    split
    · exact h
    · exact hknown c _ h
  | deleteGroup path =>
    exact hknown _ _ (setGroupsEach_keeps hgroups h
      (fun a => StringSet.keep a.groups fun group => !GroupPath.covers path group)
      (c.membersWithin path).toList)

/-- What holds at the start and is kept by every change holds after any history. -/
theorem replay_keeps (hempty : P empty) (hafter : ∀ c e, P c → P (c.after e))
    (history : List Edit) : P (replay history) := by
  have hrun : ∀ c, P c → P (history.foldl after c) := by
    induction history with
    | nil => exact fun c h => h
    | cons e history ih => exact fun c h => ih (c.after e) (hafter c e h)
  exact hrun empty hempty

end

/-- **Every change keeps a catalog consistent.** -/
theorem Consistent.after (h : c.Consistent) (e : Edit) : (c.after e).Consistent :=
  after_keeps (fun _ id groups h => h.setGroups id groups)
    (fun _ known h => h.withKnownGroups known) (fun _ r h => h.register r)
    (fun _ id h => h.unregister id) h e

/-- **After any history a catalog is consistent.** -/
theorem consistent_replay (history : List Edit) : (replay history).Consistent :=
  replay_keeps consistent_empty (fun _ e h => h.after e) history

/-! ## Keys -/

theorem mem_keys_iff (entries : Std.ExtTreeMap String Attributes) (id : String) :
    id ∈ entries.keys ↔ ∃ a, entries[id]? = some a := by
  rw [Std.ExtTreeMap.mem_keys, Std.ExtTreeMap.mem_iff_isSome_getElem?, Option.isSome_iff_exists]

theorem contains_iff_exists (entries : Std.ExtTreeMap String Attributes) (id : String) :
    entries.contains id = true ↔ ∃ a, entries[id]? = some a := by
  rw [Std.ExtTreeMap.contains_iff_mem, ← Std.ExtTreeMap.mem_keys, mem_keys_iff]

theorem isRegistered_eq_isSome (c : Catalog) (id : String) :
    c.isRegistered id = (c.attributes? id).isSome := by
  rw [isRegistered, attributes?, Std.ExtTreeMap.isSome_getElem?_eq_contains]

/-- **A key of a consistent catalog lists what a scan of all attributes finds.** -/
theorem Consistent.mem_select_iff (h : c.Consistent) (key : Key) (id : String) :
    id ∈ c.select key ↔ ∃ a, c.attributes? id = some a ∧ a.IsUnder id key := by
  unfold attributes?
  cases key with
  | all =>
    rw [select, ids, StringSet.mem_ofList, mem_keys_iff]
    simp [Attributes.IsUnder]
  | check k =>
    cases k with
    | present p =>
      rw [select, StringSet.mem_ofList, mem_keys_iff]
      simp only [Std.ExtTreeMap.getElem?_filter', Option.filter_eq_some_iff, Attributes.IsUnder,
        ← Attributes.has_iff_passes]
    | equals p value =>
      cases p with
      | id =>
        rw [select]
        simp only [Attributes.IsUnder, Attributes.Passes]
        by_cases hvalue : id = value
        · subst hvalue
          simp only [and_true, ← contains_iff_exists]
          split <;> simp_all
        · split <;> simp [hvalue, Ne.symm hvalue]
      | type =>
        rw [select, h.byType value id]
        simp [Attributes.IsUnder, Attributes.Passes]
      | interface => exact h.byInterface value id
      | group =>
        rw [select, h.byGroup value id]
        simp [Attributes.IsUnder, Attributes.Passes, coveringOf]

/-- **After any history, what is listed under a key is what a scan of all attributes finds.** -/
theorem mem_select_replay_iff (history : List Edit) (key : Key) (id : String) :
    id ∈ (replay history).select key ↔
      ∃ a, (replay history).attributes? id = some a ∧ a.IsUnder id key :=
  (consistent_replay history).mem_select_iff key id

end Catalog

end ResourceRouting
