import ResourceRouting.Resource

/-!
# What selections mean

The truth of a selection of one resource, said of the resource's own data and without any index,
expanded set or order of evaluation.

**Facts** (`Attributes.Passes`). A check of a resource is read off its id, its type, its interfaces
and its explicit memberships. A membership counts for its group and for every group above it.

**Descriptions** (`Selection.Describes`). A conjunction describes a resource when all its operands
do, a disjunction when some operand does, a negation when its operand does not.

The matching of prepared resources decides this meaning (`Selection.matchesResource_iff`).
-/

namespace ResourceRouting

namespace Attributes

/-- Whether the resource with an id and attributes passes a check. -/
def Passes (a : Attributes) (id : String) : Check → Prop
  | .present .id | .present .type => True
  | .present .interface => ∃ interface, interface ∈ a.interfaces
  | .present .group => ∃ group, group ∈ a.groups
  | .equals .id value => id = value
  | .equals .type value => a.type = value
  | .equals .interface value => value ∈ a.interfaces
  | .equals .group path => ∃ group ∈ a.groups, path ∈ GroupPath.ancestry group

end Attributes

namespace Selection

/-- Whether a selection describes a thing of which the given checks are true. -/
def Describes (fact : Check → Prop) : Selection → Prop
  | .check c => fact c
  | .not s => ¬Describes fact s
  | .join .and ss => ∀ s, (_h : s ∈ ss) → Describes fact s
  | .join .or ss => ∃ s, ∃ _h : s ∈ ss, Describes fact s

variable {fact : Check → Prop}

@[simp] theorem describes_check (c : Check) : (Selection.check c).Describes fact ↔ fact c := by
  rw [Describes]

@[simp] theorem describes_not (s : Selection) :
    (Selection.not s).Describes fact ↔ ¬s.Describes fact := by
  rw [Describes]

@[simp] theorem describes_and (ss : List Selection) :
    (Selection.and ss).Describes fact ↔ ∀ s ∈ ss, s.Describes fact := by
  rw [Selection.and, Describes]

@[simp] theorem describes_or (ss : List Selection) :
    (Selection.or ss).Describes fact ↔ ∃ s ∈ ss, s.Describes fact := by
  rw [Selection.or, Describes]
  exact exists_congr fun s => exists_prop

theorem holds_iff_describes (truth : Check → Bool) (s : Selection) :
    s.holds truth = true ↔ s.Describes fun c => truth c = true := by
  induction s with
  | check c => simp
  | not s ih => simp [← ih]
  | join op ss ih =>
    cases op with
    | and =>
      rw [holds_and, List.all_eq_true, describes_and]
      exact forall₂_congr ih
    | or =>
      rw [holds_or, List.any_eq_true, describes_or]
      exact exists_congr fun s => and_congr_right (ih s)

end Selection

/-! ## Prepared resources -/

namespace StringSet

theorem ne_empty_iff_exists {names : StringSet} : ¬names = ∅ ↔ ∃ name, name ∈ names := by
  rw [← Std.ExtTreeSet.isEmpty_eq_false_iff, ← Std.ExtTreeSet.isEmpty_toList,
    List.isEmpty_eq_false_iff_exists_mem]
  exact exists_congr fun name => Std.ExtTreeSet.mem_toList

end StringSet

namespace GroupPath

theorem self_mem_ancestry (path : String) : path ∈ ancestry path := by
  rw [ancestry, List.mem_map]
  exact ⟨path.toList, mem_ancestryOf.2 (Or.inl rfl), String.ofList_toList⟩

/-- Some group is covered exactly when some group was joined. -/
theorem exists_mem_coverage {paths : StringSet} :
    (∃ p, p ∈ coverage paths) ↔ ∃ path, path ∈ paths := by
  simp only [mem_coverage]
  constructor
  · intro h
    obtain ⟨_, path, hpath, -⟩ := h
    exact ⟨path, hpath⟩
  · intro h
    obtain ⟨path, hpath⟩ := h
    exact ⟨path, path, hpath, self_mem_ancestry path⟩

end GroupPath

theorem Attributes.has_iff_passes (a : Attributes) (id : String) (p : Property) :
    a.has p = true ↔ a.Passes id (.present p) := by
  cases p <;> simp [has, Passes, StringSet.ne_empty_iff_exists]

theorem Profile.satisfies_iff_passes (id : String) (a : Attributes) (c : Check) :
    (Profile.ofAttributes id a).satisfies c = true ↔ a.Passes id c := by
  cases c with
  | present p =>
    cases p with
    | id => simp [satisfies, Attributes.Passes]
    | type => simp [satisfies, Attributes.Passes]
    | interface =>
      simp [satisfies, ofAttributes, Attributes.Passes, StringSet.ne_empty_iff_exists]
    | group =>
      rw [Attributes.Passes, ← GroupPath.exists_mem_coverage]
      simp [satisfies, ofAttributes, StringSet.ne_empty_iff_exists]
  | equals p value =>
    cases p <;> simp [satisfies, ofAttributes, Attributes.Passes]

/-- **Matching decides the meaning.** -/
theorem Selection.matchesResource_iff (s : Selection) (id : String) (a : Attributes) :
    s.matchesResource id a = true ↔ s.Describes (a.Passes id) := by
  have hfact : (fun c => (Profile.ofAttributes id a).satisfies c = true) = a.Passes id :=
    funext fun c => propext (Profile.satisfies_iff_passes id a c)
  rw [matchesResource, admits, holds_iff_describes, hfact]

end ResourceRouting
