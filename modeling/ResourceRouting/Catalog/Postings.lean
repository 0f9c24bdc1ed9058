import ResourceRouting.StringSet
import Std.Data.ExtTreeMap

/-!
# Postings

For each value of a property, the ids of the resources that have it. No value is kept with an empty
set of ids, so postings with the same ids under every value are equal.
-/

namespace ResourceRouting

/-- Ids by value. -/
abbrev Postings := Std.ExtTreeMap String StringSet

namespace Postings

def ids (p : Postings) (value : String) : StringSet := p[value]?.getD ∅

/-- The postings with an id added under a value. -/
def add (p : Postings) (value id : String) : Postings :=
  p.alter value fun ids => some ((ids.getD ∅).insert id)

/-- The postings with an id removed from a value. -/
def drop (p : Postings) (value id : String) : Postings :=
  p.alter value fun ids => ids.bind fun ids => unlessEmpty (ids.erase id)

/-- The postings with an id added under each of some values. -/
def addAll (p : Postings) (values : StringSet) (id : String) : Postings :=
  values.toList.foldl (fun p value => add p value id) p

/-- The postings with an id removed from each of some values. -/
def dropAll (p : Postings) (values : StringSet) (id : String) : Postings :=
  values.toList.foldl (fun p value => drop p value id) p

/-! ## What is under a value -/

@[simp] theorem mem_ids_empty {value x : String} : x ∉ ids ∅ value := by
  simp [ids]

@[simp] theorem mem_ids_add {p : Postings} {value id w x : String} :
    x ∈ ids (add p value id) w ↔ (value = w ∧ id = x) ∨ x ∈ ids p w := by
  simp only [ids, add, Std.ExtTreeMap.getElem?_alter, Std.LawfulEqCmp.compare_eq_iff_eq]
  by_cases h : value = w
  · subst h
    simp [Std.ExtTreeSet.mem_insert]
  · simp [h]

@[simp] theorem mem_ids_drop {p : Postings} {value id w x : String} :
    x ∈ ids (drop p value id) w ↔ x ∈ ids p w ∧ ¬(value = w ∧ id = x) := by
  simp only [ids, drop, Std.ExtTreeMap.getElem?_alter, Std.LawfulEqCmp.compare_eq_iff_eq]
  by_cases h : value = w
  · subst h
    cases hp : p[value]? with
    | none => simp
    | some found => simp [Std.ExtTreeSet.mem_erase, and_comm]
  · simp [h]

@[simp] theorem mem_ids_addAll {p : Postings} {values : StringSet} {id w x : String} :
    x ∈ ids (addAll p values id) w ↔ (w ∈ values ∧ id = x) ∨ x ∈ ids p w := by
  have hw : w ∈ values ↔ w ∈ values.toList := Std.ExtTreeSet.mem_toList.symm
  rw [hw]
  clear hw
  unfold addAll
  induction values.toList generalizing p with
  | nil => simp
  | cons value values ih =>
    simp only [List.foldl_cons, ih, mem_ids_add, List.mem_cons]
    grind

@[simp] theorem mem_ids_dropAll {p : Postings} {values : StringSet} {id w x : String} :
    x ∈ ids (dropAll p values id) w ↔ x ∈ ids p w ∧ ¬(w ∈ values ∧ id = x) := by
  have hw : w ∈ values ↔ w ∈ values.toList := Std.ExtTreeSet.mem_toList.symm
  rw [hw]
  clear hw
  unfold dropAll
  induction values.toList generalizing p with
  | nil => simp
  | cons value values ih =>
    simp only [List.foldl_cons, ih, mem_ids_drop, List.mem_cons]
    grind

/-! ## No empty sets -/

/-- No value is kept with an empty set of ids. -/
def Tidy (p : Postings) : Prop := ∀ value : String, p[value]? ≠ some (∅ : StringSet)

theorem tidy_empty : Tidy ∅ := by
  intro value
  simp

theorem tidy_add {p : Postings} (h : Tidy p) (value id : String) : Tidy (add p value id) := by
  intro w
  simp only [add, Std.ExtTreeMap.getElem?_alter, Std.LawfulEqCmp.compare_eq_iff_eq]
  split
  · simp
  · exact h w

theorem tidy_drop {p : Postings} (h : Tidy p) (value id : String) : Tidy (drop p value id) := by
  intro w
  simp only [drop, Std.ExtTreeMap.getElem?_alter, Std.LawfulEqCmp.compare_eq_iff_eq]
  split
  · intro hw
    obtain ⟨found, _, hfound⟩ := Option.bind_eq_some_iff.1 hw
    exact unlessEmpty_ne_empty _ hfound
  · exact h w

theorem tidy_addAll {p : Postings} (h : Tidy p) (values : StringSet) (id : String) :
    Tidy (addAll p values id) := by
  unfold addAll
  induction values.toList generalizing p with
  | nil => exact h
  | cons value values ih => exact ih (tidy_add h value id)

theorem tidy_dropAll {p : Postings} (h : Tidy p) (values : StringSet) (id : String) :
    Tidy (dropAll p values id) := by
  unfold dropAll
  induction values.toList generalizing p with
  | nil => exact h
  | cons value values ih => exact ih (tidy_drop h value id)

/-- **Tidy postings with the same ids under every value are equal.** -/
theorem ext_of_tidy {p q : Postings} (hp : Tidy p) (hq : Tidy q)
    (h : ∀ value x, x ∈ ids p value ↔ x ∈ ids q value) : p = q := by
  apply Std.ExtTreeMap.ext_getElem?
  intro value
  have hids : ids p value = ids q value := StringSet.ext (h value)
  have hpv := hp value
  have hqv := hq value
  unfold ids at hids
  revert hids hpv hqv
  cases p[value]? <;> cases q[value]? <;> simp +contextual [eq_comm]

end Postings

end ResourceRouting
