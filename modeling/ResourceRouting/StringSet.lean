import Std.Data.ExtTreeSet

/-!
# Sets

Sets of ids, interfaces and group paths are sets of strings (`StringSet`). Sets with the same
members are equal, and their members are listed in the order of their code points, which is also
that of their UTF-8 bytes.
-/

namespace ResourceRouting

section

variable {α : Type} [Ord α] [Std.TransOrd α]

/-- A set, unless it is empty. -/
def unlessEmpty (s : Std.ExtTreeSet α) : Option (Std.ExtTreeSet α) :=
  if s.isEmpty then none else some s

/-- An empty set is as good as none. -/
@[simp] theorem getD_unlessEmpty (s : Std.ExtTreeSet α) : (unlessEmpty s).getD ∅ = s := by
  unfold unlessEmpty
  split
  · rename_i hempty
    exact (Std.ExtTreeSet.isEmpty_iff.1 hempty).symm
  · rfl

theorem unlessEmpty_ne_empty (s : Std.ExtTreeSet α) : unlessEmpty s ≠ some ∅ := by
  intro h
  obtain ⟨hne, heq⟩ := Option.ite_none_left_eq_some.1 h
  exact hne (Std.ExtTreeSet.isEmpty_iff.2 (Option.some.inj heq))

end

abbrev StringSet := Std.ExtTreeSet String

namespace StringSet

def ofList (names : List String) : StringSet := Std.ExtTreeSet.ofList names

def anyMember (names : StringSet) (test : String → Bool) : Bool := names.toList.any test

def keep (names : StringSet) (test : String → Bool) : StringSet := names.filter test

@[simp] theorem mem_ofList {names : List String} {name : String} :
    name ∈ ofList names ↔ name ∈ names := by
  simp [ofList, Std.ExtTreeSet.mem_ofList]

@[simp] theorem anyMember_eq_true {names : StringSet} {test : String → Bool} :
    anyMember names test = true ↔ ∃ name ∈ names, test name = true := by
  simp [anyMember]

@[simp] theorem mem_keep {names : StringSet} {test : String → Bool} {name : String} :
    name ∈ keep names test ↔ name ∈ names ∧ test name = true := by
  simp [keep, Std.ExtTreeSet.mem_filter]

@[simp] theorem mem_union {s t : StringSet} {name : String} : name ∈ s ∪ t ↔ name ∈ s ∨ name ∈ t :=
  Std.ExtTreeSet.mem_union_iff

@[simp] theorem mem_inter {s t : StringSet} {name : String} : name ∈ s ∩ t ↔ name ∈ s ∧ name ∈ t :=
  Std.ExtTreeSet.mem_inter_iff

@[simp] theorem mem_sdiff {s t : StringSet} {name : String} : name ∈ s \ t ↔ name ∈ s ∧ name ∉ t :=
  Std.ExtTreeSet.mem_diff_iff

/-- **Sets with the same members are equal.** -/
theorem ext {s t : StringSet} (h : ∀ name, name ∈ s ↔ name ∈ t) : s = t := Std.ExtTreeSet.ext_mem h

end StringSet

end ResourceRouting
