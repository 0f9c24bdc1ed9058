import ResourceRouting.Selection.Basic

/-!
# The leaves of a selection

The same check may stand in a selection more than once. What is said of a single check in it is said
of its **place** (`Leaf.place`), which lists the numbers of the operands on the way to it. A
negation has one operand, with the number zero.

- `Selection.at?` is the part of a selection at a place.
- `Selection.leaves` lists the checks with their places, from left to right: the places increase
  (`pairwise_leaves`), and they are those at which a check is found (`mem_leaves`).
- `Selection.holdsAt` is the meaning of a selection when every leaf has a truth of its own, so that
  the same check may be true at one place and false at another. If it is not, this is the meaning
  under the truth of checks (`holdsAt_eq_holds`).
-/

namespace ResourceRouting

/-- A check in a selection, with its place. -/
structure Leaf where
  /-- The numbers of the operands on the way to the check. -/
  place : List Nat
  check : Check
  deriving DecidableEq, Repr

/-- The leaf as it stands in a node of which the selection is the operand with a number. -/
def Leaf.under (i : Nat) (leaf : Leaf) : Leaf := { leaf with place := i :: leaf.place }

theorem Leaf.mem_map_under {i : Nat} {leaves : List Leaf} {leaf : Leaf} :
    leaf ∈ leaves.map (.under i) ↔
      ∃ place, leaf.place = i :: place ∧ ⟨place, leaf.check⟩ ∈ leaves := by
  rw [List.mem_map]
  constructor
  · rintro ⟨below, hbelow, rfl⟩
    exact ⟨below.place, rfl, hbelow⟩
  · obtain ⟨_, k⟩ := leaf
    rintro ⟨place, rfl, hbelow⟩
    exact ⟨⟨place, k⟩, hbelow, rfl⟩

/-- A leaf stands to the left of another one. -/
def Leaf.Precedes (first second : Leaf) : Prop := first.place < second.place

/-- The truth of two operands that are joined. -/
def Connective.combine : Connective → Bool → Bool → Bool
  | .and, a, b => a && b
  | .or, a, b => a || b

theorem Connective.combine_eq_ite (op : Connective) (a b : Bool) :
    op.combine a b = if a = op.neutral then b else a := by
  cases op <;> cases a <;> rfl

namespace Selection

/-! ## Places -/

/-- The operand of a node with a number. -/
def operand? : Selection → Nat → Option Selection
  | .check _, _ => none
  | .not s, i => if i = 0 then some s else none
  | .join _ ss, i => ss[i]?

/-- The part of a selection at a place. -/
def at? (s : Selection) (place : List Nat) : Option Selection := place.foldlM operand? s

@[simp] theorem at?_nil (s : Selection) : s.at? [] = some s := rfl

@[simp] theorem at?_cons (s : Selection) (i : Nat) (place : List Nat) :
    s.at? (i :: place) = (s.operand? i).bind (·.at? place) := rfl

/-! ## Leaves -/

mutual

/-- The leaves from left to right. -/
def leaves : Selection → List Leaf
  | .check k => [⟨[], k⟩]
  | .not s => (leaves s).map (.under 0)
  | .join _ ss => leavesFrom 0 ss

/-- The leaves of operands that are numbered from `i` on. -/
def leavesFrom (i : Nat) : List Selection → List Leaf
  | [] => []
  | s :: ss => (leaves s).map (.under i) ++ leavesFrom (i + 1) ss

end

theorem mem_leavesFrom {i : Nat} {ss : List Selection} {leaf : Leaf} :
    leaf ∈ leavesFrom i ss ↔ ∃ j place s, leaf.place = (i + j) :: place ∧ ss[j]? = some s ∧
      ⟨place, leaf.check⟩ ∈ s.leaves := by
  induction ss generalizing i with
  | nil => simp [leavesFrom]
  | cons s ss ih =>
    rw [leavesFrom, List.mem_append, Leaf.mem_map_under, ih]
    constructor
    · rintro (⟨place, hplace, hbelow⟩ | ⟨j, place, t, hplace, ht, hbelow⟩)
      · exact ⟨0, place, s, hplace, rfl, hbelow⟩
      · exact ⟨j + 1, place, t, by rw [hplace, Nat.add_assoc, Nat.add_comm 1], ht, hbelow⟩
    · rintro ⟨_ | j, place, t, hplace, ht, hbelow⟩
      · obtain rfl := Option.some.inj ht
        exact .inl ⟨place, hplace, hbelow⟩
      · exact .inr ⟨j, place, t, by rw [hplace, Nat.add_assoc, Nat.add_comm 1], ht, hbelow⟩

/-- **The leaves are the checks at the places of a selection.** -/
theorem mem_leaves {s : Selection} {leaf : Leaf} :
    leaf ∈ s.leaves ↔ s.at? leaf.place = some (.check leaf.check) := by
  obtain ⟨place, k⟩ := leaf
  induction s generalizing place with
  | check l => cases place <;> simp [leaves, operand?, eq_comm]
  | not s ih =>
    rw [leaves, Leaf.mem_map_under]
    cases place with
    | nil => simp
    | cons i place => by_cases hi : i = 0 <;> simp [operand?, hi, ih]
  | join op ss ih =>
    rw [leaves, mem_leavesFrom]
    cases place with
    | nil => simp
    | cons i place =>
      rw [at?_cons, operand?, Option.bind_eq_some_iff]
      constructor
      · rintro ⟨j, place', t, hplace, ht, hbelow⟩
        obtain ⟨rfl, rfl⟩ : i = j ∧ place = place' := by simpa using hplace
        exact ⟨t, ht, (ih t (List.mem_of_getElem? ht) place).1 hbelow⟩
      · rintro ⟨t, ht, hat⟩
        have hbelow := (ih t (List.mem_of_getElem? ht) place).2 hat
        exact ⟨i, place, t, by rw [Nat.zero_add], ht, hbelow⟩

theorem Leaf.pairwise_map_under (i : Nat) {leaves : List Leaf} (h : leaves.Pairwise Leaf.Precedes) :
    (leaves.map (.under i)).Pairwise Leaf.Precedes :=
  List.pairwise_map.2 (h.imp fun hlt => List.cons_lt_cons_iff.2 (.inr ⟨rfl, hlt⟩))

theorem pairwise_leavesFrom {i : Nat} {ss : List Selection}
    (h : ∀ s ∈ ss, s.leaves.Pairwise Leaf.Precedes) : (leavesFrom i ss).Pairwise Leaf.Precedes := by
  induction ss generalizing i with
  | nil => simp [leavesFrom]
  | cons s ss ih =>
    rw [List.forall_mem_cons] at h
    rw [leavesFrom, List.pairwise_append]
    refine ⟨Leaf.pairwise_map_under i h.1, ih h.2, fun first hfirst second hsecond => ?_⟩
    obtain ⟨place, hplace, -⟩ := Leaf.mem_map_under.1 hfirst
    obtain ⟨j, place', t, hplace', -⟩ := mem_leavesFrom.1 hsecond
    rw [Leaf.Precedes, hplace, hplace']
    exact List.cons_lt_cons_iff.2 (.inl (by omega))

/-- **From left to right the places increase.** So no leaf is listed twice. -/
theorem pairwise_leaves (s : Selection) : s.leaves.Pairwise Leaf.Precedes := by
  induction s with
  | check k => simp [leaves]
  | not s ih =>
    rw [leaves]
    exact Leaf.pairwise_map_under 0 ih
  | join op ss ih =>
    rw [leaves]
    exact pairwise_leavesFrom ih

/-! ## Meaning by places -/

mutual

/-- The truth of a selection, given the truth of the leaf at every place. -/
def holdsAt (truth : List Nat → Bool) : Selection → Bool
  | .check _ => truth []
  | .not s => !holdsAt (fun place => truth (0 :: place)) s
  | .join op ss => holdsFrom truth op 0 ss

/-- The truth of joined operands that are numbered from `i` on. -/
def holdsFrom (truth : List Nat → Bool) (op : Connective) (i : Nat) : List Selection → Bool
  | [] => op.neutral
  | s :: ss =>
    op.combine (holdsAt (fun place => truth (i :: place)) s) (holdsFrom truth op (i + 1) ss)

end

theorem holdsFrom_eq_holds {truth : List Nat → Bool} {fact : Check → Bool} {op : Connective}
    {i : Nat} {ss : List Selection}
    (hss : ∀ s ∈ ss, ∀ {truth : List Nat → Bool},
      (∀ leaf ∈ s.leaves, truth leaf.place = fact leaf.check) → s.holdsAt truth = s.holds fact)
    (h : ∀ leaf ∈ leavesFrom i ss, truth leaf.place = fact leaf.check) :
    holdsFrom truth op i ss = (Selection.join op ss).holds fact := by
  induction ss generalizing i with
  | nil => cases op <;> rfl
  | cons s ss ih =>
    rw [List.forall_mem_cons] at hss
    rw [leavesFrom, List.forall_mem_append, List.forall_mem_map] at h
    rw [holdsFrom, hss.1 h.1, ih hss.2 h.2]
    cases op <;> simp [Connective.combine]

/-- **If a check has one truth wherever it stands, this is the meaning of the selection.** -/
theorem holdsAt_eq_holds {truth : List Nat → Bool} {fact : Check → Bool} {s : Selection}
    (h : ∀ leaf ∈ s.leaves, truth leaf.place = fact leaf.check) :
    s.holdsAt truth = s.holds fact := by
  induction s generalizing truth with
  | check k => simpa [leaves, holdsAt] using h
  | not s ih =>
    rw [leaves, List.forall_mem_map] at h
    rw [holdsAt, ih h, holds_not]
  | join op ss ih =>
    rw [leaves] at h
    rw [holdsAt]
    exact holdsFrom_eq_holds ih h

end Selection

end ResourceRouting
