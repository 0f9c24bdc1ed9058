import ResourceRouting.Proofs.Selection.Rereading
import ResourceRouting.Selection.NormalForm

/-!
# Flattening

Flattening merges nested nodes of one connective and drops nodes of fewer than two operands. What
comes out is flat and means the same, and a flat selection is left as it is. So a normalized text is
always the text of the flattened selection (`normalized_eq_render_flatten`): rendering a flat
selection directly saves work and changes nothing.

**Flat operands** (`FlatUnder`). The operands of a flat node are flat themselves and none of them
uses the connective of the node. Such lists and flat selections are two views of the same thing:
`joinOf` makes a selection of a list and `operandsUnder` takes it apart again.
-/

namespace ResourceRouting.Selection

variable {op : Connective} {s : Selection} {ss : List Selection}

/-! ## Flat operands -/

/-- All operands are flat and none is a node of the connective. -/
def FlatUnder (op : Connective) (ss : List Selection) : Prop :=
  ∀ s ∈ ss, s.isJoinOf op = false ∧ s.isFlat = true

theorem isFlat_join : (Selection.join op ss).isFlat = true ↔ 2 ≤ ss.length ∧ FlatUnder op ss := by
  rw [isFlat, areFlatUnder_eq_all]
  simp [FlatUnder]

theorem FlatUnder.singleton (hjoin : s.isJoinOf op = false) (hflat : s.isFlat = true) :
    FlatUnder op [s] := by
  intro t ht
  obtain rfl := List.mem_singleton.1 ht
  exact ⟨hjoin, hflat⟩

theorem FlatUnder.flatMap {f : Selection → List Selection} (h : ∀ s ∈ ss, FlatUnder op (f s)) :
    FlatUnder op (ss.flatMap f) := by
  intro t ht
  obtain ⟨s, hs, hts⟩ := List.mem_flatMap.1 ht
  exact h s hs t hts

theorem operandsUnder_of_isJoinOf (h : s.isJoinOf op = false) : operandsUnder op s = [s] := by
  cases s with
  | check c => rfl
  | not s => rfl
  | join op' ss => rw [operandsUnder, if_neg (by simpa [isJoinOf] using h)]

theorem operandsUnder_join (op : Connective) (ss : List Selection) :
    operandsUnder op (.join op ss) = ss := if_pos rfl

theorem exists_of_isJoinOf (h : s.isJoinOf op = true) : ∃ ss, s = .join op ss := by
  cases s with
  | check c => cases h
  | not s => cases h
  | join op' ss =>
    obtain rfl : op' = op := by simpa [isJoinOf] using h
    exact ⟨ss, rfl⟩

theorem flatUnder_operandsUnder (op : Connective) (h : s.isFlat = true) :
    FlatUnder op (operandsUnder op s) := by
  cases hjoin : s.isJoinOf op with
  | false =>
    rw [operandsUnder_of_isJoinOf hjoin]
    exact .singleton hjoin h
  | true =>
    obtain ⟨ss, rfl⟩ := exists_of_isJoinOf hjoin
    rw [operandsUnder_join]
    exact (isFlat_join.1 h).2

theorem joinOf_of_two_le (h : 2 ≤ ss.length) : joinOf op ss = .join op ss := by
  match ss, h with
  | _ :: _ :: _, _ => rfl

theorem isFlat_joinOf (h : FlatUnder op ss) : (joinOf op ss).isFlat = true := by
  match ss, h with
  | [], _ => cases op <;> rfl
  | [only], h => exact (h only List.mem_cons_self).2
  | s :: t :: ss, h => exact isFlat_join.2 ⟨by simp, h⟩

/-- Operands are got back from the node that they make. No operands make one of their own. -/
theorem operandsUnder_joinOf (hne : ss ≠ []) (h : FlatUnder op ss) :
    operandsUnder op (joinOf op ss) = ss := by
  match ss, hne, h with
  | [only], _, h => exact operandsUnder_of_isJoinOf (h only List.mem_cons_self).1
  | s :: t :: ss, _, _ => exact operandsUnder_join op _

theorem joinOf_operandsUnder (op : Connective) (h : s.isFlat = true) :
    joinOf op (operandsUnder op s) = s := by
  cases hjoin : s.isJoinOf op with
  | false =>
    rw [operandsUnder_of_isJoinOf hjoin]
    rfl
  | true =>
    obtain ⟨ss, rfl⟩ := exists_of_isJoinOf hjoin
    rw [operandsUnder_join, joinOf_of_two_le (isFlat_join.1 h).1]

theorem operandsUnder_ne_nil (op : Connective) (h : s.isFlat = true) : operandsUnder op s ≠ [] := by
  cases hjoin : s.isJoinOf op with
  | false =>
    rw [operandsUnder_of_isJoinOf hjoin]
    exact List.cons_ne_nil s []
  | true =>
    obtain ⟨ss, rfl⟩ := exists_of_isJoinOf hjoin
    rw [operandsUnder_join]
    rintro rfl
    exact absurd (isFlat_join.1 h).1 (by simp)

/-! ## The flat selection -/

/-- **What is flattened is flat.** -/
theorem isFlat_flatten (s : Selection) : s.flatten.isFlat = true := by
  induction s with
  | check c => rfl
  | not s ih => rw [flatten_not, isFlat, ih]
  | join op ss ih =>
    rw [flatten_join]
    exact isFlat_joinOf (.flatMap fun s hs => flatUnder_operandsUnder op (ih s hs))

/-- The operands of a node once the operands below them are merged into it. -/
def spliced (op : Connective) (ss : List Selection) : List Selection :=
  ss.flatMap fun s => operandsUnder op s.flatten

theorem flatten_join_eq (op : Connective) (ss : List Selection) :
    (Selection.join op ss).flatten = joinOf op (spliced op ss) := flatten_join op ss

theorem flatUnder_spliced (op : Connective) (ss : List Selection) : FlatUnder op (spliced op ss) :=
  .flatMap fun s _ => flatUnder_operandsUnder op (isFlat_flatten s)

theorem spliced_ne_nil (op : Connective) (hne : ss ≠ []) : spliced op ss ≠ [] := by
  obtain ⟨s, ss, rfl⟩ := List.exists_cons_of_ne_nil hne
  rw [spliced, List.flatMap_cons]
  exact List.append_ne_nil_of_left_ne_nil (operandsUnder_ne_nil op (isFlat_flatten s)) _

/-- **A flat selection is left as it is.** -/
theorem flatten_of_isFlat (h : s.isFlat = true) : s.flatten = s := by
  induction s with
  | check c => rfl
  | not s ih => rw [flatten_not, ih (by rwa [isFlat] at h)]
  | join op ss ih =>
    obtain ⟨hlength, hflat⟩ := isFlat_join.1 h
    -- No operand has anything to merge, so each contributes itself.
    have hspliced : spliced op ss = ss := by
      have heach : ∀ s ∈ ss, operandsUnder op s.flatten = [s] := by
        intro s hs
        rw [ih s hs (hflat s hs).2, operandsUnder_of_isJoinOf (hflat s hs).1]
      rw [spliced, List.flatMap_def, List.map_congr_left heach, ← List.flatMap_def,
        List.flatMap_singleton']
    rw [flatten_join_eq, hspliced, joinOf_of_two_le hlength]

theorem isFlat_iff_flatten_eq : s.isFlat = true ↔ s.flatten = s := by
  constructor
  · exact flatten_of_isFlat
  · intro h
    rw [← h]
    exact isFlat_flatten s

theorem flatten_flatten (s : Selection) : s.flatten.flatten = s.flatten :=
  flatten_of_isFlat (isFlat_flatten s)

/-- **A normalized text is that of the flattened selection**, for flat selections, too. -/
theorem normalized_eq_render_flatten (s : Selection) : s.normalized = s.flatten.render := by
  rw [normalized]
  split
  · rename_i hflat
    rw [flatten_of_isFlat hflat]
  · rfl

/-! ## The same meaning -/

section Meaning

variable {truth : Check → Bool}

theorem holds_joinOf (hid : truth (.present .id) = true) (op : Connective) (ss : List Selection) :
    (joinOf op ss).holds truth = (Selection.join op ss).holds truth := by
  match ss with
  | [] =>
    rw [joinOf, holds_vacuous hid]
    cases op <;> simp [Connective.neutral]
  | [only] => cases op <;> simp [joinOf]
  | _ :: _ :: _ => rfl

/-- Operands may be replaced by lists of operands with the same truth. -/
theorem holds_join_flatMap {f : Selection → List Selection}
    (h : ∀ s ∈ ss, (Selection.join op (f s)).holds truth = s.holds truth) :
    (Selection.join op (ss.flatMap f)).holds truth = (Selection.join op ss).holds truth := by
  cases op with
  | and =>
    simp only [holds_and] at h ⊢
    rw [List.all_flatMap, Bool.eq_iff_iff, List.all_eq_true, List.all_eq_true]
    exact forall₂_congr fun s hs => by rw [h s hs]
  | or =>
    simp only [holds_or] at h ⊢
    rw [List.any_flatMap, Bool.eq_iff_iff, List.any_eq_true, List.any_eq_true]
    exact exists_congr fun s => and_congr_right fun hs => by rw [h s hs]

/-- **Flattening keeps the meaning**, where everything has an id. -/
theorem holds_flatten (hid : truth (.present .id) = true) (s : Selection) :
    s.flatten.holds truth = s.holds truth := by
  induction s with
  | check c => rfl
  | not s ih => rw [flatten_not, holds_not, holds_not, ih]
  | join op ss ih =>
    rw [flatten_join_eq, holds_joinOf hid]
    refine holds_join_flatMap fun s hs => ?_
    rw [← holds_joinOf hid, joinOf_operandsUnder op (isFlat_flatten s), ih s hs]

end Meaning

end ResourceRouting.Selection
