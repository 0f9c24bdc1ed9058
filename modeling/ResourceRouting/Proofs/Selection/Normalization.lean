import ResourceRouting.Proofs.Selection.Reordering

/-!
# Normalized texts

**Theorem (`normalized_eq_reread`).** The normalized text of a selection can be had in two ways. The
selection is flattened and rendered, or it is rendered, read back, flattened and rendered again. And
a normalized text is read back as a selection with the same normalized text.

The two ways flatten different selections. What is read back has nodes of two operands only, nested
to the right in the order of the operands' texts, so merging starts from another grouping and
another order. The grouping is lost at once, because nested nodes merge into one (`flatten_nest`).
The order is lost when the result is rendered (`reordered_flatten_reread`).
-/

namespace ResourceRouting.Selection

/-! ## Reading renderings -/

theorem ofString_of_stands {text : String} {s : Selection} (h : Stands text s) :
    ofString text = .ok s := by
  obtain ⟨ts, hwrites, hspells⟩ := h
  rw [ofString, TokenStream.items_of_writes hwrites]
  exact ofTokens_eq_ok_iff_spells.2 (.ofTerm (.ofFactor hspells))

theorem ofString_render_eq_reread (s : Selection) : ofString s.render = .ok s.reread :=
  ofString_of_stands (.render s)

theorem reread_eq_of_render_eq {s t : Selection} (h : s.render = t.render) :
    s.reread = t.reread := by
  have hs := ofString_render_eq_reread s
  rw [h, ofString_render_eq_reread t] at hs
  exact (Except.ok.inj hs).symm

/-! ## Flattening what is read back -/

/-- Nested nodes of two operands merge into the one node that they stand for. -/
theorem flatten_nest (op : Connective) (ss : List Selection) :
    (nest op ss).flatten = (Selection.join op ss).flatten := by
  fun_induction nest op ss with
  | case1 => cases op <;> rfl
  | case2 only =>
    rw [flatten_join_eq, spliced, List.flatMap_singleton,
      joinOf_operandsUnder op (isFlat_flatten only)]
  | case3 s t ss ih =>
    have hrest : operandsUnder op (nest op (t :: ss)).flatten = spliced op (t :: ss) := by
      rw [ih, flatten_join_eq, operandsUnder_joinOf (spliced_ne_nil op (List.cons_ne_nil t ss))
        (flatUnder_spliced op (t :: ss))]
    have hspliced : spliced op [s, nest op (t :: ss)] = spliced op (s :: t :: ss) := by
      rw [spliced, List.flatMap_cons, List.flatMap_singleton, hrest]
      rfl
    rw [flatten_join_eq, flatten_join_eq, hspliced]

/-- **What is read back flattens to the same operands in some order.** -/
theorem reordered_flatten_reread (s : Selection) : Reordered s.reread.flatten s.flatten := by
  induction s with
  | check c =>
    rw [reread_check]
    exact .refl _
  | not s ih =>
    rw [reread_not, flatten_not, flatten_not]
    exact .not ih
  | join op ss ih =>
    have hsorted := Text.sortedBy_perm render ss
    have heach : Rearranged (spliced op ((Text.sortedBy render ss).map reread))
        (spliced op (Text.sortedBy render ss)) := by
      rw [spliced, List.flatMap_map]
      exact .flatMap fun s hs => (ih s (hsorted.mem_iff.1 hs)).operandsUnder op
    rw [reread_join, flatten_nest, flatten_join_eq, flatten_join_eq]
    exact (heach.perm_right (hsorted.flatMap_right _)).joinOf op

theorem normalized_eq_of_reordered {s t : Selection} (h : Reordered s.flatten t.flatten) :
    s.normalized = t.normalized := by
  rw [normalized_eq_render_flatten, normalized_eq_render_flatten, h.render_eq]

theorem normalized_reread (s : Selection) : s.reread.normalized = s.normalized :=
  normalized_eq_of_reordered (reordered_flatten_reread s)

theorem normalized_flatten (s : Selection) : s.flatten.normalized = s.normalized := by
  rw [normalized_eq_render_flatten, normalized_eq_render_flatten, flatten_flatten]

/-- **Normalizing is flattening and rendering, before or after a round trip through the text**, and
a normalized text stands for a selection with that normalized text. -/
theorem normalized_eq_reread (s : Selection) :
    s.normalized = s.flatten.render ∧
      (∃ t, ofString s.render = .ok t ∧ t.flatten.render = s.normalized) ∧
      ∃ t, ofString s.normalized = .ok t ∧ t.normalized = s.normalized := by
  refine ⟨normalized_eq_render_flatten s, ⟨s.reread, ofString_render_eq_reread s, ?_⟩,
    s.flatten.reread, ?_, ?_⟩
  · rw [← normalized_eq_render_flatten, normalized_reread]
  · rw [normalized_eq_render_flatten]
    exact ofString_render_eq_reread s.flatten
  · rw [normalized_reread, normalized_flatten]

end ResourceRouting.Selection
