import ResourceRouting.Proofs.Selection.Accepted
import ResourceRouting.Proofs.Selection.Equivalence

/-!
# Selections that a text spells

A text spells nodes of two operands only (`Spells.binary`). The rendering of such a selection is a
fixed point: what is read back may differ from the selection in the order of two operands, but it
has the same rendering (`ofString_render_of_binary`).

Nodes of more operands have no such fixed point, because they come back as nested nodes, which are
rendered with parentheses of their own. With two operands there is nothing to nest. Each node is
read back with its operands in the order of their texts (`swapped_reread`), and renderings are blind
to that order.
-/

namespace ResourceRouting

namespace Selection

/-- All nodes have two operands. -/
inductive Binary : Selection → Prop
  | check (c : Check) : Binary (.check c)
  | not {s : Selection} (operand : Binary s) : Binary (.not s)
  | join (op : Connective) {s t : Selection} (left : Binary s) (right : Binary t) :
      Binary (.join op [s, t])

/-- Whether selections are equal up to swapping the two operands of nodes, at every level. -/
inductive Swapped : Selection → Selection → Prop
  | check (c : Check) : Swapped (.check c) (.check c)
  | not {s s' : Selection} (operand : Swapped s s') : Swapped (.not s) (.not s')
  | keep (op : Connective) {s s' t t' : Selection} (left : Swapped s s') (right : Swapped t t') :
      Swapped (.join op [s, t]) (.join op [s', t'])
  | swap (op : Connective) {s s' t t' : Selection} (left : Swapped s s') (right : Swapped t t') :
      Swapped (.join op [s, t]) (.join op [t', s'])

end Selection

/-- **What tokens spell has nodes of two operands.** -/
theorem Spells.binary {l : Level} {ts : List Token} {s : Selection} (h : Spells l ts s) :
    s.Binary := by
  induction h with
  | present p => exact .check _
  | equals p value => exact .check _
  | parens _ ih => exact ih
  | not _ ih => exact .not ih
  | ofFactor _ ih => exact ih
  | and _ _ ihl ihr => exact .join .and ihl ihr
  | ofTerm _ ih => exact ih
  | or _ _ ihl ihr => exact .join .or ihl ihr

namespace Selection

variable {text : String} {s t : Selection}

theorem binary_of_ofString (h : ofString text = .ok s) : s.Binary := by
  obtain ⟨ts, -, hs⟩ := ofString_eq_ok_iff.1 h
  exact hs.binary

theorem Swapped.reordered (h : Swapped s t) : Reordered s t := by
  induction h with
  | check c => exact .check c
  | not _ ih => exact .not ih
  | keep op _ _ ihl ihr => exact .join (.refl _) (.cons ihl (.cons ihr .nil))
  | swap op _ _ ihl ihr => exact .join (.swap ..) (.cons ihr (.cons ihl .nil))

/-- **Two operands are read back as they are or swapped**, in the order of their texts. -/
theorem swapped_reread (h : s.Binary) : Swapped s s.reread := by
  induction h with
  | check c => exact reread_check c ▸ .check c
  | @not s _ ih => exact reread_not s ▸ .not ih
  | @join op s t _ _ ihl ihr =>
    rw [reread_join, Text.sortedBy_pair]
    split
    · exact .keep op ihl ihr
    · exact .swap op ihl ihr

/-- **The rendering of a selection of nodes of two operands is a fixed point** of reading and
rendering, and what is read back is the selection up to swapped operands. -/
theorem ofString_render_of_binary (h : s.Binary) :
    ofString s.render = .ok s.reread ∧ s.reread.render = s.render ∧ Swapped s s.reread ∧
      s.reread.isEquivalent s = true := by
  have hswapped := swapped_reread h
  refine ⟨ofString_render_eq_reread s, hswapped.reordered.render_eq.symm, hswapped, ?_⟩
  exact isEquivalent_iff_normalized_eq.2 (normalized_reread s)

end Selection

end ResourceRouting
