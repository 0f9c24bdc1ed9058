import Mathlib.Data.List.Perm.Basic
import ResourceRouting.Proofs.Selection.Flattening

/-!
# The order of operands

**Reordering** (`Reordered`). Two selections are the same up to the order of operands: checks are
equal, negations have the same operand, and nodes of one connective have the same operands in some
order, each again up to reordering.

**Rearranged operands** (`Rearranged`). The same of lists of operands. Lists are rearranged part by
part (`Rearranged.flatMap`), and for flat operands this is reordering of the nodes that they make
(`reordered_joinOf_iff`).

Renderings are sorted, so they do not tell reordered selections apart (`Reordered.render_eq`).
-/

namespace ResourceRouting.Selection

/-- Whether selections are equal up to the order of operands at every level. -/
inductive Reordered : Selection → Selection → Prop
  | check (c : Check) : Reordered (.check c) (.check c)
  | not {s t : Selection} (operand : Reordered s t) : Reordered (.not s) (.not t)
  | join {op : Connective} {ss us ts : List Selection} (order : ss.Perm us)
      (operands : List.Forall₂ Reordered us ts) : Reordered (.join op ss) (.join op ts)

/-- Whether lists of selections are equal up to their order and that of operands below. -/
def Rearranged (ss ts : List Selection) : Prop := ∃ us, ss.Perm us ∧ List.Forall₂ Reordered us ts

theorem forall₂_trans_of_mem {α : Type} {R S T : α → α → Prop} {xs ys zs : List α}
    (h : List.Forall₂ R xs ys) (h' : List.Forall₂ S ys zs)
    (htrans : ∀ x ∈ xs, ∀ y z, R x y → S y z → T x z) : List.Forall₂ T xs zs := by
  induction h generalizing zs with
  | nil =>
    cases h'
    exact .nil
  | @cons x y xs ys hxy _ ih =>
    cases h' with
    | cons hyz h' =>
      have hhead := htrans x List.mem_cons_self y _ hxy hyz
      exact .cons hhead (ih h' fun u hu => htrans u (List.mem_cons_of_mem x hu))

variable {op : Connective} {s t u : Selection} {ss ts us vs : List Selection}

namespace Rearranged

theorem of_forall₂_perm (operands : List.Forall₂ Reordered ss us) (order : us.Perm ts) :
    Rearranged ss ts := by
  have h : Relation.Comp (List.Forall₂ Reordered) List.Perm ss ts := ⟨us, operands, order⟩
  rwa [List.forall₂_comp_perm_eq_perm_comp_forall₂] at h

theorem perm_left (order : ss.Perm us) (h : Rearranged us ts) : Rearranged ss ts := by
  obtain ⟨vs, order', operands⟩ := h
  exact ⟨vs, order.trans order', operands⟩

theorem perm_right (h : Rearranged ss us) (order : us.Perm ts) : Rearranged ss ts := by
  obtain ⟨vs, order', operands⟩ := h
  exact (of_forall₂_perm operands order).perm_left order'

theorem length_eq (h : Rearranged ss ts) : ss.length = ts.length := by
  obtain ⟨us, order, operands⟩ := h
  exact order.length_eq.trans operands.length_eq

end Rearranged

/-! ## An equivalence relation -/

theorem reordered_join_iff :
    Reordered (.join op ss) (.join op ts) ↔ Rearranged ss ts := by
  constructor
  · intro h
    cases h with
    | join order operands => exact ⟨_, order, operands⟩
  · intro h
    obtain ⟨us, order, operands⟩ := h
    exact .join order operands

namespace Reordered

theorem refl (s : Selection) : Reordered s s := by
  induction s with
  | check c => exact .check c
  | not s ih => exact .not ih
  | join op ss ih => exact .join (.refl ss) (List.forall₂_same.2 ih)

theorem symm (h : Reordered s t) : Reordered t s := by
  induction s generalizing t with
  | check c =>
    cases h
    exact .check c
  | not s ih =>
    cases h with
    | not operand => exact .not (ih operand)
  | join op ss ih =>
    cases h with
    | join order operands =>
      have hmem := (List.forall₂_and_left _ _).2 ⟨fun u hu => order.mem_iff.2 hu, operands⟩
      have hflip : List.Forall₂ (flip Reordered) _ _ := hmem.imp fun u _ h => ih u h.1 h.2
      exact reordered_join_iff.2 (.of_forall₂_perm hflip.flip order.symm)

theorem trans (h : Reordered s t) (h' : Reordered t u) : Reordered s u := by
  induction s generalizing t u with
  | check c =>
    cases h
    exact h'
  | not s ih =>
    cases h with
    | not operand =>
      cases h' with
      | not operand' => exact .not (ih operand operand')
  | join op ss ih =>
    cases h with
    | join order operands =>
      cases h' with
      | join order' operands' =>
        -- The second order is applied before the first operands, so the operands meet.
        obtain ⟨vs, order'', operands⟩ := Rearranged.of_forall₂_perm operands order'
        have hmem : ∀ v ∈ vs, v ∈ ss := fun v hv => (order.trans order'').mem_iff.2 hv
        exact .join (order.trans order'')
          (forall₂_trans_of_mem operands operands' fun v hv _ _ => ih v (hmem v hv))

end Reordered

namespace Rearranged

theorem refl (ss : List Selection) : Rearranged ss ss :=
  ⟨ss, .refl ss, List.forall₂_same.2 fun s _ => .refl s⟩

theorem singleton (h : Reordered s t) : Rearranged [s] [t] := ⟨[s], .refl _, .cons h .nil⟩

theorem append (h : Rearranged ss ts) (h' : Rearranged us vs) :
    Rearranged (ss ++ us) (ts ++ vs) := by
  obtain ⟨ss', order, operands⟩ := h
  obtain ⟨us', order', operands'⟩ := h'
  exact ⟨ss' ++ us', order.append order', List.rel_append operands operands'⟩

theorem flatMap {f g : Selection → List Selection} (h : ∀ s ∈ ss, Rearranged (f s) (g s)) :
    Rearranged (ss.flatMap f) (ss.flatMap g) := by
  induction ss with
  | nil => exact refl []
  | cons s ss ih =>
    rw [List.flatMap_cons, List.flatMap_cons]
    have hhead := h s List.mem_cons_self
    exact hhead.append (ih fun t ht => h t (List.mem_cons_of_mem s ht))

end Rearranged

/-! ## Nodes -/

theorem Reordered.operandsUnder (op : Connective) (h : Reordered s t) :
    Rearranged (operandsUnder op s) (operandsUnder op t) := by
  cases h with
  | check c => exact .singleton (.check c)
  | not operand => exact .singleton (.not operand)
  | @join op' ss us ts order operands =>
    rw [Selection.operandsUnder, Selection.operandsUnder]
    split
    · exact ⟨us, order, operands⟩
    · exact .singleton (.join order operands)

theorem Rearranged.joinOf (op : Connective) (h : Rearranged ss ts) :
    Reordered (joinOf op ss) (joinOf op ts) := by
  -- Both lists have the same length, so both need a node or neither does.
  match ss, ts, h.length_eq with
  | [], [], _ => exact .refl _
  | [s], [t], _ =>
    obtain ⟨us, order, operands⟩ := h
    obtain rfl := List.singleton_perm.1 order
    cases operands with
    | cons operand => exact operand
  | _ :: _ :: _, _ :: _ :: _, _ => exact reordered_join_iff.2 h

theorem reordered_joinOf_iff (hss : FlatUnder op ss) (hts : FlatUnder op ts) (hss' : ss ≠ [])
    (hts' : ts ≠ []) : Reordered (joinOf op ss) (joinOf op ts) ↔ Rearranged ss ts := by
  constructor
  · intro h
    have hoperands := h.operandsUnder op
    rwa [operandsUnder_joinOf hss' hss, operandsUnder_joinOf hts' hts] at hoperands
  · intro h
    exact h.joinOf op

/-! ## Renderings -/

/-- Joined texts do not show the order in which they were given. -/
theorem renderJoin_perm {xs ys : List String} (h : xs.Perm ys) :
    renderJoin op xs = renderJoin op ys := by
  match xs, ys, h.length_eq with
  | [], [], _ => rfl
  | [x], [y], _ => rw [List.singleton_perm_singleton.1 h]
  | _ :: _ :: _, _ :: _ :: _, _ => simp only [renderJoin, Text.sorted_eq_sorted_iff.2 h]

/-- **Reordered selections have one rendering.** -/
theorem Reordered.render_eq (h : Reordered s t) : s.render = t.render := by
  induction s generalizing t with
  | check c =>
    cases h
    rfl
  | not s ih =>
    cases h with
    | not operand => rw [render_not, render_not, ih operand]
  | join op ss ih =>
    cases h with
    | @join _ _ us ts order operands =>
      have hmem := (List.forall₂_and_left _ _).2 ⟨fun u hu => order.mem_iff.2 hu, operands⟩
      have htexts : us.map render = ts.map render := by
        rw [← List.forall₂_eq_eq_eq, List.forall₂_map_left_iff, List.forall₂_map_right_iff]
        exact hmem.imp fun u _ h => ih u h.1 h.2
      rw [render_join, render_join, ← htexts]
      exact renderJoin_perm (order.map render)

theorem Rearranged.map_render_perm (h : Rearranged ss ts) :
    (ss.map render).Perm (ts.map render) := by
  obtain ⟨us, order, operands⟩ := h
  have htexts : us.map render = ts.map render := by
    rw [← List.forall₂_eq_eq_eq, List.forall₂_map_left_iff, List.forall₂_map_right_iff]
    exact operands.imp fun _ _ huv => huv.render_eq
  exact htexts ▸ order.map render

end ResourceRouting.Selection
