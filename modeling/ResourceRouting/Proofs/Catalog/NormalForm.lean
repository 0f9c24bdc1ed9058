import ResourceRouting.Proofs.Catalog.Agreement
import ResourceRouting.Proofs.Selection.Normalization

/-!
# Flat selections stand for all

**Theorem (`flatten_normal_form`).** Flattening takes every selection to a flat one, and exactly the
flat selections are left as they are. A selection and its flat form match the same resources, and in
the catalog after any history they are answered alike, with the same reports.

Flattening splices operands into the node above and then drops nodes of fewer than two operands. A
node that is dropped may leave a node of another kind in its place, or the stand-in for no operands,
which is about ids. So the meaning is kept only where everything has an id
(`Selection.holds_flatten`): this is so for every set of attributes, and for all that is registered.
-/

namespace ResourceRouting

namespace Selection

theorem matchesResource_flatten (s : Selection) (id : String) (a : Attributes) :
    s.flatten.matchesResource id a = s.matchesResource id a := by
  have hid : (Profile.ofAttributes id a).satisfies (.present .id) = true := rfl
  exact holds_flatten hid s

end Selection

namespace Catalog

variable {c : Catalog}

theorem meets_flatten (s : Selection) (id : String) : c.Meets s.flatten id ↔ c.Meets s id := by
  refine exists_congr fun a => and_congr_right fun _ => ?_
  rw [← s.flatten.matchesResource_iff, ← s.matchesResource_iff, s.matchesResource_flatten]

/-- **Flattening is a normal form that keeps the meaning.** What is flattened is flat, and what is
flat stays as it is. The flat form matches the same resources as the selection, and in the catalog
after any history a query for it finds the same. -/
theorem flatten_normal_form (s : Selection) :
    s.flatten.isFlat = true ∧ (s.isFlat = true ↔ s.flatten = s) ∧
      s.flatten.flatten = s.flatten ∧
      (∀ id a, s.flatten.matchesResource id a = s.matchesResource id a) ∧
      ∀ history roster reports,
        let c := replay history
        ∃ found told,
          (Router.query lookup s.flatten).run ⟨c, roster, reports⟩ =
              (.ok found, ⟨c, roster, told⟩) ∧
            (Router.query lookup s).run ⟨c, roster, reports⟩ = (.ok found, ⟨c, roster, told⟩) := by
  refine ⟨s.isFlat_flatten, Selection.isFlat_iff_flatten_eq, s.flatten_flatten,
    s.matchesResource_flatten, fun history roster reports => ?_⟩
  exact (consistent_replay history).run_query_of_meets (meets_flatten s) s.normalized_flatten roster
    reports

end Catalog

end ResourceRouting
