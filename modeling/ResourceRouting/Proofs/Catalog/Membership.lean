import ResourceRouting.Proofs.Catalog.Agreement
import ResourceRouting.Proofs.Catalog.History

/-!
# Asking for one resource and listing all

Whether a resource is under a key can be told in two ways: the key is listed and the resource looked
for, or only the entry of the resource is read. The first reads the postings; the second takes type
and interfaces from the entry and reads the postings for groups alone.

**Theorem (`contains_agrees_with_select`).** After any history the two ways agree, for every key and
every id. So a lookup that only lists keys answers every question about one resource as the catalog
does, and an id that is not registered is under no key.

The agreement is that of the postings with the entries (`Catalog.Consistent`). It carries over to
selections because what a question answers depends on the answers for its checks alone
(`Selection.run_probe_of_answers`), whichever of them are asked for.
-/

namespace ResourceRouting.Catalog

variable {c : Catalog} {id : String}

theorem contains_of_unregistered (h : c.attributes? id = none) (key : Key) :
    c.contains key id = false := by
  have hentry : c.entries[id]? = none := h
  rw [contains, hentry]

/-- **In a consistent catalog a resource is under a key when it is listed under it.** -/
theorem Consistent.contains_eq (h : c.Consistent) (key : Key) (id : String) :
    c.contains key id = (c.select key).contains id := by
  rw [Bool.eq_iff_iff, Std.ExtTreeSet.contains_iff_mem, h.mem_select_iff]
  cases ha : c.attributes? id with
  | none => simp [contains_of_unregistered ha]
  | some a =>
    rw [h.contains_iff ha]
    simp

theorem Consistent.run_containsBySelect (h : c.Consistent) (key : Key) (id : String) :
    (lookup.containsBySelect.contains key id).run c = (.ok (c.contains key id), c) := by
  rw [h.contains_eq]
  rfl

theorem Consistent.run_isIn_containsBySelect (h : c.Consistent) (s : Selection) (id : String)
    (roster : Roster) (reports : List Telemetry) :
    (Router.isIn lookup.containsBySelect id s).run ⟨c, roster, reports⟩ =
      (.ok (s.holds fun k => c.contains (.check k) id), ⟨c, roster, reports⟩) :=
  Router.run_ask (Selection.run_probe_of_answers (fun k => h.run_containsBySelect (.check k) id) s)
    roster reports

/-- **After any history a resource is under a key exactly when it is listed under it.** So it makes
no difference to any question about one resource whether `contains` is answered from the entry of
the resource or by listing the key. An id that was never registered, or removed since, is under no
key. -/
theorem contains_agrees_with_select (history : List Edit) :
    let c := replay history
    (∀ key id, c.contains key id = (c.select key).contains id) ∧
      (∀ key id, (lookup.contains key id).run c = (lookup.containsBySelect.contains key id).run c) ∧
      (∀ key id, (lookup.containsBySelect.contains key id).run c =
        (.ok ((c.select key).contains id), c)) ∧
      (∀ s id roster reports, ∃ answer,
        (Router.isIn lookup id s).run ⟨c, roster, reports⟩ = (.ok answer, ⟨c, roster, reports⟩) ∧
          (Router.isIn lookup.containsBySelect id s).run ⟨c, roster, reports⟩ =
            (.ok answer, ⟨c, roster, reports⟩)) ∧
      ∀ id, ¬History.Registered history id →
        ∀ key, c.contains key id = false ∧ id ∉ c.select key := by
  intro c
  have hc : c.Consistent := consistent_replay history
  refine ⟨hc.contains_eq, fun key id => (hc.run_containsBySelect key id).symm,
    fun key id => hc.contains_eq key id ▸ hc.run_containsBySelect key id,
    fun s id roster reports => ⟨_, run_isIn s id ⟨c, roster, reports⟩,
      hc.run_isIn_containsBySelect s id roster reports⟩, fun id hid key => ?_⟩
  have hnone : c.attributes? id = none := by
    rw [← isRegistered_replay_iff, isRegistered_eq_isSome] at hid
    simpa using hid
  refine ⟨contains_of_unregistered hnone key, ?_⟩
  rw [hc.mem_select_iff, hnone]
  simp

/-- A lamp that was removed is in no group any more, whichever way it is asked for, and a bulb that
stayed is. -/
theorem contains_agrees_of_lamp :
    let history : List Edit := [.register ⟨"lamp", "light", ∅⟩, .register ⟨"bulb", "light", ∅⟩,
      .join "lamp" "House/Kitchen", .join "bulb" "House/Kitchen", .unregister "lamp"]
    let c := replay history
    let house : Key := .check (.equals .group "House")
    ¬History.Registered history "lamp" ∧ c.contains house "lamp" = false ∧
      "lamp" ∉ c.select house ∧ c.contains house "bulb" = true ∧
      (c.select house).contains "bulb" = true := by
  intro history c house
  obtain ⟨hagree, -, -, -, hremoved⟩ := contains_agrees_with_select history
  have hlamp : ¬History.Registered history "lamp" := by
    rw [← isRegistered_replay_iff]
    decide +kernel
  have hbulb : c.contains house "bulb" = true := by decide +kernel
  obtain ⟨hcontains, hselect⟩ := hremoved "lamp" hlamp house
  exact ⟨hlamp, hcontains, hselect, hbulb, (hagree house "bulb").symm.trans hbulb⟩

end ResourceRouting.Catalog
