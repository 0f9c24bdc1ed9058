import ResourceRouting.Proofs.Catalog.Consistency
import ResourceRouting.Proofs.Lookup

/-!
# Three ways to ask what a selection describes

A selection is put to a catalog in three ways: as the set of all resources that it describes, as a
question about one resource, and as a match against the attributes of one resource. The first reads
the sets of keys, the second asks for single keys and stops early, the third reads neither.

**Meaning** (`Catalog.Meets`). A resource meets a selection when it is registered and the selection
describes it. A negation is met by the registered resources that do not meet its operand, so nothing
is said of ids that are not registered.

Main result: `query_isIn_matchesResource_agree`. In the catalog after any history all three ways
give the meaning of the selection.
-/

namespace ResourceRouting

/-! ## Meaning in a catalog -/

namespace Catalog

variable {c : Catalog} {id : String}

/-- Whether a resource is registered and described by a selection. -/
def Meets (c : Catalog) (s : Selection) (id : String) : Prop :=
  ∃ a, c.attributes? id = some a ∧ s.Describes (a.Passes id)

theorem mem_ids_iff_exists : id ∈ c.ids ↔ ∃ a, c.attributes? id = some a := by
  rw [ids, StringSet.mem_ofList, mem_keys_iff]
  rfl

theorem Meets.mem_ids {s : Selection} (h : c.Meets s id) : id ∈ c.ids := by
  obtain ⟨a, ha, -⟩ := h
  exact mem_ids_iff_exists.2 ⟨a, ha⟩

theorem meets_iff {a : Attributes} (ha : c.attributes? id = some a) (s : Selection) :
    c.Meets s id ↔ s.Describes (a.Passes id) := by
  constructor
  · intro hmeets
    obtain ⟨b, hb, hs⟩ := hmeets
    rw [ha, Option.some.injEq] at hb
    rwa [hb]
  · intro hs
    exact ⟨a, ha, hs⟩

theorem meets_not (s : Selection) : c.Meets (.not s) id ↔ id ∈ c.ids ∧ ¬c.Meets s id := by
  constructor
  · intro h
    obtain ⟨a, ha, hs⟩ := h
    rw [Selection.describes_not] at hs
    exact ⟨mem_ids_iff_exists.2 ⟨a, ha⟩, fun hmeets => hs ((meets_iff ha s).1 hmeets)⟩
  · intro h
    obtain ⟨hid, hs⟩ := h
    obtain ⟨a, ha⟩ := mem_ids_iff_exists.1 hid
    rw [meets_iff ha, Selection.describes_not]
    exact fun hdescribes => hs ((meets_iff ha s).2 hdescribes)

theorem meets_and_nil : c.Meets (.and []) id ↔ id ∈ c.ids := by
  rw [mem_ids_iff_exists]
  simp [Meets]

theorem meets_and_cons (s : Selection) (ss : List Selection) :
    c.Meets (.and (s :: ss)) id ↔ c.Meets s id ∧ ∀ t ∈ ss, c.Meets t id := by
  constructor
  · intro hmeets
    obtain ⟨a, ha, hall⟩ := hmeets
    rw [Selection.describes_and, List.forall_mem_cons] at hall
    exact ⟨⟨a, ha, hall.1⟩, fun t ht => ⟨a, ha, hall.2 t ht⟩⟩
  · intro h
    obtain ⟨⟨a, ha, hs⟩, hall⟩ := h
    rw [meets_iff ha, Selection.describes_and, List.forall_mem_cons]
    exact ⟨hs, fun t ht => (meets_iff ha t).1 (hall t ht)⟩

theorem meets_or (ss : List Selection) : c.Meets (.or ss) id ↔ ∃ s ∈ ss, c.Meets s id := by
  constructor
  · intro hmeets
    obtain ⟨a, ha, hany⟩ := hmeets
    obtain ⟨s, hmem, hs⟩ := (Selection.describes_or ss).1 hany
    exact ⟨s, hmem, a, ha, hs⟩
  · intro h
    obtain ⟨s, hmem, a, ha, hs⟩ := h
    exact ⟨a, ha, (Selection.describes_or ss).2 ⟨s, hmem, hs⟩⟩

theorem Consistent.mem_select_check_iff (h : c.Consistent) (k : Check) :
    id ∈ c.select (.check k) ↔ c.Meets (.check k) id := by
  rw [h.mem_select_iff]
  refine exists_congr fun a => and_congr_right fun _ => ?_
  rw [Selection.describes_check]
  rfl

/-! ## All resources -/

end Catalog

namespace StringSet

theorem mem_foldl_inter (first : StringSet) (others : List StringSet) (name : String) :
    name ∈ others.foldl (· ∩ ·) first ↔ name ∈ first ∧ ∀ names ∈ others, name ∈ names := by
  induction others generalizing first with
  | nil => simp
  | cons names others ih => simp [ih, and_assoc]

theorem mem_foldl_union (first : StringSet) (others : List StringSet) (name : String) :
    name ∈ others.foldl (· ∪ ·) first ↔ name ∈ first ∨ ∃ names ∈ others, name ∈ names := by
  induction others generalizing first with
  | nil => simp
  | cons names others ih => simp [ih, or_assoc]

end StringSet

namespace Catalog

variable {c : Catalog} {id : String}

theorem run_select (c : Catalog) (key : Key) :
    (lookup.select key).run c = (.ok (c.select key), c) := rfl

/-- A computation finds the resources that meet a selection and leaves the catalog as it is. -/
def Found (c : Catalog) (s : Selection) (act : Access Catalog StringSet) : Prop :=
  ∃ found, act.run c = (.ok found, c) ∧ ∀ id, id ∈ found ↔ c.Meets s id

theorem found_each {ss : List Selection}
    (h : ∀ s ∈ ss, c.Found s (s.evaluate lookup)) :
    ∃ each, (Selection.evaluateEach lookup ss).run c = (.ok each, c) ∧
      (∀ id, (∀ found ∈ each, id ∈ found) ↔ ∀ s ∈ ss, c.Meets s id) ∧
      ∀ id, (∃ found ∈ each, id ∈ found) ↔ ∃ s ∈ ss, c.Meets s id := by
  induction ss with
  | nil => exact ⟨[], rfl, by simp, by simp⟩
  | cons s ss ih =>
    obtain ⟨first, hfirst, hmem⟩ := h s List.mem_cons_self
    obtain ⟨others, hothers, hall, hany⟩ := ih fun t ht => h t (List.mem_cons_of_mem s ht)
    refine ⟨first :: others, ?_, fun id => ?_, fun id => ?_⟩
    · rw [Selection.evaluateEach, Access.run_bind_of_ok hfirst, Access.run_bind_of_ok hothers]
      rfl
    · rw [List.forall_mem_cons, List.forall_mem_cons, hmem, hall]
    · simp [hmem, hany]

/-- **Evaluating a selection finds the resources that meet it.** -/
theorem Consistent.found_evaluate (h : c.Consistent) (s : Selection) :
    c.Found s (s.evaluate lookup) := by
  induction s with
  | check k => exact ⟨c.select (.check k), rfl, fun id => h.mem_select_check_iff k⟩
  | not s ih =>
    obtain ⟨excluded, hexcluded, hmem⟩ := ih
    refine ⟨c.ids \ excluded, ?_, fun id => ?_⟩
    · rw [Selection.evaluate, Access.run_bind_of_ok (run_select c .all),
        Access.run_bind_of_ok hexcluded]
      rfl
    · rw [StringSet.mem_sdiff, hmem, meets_not]
  | join op ss ih =>
    cases op with
    | and =>
      -- An intersection starts from the first operand, so it needs all resources if there is none.
      cases ss with
      | nil => exact ⟨c.ids, rfl, fun id => meets_and_nil.symm⟩
      | cons s ss =>
        obtain ⟨first, hfirst, hmem⟩ := ih s List.mem_cons_self
        obtain ⟨others, hothers, hall, -⟩ := found_each fun t ht => ih t (List.mem_cons_of_mem s ht)
        refine ⟨others.foldl (· ∩ ·) first, ?_, fun id => ?_⟩
        · rw [Selection.evaluate, Access.run_bind_of_ok hfirst, Access.run_bind_of_ok hothers]
          rfl
        · rw [StringSet.mem_foldl_inter, hmem, hall, meets_and_cons]
    | or =>
      obtain ⟨each, heach, -, hany⟩ := found_each ih
      refine ⟨each.foldl (· ∪ ·) ∅, ?_, fun id => ?_⟩
      · rw [Selection.evaluate, Access.run_bind_of_ok heach]
        rfl
      · rw [StringSet.mem_foldl_union, hany, meets_or]
        simp

end Catalog

/-! ## One resource -/

/-- The first operand decides, unless it has the truth of no operands. -/
theorem Selection.holds_join_cons {truth : Check → Bool} (op : Connective) (s : Selection)
    (ss : List Selection) :
    (Selection.join op (s :: ss)).holds truth =
      if s.holds truth = op.neutral then (Selection.join op ss).holds truth else s.holds truth := by
  cases op <;> cases hs : s.holds truth <;> simp [hs, Connective.neutral]

namespace Selection

section

variable {σ : Type} {L : Lookup σ} {state : σ} {id : String} {truth : Check → Bool}

theorem run_probeUntil_of_answers (op : Connective) {ss : List Selection}
    (h : ∀ s ∈ ss, (s.probe L id).run state = (.ok (s.holds truth), state)) :
    (probeUntil L id op ss).run state = (.ok ((Selection.join op ss).holds truth), state) := by
  induction ss with
  | nil => cases op <;> rfl
  | cons s ss ih =>
    have hrest := ih fun t ht => h t (List.mem_cons_of_mem s ht)
    rw [probeUntil, Access.run_bind_of_ok (h s List.mem_cons_self), holds_join_cons]
    by_cases hs : s.holds truth = op.neutral
    · rw [if_pos hs, if_pos hs]
      exact hrest
    · rw [if_neg hs, if_neg hs]
      rfl

/-- **Asking for one resource gives the truth of the selection over the answers for its checks**,
through any lookup that always answers. -/
theorem run_probe_of_answers
    (h : ∀ k, (L.contains (.check k) id).run state = (.ok (truth k), state)) (s : Selection) :
    (s.probe L id).run state = (.ok (s.holds truth), state) := by
  induction s with
  | check k => exact h k
  | not s ih =>
    rw [probe, Access.run_bind_of_ok ih]
    rfl
  | join op ss ih =>
    rw [probe]
    exact run_probeUntil_of_answers op ih

end

end Selection

namespace Catalog

variable {c : Catalog} {id : String}

theorem Consistent.contains_iff (h : c.Consistent) {a : Attributes}
    (ha : c.attributes? id = some a) (key : Key) : c.contains key id = true ↔ a.IsUnder id key := by
  have hentry : c.entries[id]? = some a := ha
  unfold contains
  rw [hentry]
  cases key with
  | all => simp [Attributes.IsUnder]
  | check k =>
    cases k with
    | present p => exact a.has_iff_passes id p
    | equals p value =>
      cases p with
      | id => exact beq_iff_eq.trans eq_comm
      | type => simp [Attributes.IsUnder, Attributes.Passes]
      | interface => simp [Attributes.IsUnder, Attributes.Passes]
      | group =>
        simp [Attributes.IsUnder, Attributes.Passes, h.byGroup.mem_ids_iff hentry, coveringOf]

theorem run_probe (c : Catalog) (id : String) (s : Selection) :
    (s.probe lookup id).run c = (.ok (s.holds fun k => c.contains (.check k) id), c) :=
  Selection.run_probe_of_answers (fun _ => rfl) s

theorem Consistent.holds_contains_iff (h : c.Consistent) {a : Attributes}
    (ha : c.attributes? id = some a) (s : Selection) :
    (s.holds fun k => c.contains (.check k) id) = true ↔ s.Describes (a.Passes id) := by
  have hfact : (fun k => c.contains (.check k) id = true) = a.Passes id :=
    funext fun k => propext (h.contains_iff ha (.check k))
  rw [Selection.holds_iff_describes, hfact]

/-! ## Queries -/

theorem mem_ids_iff_isRegistered : id ∈ c.ids ↔ c.isRegistered id = true := by
  rw [mem_ids_iff_exists, isRegistered, contains_iff_exists]
  rfl

theorem run_query {s : Selection} {found : StringSet}
    (h : (s.evaluate lookup).run c = (.ok found, c)) (roster : Roster) (reports : List Telemetry) :
    (Router.query lookup s).run ⟨c, roster, reports⟩ =
      (.ok found, ⟨c, roster, reports ++ [.query ⟨s.normalized, found.size⟩]⟩) :=
  Router.run_query h roster reports

theorem run_isIn (s : Selection) (id : String) (r : Router Catalog) :
    (Router.isIn lookup id s).run r =
      (.ok (s.holds fun k => r.source.contains (.check k) id), r) :=
  Router.run_ask (run_probe r.source id s) r.roster r.reports

/-- Selections that the same resources meet are answered alike, with the same reports if their
normalized texts are the same. -/
theorem Consistent.run_query_of_meets (hc : c.Consistent) {s t : Selection}
    (hmeets : ∀ id, c.Meets s id ↔ c.Meets t id) (htext : s.normalized = t.normalized)
    (roster : Roster) (reports : List Telemetry) :
    ∃ found told, (Router.query lookup s).run ⟨c, roster, reports⟩ =
        (.ok found, ⟨c, roster, told⟩) ∧
      (Router.query lookup t).run ⟨c, roster, reports⟩ = (.ok found, ⟨c, roster, told⟩) := by
  obtain ⟨found, hfound, hmem⟩ := hc.found_evaluate s
  obtain ⟨found', hfound', hmem'⟩ := hc.found_evaluate t
  obtain rfl : found = found' := StringSet.ext fun id => by rw [hmem, hmem', hmeets]
  exact ⟨found, _, run_query hfound roster reports, htext ▸ run_query hfound' roster reports⟩

/-- **In the catalog after any history, all ways to ask whether a selection describes a registered
resource give its meaning.** No resource is found that is not registered. -/
theorem query_isIn_matchesResource_agree (history : List Edit) (roster : Roster)
    (reports : List Telemetry) (s : Selection) :
    let c := replay history
    let r : Router Catalog := ⟨c, roster, reports⟩
    ∃ found told, (Router.query lookup s).run r = (.ok found, ⟨c, roster, told⟩) ∧
      (∀ id ∈ found, c.isRegistered id = true) ∧
      ∀ id a, c.attributes? id = some a →
        ∃ answer, (Router.isIn lookup id s).run r = (.ok answer, r) ∧
          (id ∈ found ↔ answer = true) ∧ (answer = true ↔ s.matchesResource id a = true) ∧
          (s.matchesResource id a = true ↔ s.Describes (a.Passes id)) := by
  intro c r
  have hc : c.Consistent := consistent_replay history
  obtain ⟨found, hfound, hmem⟩ := hc.found_evaluate s
  refine ⟨found, _, run_query hfound roster reports, fun id hid => ?_, fun id a ha => ?_⟩
  · exact mem_ids_iff_isRegistered.1 ((hmem id).1 hid).mem_ids
  · refine ⟨_, run_isIn s id r, ?_, ?_, s.matchesResource_iff id a⟩
    · rw [hmem, meets_iff ha, hc.holds_contains_iff ha]
    · rw [hc.holds_contains_iff ha, s.matchesResource_iff]

/-- A lamp in the kitchen is found as a thing in the house, by every way to ask. -/
theorem query_isIn_agree_on_lamp :
    let c := replay [.register ⟨"lamp", "light", ∅⟩, .join "lamp" "House/Kitchen"]
    let r : Router Catalog := ⟨c, .empty, []⟩
    let s : Selection := .and [.check (.equals .group "House"), .not (.or [])]
    let a : Attributes := ⟨"light", ∅, StringSet.ofList ["House/Kitchen"]⟩
    c.attributes? "lamp" = some a ∧ s.matchesResource "lamp" a = true ∧
      (Router.isIn lookup "lamp" s).run r = (.ok true, r) ∧
      ∃ found told, (Router.query lookup s).run r = (.ok found, ⟨c, .empty, told⟩) ∧
        "lamp" ∈ found ∧ c.isRegistered "lamp" = true := by
  intro c r s a
  have ha : c.attributes? "lamp" = some a := by decide +kernel
  have hmatches : s.matchesResource "lamp" a = true := by decide +kernel
  obtain ⟨found, told, hquery, hregistered, hagree⟩ :=
    query_isIn_matchesResource_agree
      [.register ⟨"lamp", "light", ∅⟩, .join "lamp" "House/Kitchen"] .empty [] s
  obtain ⟨answer, hisIn, hfound, hanswer, -⟩ := hagree "lamp" a ha
  obtain rfl : answer = true := hanswer.2 hmatches
  have hmem : "lamp" ∈ found := hfound.2 rfl
  exact ⟨ha, hmatches, hisIn, found, told, hquery, hmem, hregistered "lamp" hmem⟩

end Catalog

end ResourceRouting
