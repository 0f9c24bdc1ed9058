import ResourceRouting.Proofs.Catalog.Canonical
import ResourceRouting.Proofs.Catalog.KnownGroups
import ResourceRouting.Proofs.Catalog.Membership

/-!
# Changes of different resources commute

Two resources with the same type, in the same groups or with the same interfaces share postings, and
a change of one may remove a set of ids that a change of the other enters into. Still it makes no
difference which of the changes comes first.

**Changes of a resource** (`Edit.resource?`). A registration, a removal, and joining and leaving a
group are changes of the resource that they name. Such a change is local:

- it leaves the attributes of all others as they are (`attributes?_after_of_ne`), and with them the
  keys that they are under (`Consistent.contains_after_of_ne`, `Consistent.mem_select_after_of_ne`);
- what it answers, what it makes of the attributes of its resource and which groups it makes known
  depends on these attributes alone (`answer_congr`, `attributes?_after_congr`, `introduces_congr`).

So after two changes of different resources all attributes and the known groups are the same in
either order. They determine the catalog (`eq_of_attributes`).

Main result: `changes_of_others_commute`.
-/

namespace ResourceRouting

/-- The resource that a change is about, if it is about one. -/
def Edit.resource? : Edit → Option String
  | .register r => some r.id
  | .unregister id | .join id _ | .leave id _ => some id
  | .createGroup _ | .deleteGroup _ => none

namespace Edit

variable {e : Edit} {id : String}

theorem eq_of_resource? (h : e.resource? = some id) :
    (∃ r : Resource, r.id = id ∧ e = .register r) ∨ e = .unregister id ∨
      (∃ path, e = .join id path) ∨ ∃ path, e = .leave id path := by
  cases e with
  | register r => exact .inl ⟨r, Option.some.inj h, rfl⟩
  | unregister x =>
    obtain rfl := Option.some.inj h
    exact .inr (.inl rfl)
  | join x path =>
    obtain rfl := Option.some.inj h
    exact .inr (.inr (.inl ⟨path, rfl⟩))
  | leave x path =>
    obtain rfl := Option.some.inj h
    exact .inr (.inr (.inr ⟨path, rfl⟩))
  | createGroup path => cases h
  | deleteGroup path => cases h

theorem not_deletes_of_resource? (h : e.resource? = some id) (path : String) : ¬e.Deletes path := by
  rintro ⟨above, rfl, -⟩
  cases h

end Edit

namespace Catalog

variable {c c' : Catalog} {e f : Edit} {id x : String}

/-! ## Other resources -/

/-- **A change of a resource leaves the attributes of all others as they are.** -/
theorem attributes?_after_of_ne (he : e.resource? = some id) (hx : id ≠ x) :
    (c.after e).attributes? x = c.attributes? x := by
  obtain ⟨r, rfl, rfl⟩ | rfl | ⟨path, rfl⟩ | ⟨path, rfl⟩ := Edit.eq_of_resource? he
  · rw [after_register, attributes?_register, if_neg hx]
  · rw [after_unregister, attributes?_unregister, if_neg hx]
  · rw [after_join, attributes?_join, if_neg fun h => hx h.1]
  · rw [after_leave, attributes?_leave, if_neg hx]

theorem Consistent.mem_select_after_of_ne (hc : c.Consistent) (he : e.resource? = some id)
    (hx : id ≠ x) (key : Key) : x ∈ (c.after e).select key ↔ x ∈ c.select key := by
  rw [(hc.after e).mem_select_iff, hc.mem_select_iff, attributes?_after_of_ne he hx]

theorem Consistent.contains_after_of_ne (hc : c.Consistent) (he : e.resource? = some id)
    (hx : id ≠ x) (key : Key) : (c.after e).contains key x = c.contains key x := by
  rw [(hc.after e).contains_eq, hc.contains_eq, Bool.eq_iff_iff, Std.ExtTreeSet.contains_iff_mem,
    Std.ExtTreeSet.contains_iff_mem, hc.mem_select_after_of_ne he hx]

/-! ## The resource itself -/

theorem membershipsOf_congr (h : c.attributes? id = c'.attributes? id) :
    c.membershipsOf id = c'.membershipsOf id := by
  rw [membershipsOf, h, membershipsOf]

/-- **What a change of a resource answers depends on the attributes of the resource alone.** -/
theorem answer_congr (he : e.resource? = some id) (h : c.attributes? id = c'.attributes? id) :
    (c.apply e).1 = (c'.apply e).1 := by
  have hregistered : c.isRegistered id = c'.isRegistered id := by
    rw [isRegistered_eq_isSome, h, isRegistered_eq_isSome]
  have hmember : c.membershipsOf id = c'.membershipsOf id := membershipsOf_congr h
  obtain ⟨r, rfl, rfl⟩ | rfl | ⟨path, rfl⟩ | ⟨path, rfl⟩ := Edit.eq_of_resource? he
  · refine congrArg EditAnswer.flag ?_
    rw [register_answer, register_answer, hregistered]
  · refine congrArg EditAnswer.flag ?_
    rw [unregister_answer, unregister_answer, hregistered]
  · refine congrArg EditAnswer.flag (Bool.eq_iff_iff.2 ?_)
    rw [join_answer_iff, join_answer_iff, hregistered, hmember]
  · refine congrArg EditAnswer.flag (Bool.eq_iff_iff.2 ?_)
    rw [leave_answer_iff, leave_answer_iff, hmember]

theorem attributes?_after_congr (he : e.resource? = some id)
    (h : c.attributes? id = c'.attributes? id) :
    (c.after e).attributes? id = (c'.after e).attributes? id := by
  obtain ⟨r, rfl, rfl⟩ | rfl | ⟨path, rfl⟩ | ⟨path, rfl⟩ := Edit.eq_of_resource? he
  · simp [membershipsOf_congr h]
  · simp
  · simp [h]
  · simp [h]

theorem introduces_congr (he : e.resource? = some id) (h : c.attributes? id = c'.attributes? id)
    (path : String) : e.Introduces c path ↔ e.Introduces c' path := by
  unfold Edit.Introduces
  rw [answer_congr he h]

/-! ## Two resources -/

variable {a b : String}

/-- **Changes of different resources commute.** -/
theorem after_comm (hc : c.Consistent) (ht : c.Tidy) (hab : a ≠ b) (he : e.resource? = some a)
    (hf : f.resource? = some b) : (c.after e).after f = (c.after f).after e := by
  have hfirst : (c.after f).attributes? a = c.attributes? a := attributes?_after_of_ne hf hab.symm
  have hsecond : (c.after e).attributes? b = c.attributes? b := attributes?_after_of_ne he hab
  refine eq_of_attributes ((hc.after e).after f) ((hc.after f).after e) ((ht.after e).after f)
    ((ht.after f).after e) (fun x => ?_) (StringSet.ext fun path => ?_)
  · by_cases hxa : a = x
    · subst hxa
      rw [attributes?_after_of_ne hf hab.symm, attributes?_after_congr he hfirst]
    · by_cases hxb : b = x
      · subst hxb
        rw [attributes?_after_of_ne he hab, attributes?_after_congr hf hsecond]
      · rw [attributes?_after_of_ne hf hxb, attributes?_after_of_ne he hxa,
          attributes?_after_of_ne he hxa, attributes?_after_of_ne hf hxb]
  · -- Neither change deletes a group, so each of them only adds those that it makes known.
    rw [mem_knownGroups_after, mem_knownGroups_after, mem_knownGroups_after, mem_knownGroups_after,
      introduces_congr he hfirst, introduces_congr hf hsecond]
    simp only [Edit.not_deletes_of_resource? he, Edit.not_deletes_of_resource? hf,
      not_false_eq_true, and_true]
    exact or_left_comm

/-- **After any history, changes of two different resources commute.** Each answers what it would
without the other, and the catalogs that they lead to are the same, and so is all that they are
asked. A change of one resource leaves the attributes of the other and the keys that it is under as
they were. -/
theorem changes_of_others_commute (history : List Edit) {a b : String} (hab : a ≠ b) {e f : Edit}
    (he : e.resource? = some a) (hf : f.resource? = some b) :
    let c := replay history
    ((c.after f).apply e).1 = (c.apply e).1 ∧ ((c.after e).apply f).1 = (c.apply f).1 ∧
      (c.after e).after f = (c.after f).after e ∧ (c.after e).attributes? b = c.attributes? b ∧
      ∀ key, (c.after e).contains key b = c.contains key b ∧
        (b ∈ (c.after e).select key ↔ b ∈ c.select key) := by
  intro c
  have hc : c.Consistent := consistent_replay history
  have hsecond : (c.after e).attributes? b = c.attributes? b := attributes?_after_of_ne he hab
  refine ⟨answer_congr he (attributes?_after_of_ne hf hab.symm), answer_congr hf hsecond,
    after_comm hc (tidy_replay history) hab he hf, hsecond, fun key =>
    ⟨hc.contains_after_of_ne he hab key, hc.mem_select_after_of_ne he hab key⟩⟩

/-- A lamp is removed and a bulb joins its group. Whichever comes first, the bulb is in the house
alone. -/
theorem changes_commute_of_lamp_and_bulb :
    let history : List Edit := [.register ⟨"lamp", "light", ∅⟩, .register ⟨"bulb", "light", ∅⟩,
      .join "lamp" "House/Kitchen"]
    let c := replay history
    let e : Edit := .unregister "lamp"
    let f : Edit := .join "bulb" "House/Kitchen"
    let house : Key := .check (.equals .group "House")
    "lamp" ≠ "bulb" ∧ e.resource? = some "lamp" ∧ f.resource? = some "bulb" ∧
      ((c.after f).apply e).1 = .flag true ∧ ((c.after e).apply f).1 = .flag true ∧
      ((c.after e).after f).select house = ((c.after f).after e).select house ∧
      ((c.after e).after f).select house = {"bulb"} ∧
      (c.after e).contains (.check (.equals .type "light")) "bulb" = true := by
  intro history c e f house
  have hne : "lamp" ≠ "bulb" := by decide
  obtain ⟨hfirst, hsecond, hcomm, -, hkeys⟩ :=
    changes_of_others_commute history hne (rfl : e.resource? = some "lamp")
      (rfl : f.resource? = some "bulb")
  refine ⟨hne, rfl, rfl, hfirst.trans (by decide +kernel), hsecond.trans (by decide +kernel),
    by rw [hcomm], by decide +kernel, (hkeys _).1.trans (by decide +kernel)⟩

end Catalog

end ResourceRouting
