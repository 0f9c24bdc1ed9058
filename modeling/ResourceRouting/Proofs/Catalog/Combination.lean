import ResourceRouting.Proofs.Catalog.Agreement
import ResourceRouting.Proofs.Selection.Accepted

/-!
# Queries with combined texts

**Theorem (`queryText_combined`).** Texts that are accepted can be put in parentheses, joined and
negated, and what is read is the selection of the one, the node over both, or the negation. So in
the catalog after any history such a text finds what the parts find: their intersection, their
union, or all other registered resources.

The parts are any texts, not only rendered ones, so this stands on two facts of different kind. In
parentheses a text stays one factor (`Selection.stands_parens`), and what a selection finds depends
on nothing but which resources meet it (`Catalog.Consistent.findsByText`).
-/

namespace ResourceRouting.Catalog

variable {c : Catalog} {text text' : String} {s t : Selection} {found : StringSet}

/-- A query with the text finds these resources, whoever has subscribed and whatever was reported
before. It changes nothing in the catalog and in the roster. -/
def FindsByText (c : Catalog) (text : String) (found : StringSet) : Prop :=
  ∀ roster reports, ∃ told, (Router.queryText lookup text).run ⟨c, roster, reports⟩ =
    (.ok found, ⟨c, roster, told⟩)

theorem FindsByText.eq_ofList {names : List String} (h : c.FindsByText text found)
    (hrun : ((Router.queryText lookup text).run (.ofSource c)).1.map (·.toList) = .ok names) :
    found = StringSet.ofList names := by
  obtain ⟨told, htold⟩ := h .empty []
  rw [Router.ofSource, htold] at hrun
  obtain rfl : found.toList = names := Except.ok.inj hrun
  refine StringSet.ext fun id => ?_
  rw [StringSet.mem_ofList, Std.ExtTreeSet.mem_toList]

/-- **A text finds the resources that meet its selection.** -/
theorem Consistent.findsByText (hc : c.Consistent) (h : Selection.ofString text = .ok s)
    (hmem : ∀ id, id ∈ found ↔ c.Meets s id) : c.FindsByText text found := by
  intro roster reports
  obtain ⟨found', hfound, hmem'⟩ := hc.found_evaluate s
  obtain rfl : found' = found := StringSet.ext fun id => by rw [hmem, hmem']
  refine ⟨reports ++ [.query ⟨s.normalized, found'.size⟩], ?_⟩
  rw [Router.queryText, h]
  exact run_query hfound roster reports

/-- **Texts in parentheses are combined as what they spell, and as what they find.** In the catalog
after any history the conjunction of two texts finds what both find, their disjunction what one of
them finds, and the negation of a text all registered resources that it does not find. -/
theorem queryText_combined (hs : Selection.ofString text = .ok s)
    (ht : Selection.ofString text' = .ok t) :
    Selection.ofString ("(" ++ text ++ ")") = .ok s ∧
      Selection.ofString ("(" ++ text ++ ") and (" ++ text' ++ ")") = .ok (.and [s, t]) ∧
      Selection.ofString ("(" ++ text ++ ") or (" ++ text' ++ ")") = .ok (.or [s, t]) ∧
      Selection.ofString ("not (" ++ text ++ ")") = .ok (.not s) ∧
      ∀ history, let c := replay history
        (∀ id, id ∈ c.ids ↔ c.isRegistered id = true) ∧
        ∃ found found', c.FindsByText text found ∧ c.FindsByText text' found' ∧
          c.FindsByText ("(" ++ text ++ ")") found ∧
          c.FindsByText ("(" ++ text ++ ") and (" ++ text' ++ ")") (found ∩ found') ∧
          c.FindsByText ("(" ++ text ++ ") or (" ++ text' ++ ")") (found ∪ found') ∧
          c.FindsByText ("not (" ++ text ++ ")") (c.ids \ found) := by
  have hparens := Selection.ofString_parens hs
  have hand := Selection.ofString_join_parens .and hs ht
  have hor := Selection.ofString_join_parens .or hs ht
  have hnot := Selection.ofString_not_parens hs
  refine ⟨hparens, hand, hor, hnot, fun history => ?_⟩
  intro c
  have hc : c.Consistent := consistent_replay history
  obtain ⟨found, -, hmem⟩ := hc.found_evaluate s
  obtain ⟨found', -, hmem'⟩ := hc.found_evaluate t
  refine ⟨fun id => mem_ids_iff_isRegistered, found, found', hc.findsByText hs hmem,
    hc.findsByText ht hmem', hc.findsByText hparens hmem, hc.findsByText hand fun id => ?_,
    hc.findsByText hor fun id => ?_, hc.findsByText hnot fun id => ?_⟩
  · rw [StringSet.mem_inter, meets_and_cons, List.forall_mem_singleton, hmem, hmem']
  · rw [StringSet.mem_union, meets_or, hmem, hmem']
    simp
  · rw [StringSet.mem_sdiff, meets_not, hmem]

/-- An `or` inside the first text does not reach behind its parenthesis, and a negation in front
of the parenthesis is one of all that is inside. -/
theorem queryText_combined_of_lamps :
    let history : List Edit := [.register ⟨"lamp", "light", ∅⟩, .register ⟨"bulb", "light", ∅⟩,
      .register ⟨"door", "sensor", ∅⟩, .join "lamp" "House/Kitchen"]
    let c := replay history
    let first := " id = \"door\"or group=\"House\""
    let second := "not type=\"sensor\" "
    let s : Selection := .or [.check (.equals .id "door"), .check (.equals .group "House")]
    let t : Selection := .not (.check (.equals .type "sensor"))
    Selection.ofString first = .ok s ∧ Selection.ofString second = .ok t ∧
      Selection.ofString ("(" ++ first ++ ") and (" ++ second ++ ")") = .ok (.and [s, t]) ∧
      c.FindsByText ("(" ++ first ++ ") and (" ++ second ++ ")") (StringSet.ofList ["lamp"]) ∧
      c.FindsByText ("not (" ++ first ++ ")") (StringSet.ofList ["bulb"]) := by
  intro history c first second s t
  have hs : Selection.ofString first = .ok s := by decide +kernel
  have ht : Selection.ofString second = .ok t := by decide +kernel
  obtain ⟨-, hand, -, -, hhistory⟩ := queryText_combined hs ht
  obtain ⟨-, found, found', hfirst, hsecond, -, hboth, -, hnot⟩ := hhistory history
  have hfound : found = StringSet.ofList ["door", "lamp"] :=
    hfirst.eq_ofList (by decide +kernel)
  have hfound' : found' = StringSet.ofList ["bulb", "lamp"] :=
    hsecond.eq_ofList (by decide +kernel)
  have hinter : found ∩ found' = StringSet.ofList ["lamp"] := by
    rw [hfound, hfound']
    decide +kernel
  have hothers : c.ids \ found = StringSet.ofList ["bulb"] := by
    rw [hfound]
    decide +kernel
  exact ⟨hs, ht, hand, hinter ▸ hboth, hothers ▸ hnot⟩

end ResourceRouting.Catalog
