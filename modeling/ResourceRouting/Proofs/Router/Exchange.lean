import ResourceRouting.Proofs.Router.Dispatch
import ResourceRouting.Proofs.Selection.Equivalence

/-!
# Equivalent selections are interchangeable

**Theorem (`isEquivalent_interchangeable`).** Equivalent selections match the same resources, answer
every query alike, are asked for a registered resource with the same answer, and may stand for each
other in any subscriptions without a dispatch being changed. Listeners are told the same, too.

Equivalence is a matter of texts, and it becomes one of meaning by reading them: flattening and
rereading both keep the meaning, and selections with one text are reread as one. An id that is not
registered has no properties at all, so there a node without operands would not mean what its text
does. This is why a question about one resource is about a registered one.
-/

namespace ResourceRouting

/-! ## One meaning -/

namespace Selection

variable {s t : Selection}

/-- **Equivalent selections have one truth value**, where everything has an id. -/
theorem holds_eq_of_isEquivalent (h : s.isEquivalent t = true) {truth : Check → Bool}
    (hid : truth (.present .id) = true) : s.holds truth = t.holds truth := by
  have htext : s.flatten.render = t.flatten.render := by
    rw [← normalized_eq_render_flatten, ← normalized_eq_render_flatten]
    exact isEquivalent_iff_normalized_eq.1 h
  calc s.holds truth
      = s.flatten.reread.holds truth := by rw [holds_reread hid, holds_flatten hid]
    _ = t.flatten.reread.holds truth := by rw [reread_eq_of_render_eq htext]
    _ = t.holds truth := by rw [holds_reread hid, holds_flatten hid]

theorem admits_eq_of_isEquivalent (h : s.isEquivalent t = true) (r : Profile) :
    s.admits r = t.admits r :=
  holds_eq_of_isEquivalent h rfl

end Selection

/-! ## Exchanging selections of subscriptions -/

/-- The subscription with `t` for its selection, if it is a chosen one and its selection is `s`. -/
def Subscription.exchange (chosen : Subscription → Bool) (s t : Selection) (wish : Subscription) :
    Subscription :=
  if chosen wish ∧ wish.selection = s then { wish with selection := t } else wish

/-- The roster with `t` in place of `s` as the selection of chosen subscriptions. -/
def Roster.exchange (r : Roster) (chosen : Subscription → Bool) (s t : Selection) : Roster :=
  { r with byHandle := r.byHandle.map fun _ wish => wish.exchange chosen s t }

theorem Roster.toList_exchange (r : Roster) (chosen : Subscription → Bool) (s t : Selection) :
    (r.exchange chosen s t).toList = r.toList.map (Subscription.exchange chosen s t) := by
  rw [toList, toList, values_eq_map_snd, values_eq_map_snd, exchange, Std.ExtTreeMap.toList_map,
    List.map_map, List.map_map]
  rfl

namespace Audience

variable {s t : Selection}

theorem consider_exchange (h : s.isEquivalent t = true) (chosen : Subscription → Bool)
    (resource : Profile) (event : String) (found : Audience) (wish : Subscription) :
    consider resource event found (wish.exchange chosen s t) =
      consider resource event found wish := by
  unfold Subscription.exchange
  split
  · rename_i hchosen
    rw [consider, consider, hchosen.2, Selection.admits_eq_of_isEquivalent h]
  · rfl

theorem ofEvent_exchange (h : s.isEquivalent t = true) (chosen : Subscription → Bool)
    (roster : Roster) (id event : String) (a : Option Attributes) :
    ofEvent (roster.exchange chosen s t) id event a = ofEvent roster id event a := by
  cases a with
  | none => rfl
  | some a =>
    rw [ofEvent, ofEvent, Roster.toList_exchange, among, among, List.foldl_map]
    congr 1
    funext found wish
    exact consider_exchange h chosen _ event found wish

end Audience

namespace Catalog

variable {c : Catalog} {s t : Selection}

theorem Meets.congr (h : s.isEquivalent t = true) (id : String) : c.Meets s id ↔ c.Meets t id := by
  refine exists_congr fun a => and_congr_right fun _ => ?_
  rw [← s.matchesResource_iff, ← t.matchesResource_iff, Selection.matchesResource,
    Selection.matchesResource, Selection.admits_eq_of_isEquivalent h]

/-- **Equivalent selections are answered alike**, with the same reports. -/
theorem Consistent.run_query_congr (hc : c.Consistent) (h : s.isEquivalent t = true)
    (roster : Roster) (reports : List Telemetry) :
    ∃ found told, (Router.query lookup s).run ⟨c, roster, reports⟩ =
        (.ok found, ⟨c, roster, told⟩) ∧
      (Router.query lookup t).run ⟨c, roster, reports⟩ = (.ok found, ⟨c, roster, told⟩) :=
  hc.run_query_of_meets (fun id => Meets.congr h id) (Selection.isEquivalent_iff_normalized_eq.1 h)
    roster reports

theorem run_isIn_congr (h : s.isEquivalent t = true) {id : String} (r : Router Catalog)
    (hid : r.source.isRegistered id = true) :
    ∃ answer, (Router.isIn lookup id s).run r = (.ok answer, r) ∧
      (Router.isIn lookup id t).run r = (.ok answer, r) := by
  obtain ⟨a, ha⟩ := (contains_iff_exists _ id).1 hid
  have hpresent : r.source.contains (.check (.present .id)) id = true := by
    rw [contains, ha]
    rfl
  refine ⟨_, run_isIn s id r, ?_⟩
  rw [run_isIn, Selection.holds_eq_of_isEquivalent h hpresent]

theorem run_dispatch_exchange (h : s.isEquivalent t = true) (chosen : Subscription → Bool)
    (id event : String) (roster : Roster) (reports : List Telemetry) :
    ∃ found told, (Router.dispatch lookup id event).run ⟨c, roster, reports⟩ =
        (.ok found, ⟨c, roster, told⟩) ∧
      (Router.dispatch lookup id event).run ⟨c, roster.exchange chosen s t, reports⟩ =
        (.ok found, ⟨c, roster.exchange chosen s t, told⟩) := by
  have hlookup : (lookup.attributes id).run c = (.ok (c.attributes? id), c) := rfl
  refine ⟨_, _, Router.run_dispatch hlookup event roster reports, ?_⟩
  rw [Router.run_dispatch hlookup, Audience.ofEvent_exchange h]

/-- **Exchanging a selection for an equivalent one never changes a result**: not of matching, and in
the catalog after any history not of a query, of a question about a registered resource, or of a
dispatch. -/
theorem isEquivalent_interchangeable (h : s.isEquivalent t = true) :
    (∀ id a, s.matchesResource id a = t.matchesResource id a) ∧
      ∀ history roster reports,
        let c := replay history
        let r : Router Catalog := ⟨c, roster, reports⟩
        (∃ found told, (Router.query lookup s).run r = (.ok found, ⟨c, roster, told⟩) ∧
            (Router.query lookup t).run r = (.ok found, ⟨c, roster, told⟩)) ∧
          (∀ id, c.isRegistered id = true →
            ∃ answer, (Router.isIn lookup id s).run r = (.ok answer, r) ∧
              (Router.isIn lookup id t).run r = (.ok answer, r)) ∧
          ∀ chosen id event, ∃ found told,
            (Router.dispatch lookup id event).run r = (.ok found, ⟨c, roster, told⟩) ∧
              (Router.dispatch lookup id event).run ⟨c, roster.exchange chosen s t, reports⟩ =
                (.ok found, ⟨c, roster.exchange chosen s t, told⟩) := by
  refine ⟨fun id a => Selection.admits_eq_of_isEquivalent h _, fun history roster reports => ?_⟩
  intro c r
  have hc : c.Consistent := consistent_replay history
  refine ⟨hc.run_query_congr h roster reports, fun id hid => run_isIn_congr h r hid, ?_⟩
  intro chosen id event
  exact run_dispatch_exchange h chosen id event roster reports

/-- A lamp may be asked for by its type and its place in either order. -/
theorem isEquivalent_interchangeable_of_lamp :
    let light : Selection := .check (.equals .type "light")
    let house : Selection := .check (.equals .group "House")
    let s : Selection := .and [light, .or [house]]
    let t : Selection := .and [house, light]
    let c := replay [.register ⟨"lamp", "light", ∅⟩, .join "lamp" "House/Kitchen"]
    s.isEquivalent t = true ∧ c.isRegistered "lamp" = true ∧
      ∃ answer, (Router.isIn lookup "lamp" s).run (.ofSource c) = (.ok answer, .ofSource c) ∧
        (Router.isIn lookup "lamp" t).run (.ofSource c) = (.ok answer, .ofSource c) := by
  intro light house s t c
  have hreordered : Selection.Reordered s.flatten t.flatten :=
    .join (.swap ..) (.cons (.check _) (.cons (.check _) .nil))
  have h : s.isEquivalent t = true := Selection.isEquivalent_iff_reordered.2 hreordered
  have hlamp : c.isRegistered "lamp" = true := by decide +kernel
  obtain ⟨-, hrun⟩ := isEquivalent_interchangeable h
  obtain ⟨-, hisIn, -⟩ :=
    hrun [.register ⟨"lamp", "light", ∅⟩, .join "lamp" "House/Kitchen"] .empty []
  exact ⟨h, hlamp, hisIn "lamp" hlamp⟩

end Catalog

end ResourceRouting
