import ResourceRouting.Proofs.Catalog.Agreement
import ResourceRouting.Proofs.Subscription.Audience

/-!
# Dispatch finds whom queries would find

A dispatch looks a resource up once and then matches every subscription against what it learnt,
without asking for keys or evaluating selections.

**Theorem (`dispatch_exact`).** The subscribers that hear of an event are those with a live
subscription whose pattern fits the event and whose selection, put as a query over all resources,
answers the resource. The candidates are all live subscriptions whose pattern fits. Neither depends
on the order in which the subscriptions are looked at, and the attributes of the resource are all
that is looked up.

The bridge between the two sides is the meaning of a selection: matching decides it from the
attributes, and a query answers the registered resources that meet it (`wants_iff`).
-/

namespace ResourceRouting

/-! ## Live subscriptions -/

namespace Roster

theorem values_eq_map_snd {α β : Type} {cmp : α → α → Ordering} [Std.TransCmp cmp]
    (m : Std.ExtTreeMap α β cmp) : m.values = m.toList.map Prod.snd := by
  obtain ⟨⟨q⟩⟩ := m
  induction q using Quotient.inductionOn with
  | _ d =>
    show d.inner.values = (Std.DTreeMap.Internal.Impl.Const.toList d.inner).map Prod.snd
    rw [Std.DTreeMap.Internal.Impl.values_eq_map_snd,
      Std.DTreeMap.Internal.Impl.Const.toList_eq_toListModel_map, List.map_map]
    rfl

theorem mem_toList_iff (r : Roster) (s : Subscription) :
    s ∈ r.toList ↔ ∃ h, r.find? h = some s := by
  rw [toList, values_eq_map_snd, List.mem_map]
  simp [find?, Std.ExtTreeMap.mem_toList_iff_getElem?_eq_some]

end Roster

/-! ## One lookup -/

section Run

variable {σ : Type} {L : Lookup σ} {source source' : σ} {id : String} {a : Option Attributes}

theorem Lookup.run_recorded_attributes (h : (L.attributes id).run source = (.ok a, source'))
    (calls : List Call) :
    (L.recorded.attributes id).run ⟨source, calls⟩ =
      (.ok a, ⟨source', calls ++ [.attributes id]⟩) := by
  show (((L.attributes id).run source).1,
    (⟨((L.attributes id).run source).2, calls ++ [.attributes id]⟩ : Recorded σ)) = _
  rw [h]

/-- What listeners are told of a dispatch. -/
def Router.told (id event : String) (found : Audience) : List Telemetry :=
  let report : DispatchReport := ⟨id, event, found.candidates, found.subscribers.size⟩
  [.dispatch report, .phases report]

theorem Router.run_dispatch (h : (L.attributes id).run source = (.ok a, source')) (event : String)
    (roster : Roster) (reports : List Telemetry) :
    (Router.dispatch L id event).run ⟨source, roster, reports⟩ =
      (.ok (Audience.ofEvent roster id event a).subscribers,
        ⟨source', roster, reports ++ told id event (Audience.ofEvent roster id event a)⟩) := by
  rw [Router.dispatch, Access.run_bind_of_ok (Router.run_ask h roster reports)]
  rfl

theorem Router.run_dispatch_of_error {e : Error}
    (h : (L.attributes id).run source = (.error e, source')) (event : String) (roster : Roster)
    (reports : List Telemetry) : (Router.dispatch L id event).run ⟨source, roster, reports⟩ =
      (.error e, ⟨source', roster, reports⟩) := by
  rw [Router.dispatch, Access.run_bind_of_error (Router.run_ask h roster reports)]

end Run

/-! ## Matching and queries -/

namespace Catalog

variable {c : Catalog} {id : String}

/-- Whether a query over the catalog answers a resource. -/
def Answers (c : Catalog) (s : Selection) (id : String) : Prop :=
  ∃ found r, (Router.query lookup s).run (.ofSource c) = (.ok found, r) ∧ id ∈ found

theorem Consistent.answers_iff (h : c.Consistent) (s : Selection) :
    c.Answers s id ↔ c.Meets s id := by
  obtain ⟨found, hfound, hmem⟩ := h.found_evaluate s
  have hquery := run_query hfound .empty []
  constructor
  · intro hanswers
    obtain ⟨found', r, hquery', hid⟩ := hanswers
    have hsame := congrArg Prod.fst (hquery'.symm.trans hquery)
    obtain rfl : found' = found := Except.ok.inj hsame
    exact (hmem id).1 hid
  · intro hmeets
    exact ⟨found, _, hquery, (hmem id).2 hmeets⟩

/-- A subscription wants an event of a resource when its pattern fits and a query with its selection
answers the resource. -/
theorem Consistent.wants_iff (h : c.Consistent) {a : Attributes} (ha : c.attributes? id = some a)
    (s : Subscription) (event : String) :
    s.wants (.ofAttributes id a) event = true ↔
      s.event.Fits event ∧ c.Answers s.selection id := by
  rw [Subscription.wants, Bool.and_eq_true, EventPattern.covers_iff_fits, h.answers_iff,
    meets_iff ha, ← Selection.matchesResource_iff]
  rfl

end Catalog

/-! ## Exactness -/

theorem StringSet.nodup_toList (names : StringSet) : names.toList.Nodup :=
  Std.ExtTreeSet.distinct_toList.imp fun hne heq => hne (Std.LawfulEqCmp.compare_eq_iff_eq.2 heq)

namespace Audience

/-- The audience that is found when the subscriptions are looked at in some order. -/
def inOrder (order : List Subscription) (id event : String) : Option Attributes → Audience
  | none => empty
  | some a => among order (.ofAttributes id a) event

theorem ofEvent_eq_inOrder (roster : Roster) (id event : String) (a : Option Attributes) :
    ofEvent roster id event a = inOrder roster.toList id event a := by
  cases a <;> rfl

theorem size_ofEvent_le (roster : Roster) (id event : String) (a : Option Attributes) :
    (ofEvent roster id event a).subscribers.size ≤ (ofEvent roster id event a).candidates := by
  cases a with
  | none => exact Nat.le_refl 0
  | some a => exact size_among_le roster.toList _ event

theorem inOrder_perm {order order' : List Subscription} (h : order.Perm order') (id event : String)
    (a : Option Attributes) : inOrder order id event a = inOrder order' id event a := by
  cases a with
  | none => rfl
  | some a => exact among_perm h _ event

end Audience

namespace Catalog

variable {c : Catalog} {id : String}

/-- The subscribers in an audience have a live subscription that queries bear out. -/
theorem Consistent.mem_ofEvent_iff (h : c.Consistent) (roster : Roster) (event x : String) :
    x ∈ (Audience.ofEvent roster id event (c.attributes? id)).subscribers ↔
      c.isRegistered id = true ∧ ∃ k s, roster.find? k = some s ∧ s.subscriber = x ∧
        s.event.Fits event ∧ c.Answers s.selection id := by
  rw [isRegistered_eq_isSome]
  cases ha : c.attributes? id with
  | none => simp [Audience.ofEvent, Audience.empty]
  | some a =>
    rw [Audience.ofEvent, Audience.mem_among]
    simp only [h.wants_iff ha, roster.mem_toList_iff, Option.isSome_some, true_and]
    constructor
    · intro hx
      obtain ⟨s, ⟨k, hk⟩, hs⟩ := hx
      exact ⟨k, s, hk, hs⟩
    · intro hx
      obtain ⟨k, s, hk, hs⟩ := hx
      exact ⟨s, ⟨k, hk⟩, hs⟩

theorem candidates_ofEvent (c : Catalog) (roster : Roster) (id event : String) :
    (Audience.ofEvent roster id event (c.attributes? id)).candidates =
      if c.isRegistered id then (roster.toList.filter (·.event.Fits event)).length else 0 := by
  rw [isRegistered_eq_isSome]
  cases c.attributes? id with
  | none => rfl
  | some a =>
    rw [Audience.ofEvent, Audience.candidates_among, List.countP_eq_length_filter]
    simp [← EventPattern.covers_iff_fits]

/-- **A dispatch is exact.** Whatever lookup stands before the catalog of any history, if it gives
the attributes of the resource, then exactly those subscribers hear of the event that have a live
subscription with a fitting pattern and a selection whose query answers the resource. Each is
listed once. One call is made. -/
theorem dispatch_exact {σ : Type} (L : Lookup σ) {source source' : σ} (history : List Edit)
    (roster : Roster) (calls : List Call) (reports : List Telemetry) (id event : String)
    (hlookup : (L.attributes id).run source = (.ok ((replay history).attributes? id), source')) :
    let c := replay history
    ∃ candidates found,
      let report : DispatchReport := ⟨id, event, candidates, found.size⟩
      (Router.dispatch L.recorded id event).run ⟨⟨source, calls⟩, roster, reports⟩ =
          (.ok found, ⟨⟨source', calls ++ [.attributes id]⟩, roster,
            reports ++ [.dispatch report, .phases report]⟩) ∧
        (∀ x, x ∈ found ↔ c.isRegistered id = true ∧ ∃ k s, roster.find? k = some s ∧
          s.subscriber = x ∧ s.event.Fits event ∧ c.Answers s.selection id) ∧
        found.toList.Nodup ∧ (c.isRegistered id = false → found = ∅) ∧
        candidates = (if c.isRegistered id then
          (roster.toList.filter (·.event.Fits event)).length else 0) ∧
        ∀ order, order.Perm roster.toList →
          Audience.inOrder order id event (c.attributes? id) = ⟨candidates, found⟩ := by
  intro c
  have hc : c.Consistent := consistent_replay history
  refine ⟨_, _, Router.run_dispatch (Lookup.run_recorded_attributes hlookup calls) event roster
    reports, fun x => hc.mem_ofEvent_iff roster event x, ?_, fun hid => ?_,
    c.candidates_ofEvent roster id event, fun order horder => ?_⟩
  · exact StringSet.nodup_toList _
  · refine StringSet.ext fun x => ?_
    rw [hc.mem_ofEvent_iff roster event x, hid]
    simp
  · rw [Audience.inOrder_perm horder, ← Audience.ofEvent_eq_inOrder]

/-- A lookup that is about to fail still serves the dispatch, which calls it only once. -/
theorem dispatch_exact_of_lamp :
    let history : List Edit := [.register ⟨"lamp", "light", ∅⟩, .join "lamp" "House/Kitchen"]
    let L := lookup.failingAt (· == 2)
    let house : Selection := .check (.equals .group "House")
    let roster := Roster.empty.insert ⟨⟨7⟩, "anna", house, ⟨"state-", .leading⟩⟩
    (L.attributes "lamp").run ⟨replay history, 0⟩ =
        (.ok ((replay history).attributes? "lamp"), ⟨replay history, 1⟩) ∧
      ∃ found r, (Router.dispatch L.recorded "lamp" "state-on").run
          ⟨⟨⟨replay history, 0⟩, []⟩, roster, []⟩ = (.ok found, r) ∧
        r.source.calls = [.attributes "lamp"] ∧ "anna" ∈ found := by
  intro history L house roster
  have hlookup : (L.attributes "lamp").run ⟨replay history, 0⟩ =
      (.ok ((replay history).attributes? "lamp"), ⟨replay history, 1⟩) := rfl
  obtain ⟨_, found, hrun, hmem, -⟩ :=
    dispatch_exact L history roster [] [] "lamp" "state-on" hlookup
  have hlamp : (replay history).isRegistered "lamp" = true := by decide +kernel
  have hanswers : (replay history).Answers house "lamp" := ⟨_, _, rfl, by decide +kernel⟩
  have hanna : "anna" ∈ found :=
    (hmem "anna").2 ⟨hlamp, ⟨7⟩, _, rfl, rfl, ⟨"on", rfl⟩, hanswers⟩
  exact ⟨hlookup, found, _, hrun, rfl, hanna⟩

end Catalog

end ResourceRouting
