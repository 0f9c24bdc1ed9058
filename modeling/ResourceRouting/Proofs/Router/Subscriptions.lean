import ResourceRouting.Router
import ResourceRouting.Proofs.History
import ResourceRouting.Proofs.Subscription.Roster

/-!
# Subscriptions follow the requests

**Requests** (`Request`). To subscribe under a given handle, to end one subscription, or to end all
of a subscriber. A request to subscribe enters nothing when its selection cannot be read.

**Live subscriptions** (`Request.Live`). A subscription is live when some request entered it and no
later one ended it, that is, was made by its subscriber for its handle or for all.

**Theorem (`subscriptions_follow_requests`).** After any requests that enter subscriptions under
different handles, the live subscriptions are those found by handle, and they are those listed for
their subscribers, each once. The requests to end subscriptions answer what they end and end nothing
else.

The proof keeps two facts from request to request (`Follows`): the roster is paired, and under a
handle is the live subscription with that handle. As handles differ, nothing is found under the one
that comes next.
-/

namespace ResourceRouting

/-- What may be asked of the roster of subscriptions. -/
inductive Request where
  | subscribe (handle : Handle) (subscriber selection : String) (event : EventPattern)
  | unsubscribe (subscriber : String) (handle : Handle)
  | unsubscribeAll (subscriber : String)
  deriving DecidableEq

namespace Request

/-- The subscription that a request enters. -/
def entered? : Request → Option Subscription
  | .subscribe handle subscriber selection event =>
    match Selection.ofString selection with
    | .ok s => some ⟨handle, subscriber, s, event⟩
    | .error _ => none
  | .unsubscribe .. | .unsubscribeAll _ => none

/-- The handles under which subscriptions are entered. -/
def handles (requests : List Request) : List Handle := (requests.filterMap entered?).map (·.handle)

/-- Whether a request ends a subscription. -/
def Ends (s : Subscription) (q : Request) : Prop :=
  q = .unsubscribe s.subscriber s.handle ∨ q = .unsubscribeAll s.subscriber

/-- Some request entered the subscription and no later one ended it. -/
def Live (requests : List Request) (s : Subscription) : Prop :=
  Remains (fun _ q => q.entered? = some s) (Ends s) requests

section

variable {requests : List Request} {q : Request} {s : Subscription} {x text : String} {k : Handle}
  {event : EventPattern}

theorem entered?_of_ok {read : Selection} (h : Selection.ofString text = .ok read) :
    entered? (.subscribe k x text event) = some ⟨k, x, read, event⟩ := by
  simp only [entered?, h]

theorem entered?_of_error {e : Error} (h : Selection.ofString text = .error e) :
    entered? (.subscribe k x text event) = none := by
  simp only [entered?, h]

@[simp] theorem not_ends_subscribe : ¬Ends s (.subscribe k x text event) := by simp [Ends]

@[simp] theorem ends_unsubscribe : Ends s (.unsubscribe x k) ↔ s.subscriber = x ∧ s.handle = k := by
  simp [Ends, eq_comm]

@[simp] theorem ends_unsubscribeAll : Ends s (.unsubscribeAll x) ↔ s.subscriber = x := by
  simp [Ends, eq_comm]

theorem not_live_nil : ¬Live [] s := not_remains_nil

theorem live_concat :
    Live (requests ++ [q]) s ↔ q.entered? = some s ∨ (Live requests s ∧ ¬q.Ends s) := remains_concat

theorem Live.handle_mem (h : Live requests s) : s.handle ∈ handles requests := by
  obtain ⟨before, q, after, rfl, hq, -⟩ := h
  exact List.mem_map_of_mem (List.mem_filterMap.2 ⟨q, by simp, hq⟩)

theorem handles_concat (requests : List Request) (q : Request) :
    handles (requests ++ [q]) = handles requests ++ (q.entered?.map (·.handle)).toList := by
  rw [handles, List.filterMap_append, List.map_append]
  cases hq : q.entered? <;> simp [handles, hq]

end

end Request

namespace Router

variable {σ : Type}

/-- The state after one request. -/
def serve (r : Router σ) : Request → Router σ
  | .subscribe handle subscriber selection event =>
    ((subscribe handle subscriber selection event).run r).2
  | .unsubscribe subscriber handle => ((unsubscribe subscriber handle).run r).2
  | .unsubscribeAll subscriber => ((unsubscribeAll subscriber).run r).2

/-- The state after some requests in order. -/
def serveAll (r : Router σ) (requests : List Request) : Router σ := requests.foldl serve r

theorem serveAll_concat (r : Router σ) (requests : List Request) (q : Request) :
    r.serveAll (requests ++ [q]) = (r.serveAll requests).serve q := by
  rw [serveAll, List.foldl_append]
  rfl

/-! ## One request -/

section Serve

variable {r : Router σ} {q : Request} {k : Handle} {s : Subscription} {x text : String}
  {event : EventPattern} {read : Selection} {e : Error}

theorem run_subscribe_of_ok (h : Selection.ofString text = .ok read) :
    (subscribe k x text event).run r =
      (.ok (), { r with roster := r.roster.insert ⟨k, x, read, event⟩ }) := by
  rw [subscribe, h]
  rfl

theorem run_subscribe_of_error (h : Selection.ofString text = .error e) :
    (subscribe k x text event).run r = (.error e, r) := by
  rw [subscribe, h]
  rfl

theorem exists_run_subscribe_ok_iff :
    (∃ r', (subscribe k x text event).run r = (.ok (), r')) ↔
      (Request.subscribe k x text event).entered?.isSome = true := by
  cases htext : Selection.ofString text with
  | ok read =>
    rw [Request.entered?_of_ok htext]
    exact iff_of_true ⟨_, run_subscribe_of_ok htext⟩ rfl
  | error e =>
    rw [Request.entered?_of_error htext]
    refine iff_of_false (fun h => ?_) Bool.false_ne_true
    obtain ⟨r', hr'⟩ := h
    cases (run_subscribe_of_error htext).symm.trans hr'

theorem run_unsubscribe (r : Router σ) (x : String) (k : Handle) :
    (unsubscribe x k).run r =
      (.ok (r.roster.remove x k).1, { r with roster := (r.roster.remove x k).2 }) := rfl

theorem run_unsubscribeAll (r : Router σ) (x : String) :
    (unsubscribeAll x).run r =
      (.ok (r.roster.ofSubscriber x), { r with roster := (r.roster.removeAll x).2 }) := rfl

theorem paired_serve (hr : r.roster.Paired)
    (hfree : ∀ s, q.entered? = some s → r.roster.find? s.handle = none) :
    (r.serve q).roster.Paired := by
  cases q with
  | subscribe k x text event =>
    cases htext : Selection.ofString text with
    | ok read =>
      rw [serve, run_subscribe_of_ok htext]
      exact hr.insert (hfree _ (Request.entered?_of_ok htext))
    | error e =>
      rw [serve, run_subscribe_of_error htext]
      exact hr
  | unsubscribe x k => exact hr.remove x k
  | unsubscribeAll x => exact hr.removeAll x

/-- After one more request a subscription is found if the request enters it, or if it was found
before and the request does not end it. -/
theorem find?_serve (hr : r.roster.Paired)
    (hfree : ∀ s, q.entered? = some s → r.roster.find? s.handle = none) :
    (r.serve q).roster.find? k = some s ↔
      (s.handle = k ∧ q.entered? = some s) ∨ (r.roster.find? k = some s ∧ ¬q.Ends s) := by
  cases q with
  | subscribe k' x text event =>
    cases htext : Selection.ofString text with
    | ok read =>
      have hnone : r.roster.find? k' = none := hfree _ (Request.entered?_of_ok htext)
      rw [serve, run_subscribe_of_ok htext, Request.entered?_of_ok htext]
      show (r.roster.insert ⟨k', x, read, event⟩).find? k = some s ↔ _
      rw [Roster.find?_insert, Option.some_inj]
      by_cases hk : k' = k
      · subst hk
        simp only [if_true, Option.some_inj, hnone, reduceCtorEq, false_and, or_false]
        exact ⟨fun h => ⟨h ▸ rfl, h⟩, And.right⟩
      · simp only [if_neg hk, Request.not_ends_subscribe, not_false_eq_true, and_true]
        refine (or_iff_right ?_).symm
        intro h
        obtain ⟨rfl, hs⟩ := h
        exact hk (congrArg Subscription.handle hs)
    | error e =>
      rw [serve, run_subscribe_of_error htext, Request.entered?_of_error htext]
      simp
  | unsubscribe x k' =>
    show (r.roster.remove x k').2.find? k = some s ↔ _
    rw [hr.find?_remove_eq_some, Request.ends_unsubscribe]
    simp [Request.entered?]
  | unsubscribeAll x =>
    show (r.roster.removeAll x).2.find? k = some s ↔ _
    rw [hr.find?_removeAll, Option.filter_eq_some_iff, Request.ends_unsubscribeAll]
    simp [Request.entered?]

end Serve

/-! ## All requests -/

/-- A roster holds the live subscriptions under their handles. -/
structure Follows (roster : Roster) (requests : List Request) : Prop where
  paired : roster.Paired
  find?_iff {k : Handle} {s : Subscription} :
    roster.find? k = some s ↔ s.handle = k ∧ Request.Live requests s

namespace Follows

variable {r : Router σ} {roster : Roster} {requests : List Request} {q : Request}

theorem find?_of_not_mem (h : Follows roster requests) {k : Handle}
    (hk : k ∉ Request.handles requests) : roster.find? k = none := by
  cases hs : roster.find? k with
  | none => rfl
  | some s =>
    obtain ⟨rfl, hlive⟩ := h.find?_iff.1 hs
    exact absurd hlive.handle_mem hk

theorem serve (h : Follows r.roster requests)
    (hfresh : (Request.handles (requests ++ [q])).Nodup) :
    Follows (r.serve q).roster (requests ++ [q]) := by
  have hfree : ∀ s, q.entered? = some s → r.roster.find? s.handle = none := by
    intro s hs
    refine h.find?_of_not_mem fun hmem => ?_
    rw [Request.handles_concat, hs] at hfresh
    exact (List.nodup_append.1 hfresh).2.2 _ hmem _ (List.mem_singleton_self _) rfl
  refine ⟨paired_serve h.paired hfree, fun {k s} => ?_⟩
  rw [find?_serve h.paired hfree, h.find?_iff, Request.live_concat, and_or_left, and_assoc]

end Follows

theorem follows_serveAll (source : σ) (requests : List Request)
    (hfresh : (Request.handles requests).Nodup) :
    Follows ((ofSource source).serveAll requests).roster requests := by
  induction requests using List.reverseRecOn with
  | nil =>
    refine ⟨Roster.paired_empty, fun {k s} => ?_⟩
    show Roster.empty.find? k = some s ↔ _
    rw [Roster.find?_empty]
    exact iff_of_false nofun fun h => Request.not_live_nil h.2
  | append_singleton requests q ih =>
    rw [serveAll_concat]
    refine (ih ?_).serve hfresh
    rw [Request.handles_concat] at hfresh
    exact (List.nodup_append.1 hfresh).1

/-- **Subscriptions follow the requests.** Let subscriptions have been entered under different
handles. What is found under a handle is the live subscription with that handle, and this is the one
that is listed for its subscriber, once, and under whose handle nothing is listed for another. A
request to end a subscription answers it and ends it alone if it is live and the subscriber's own,
and otherwise changes nothing. A request to end all of a subscriber answers what was listed, and
leaves nothing to this subscriber and all to the others. -/
theorem subscriptions_follow_requests (source : σ) (requests : List Request)
    (hfresh : (Request.handles requests).Nodup) :
    let r := (ofSource source).serveAll requests
    let found := r.roster.find?
    let listed := r.roster.ofSubscriber
    (∀ k, (subscription k).run r = (.ok (found k), r)) ∧
      (∀ x, (subscriptions x).run r = (.ok (listed x), r)) ∧
      (∀ k s, found k = some s ↔ s.handle = k ∧ r.roster.ListsOnce s) ∧
      (∀ k s, found k = some s ↔ s.handle = k ∧ Request.Live requests s) ∧
      (∀ k x text event, (∃ r', (subscribe k x text event).run r = (.ok (), r')) ↔
        (Request.subscribe k x text event).entered?.isSome = true) ∧
      (∀ k s, found k = some s → ∃ roster,
        (unsubscribe s.subscriber k).run r = (.ok (some s), { r with roster }) ∧
          r.roster.KeepsOnly (·.handle ≠ k) roster) ∧
      (∀ x k, (∀ s, found k = some s → s.subscriber ≠ x) →
        (unsubscribe x k).run r = (.ok none, r)) ∧
      ∀ x, ∃ roster, (unsubscribeAll x).run r = (.ok (listed x), { r with roster }) ∧
        r.roster.KeepsOnly (·.subscriber ≠ x) roster ∧ roster.ofSubscriber x = [] ∧
        ∀ y, y ≠ x → roster.ofSubscriber y = listed y := by
  intro r found listed
  have h : Follows r.roster requests := follows_serveAll source requests hfresh
  refine ⟨fun k => rfl, fun x => rfl, fun k s => h.paired.find?_iff_listsOnce,
    fun k s => h.find?_iff, fun k x text event => exists_run_subscribe_ok_iff, fun k s hs => ?_,
    fun x k hx => ?_, fun x => ?_⟩
  · obtain rfl := h.paired.handle_eq hs
    refine ⟨r.roster.erase s, ?_, h.paired.keepsOnly_erase hs⟩
    rw [run_unsubscribe, Roster.remove_of_owned hs]
  · rw [run_unsubscribe, Roster.remove_of_not_owned hx]
  · refine ⟨(r.roster.removeAll x).2, run_unsubscribeAll r x, h.paired.keepsOnly_removeAll x, ?_,
      fun y hy => ?_⟩
    · rw [h.paired.ofSubscriber_removeAll, if_pos rfl]
    · rw [h.paired.ofSubscriber_removeAll, if_neg hy]

/-- A request that cannot be read and one for another's subscription are of no effect, and a handle
that entered nothing may be used again. -/
theorem subscriptions_of_anna :
    let requests : List Request := [.subscribe ⟨1⟩ "anna" "type=*" ⟨"state-", .leading⟩,
      .subscribe ⟨2⟩ "ben" "type=*" ⟨"state-on", .exact⟩,
      .subscribe ⟨3⟩ "ben" "(type=*" ⟨"state-", .leading⟩,
      .subscribe ⟨3⟩ "anna" "not type=*" ⟨"state-", .leading⟩,
      .unsubscribe "ben" ⟨1⟩, .unsubscribe "anna" ⟨3⟩]
    let r := (ofSource Catalog.empty).serveAll requests
    let annas : Subscription := ⟨⟨1⟩, "anna", .check (.present .type), ⟨"state-", .leading⟩⟩
    let bens : Subscription := ⟨⟨2⟩, "ben", .check (.present .type), ⟨"state-on", .exact⟩⟩
    (Request.handles requests).Nodup ∧ Request.Live requests annas ∧ r.roster.ListsOnce annas ∧
      (subscription ⟨3⟩).run r = (.ok none, r) ∧
      (unsubscribe "ben" ⟨1⟩).run r = (.ok none, r) ∧
      ∃ roster, (unsubscribeAll "anna").run r = (.ok [annas], { r with roster }) ∧
        roster.ofSubscriber "anna" = [] ∧ roster.ofSubscriber "ben" = [bens] := by
  intro requests r annas bens
  have hfresh : (Request.handles requests).Nodup := by decide +kernel
  have hannas : r.roster.find? ⟨1⟩ = some annas := by decide +kernel
  have hended : r.roster.find? ⟨3⟩ = none := by decide +kernel
  have hlisted : r.roster.ofSubscriber "anna" = [annas] := by decide +kernel
  have hbens : r.roster.ofSubscriber "ben" = [bens] := by decide +kernel
  obtain ⟨hfound, -, honce, hlive, -, -, hother, hall⟩ :=
    subscriptions_follow_requests Catalog.empty requests hfresh
  refine ⟨hfresh, ((hlive _ _).1 hannas).2, ((honce _ _).1 hannas).2, ?_,
    hother "ben" ⟨1⟩ fun s hs => ?_, ?_⟩
  · rw [hfound, hended]
  · obtain rfl := Option.some.inj (hannas.symm.trans hs)
    decide
  · obtain ⟨roster, hrun, -, hnone, hothers⟩ := hall "anna"
    exact ⟨roster, by rw [hrun, hlisted], hnone, (hothers "ben" (by decide)).trans hbens⟩

end Router

end ResourceRouting
