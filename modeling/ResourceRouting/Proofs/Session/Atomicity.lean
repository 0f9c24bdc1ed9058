import ResourceRouting.Proofs.Router.Dispatch
import ResourceRouting.Proofs.Router.Subscriptions
import ResourceRouting.Session.Basic

/-!
# Failed steps leave no trace

A session holds three stores: the catalog, the roster of subscriptions, and the reports to
listeners. A step may fail because a text cannot be read or because a call of the lookup fails, at
any depth of an evaluation.

**Outcomes** (`Session.Outcome`). What a computation that looks things up can come to: it fails, and
the stores are as they were, or it answers, and listeners are told of the answer. Computations are
followed call by call (`Outcome.bind`), so nothing has to be known of when a call fails.

**Reports** (`Session.announced`). What a step is to report, as it follows from the command and from
its answer: one report for each query, two for each dispatch, and none for all else.

**Theorem (`failures_leave_no_trace`).** Over any lookup that reads the catalog, whichever calls
fail: a step that fails leaves the stores as they were; one that cannot be read does not use the
lookup at all; and the reports are those of the steps that answered, in order.
-/

namespace ResourceRouting

/-- Whether all texts in a command can be read, which is found out before anything else is done. -/
def Command.parse : Command → Except Error Unit
  | .query selection | .isIn _ selection | .compare selection _ =>
    selection.resolve.map fun _ => ()
  | .subscribe _ selection _ => (Selection.ofString selection).map fun _ => ()
  | .unsubscribe _ (.text input) | .subscription (.text input) =>
    (Handle.ofString input).map fun _ => ()
  | _ => .ok ()

theorem eq_error_of_map {α : Type} {x : Except Error α} {e : Error}
    (h : (x.map fun _ => ()) = .error e) : x = .error e := by
  cases x with
  | error e' => exact congrArg _ (Except.error.inj h)
  | ok a => cases h

theorem exists_eq_ok_of_map {α : Type} {x : Except Error α} {u : Unit}
    (h : (x.map fun _ => ()) = .ok u) : ∃ a, x = .ok a := by
  cases x with
  | error e => cases h
  | ok a => exact ⟨a, rfl⟩

/-- The reports that an answer hands over. -/
def Reply.taken : Reply → List Telemetry
  | .reports value => value
  | _ => []

namespace Session

/-! ## What is to be reported -/

/-- The number of subscriptions that ask for an event. Nobody asks for one of a resource that is not
registered. -/
def candidates (s : Session) (id event : String) : Nat :=
  if s.catalog.isRegistered id then
    (s.router.roster.toList.filter (·.event.Fits event)).length
  else 0

/-- What is to be reported of a query that found some resources. -/
def queryReport (selection : SelectionSource) (found : StringSet) : List Telemetry :=
  match selection.resolve with
  | .ok s => [.query ⟨s.normalized, found.size⟩]
  | .error _ => []

/-- What is to be reported of a command with an answer. -/
def announcedOf (s : Session) : Command → Reply → List Telemetry
  | .query selection, .ids found => queryReport selection found
  | .compare selection _, .comparison result => queryReport selection result.evaluated
  | .dispatch id event, .ids found => Router.told id event ⟨s.candidates id event, found⟩
  | _, _ => []

/-- What is to be reported of a step. A step that fails reports nothing. -/
def announced (s : Session) (c : Command) : Except Error Reply → List Telemetry
  | .ok reply => s.announcedOf c reply
  | .error _ => []

/-- What is to be reported of some steps in order. -/
def told (L : Lookup SessionSource) : Session → List Command → List Telemetry
  | _, [] => []
  | s, c :: cs => s.announced c (step L s c).1 ++ told L (step L s c).2 cs

/-- The reports that some answers hand over, in order. -/
def taken (replies : List (Except Error Reply)) : List Telemetry :=
  replies.flatMap fun reply =>
    match reply with
    | .ok reply => reply.taken
    | .error _ => []

/-! ## Outcomes -/

/-- What a lookup of a session has behind it. -/
def viewed (source : SessionSource) : Catalog := source.source.source

/-- The session after some use of its lookup, with what listeners have been told since. -/
def after (s : Session) (source : SessionSource) (events : List Telemetry) : Session :=
  { s with router := ⟨source, s.router.roster, s.router.reports ++ events⟩ }

theorem after_nil (s : Session) (source : SessionSource) :
    s.after source [] = { s with router := { s.router with source } } := by
  rw [after, List.append_nil]

theorem after_after (s : Session) (source source' : SessionSource) (events : List Telemetry) :
    (s.after source []).after source' events = s.after source' events := by
  rw [after_nil]
  rfl

/-- The stores of a session are as they were. -/
structure SameStores (s s' : Session) : Prop where
  catalog : s'.catalog = s.catalog
  roster : s'.router.roster = s.router.roster
  reports : s'.router.reports = s.router.reports
  series : s'.series = s.series
  issued : s'.issued = s.issued

theorem SameStores.refl (s : Session) : s.SameStores s := ⟨rfl, rfl, rfl, rfl, rfl⟩

/-- A computation that looks things up fails and tells nothing, or it answers and tells of its
answer. -/
inductive Outcome {α : Type} (s : Session) (events : α → List Telemetry) :
    Except Error α × Session → Prop
  | failed (e : Error) {source : SessionSource} (same : viewed source = s.catalog) :
      Outcome s events (.error e, s.after source [])
  | answered (a : α) {source : SessionSource} (same : viewed source = s.catalog) :
      Outcome s events (.ok a, s.after source (events a))

namespace Outcome

variable {α β : Type} {s : Session} {events : α → List Telemetry} {later : β → List Telemetry}

/-- One computation that tells nothing, then another one. -/
theorem bind {act : SessionM α} {f : α → SessionM β}
    (h : Outcome s (fun _ => []) (act.run s))
    (hf : ∀ a source, viewed source = s.catalog →
      Outcome (s.after source []) later ((f a).run (s.after source []))) :
    Outcome s later ((act >>= f).run s) := by
  generalize hrun : act.run s = result at h
  cases h with
  | failed e same =>
    rw [Access.run_bind_of_error hrun]
    exact .failed e same
  | @answered a source same =>
    rw [Access.run_bind_of_ok hrun]
    have hlater := hf a source same
    generalize hrun' : (f a).run (s.after source []) = result at hlater
    cases hlater with
    | failed e same' =>
      rw [after_after]
      exact .failed e (same'.trans same)
    | answered b same' =>
      rw [after_after]
      exact .answered b (same'.trans same)

theorem pure (s : Session) (b : β) : Outcome s (fun _ => []) ((pure b : SessionM β).run s) := by
  have same : viewed s.router.source = s.catalog := rfl
  have h : Outcome s (fun _ => []) (.ok b, s.after s.router.source []) := .answered b same
  rwa [after_nil] at h

theorem map {act : SessionM α} (h : Outcome s events (act.run s)) (g : α → β)
    (hlater : ∀ a, later (g a) = events a) :
    Outcome s later ((act >>= fun a => Pure.pure (g a)).run s) := by
  generalize hrun : act.run s = result at h
  cases h with
  | failed e same =>
    rw [Access.run_bind_of_error hrun]
    exact .failed e same
  | answered a same =>
    rw [Access.run_bind_of_ok hrun, ← hlater]
    exact .answered (g a) same

end Outcome

/-! ## Looking things up -/

section Reading

variable {L : Lookup SessionSource} {α : Type}

theorem run_route {act : RouterM SessionSource α} {s : Session} {answer : Except Error α}
    {router : Router SessionSource} (h : act.run s.router = (answer, router)) :
    (route act).run s = (answer, { s with router }) := by
  show ((act.run s.router).1, ({ s with router := (act.run s.router).2 } : Session)) = _
  rw [h]

theorem outcome_ask {act : Access SessionSource α} (h : Access.Keeps viewed act) (s : Session) :
    Outcome s (fun _ => []) ((route (Router.ask act)).run s) := by
  have same := h s.router.source
  match hrun : act.run s.router.source with
  | (answer, source) =>
    rw [hrun] at same
    rw [run_route (Router.run_ask hrun s.router.roster s.router.reports)]
    cases answer with
    | error e =>
      rw [← after_nil]
      exact .failed e same
    | ok a =>
      rw [← after_nil]
      exact .answered a same

theorem outcome_query (hL : L.Reads viewed) (selection : Selection) (s : Session) :
    Outcome s (fun found => [.query ⟨selection.normalized, found.size⟩])
      ((route (Router.query L selection)).run s) := by
  have same := hL.evaluate selection s.router.source
  match hrun : (selection.evaluate L).run s.router.source with
  | (.error e, source) =>
    rw [hrun] at same
    rw [run_route (Router.run_query_of_error hrun s.router.roster s.router.reports), ← after_nil]
    exact .failed e same
  | (.ok found, source) =>
    rw [hrun] at same
    rw [run_route (Router.run_query hrun s.router.roster s.router.reports)]
    exact .answered found same

/-- A dispatch that answers gives the audience of the event, as the catalog knows the resource. -/
theorem run_dispatch_cases (hL : L.Reads viewed) (id event : String) (s : Session) :
    ∃ source, viewed source = s.catalog ∧
      ((∃ e, (route (Router.dispatch L id event)).run s = (.error e, s.after source [])) ∨
        let found := Audience.ofEvent s.router.roster id event (s.catalog.attributes? id)
        (route (Router.dispatch L id event)).run s =
          (.ok found.subscribers, s.after source (Router.told id event found))) := by
  have same := hL.attributes id s.router.source
  match hrun : (L.attributes id).run s.router.source with
  | (.error e, source) =>
    rw [hrun] at same
    refine ⟨source, same, .inl ⟨e, ?_⟩⟩
    rw [run_route (Router.run_dispatch_of_error hrun event s.router.roster s.router.reports),
      after_nil]
  | (.ok a, source) =>
    rw [hrun] at same
    obtain rfl := hL.attributes_eq hrun
    refine ⟨source, same, .inr ?_⟩
    exact run_route (Router.run_dispatch hrun event s.router.roster s.router.reports)

theorem candidates_eq (s : Session) (id event : String) :
    (Audience.ofEvent s.router.roster id event (s.catalog.attributes? id)).candidates =
      s.candidates id event :=
  s.catalog.candidates_ofEvent s.router.roster id event

theorem outcome_dispatch (hL : L.Reads viewed) (id event : String) (s : Session) :
    Outcome s (fun found => Router.told id event ⟨s.candidates id event, found⟩)
      ((route (Router.dispatch L id event)).run s) := by
  obtain ⟨source, same, ⟨e, hrun⟩ | hrun⟩ := run_dispatch_cases hL id event s
  · rw [hrun]
    exact .failed e same
  · generalize hfound : Audience.ofEvent s.router.roster id event (s.catalog.attributes? id) = found
      at hrun
    have hcandidates : found.candidates = s.candidates id event := by
      rw [← hfound, candidates_eq]
    rw [hrun, ← hcandidates]
    exact .answered found.subscribers same

theorem outcome_isIn (hL : L.Reads viewed) (id : String) (selection : Selection) (s : Session) :
    Outcome s (fun _ => []) ((route (Router.isIn L id selection)).run s) :=
  outcome_ask (hL.probe id selection) s

theorem outcome_examine (hL : L.Reads viewed) (selection : Selection) (id : String) (s : Session) :
    Outcome s (fun _ => []) ((examine L selection id).run s) := by
  refine .bind (outcome_isIn hL id selection s) fun probed source same => ?_
  exact .map (outcome_ask (hL.attributes id) _) _ fun _ => rfl

theorem outcome_examineEach (hL : L.Reads viewed) (selection : Selection) (ids : List String)
    (s : Session) : Outcome s (fun _ => []) ((examineEach L selection ids).run s) := by
  induction ids generalizing s with
  | nil => exact .pure s _
  | cons id ids ih =>
    refine .bind (outcome_examine hL selection id s) fun found source same => ?_
    exact .map (ih _) _ fun _ => rfl

/-- A comparison queries once, after it has examined the resources one by one. -/
theorem outcome_compare (hL : L.Reads viewed) (selection : Selection) (ids : List String)
    (s : Session) : Outcome s
      (fun result => [.query ⟨selection.normalized, result.evaluated.size⟩])
      ((compare L selection ids).run s) := by
  refine .bind (outcome_ask (hL.select .all) s) fun registered source same => ?_
  refine .bind (outcome_examineEach hL selection _ _) fun examined source' same' => ?_
  exact .map (outcome_query hL selection _) _ fun _ => rfl

end Reading

/-! ## Steps -/

section Enter

variable {text : String} {selection : Selection} {e : Error}

theorem run_get (s : Session) : (get : SessionM Session).run s = (.ok s, s) := rfl

theorem run_enter_of_ok (h : Selection.ofString text = .ok selection) (subscriber : String)
    (event : EventPattern) (s : Session) :
    (enter subscriber text event).run s = (.ok s.issued,
      { s with
        router := { s.router with
          roster := s.router.roster.insert
            ⟨.ofNumber s.series s.issued, subscriber, selection, event⟩ }
        issued := s.issued + 1 }) := by
  have hsubscribe :
      (Router.subscribe (.ofNumber s.series s.issued) subscriber text event).run s.router =
        (.ok (), _) := Router.run_subscribe_of_ok h
  rw [enter, Access.run_bind_of_ok (run_get s), Access.run_bind_of_ok (run_route hsubscribe)]
  rfl

theorem run_enter_of_error (h : Selection.ofString text = .error e) (subscriber : String)
    (event : EventPattern) (s : Session) : (enter subscriber text event).run s = (.error e, s) := by
  have hsubscribe :
      (Router.subscribe (.ofNumber s.series s.issued) subscriber text event).run s.router =
        (.error e, s.router) := Router.run_subscribe_of_error h
  rw [enter, Access.run_bind_of_ok (run_get s), Access.run_bind_of_error (run_route hsubscribe)]

end Enter

/-- A text that cannot be read ends its step, before the lookup is used. -/
theorem step_of_parse_error {c : Command} {e : Error} (h : c.parse = .error e)
    (L : Lookup SessionSource) (s : Session) : step L s c = (.error e, s) := by
  cases c with
  | query selection =>
    cases selection with
    | tree selection => cases h
    | text input =>
      have hinput : Selection.ofString input = .error e := eq_error_of_map h
      rw [step, perform, Router.queryText, hinput]
      rfl
  | isIn id selection =>
    rw [step, perform, eq_error_of_map h]
    rfl
  | compare selection ids =>
    rw [step, perform, eq_error_of_map h]
    rfl
  | subscribe subscriber selection event =>
    have henter := run_enter_of_error (eq_error_of_map h) subscriber event s
    exact Access.run_bind_of_error henter _
  | unsubscribe subscriber handle =>
    cases handle with
    | number n => cases h
    | text input =>
      simp only [step, perform, HandleSource.resolve, eq_error_of_map h]
      rfl
  | subscription handle =>
    cases handle with
    | number n => cases h
    | text input =>
      simp only [step, perform, HandleSource.resolve, eq_error_of_map h]
      rfl
  | _ => cases h

/-- What a step has to do with the stores. -/
structure Faithful (s : Session) (c : Command) (result : Except Error Reply × Session) : Prop where
  stores : ∀ e, result.1 = .error e → s.SameStores result.2
  reports : taken [result.1] ++ result.2.router.reports =
    s.router.reports ++ s.announced c result.1

namespace Faithful

variable {s s' : Session} {c : Command}

theorem unread (e : Error) : s.Faithful c (.error e, s) :=
  ⟨fun _ _ => .refl s, (List.append_nil _).symm⟩

theorem quiet {reply : Reply} (hreports : s'.router.reports = s.router.reports)
    (htaken : reply.taken = []) (hannounced : s.announcedOf c reply = []) :
    s.Faithful c (.ok reply, s') := by
  refine ⟨nofun, ?_⟩
  show taken [.ok reply] ++ s'.router.reports = s.router.reports ++ s.announcedOf c reply
  simp [taken, htaken, hreports, hannounced]

/-- A step that looks things up and puts what it found into its answer. -/
theorem of_outcome {α : Type} {events : α → List Telemetry} {act : SessionM α} {g : α → Reply}
    (h : Outcome s events (act.run s)) (hannounced : ∀ a, s.announcedOf c (g a) = events a)
    (htaken : ∀ a, (g a).taken = []) :
    s.Faithful c ((act >>= fun a => Pure.pure (g a)).run s) := by
  generalize hrun : act.run s = result at h
  cases h with
  | @failed e source same =>
    rw [Access.run_bind_of_error hrun, after_nil]
    exact ⟨fun _ _ => ⟨same, rfl, rfl, rfl, rfl⟩, (List.append_nil _).symm⟩
  | @answered a source same =>
    rw [Access.run_bind_of_ok hrun]
    refine ⟨nofun, ?_⟩
    show taken [.ok (g a)] ++ (s.router.reports ++ events a) =
      s.router.reports ++ s.announcedOf c (g a)
    simp [taken, htaken, hannounced]

end Faithful

/-- A selection that can be read is queried as if it were given ready made. -/
theorem perform_query {L : Lookup SessionSource} {selection : SelectionSource} {read : Selection}
    (h : selection.resolve = .ok read) :
    perform L (.query selection) = do return .ids (← route (Router.query L read)) := by
  cases selection with
  | tree s =>
    obtain rfl := Except.ok.inj h
    rfl
  | text input =>
    replace h : Selection.ofString input = .ok read := h
    rw [perform, Router.queryText, h]
    rfl

/-- **Every step is faithful**, whatever session it is made in and whichever calls fail. -/
theorem faithful_step {L : Lookup SessionSource} (hL : L.Reads viewed) (s : Session) (c : Command) :
    s.Faithful c (step L s c) := by
  cases hparse : c.parse with
  | error e =>
    rw [step_of_parse_error hparse]
    exact .unread e
  | ok =>
    -- All texts can be read, so only the lookup can fail.
    cases c with
    | query selection =>
      obtain ⟨read, hread⟩ := exists_eq_ok_of_map hparse
      rw [step, perform_query hread]
      refine .of_outcome (outcome_query hL read s) (fun found => ?_) fun _ => rfl
      rw [announcedOf, queryReport, hread]
    | isIn id selection =>
      obtain ⟨read, hread⟩ := exists_eq_ok_of_map hparse
      rw [step, perform, hread]
      exact .of_outcome (outcome_isIn hL id read s) (fun _ => rfl) fun _ => rfl
    | compare selection ids =>
      obtain ⟨read, hread⟩ := exists_eq_ok_of_map hparse
      rw [step, perform, hread]
      refine .of_outcome (outcome_compare hL read ids s) (fun result => ?_) fun _ => rfl
      rw [announcedOf, queryReport, hread]
    | dispatch id event =>
      exact .of_outcome (outcome_dispatch hL id event s) (fun _ => rfl) fun _ => rfl
    | subscribe subscriber selection event =>
      obtain ⟨read, hread⟩ := exists_eq_ok_of_map hparse
      rw [step, perform, Access.run_bind_of_ok (run_enter_of_ok hread subscriber event s)]
      exact .quiet rfl rfl rfl
    | unsubscribe subscriber handle =>
      cases handle with
      | number n => exact .quiet rfl rfl rfl
      | text input =>
        obtain ⟨read, hread⟩ := exists_eq_ok_of_map hparse
        simp only [step, perform, HandleSource.resolve, hread]
        exact .quiet rfl rfl rfl
    | subscription handle =>
      cases handle with
      | number n => exact .quiet rfl rfl rfl
      | text input =>
        obtain ⟨read, hread⟩ := exists_eq_ok_of_map hparse
        simp only [step, perform, HandleSource.resolve, hread]
        exact .quiet rfl rfl rfl
    | takeReports =>
      refine ⟨nofun, ?_⟩
      show s.router.reports ++ [] ++ [] = s.router.reports ++ []
      rw [List.append_nil]
    | _ => exact .quiet rfl rfl rfl

/-! ## Answers -/

section Answers

variable {L : Lookup SessionSource} {s : Session} {reply : Reply} {selection : SelectionSource}

/-- A step that puts what it found into its answer answers in this form only. -/
theorem exists_of_run_map {α : Type} {act : SessionM α} {g : α → Reply}
    (h : ((act >>= fun a => Pure.pure (g a)).run s).1 = .ok reply) : ∃ a, reply = g a := by
  match hrun : act.run s with
  | (.error e, s') =>
    rw [Access.run_bind_of_error hrun] at h
    cases h
  | (.ok a, s') =>
    rw [Access.run_bind_of_ok hrun] at h
    exact ⟨a, (Except.ok.inj h).symm⟩

theorem exists_resolve_of_step {c : Command}
    (hparse : c.parse = selection.resolve.map fun _ => ()) (h : (step L s c).1 = .ok reply) :
    ∃ read, selection.resolve = .ok read := by
  cases hread : selection.resolve with
  | ok read => exact ⟨read, rfl⟩
  | error e =>
    rw [hread] at hparse
    rw [step_of_parse_error hparse] at h
    cases h

/-- **A query that answers gives what it found**, and this is reported. -/
theorem exists_of_query (h : (step L s (.query selection)).1 = .ok reply) :
    ∃ read found, selection.resolve = .ok read ∧ reply = .ids found ∧
      s.announcedOf (.query selection) reply = [.query ⟨read.normalized, found.size⟩] := by
  obtain ⟨read, hread⟩ := exists_resolve_of_step rfl h
  rw [step, perform_query hread] at h
  obtain ⟨found, rfl⟩ := exists_of_run_map h
  exact ⟨read, found, hread, rfl, by rw [announcedOf, queryReport, hread]⟩

theorem exists_of_compare {ids : List String}
    (h : (step L s (.compare selection ids)).1 = .ok reply) :
    ∃ read result, selection.resolve = .ok read ∧ reply = .comparison result ∧
      s.announcedOf (.compare selection ids) reply =
        [.query ⟨read.normalized, result.evaluated.size⟩] := by
  obtain ⟨read, hread⟩ := exists_resolve_of_step rfl h
  rw [step, perform, hread] at h
  have hanswer : ((compare L read ids >>= fun result =>
      Pure.pure (Reply.comparison result)).run s).1 = .ok reply := h
  obtain ⟨result, rfl⟩ := exists_of_run_map hanswer
  exact ⟨read, result, hread, rfl, by rw [announcedOf, queryReport, hread]⟩

theorem exists_of_dispatch {id event : String}
    (h : (step L s (.dispatch id event)).1 = .ok reply) :
    ∃ found, reply = .ids found ∧ s.announcedOf (.dispatch id event) reply =
      Router.told id event ⟨s.candidates id event, found⟩ := by
  rw [step, perform] at h
  obtain ⟨found, rfl⟩ := exists_of_run_map h
  exact ⟨found, rfl, rfl⟩

end Answers

/-! ## Dispatches -/

section Dispatch

variable {L : Lookup SessionSource} {s : Session} {c : Command} {reply : Reply} {id event : String}
  {found : StringSet} {report : DispatchReport}

theorem eq_subscribers_of_step (hL : L.Reads viewed)
    (h : (step L s (.dispatch id event)).1 = .ok (.ids found)) :
    found = (Audience.ofEvent s.router.roster id event (s.catalog.attributes? id)).subscribers := by
  rw [step, perform] at h
  obtain ⟨source, -, ⟨e, hrun⟩ | hrun⟩ := run_dispatch_cases hL id event s
  · rw [Access.run_bind_of_error hrun] at h
    cases h
  · rw [Access.run_bind_of_ok hrun] at h
    exact (Reply.ids.inj (Except.ok.inj h)).symm

theorem eq_dispatch_of_mem (h : .dispatch report ∈ s.announcedOf c reply) :
    ∃ id event found, c = .dispatch id event ∧ reply = .ids found ∧
      report = ⟨id, event, s.candidates id event, found.size⟩ := by
  have hquery : ∀ selection found, .dispatch report ∉ queryReport selection found := by
    intro selection found
    unfold queryReport
    split <;> simp
  unfold announcedOf at h
  split at h
  · exact absurd h (hquery _ _)
  · exact absurd h (hquery _ _)
  · rename_i id event found
    refine ⟨id, event, found, rfl, rfl, ?_⟩
    simpa [Router.told] using h
  · cases h

/-- **A dispatch is not reported with more subscribers than candidates.** -/
theorem subscribers_le_candidates (hL : L.Reads viewed)
    (h : .dispatch report ∈ s.announced c (step L s c).1) :
    report.subscribers ≤ report.candidates := by
  cases hreply : (step L s c).1 with
  | error e =>
    rw [hreply] at h
    cases h
  | ok reply =>
    rw [hreply] at h
    obtain ⟨id, event, found, rfl, rfl, rfl⟩ := eq_dispatch_of_mem h
    obtain rfl := eq_subscribers_of_step hL hreply
    have hsize := Audience.size_ofEvent_le s.router.roster id event (s.catalog.attributes? id)
    rwa [candidates_eq] at hsize

theorem dispatch_unregistered (hL : L.Reads viewed) (hid : s.catalog.isRegistered id = false)
    (h : (step L s (.dispatch id event)).1 = .ok (.ids found)) :
    found = ∅ ∧ s.candidates id event = 0 := by
  obtain rfl := eq_subscribers_of_step hL h
  have hnone : s.catalog.attributes? id = none := by
    rw [Catalog.isRegistered_eq_isSome] at hid
    simpa using hid
  rw [candidates, hid, hnone]
  exact ⟨rfl, rfl⟩

end Dispatch

/-! ## Runs -/

theorem taken_cons (reply : Except Error Reply) (replies : List (Except Error Reply)) :
    taken (reply :: replies) = taken [reply] ++ taken replies := by
  simp [taken]

/-- What was handed over and what is left at the end are the reports of the steps in order. -/
theorem taken_run {L : Lookup SessionSource} (hL : L.Reads viewed) (first : Session)
    (cs : List Command) :
    taken (run L first cs).1 ++ (run L first cs).2.router.reports =
      first.router.reports ++ told L first cs := by
  induction cs generalizing first with
  | nil => simp [run, told, taken]
  | cons c cs ih =>
    have hstep := (faithful_step hL first c).reports
    rw [run, told]
    show taken ((step L first c).1 :: (run L (step L first c).2 cs).1) ++
      (run L (step L first c).2 cs).2.router.reports = _
    rw [taken_cons, List.append_assoc, ih, ← List.append_assoc, hstep, List.append_assoc]

theorem subscribers_le_candidates_of_told {L : Lookup SessionSource} (hL : L.Reads viewed)
    (first : Session) (cs : List Command) {report : DispatchReport}
    (h : .dispatch report ∈ told L first cs) : report.subscribers ≤ report.candidates := by
  induction cs generalizing first with
  | nil => cases h
  | cons c cs ih =>
    rw [told, List.mem_append] at h
    rcases h with hstep | hlater
    · exact subscribers_le_candidates hL hstep
    · exact ih _ hlater

end Session

theorem SessionSetup.reads_lookup (setup : SessionSetup) : setup.lookup.Reads Session.viewed := by
  have hnoted := (Catalog.reads_lookup.failingAt setup.failing.contains).recorded
  rw [SessionSetup.lookup]
  split
  · exact hnoted.containsBySelect
  · exact hnoted

namespace Session

/-- **Failed steps leave no trace, and all others are reported as they answered.** Whatever has been
done, over any lookup into the catalog, and whichever of its calls fail: a step that fails keeps the
catalog, the roster and the reports; a step whose texts cannot be read is the same over every lookup
and changes nothing; listeners are told what the steps so far are to report, in order, and nothing
else. Every query that answers is to be reported once, and so is every comparison and, in two forms,
every dispatch. -/
theorem failures_leave_no_trace {L : Lookup SessionSource} (hL : L.Reads viewed) (first : Session)
    (cs : List Command) :
    let replies := (run L first cs).1
    let s := (run L first cs).2
    (∀ c e, (step L s c).1 = .error e → s.SameStores (step L s c).2) ∧
      (∀ c e, c.parse = .error e → ∀ L', step L' s c = (.error e, s)) ∧
      taken replies ++ s.router.reports = first.router.reports ++ told L first cs ∧
      (∀ selection reply, (step L s (.query selection)).1 = .ok reply →
        ∃ read found, selection.resolve = .ok read ∧ reply = .ids found ∧
          s.announcedOf (.query selection) reply = [.query ⟨read.normalized, found.size⟩]) ∧
      (∀ selection ids reply, (step L s (.compare selection ids)).1 = .ok reply →
        ∃ read result, selection.resolve = .ok read ∧ reply = .comparison result ∧
          s.announcedOf (.compare selection ids) reply =
            [.query ⟨read.normalized, result.evaluated.size⟩]) ∧
      (∀ id event reply, (step L s (.dispatch id event)).1 = .ok reply →
        ∃ found, reply = .ids found ∧ s.announcedOf (.dispatch id event) reply =
          Router.told id event ⟨s.candidates id event, found⟩) ∧
      (∀ report, .dispatch report ∈ told L first cs → report.subscribers ≤ report.candidates) ∧
      ∀ id event found, s.catalog.isRegistered id = false →
        (step L s (.dispatch id event)).1 = .ok (.ids found) →
        found = ∅ ∧ s.candidates id event = 0 := by
  intro replies s
  refine ⟨fun c e h => (faithful_step hL s c).stores e h,
    fun c e h L' => step_of_parse_error h L' s, taken_run hL first cs,
    fun _ _ h => exists_of_query h, fun _ _ _ h => exists_of_compare h,
    fun _ _ _ h => exists_of_dispatch h,
    fun report h => subscribers_le_candidates_of_told hL first cs h,
    fun id event found hid h => dispatch_unregistered hL hid h⟩

/-- A lamp that anna hears of, in a session whose second, fourth and seventh calls fail: a query, a
dispatch, and a query in the midst of its evaluation. -/
theorem failures_leave_no_trace_of_lamp :
    let setup : SessionSetup := ⟨[2, 4, 7], false⟩
    let cs : List Command := [.edit (.register ⟨"lamp", "light", ∅⟩),
      .subscribe "anna" "type=*" ⟨"o", .leading⟩, .query (.text "type=*"), .query (.text "type=*"),
      .query (.text "type="), .dispatch "lamp" "on", .dispatch "moon" "on", .dispatch "moon" "on"]
    let s := (run setup.lookup (start 0) cs).2
    let failing := step setup.lookup s (.query (.text "not type=*"))
    s.router.reports = [.query ⟨"type=*", 1⟩,
        .dispatch ⟨"lamp", "on", 1, 1⟩, .phases ⟨"lamp", "on", 1, 1⟩,
        .dispatch ⟨"moon", "on", 0, 0⟩, .phases ⟨"moon", "on", 0, 0⟩] ∧
      failing.1 = .error (.unavailable "call 7") ∧ s.SameStores failing.2 := by
  intro setup cs s failing
  obtain ⟨hstores, -, hreports, -, -⟩ := failures_leave_no_trace setup.reads_lookup (start 0) cs
  have hfailing : failing.1 = .error (.unavailable "call 7") := eq_error_of_map (by decide +kernel)
  have htaken : taken (run setup.lookup (start 0) cs).1 = [] := by decide +kernel
  have htold : told setup.lookup (start 0) cs = [.query ⟨"type=*", 1⟩,
      .dispatch ⟨"lamp", "on", 1, 1⟩, .phases ⟨"lamp", "on", 1, 1⟩,
      .dispatch ⟨"moon", "on", 0, 0⟩, .phases ⟨"moon", "on", 0, 0⟩] := by decide +kernel
  refine ⟨?_, hfailing, hstores _ _ hfailing⟩
  rw [htaken, htold, List.nil_append] at hreports
  exact hreports

end Session

end ResourceRouting
