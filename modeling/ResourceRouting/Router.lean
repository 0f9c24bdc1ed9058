import ResourceRouting.Selection.Assembly
import ResourceRouting.Selection.Evaluation
import ResourceRouting.Selection.NormalForm
import ResourceRouting.Subscription.Audience
import ResourceRouting.Telemetry

/-!
# Routing

Queries over resources, subscriptions, and the dispatch of events to subscribers.

**State** (`Router`). Whatever the lookup reads from, the roster of subscriptions and what listeners
have been told so far. Every operation that fails leaves the roster and the reports as they were.

Texts of selections are read before anything is looked up. A query reports the normalized selection
and the number of resources found. A dispatch looks the resource up once, whatever the number of
subscriptions, and then matches every subscription against what it learnt.
-/

namespace ResourceRouting

/-- The state of routing over a lookup with state `σ`. -/
structure Router (σ : Type) where
  source : σ
  roster : Roster
  reports : List Telemetry

abbrev RouterM (σ : Type) : Type → Type := ExceptT Error (StateM (Router σ))

namespace Router

variable {σ α : Type}

def ofSource (source : σ) : Router σ := ⟨source, .empty, []⟩

/-- Uses the lookup's state. -/
def ask (act : Access σ α) : RouterM σ α :=
  ExceptT.mk fun r =>
    let (answer, source) := act.run r.source
    (answer, { r with source })

/-- Tells listeners what happened. -/
def report (events : List Telemetry) : RouterM σ Unit :=
  modify fun r => { r with reports := r.reports ++ events }

def onRoster (f : Roster → α × Roster) : RouterM σ α :=
  modifyGet fun r =>
    let (answer, roster) := f r.roster
    (answer, { r with roster })

/-! ## Queries -/

def query (L : Lookup σ) (s : Selection) : RouterM σ StringSet := do
  let found ← ask (s.evaluate L)
  report [.query ⟨s.normalized, found.size⟩]
  return found

/-- The resources that the text of a selection describes. -/
def queryText (L : Lookup σ) (text : String) : RouterM σ StringSet := do
  let s ← Selection.ofString text
  query L s

def isIn (L : Lookup σ) (id : String) (s : Selection) : RouterM σ Bool := ask (s.probe L id)

/-! ## Subscriptions -/

/-- Enters a subscription under a handle that is not in use. -/
def subscribe (handle : Handle) (subscriber selection : String) (event : EventPattern) :
    RouterM σ Unit := do
  let s ← Selection.ofString selection
  onRoster fun roster => ((), roster.insert ⟨handle, subscriber, s, event⟩)

/-- Ends one subscription of a subscriber and answers it. -/
def unsubscribe (subscriber : String) (handle : Handle) : RouterM σ (Option Subscription) :=
  onRoster fun roster => roster.remove subscriber handle

/-- Ends all subscriptions of a subscriber and answers them. -/
def unsubscribeAll (subscriber : String) : RouterM σ (List Subscription) :=
  onRoster fun roster => roster.removeAll subscriber

def subscription (handle : Handle) : RouterM σ (Option Subscription) :=
  return (← get).roster.find? handle

def subscriptions (subscriber : String) : RouterM σ (List Subscription) :=
  return (← get).roster.ofSubscriber subscriber

/-! ## Dispatch -/

/-- The subscribers that hear of an event of a resource. -/
def dispatch (L : Lookup σ) (id event : String) : RouterM σ StringSet := do
  let attributes ← ask (L.attributes id)
  let found := Audience.ofEvent (← get).roster id event attributes
  let told : DispatchReport := ⟨id, event, found.candidates, found.subscribers.size⟩
  report [.dispatch told, .phases told]
  return found.subscribers

end Router

end ResourceRouting
