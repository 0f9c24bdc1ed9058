import ResourceRouting.Router
import ResourceRouting.Session.Command

/-!
# Sessions

A catalog and a router over it, worked by commands one after the other.

**Set-up** (`SessionSetup`). The router sees the catalog through a lookup that notes all calls. Some
calls may be set to fail, and the lookup may answer `contains` by listing keys.

**Steps** (`Session.step`). A command changes or asks the catalog itself, or works the router. One
that fails answers its error, and the session goes on.
-/

namespace ResourceRouting

/-- How the router sees the catalog. -/
structure SessionSetup where
  /-- The numbers of the calls that fail, counted from one. -/
  failing : List Nat
  /-- Whether `contains` is answered by listing the key. -/
  containsBySelect : Bool

/-- What the lookup of a session reads from. -/
abbrev SessionSource := Recorded (Counted Catalog)

def SessionSetup.lookup (setup : SessionSetup) : Lookup SessionSource :=
  let noted := (Catalog.lookup.failingAt setup.failing.contains).recorded
  if setup.containsBySelect then noted.containsBySelect else noted

/-- The state of a session. -/
structure Session where
  router : Router SessionSource
  /-- The series of the handles of all subscriptions. -/
  series : Nat
  /-- How many subscriptions have been entered. -/
  issued : Nat

abbrev SessionM : Type → Type := ExceptT Error (StateM Session)

namespace Session

variable {α : Type}

def start (series : Nat) : Session := ⟨.ofSource ⟨⟨.empty, 0⟩, []⟩, series, 0⟩

def catalog (s : Session) : Catalog := s.router.source.source.source

def withCatalog (s : Session) (c : Catalog) : Session :=
  let noted := s.router.source
  let counted := { noted.source with source := c }
  { s with router := { s.router with source := { noted with source := counted } } }

def forgetCalls (s : Session) : Session :=
  { s with router := { s.router with source := { s.router.source with calls := [] } } }

def forgetReports (s : Session) : Session := { s with router := { s.router with reports := [] } }

def route (act : RouterM SessionSource α) : SessionM α :=
  ExceptT.mk fun s =>
    let (answer, router) := act.run s.router
    (answer, { s with router })

def ask (f : Catalog → α) : SessionM α := return f (← get).catalog

/-- Enters a subscription under the next number. -/
def enter (subscriber selection : String) (event : EventPattern) : SessionM Nat := do
  let s ← get
  let number := s.issued
  route (Router.subscribe (.ofNumber s.series number) subscriber selection event)
  modify fun s => { s with issued := number + 1 }
  return number

/-- Whether a resource is found by asking for it, and whether its attributes match. -/
def examine (L : Lookup SessionSource) (s : Selection) (id : String) : SessionM (Bool × Bool) := do
  let probed ← route (Router.isIn L id s)
  let attributes ← route (Router.ask (L.attributes id))
  return (probed, attributes.any fun a => s.matchesResource id a)

def examineEach (L : Lookup SessionSource) (s : Selection) :
    List String → SessionM (List (String × Bool × Bool))
  | [] => return []
  | id :: ids => do
    let found ← examine L s id
    let others ← examineEach L s ids
    return (id, found) :: others

/-- Finds in three ways which resources a selection describes. All registered resources and the
given ids are examined. -/
def compare (L : Lookup SessionSource) (s : Selection) (ids : List String) :
    SessionM Comparison := do
  let registered ← route (Router.ask (L.select .all))
  let examined ← examineEach L s (registered ∪ StringSet.ofList ids).toList
  let evaluated ← route (Router.query L s)
  return {
    evaluated
    probed := StringSet.ofList ((examined.filter (·.2.1)).map (·.1))
    matched := StringSet.ofList ((examined.filter (·.2.2)).map (·.1)) }

def perform (L : Lookup SessionSource) : Command → SessionM Reply
  | .edit e => do
    let (answer, c) := (← get).catalog.apply e
    modify fun s => s.withCatalog c
    return .edit answer
  | .select key => return .ids (← ask (·.select key))
  | .contains key id => return .flag (← ask (·.contains key id))
  | .attributes id => return .attributes (← ask (·.attributes? id))
  | .isRegistered id => return .flag (← ask (·.isRegistered id))
  | .size => return .size (← ask (·.size)) (← ask (·.isEmpty))
  | .listGroups => return .ids (← ask (·.knownGroups))
  | .groupTree path => return .groupTree (← ask (·.groupTree? path))
  | .snapshot => return .snapshot (← ask (·.snapshot))
  | .query (.text input) => return .ids (← route (Router.queryText L input))
  | .query (.tree s) => return .ids (← route (Router.query L s))
  | .isIn id selection => do
    let s ← selection.resolve
    return .flag (← route (Router.isIn L id s))
  | .compare selection ids => do
    let s ← selection.resolve
    return .comparison (← compare L s ids)
  | .subscribe subscriber selection event => return .entered (← enter subscriber selection event)
  | .unsubscribe subscriber handle => do
    let h ← handle.resolve (← get).series
    return .subscription (← route (Router.unsubscribe subscriber h))
  | .unsubscribeAll subscriber =>
    return .subscriptions (← route (Router.unsubscribeAll subscriber))
  | .subscription handle => do
    let h ← handle.resolve (← get).series
    return .subscription (← route (Router.subscription h))
  | .subscriptions subscriber => return .subscriptions (← route (Router.subscriptions subscriber))
  | .dispatch id event => return .ids (← route (Router.dispatch L id event))
  | .takeCalls => do
    let calls := (← get).router.source.calls
    modify forgetCalls
    return .calls calls
  | .takeReports => do
    let reports := (← get).router.reports
    modify forgetReports
    return .reports reports

def step (L : Lookup SessionSource) (s : Session) (c : Command) : Except Error Reply × Session :=
  (perform L c).run s

/-- The answers to a list of commands and the session after them. -/
def run (L : Lookup SessionSource) : Session → List Command → List (Except Error Reply) × Session
  | s, [] => ([], s)
  | s, c :: cs =>
    let (reply, s') := step L s c
    let (replies, final) := run L s' cs
    (reply :: replies, final)

def replies (setup : SessionSetup) (commands : List Command) : List (Except Error Reply) :=
  (run setup.lookup (start (freshSeries commands)) commands).1

end Session

end ResourceRouting
