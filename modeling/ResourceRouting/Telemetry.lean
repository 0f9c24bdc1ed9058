/-!
# Telemetry

What is reported of queries and dispatches, and how the time of a dispatch is made up.
-/

namespace ResourceRouting

/-- A span of time in seconds and nanoseconds, of which there are less than a second's. -/
structure Duration where
  secs : Nat
  nanos : Nat
  nanos_lt : nanos < 1000000000
  deriving DecidableEq, Repr

/-- A span of some seconds and any number of nanoseconds. -/
def Duration.ofParts (secs nanos : Nat) : Duration :=
  ⟨secs + nanos / 1000000000, nanos % 1000000000, Nat.mod_lt _ (by decide)⟩

/-- A report of one query over all resources. -/
structure QueryReport where
  /-- The normalized text of the selection. -/
  selection : String
  /-- The number of resources found. -/
  matched : Nat
  deriving DecidableEq, Repr

/-- A report of one dispatch of an event. -/
structure DispatchReport where
  resource : String
  event : String
  /-- The number of subscriptions that ask for such an event. -/
  candidates : Nat
  /-- The number of subscribers found. -/
  subscribers : Nat
  deriving DecidableEq, Repr

/-- A report with the time that the operation took. -/
structure Timed (α : Type) where
  duration : Duration
  report : α
  deriving DecidableEq, Repr

/-- What a listener is told, in order. -/
inductive Telemetry where
  | query (report : QueryReport)
  | dispatch (report : DispatchReport)
  /-- The times of the phases of the dispatch that was reported last. -/
  | phases (report : DispatchReport)
  deriving DecidableEq, Repr

/-- The times of a dispatch and of its parts, in milliseconds. -/
structure PhaseTimes where
  lookup : Float
  matching : Float
  total : Float

namespace PhaseTimes

/-- The time that no part accounts for. -/
def overhead (t : PhaseTimes) : Float := t.total - (t.lookup + t.matching)

end PhaseTimes

end ResourceRouting
