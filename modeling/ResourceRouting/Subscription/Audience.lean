import ResourceRouting.Subscription.Roster

/-!
# Audiences

Which subscribers hear of an event of a resource.

The subscriptions are looked at one after the other. One whose pattern covers the event is a
candidate. A subscriber that one subscription has admitted is not asked again, though its other
subscriptions still count as candidates.
-/

namespace ResourceRouting

/-- Who hears of an event. -/
structure Audience where
  /-- The number of subscriptions whose pattern covers the event. -/
  candidates : Nat
  subscribers : StringSet
  deriving DecidableEq

namespace Audience

def empty : Audience := ⟨0, ∅⟩

/-- The audience after one more subscription has been looked at. -/
def consider (resource : Profile) (event : String) (found : Audience) (s : Subscription) :
    Audience :=
  if !s.event.covers event then
    found
  else if found.subscribers.contains s.subscriber || !s.selection.admits resource then
    { found with candidates := found.candidates + 1 }
  else
    ⟨found.candidates + 1, found.subscribers.insert s.subscriber⟩

/-- The audience among some subscriptions for an event of a resource. -/
def among (subscriptions : List Subscription) (resource : Profile) (event : String) : Audience :=
  subscriptions.foldl (consider resource event) empty

/-- The audience of an event of a resource with the given attributes. Nobody hears of a resource
that is not registered. -/
def ofEvent (roster : Roster) (id event : String) : Option Attributes → Audience
  | none => empty
  | some a => among roster.toList (.ofAttributes id a) event

end Audience

end ResourceRouting
