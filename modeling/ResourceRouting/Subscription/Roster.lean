import ResourceRouting.Subscription.Basic
import Std.Data.ExtTreeMap

/-!
# The roster of subscriptions

The live subscriptions, found by handle and by subscriber.

**State** (`Roster`). Every subscription under its handle, and the handles of every subscriber. No
subscriber is kept without handles.

**Removal.** Only its own subscriber can end a subscription (`remove`), or all of its subscriptions
at once (`removeAll`).
-/

namespace ResourceRouting

abbrev HandleSet := Std.ExtTreeSet Handle

/-- The live subscriptions. -/
structure Roster where
  byHandle : Std.ExtTreeMap Handle Subscription
  bySubscriber : Std.ExtTreeMap String HandleSet
  deriving DecidableEq

namespace Roster

def empty : Roster := ⟨∅, ∅⟩

def handlesOf (r : Roster) (subscriber : String) : HandleSet := r.bySubscriber[subscriber]?.getD ∅

def insert (r : Roster) (s : Subscription) : Roster where
  byHandle := r.byHandle.insert s.handle s
  bySubscriber := r.bySubscriber.insert s.subscriber ((r.handlesOf s.subscriber).insert s.handle)

def find? (r : Roster) (h : Handle) : Option Subscription := r.byHandle[h]?

/-- The subscriptions of a subscriber, ordered by handle. -/
def ofSubscriber (r : Roster) (subscriber : String) : List Subscription :=
  (r.handlesOf subscriber).toList.filterMap r.find?

def erase (r : Roster) (s : Subscription) : Roster where
  byHandle := r.byHandle.erase s.handle
  bySubscriber := r.bySubscriber.alter s.subscriber fun handles =>
    handles.bind fun handles => unlessEmpty (handles.erase s.handle)

/-- Ends a subscription of a subscriber and answers it. Another subscriber's is left alone. -/
def remove (r : Roster) (subscriber : String) (h : Handle) : Option Subscription × Roster :=
  match r.find? h with
  | none => (none, r)
  | some s => if s.subscriber = subscriber then (some s, r.erase s) else (none, r)

/-- Ends all subscriptions of a subscriber and answers them. -/
def removeAll (r : Roster) (subscriber : String) : List Subscription × Roster :=
  (r.ofSubscriber subscriber,
    { byHandle := (r.handlesOf subscriber).toList.foldl (fun m h => m.erase h) r.byHandle
      bySubscriber := r.bySubscriber.erase subscriber })

def toList (r : Roster) : List Subscription := r.byHandle.values

end Roster

end ResourceRouting
