import ResourceRouting.Catalog.Basic
import ResourceRouting.Error

/-!
# Looking resources up

Selections are evaluated through a lookup, which may keep a state of its own and may fail.

**Lookups** (`Lookup`). The three questions that can be asked. A catalog is one (`Catalog.lookup`);
the others are made from given ones:

- `Lookup.recorded` notes every call before it is passed on;
- `Lookup.failingAt` fails the calls with certain numbers;
- `Lookup.containsBySelect` answers whether a resource is under a key from the list of all that are.
-/

namespace ResourceRouting

/-- A computation that uses a lookup with state `σ`. The state is kept when it fails. -/
abbrev Access (σ : Type) : Type → Type := ExceptT Error (StateM σ)

/-- Read access to resources. Absence is no failure. -/
structure Lookup (σ : Type) where
  /-- The resources under a key. -/
  select : Key → Access σ StringSet
  /-- Whether a resource is under a key. -/
  contains : Key → String → Access σ Bool
  /-- What is known of a resource, if it is registered. -/
  attributes : String → Access σ (Option Attributes)

/-- A catalog answers from its own state. -/
def Catalog.lookup : Lookup Catalog where
  select key := return (← get).select key
  contains key id := return (← get).contains key id
  attributes id := return (← get).attributes? id

/-- One question to a lookup. -/
inductive Call where
  | select (key : Key)
  | contains (key : Key) (id : String)
  | attributes (id : String)
  deriving DecidableEq, Repr

/-- A state with the calls that led to it. -/
structure Recorded (σ : Type) where
  source : σ
  /-- The calls in order. -/
  calls : List Call

/-- A state with the number of calls that led to it. -/
structure Counted (σ : Type) where
  source : σ
  count : Nat

namespace Recorded

variable {σ α : Type}

def note (call : Call) (act : Access σ α) : Access (Recorded σ) α :=
  ExceptT.mk fun state =>
    let (answer, source) := act.run state.source
    (answer, ⟨source, state.calls ++ [call]⟩)

end Recorded

namespace Counted

variable {σ α : Type}

def failure (number : Nat) : Error := .unavailable ("call " ++ toString number)

/-- Counts a call and passes it on, unless the call with its number is to fail. -/
def guard (fails : Nat → Bool) (act : Access σ α) : Access (Counted σ) α :=
  ExceptT.mk fun state =>
    let number := state.count + 1
    if fails number then
      (.error (failure number), { state with count := number })
    else
      let (answer, source) := act.run state.source
      (answer, ⟨source, number⟩)

end Counted

namespace Lookup

variable {σ : Type}

def recorded (inner : Lookup σ) : Lookup (Recorded σ) where
  select key := Recorded.note (.select key) (inner.select key)
  contains key id := Recorded.note (.contains key id) (inner.contains key id)
  attributes id := Recorded.note (.attributes id) (inner.attributes id)

/-- The lookup whose calls with certain numbers fail. Calls are counted from one. -/
def failingAt (fails : Nat → Bool) (inner : Lookup σ) : Lookup (Counted σ) where
  select key := Counted.guard fails (inner.select key)
  contains key id := Counted.guard fails (inner.contains key id)
  attributes id := Counted.guard fails (inner.attributes id)

/-- The lookup that finds out whether a resource is under a key by listing the key. -/
def containsBySelect (inner : Lookup σ) : Lookup σ :=
  { inner with contains := fun key id => return (← inner.select key).contains id }

end Lookup

end ResourceRouting
