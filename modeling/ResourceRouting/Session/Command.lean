import ResourceRouting.Catalog.Edit
import ResourceRouting.Catalog.GroupTree
import ResourceRouting.Lookup
import ResourceRouting.Selection.Assembly
import ResourceRouting.Subscription.Basic
import ResourceRouting.Telemetry

/-!
# Commands and replies

What can be asked of a session, and what it answers.

A selection is given as its text or ready made, a handle as its text or by the number of its
subscription. Subscriptions are numbered in the order in which they are entered. A session has a
series of handles for them: the first half of a handle is the series, the second half the number.
-/

namespace ResourceRouting

namespace Handle

/-- How many handles are in a series. -/
def seriesSize : Nat := 0x10000000000000000

def ofNumber (series n : Nat) : Handle := ⟨BitVec.ofNat 128 (series * seriesSize + n)⟩

def series (h : Handle) : Nat := h.bits.toNat / seriesSize

def number (h : Handle) : Nat := h.bits.toNat % seriesSize

variable {series n : Nat}

theorem series_ofNumber (hseries : series < seriesSize) (hn : n < seriesSize) :
    (ofNumber series n).series = series := by
  simp only [ofNumber, Handle.series, BitVec.toNat_ofNat, seriesSize] at hseries hn ⊢
  omega

theorem number_ofNumber (hn : n < seriesSize) : (ofNumber series n).number = n := by
  simp only [ofNumber, number, BitVec.toNat_ofNat, seriesSize] at hn ⊢
  omega

end Handle

/-- A selection in a command, as its text or ready made. -/
inductive SelectionSource where
  | text (input : String)
  | tree (s : Selection)

/-- A handle in a command, by the number of its subscription or as a text. -/
inductive HandleSource where
  | number (n : Nat)
  | text (input : String)

/-- One step of a session. -/
inductive Command where
  | edit (e : Edit)
  | select (key : Key)
  | contains (key : Key) (id : String)
  | attributes (id : String)
  | isRegistered (id : String)
  | size
  | listGroups
  | groupTree (path : String)
  | snapshot
  | query (selection : SelectionSource)
  | isIn (id : String) (selection : SelectionSource)
  /-- All ways to find out which resources a selection describes. -/
  | compare (selection : SelectionSource) (ids : List String)
  | subscribe (subscriber selection : String) (event : EventPattern)
  | unsubscribe (subscriber : String) (handle : HandleSource)
  | unsubscribeAll (subscriber : String)
  | subscription (handle : HandleSource)
  | subscriptions (subscriber : String)
  | dispatch (id event : String)
  /-- The calls of the lookup since they were last taken. -/
  | takeCalls
  /-- The reports since they were last taken. -/
  | takeReports

/-- All that a catalog answers about its contents. -/
structure Snapshot where
  resources : List (String × Attributes)
  present : List (Property × StringSet)
  groups : List (String × StringSet)
  tree : Option GroupTree
  size : Nat
  isEmpty : Bool

/-- The resources that a selection describes, found in three ways. -/
structure Comparison where
  evaluated : StringSet
  probed : StringSet
  matched : StringSet

/-- The answer to a command. -/
inductive Reply where
  | edit (answer : EditAnswer)
  | flag (value : Bool)
  | ids (value : StringSet)
  | attributes (value : Option Attributes)
  | size (count : Nat) (isEmpty : Bool)
  | groupTree (value : Option GroupTree)
  | snapshot (value : Snapshot)
  | comparison (value : Comparison)
  /-- The number of a new subscription. -/
  | entered (number : Nat)
  | subscription (value : Option Subscription)
  | subscriptions (value : List Subscription)
  | calls (value : List Call)
  | reports (value : List Telemetry)

namespace Catalog

def snapshot (c : Catalog) : Snapshot where
  resources := c.entries.toList
  present := Property.all.map fun p => (p, c.select (.check (.present p)))
  groups := c.knownGroups.toList.map fun path => (path, c.select (.check (.equals .group path)))
  tree := c.groupTree? ""
  size := c.size
  isEmpty := c.isEmpty

end Catalog

namespace SelectionSource

def resolve : SelectionSource → Except Error Selection
  | .text input => Selection.ofString input
  | .tree s => .ok s

end SelectionSource

namespace HandleSource

/-- The handle meant, in a session with the given series. -/
def resolve (series : Nat) : HandleSource → Except Error Handle
  | .number n => .ok (.ofNumber series n)
  | .text input => Handle.ofString input

end HandleSource

/-! ## Fresh handles -/

/-- The handle that a command gives as a text. -/
def Command.spelledHandle? : Command → Option Handle
  | .unsubscribe _ (.text input) | .subscription (.text input) => Handle.ofString? input
  | _ => none

/-- The first number that is not in a list. -/
def firstMissing (numbers : List Nat) : Nat :=
  ((List.range (numbers.length + 1)).find? (· ∉ numbers)).getD 0

/-- A series in which no command spells a handle. A session answers with numbers and not with
handles, so a text in its commands is not meant to be the handle of one of its subscriptions. -/
def freshSeries (commands : List Command) : Nat :=
  firstMissing (commands.filterMap fun c => c.spelledHandle?.map Handle.series)

theorem firstMissing_le_and_notMem (numbers : List Nat) :
    firstMissing numbers ≤ numbers.length ∧ firstMissing numbers ∉ numbers := by
  unfold firstMissing
  cases hfind : (List.range (numbers.length + 1)).find? (· ∉ numbers) with
  | some n =>
    have hrange := List.mem_of_find?_eq_some hfind
    have hmissing := List.find?_some hfind
    simp only [List.mem_range] at hrange
    simp only [decide_eq_true_eq] at hmissing
    exact ⟨Nat.le_of_lt_succ hrange, hmissing⟩
  | none =>
    -- More numbers would be in the list than it is long.
    have hsubset : List.range (numbers.length + 1) ⊆ numbers := by
      intro n hn
      simpa using List.find?_eq_none.1 hfind n hn
    have hlength := List.nodup_range.length_le_of_subset hsubset
    simp only [List.length_range] at hlength
    omega

/-- **No handle of the fresh series is spelled in the commands.** -/
theorem ofNumber_freshSeries_ne {commands : List Command} {c : Command} {h : Handle} {n : Nat}
    (hlength : commands.length < Handle.seriesSize) (hn : n < Handle.seriesSize) (hc : c ∈ commands)
    (hspelled : c.spelledHandle? = some h) : Handle.ofNumber (freshSeries commands) n ≠ h := by
  obtain ⟨hle, hmissing⟩ :=
    firstMissing_le_and_notMem (commands.filterMap fun c => c.spelledHandle?.map Handle.series)
  have hbound : freshSeries commands < Handle.seriesSize :=
    Nat.lt_of_le_of_lt (Nat.le_trans hle (List.length_filterMap_le ..)) hlength
  rintro rfl
  refine hmissing (List.mem_filterMap.2 ⟨c, hc, ?_⟩)
  rw [hspelled, Option.map_some, Handle.series_ofNumber hbound hn]
  rfl

end ResourceRouting
