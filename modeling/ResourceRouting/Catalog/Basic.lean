import ResourceRouting.Catalog.Postings
import ResourceRouting.Resource

/-!
# The catalog of resources

The registered resources with their attributes, indexed so that the resources under a key are found
without a search through all of them.

**State** (`Catalog`). The attributes of every registered resource, the postings of types,
interfaces and groups, and the group paths that are known. A group's postings hold the resources
that it covers, not only those that joined it. Known paths outlive their members.

**Changes.** `register`, `unregister`, `join`, `leave`, `createGroup` and `deleteGroup` answer what
changed and keep all postings in step with the attributes. `setGroups` is the one place where the
memberships of a resource change: it moves the resource between the postings of exactly those groups
whose covering changed.

**Questions.** `select` lists the resources under a key and `contains` asks for one of them, without
listing the others.
-/

namespace ResourceRouting

/-- A part of the registered resources. -/
inductive Key where
  /-- All of them. -/
  | all
  /-- Those that pass a check. For groups, the resources that the group covers. -/
  | check (c : Check)
  deriving DecidableEq, Repr, Inhabited

/-- The registered resources and the known groups. -/
structure Catalog where
  entries : Std.ExtTreeMap String Attributes
  byType : Postings
  byInterface : Postings
  byGroup : Postings
  knownGroups : StringSet
  deriving DecidableEq

namespace Catalog

def empty : Catalog := ⟨∅, ∅, ∅, ∅, ∅⟩

/-! ## Changes -/

/-- The catalog in which a path and all above it are known. -/
def learn (c : Catalog) (path : String) : Catalog :=
  { c with knownGroups := c.knownGroups ∪ StringSet.ofList (GroupPath.ancestry path) }

/-- The catalog in which a registered resource has exactly the given memberships. -/
def setGroups (c : Catalog) (id : String) (groups : StringSet) : Catalog :=
  match c.entries[id]? with
  | none => c
  | some a =>
    let previous := GroupPath.coverage a.groups
    let current := GroupPath.coverage groups
    { c with
      entries := c.entries.insert id { a with groups }
      byGroup := ((c.byGroup.dropAll (previous \ current) id).addAll (current \ previous) id) }

/-- The catalog without a resource's type and interfaces in the postings. -/
def withdraw (c : Catalog) (id : String) (a : Attributes) : Catalog :=
  { c with
    byType := c.byType.drop a.type id
    byInterface := c.byInterface.dropAll a.interfaces id }

/-- Registers a resource. If it is registered already, its type and interfaces are replaced and its
groups kept. Tells whether it is new. -/
def register (c : Catalog) (r : Resource) : Bool × Catalog :=
  let previous := c.entries[r.id]?
  let cleared :=
    match previous with
    | none => c
    | some a => c.withdraw r.id a
  let groups :=
    match previous with
    | none => ∅
    | some a => a.groups
  (previous.isNone,
    { cleared with
      entries := cleared.entries.insert r.id ⟨r.type, r.interfaces, groups⟩
      byType := cleared.byType.add r.type r.id
      byInterface := cleared.byInterface.addAll r.interfaces r.id })

/-- Forgets a resource and its memberships. Tells whether it was registered. -/
def unregister (c : Catalog) (id : String) : Bool × Catalog :=
  match c.entries[id]? with
  | none => (false, c)
  | some a =>
    let left := (c.setGroups id ∅).withdraw id a
    (true, { left with entries := left.entries.erase id })

/-- Makes a resource a member of a group. Tells whether it became one; it does not if the path is
empty, the resource is not registered, or it is a member already. -/
def join (c : Catalog) (id path : String) : Bool × Catalog :=
  if path = "" then
    (false, c)
  else
    match c.entries[id]? with
    | none => (false, c)
    | some a =>
      if path ∈ a.groups then
        (false, c)
      else
        (true, (c.setGroups id (a.groups.insert path)).learn path)

/-- Ends a membership. Tells whether there was one. The group stays known. -/
def leave (c : Catalog) (id path : String) : Bool × Catalog :=
  match c.entries[id]? with
  | none => (false, c)
  | some a =>
    if path ∈ a.groups then (true, c.setGroups id (a.groups.erase path)) else (false, c)

/-- Makes a group known that need not have members. Tells whether it was unknown. -/
def createGroup (c : Catalog) (path : String) : Bool × Catalog :=
  if path = "" then (false, c) else (!c.knownGroups.contains path, c.learn path)

/-- The resources with a membership in a group or below it. -/
def membersWithin (c : Catalog) (path : String) : Std.ExtTreeMap String Attributes :=
  c.entries.filter fun _ a => StringSet.anyMember a.groups (GroupPath.covers path)

/-- Forgets a group and all below it, and ends the memberships in them. Answers the resources whose
memberships changed. The empty path stands for all groups. -/
def deleteGroup (c : Catalog) (path : String) : StringSet × Catalog :=
  let affected := c.membersWithin path
  let left := affected.toList.foldl (fun c (id, a) =>
    c.setGroups id (StringSet.keep a.groups fun group => !GroupPath.covers path group)) c
  (StringSet.ofList affected.keys,
    { left with
      knownGroups := StringSet.keep left.knownGroups fun group => !GroupPath.covers path group })

/-! ## Questions -/

/-- What is known of a resource, if it is registered. -/
def attributes? (c : Catalog) (id : String) : Option Attributes := c.entries[id]?

def isRegistered (c : Catalog) (id : String) : Bool := c.entries.contains id

def size (c : Catalog) : Nat := c.entries.size

def isEmpty (c : Catalog) : Bool := c.entries.isEmpty

def ids (c : Catalog) : StringSet := StringSet.ofList c.entries.keys

/-- The resources under a key. -/
def select (c : Catalog) : Key → StringSet
  | .all => c.ids
  | .check (.present p) => StringSet.ofList (c.entries.filter fun _ a => a.has p).keys
  | .check (.equals .id value) => if c.entries.contains value then {value} else ∅
  | .check (.equals .type value) => c.byType.ids value
  | .check (.equals .interface value) => c.byInterface.ids value
  | .check (.equals .group value) => c.byGroup.ids value

/-- Whether a resource is under a key. No other resource is looked at. -/
def contains (c : Catalog) (key : Key) (id : String) : Bool :=
  match c.entries[id]? with
  | none => false
  | some a =>
    match key with
    | .all => true
    | .check (.present p) => a.has p
    | .check (.equals .id value) => value == id
    | .check (.equals .type value) => a.type == value
    | .check (.equals .interface value) => a.interfaces.contains value
    | .check (.equals .group value) => (c.byGroup.ids value).contains id

end Catalog

end ResourceRouting
