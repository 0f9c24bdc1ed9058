import ResourceRouting.Group.Path
import ResourceRouting.Selection.Basic

/-!
# Resources

What is known of a resource, and whether it meets a selection.

**Attributes.** Type, interfaces and explicit group memberships. A resource is registered with the
first two; groups are joined later.

**Profiles.** A resource prepared for many checks: its groups are widened once to all groups above
them, so a check on a group is a search in one set.
-/

namespace ResourceRouting

/-- A resource as it is registered. -/
structure Resource where
  id : String
  type : String
  interfaces : StringSet
  deriving DecidableEq

/-- What is known of a registered resource. -/
structure Attributes where
  type : String
  interfaces : StringSet
  /-- The groups that it joined itself. -/
  groups : StringSet
  deriving DecidableEq

namespace Attributes

def has (a : Attributes) : Property → Bool
  | .id | .type => true
  | .interface => !a.interfaces.isEmpty
  | .group => !a.groups.isEmpty

end Attributes

/-- A resource prepared for checks. -/
structure Profile where
  id : String
  type : String
  interfaces : StringSet
  /-- The groups that it is in, those above the joined ones included. -/
  covered : StringSet
  deriving DecidableEq

namespace Profile

/-- The profile of the resource with an id and attributes. -/
def ofAttributes (id : String) (a : Attributes) : Profile :=
  ⟨id, a.type, a.interfaces, GroupPath.coverage a.groups⟩

def satisfies (r : Profile) : Check → Bool
  | .present .id | .present .type => true
  | .present .interface => !r.interfaces.isEmpty
  | .present .group => !r.covered.isEmpty
  | .equals .id value => r.id == value
  | .equals .type value => r.type == value
  | .equals .interface value => r.interfaces.contains value
  | .equals .group value => r.covered.contains value

end Profile

namespace Selection

def admits (s : Selection) (r : Profile) : Bool := s.holds r.satisfies

/-- Whether the resource with an id and attributes meets a selection. -/
def matchesResource (s : Selection) (id : String) (a : Attributes) : Bool :=
  s.admits (.ofAttributes id a)

end Selection

end ResourceRouting
