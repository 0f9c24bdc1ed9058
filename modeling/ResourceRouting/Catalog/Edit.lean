import ResourceRouting.Catalog.Basic

/-!
# Histories of a catalog

The changes of a catalog as data, so that a catalog can be seen as what a history of changes leads
to.
-/

namespace ResourceRouting

/-- One change of a catalog. -/
inductive Edit where
  | register (r : Resource)
  | unregister (id : String)
  | join (id path : String)
  | leave (id path : String)
  | createGroup (path : String)
  | deleteGroup (path : String)
  deriving DecidableEq

/-- The answer to a change. -/
inductive EditAnswer where
  /-- Whether the change had an effect of its kind. -/
  | flag (value : Bool)
  /-- The resources that the change affected. -/
  | affected (ids : StringSet)
  deriving DecidableEq

namespace Catalog

/-- A change that answers with a flag. -/
def flagged (result : Bool × Catalog) : EditAnswer × Catalog := (.flag result.1, result.2)

def apply (c : Catalog) : Edit → EditAnswer × Catalog
  | .register r => flagged (c.register r)
  | .unregister id => flagged (c.unregister id)
  | .join id path => flagged (c.join id path)
  | .leave id path => flagged (c.leave id path)
  | .createGroup path => flagged (c.createGroup path)
  | .deleteGroup path =>
    let (ids, left) := c.deleteGroup path
    (.affected ids, left)

def after (c : Catalog) (e : Edit) : Catalog := (c.apply e).2

/-- What a history leads to from the empty catalog. -/
def replay (history : List Edit) : Catalog := history.foldl after empty

end Catalog

end ResourceRouting
