import ResourceRouting.Group.Tree
import ResourceRouting.Selection.Assembly
import ResourceRouting.Selection.Render
import ResourceRouting.Serial.Value
import ResourceRouting.Subscription.Basic
import ResourceRouting.Telemetry

/-!
# The serialized form of each type

For each type that is exchanged, `encode` writes a value and `decode` reads one. A selection is
exchanged as its text, so reading it back gives an equivalent selection, not always the same.
-/

namespace ResourceRouting

open Serial

namespace Property

def encode (p : Property) : Serial := .text p.name

def decode (value : Serial) : Decoded Property := require (value.name?.bind ofName?)

end Property

namespace PatternKind

def encode (kind : PatternKind) : Serial := .text kind.name

def decode (value : Serial) : Decoded PatternKind := require (value.name?.bind ofName?)

end PatternKind

namespace EventPattern

/-- An event pattern is its text and its kind, apart. -/
def encode (p : EventPattern) : Serial :=
  .fields [("pattern", .text p.pattern), ("kind", p.kind.encode)]

/-- Neither field may be missing. -/
def decode (value : Serial) : Decoded EventPattern := do
  let entries ← require (value.record? ["pattern", "kind"])
  let pattern ← textField "pattern" entries
  let kind ← PatternKind.decode (← require (field? "kind" entries))
  return ⟨pattern, kind⟩

end EventPattern

namespace Handle

def encode (h : Handle) : Serial := .text h.render

/-- Any accepted text of a handle is read. -/
def decode (value : Serial) : Decoded Handle := do
  let text ← require value.text?
  (ofString text).mapError .spelling

end Handle

namespace Selection

def encode (s : Selection) : Serial := .text s.render

/-- Any text that spells a selection is read. -/
def decode (value : Serial) : Decoded Selection := do
  let text ← require value.text?
  (ofString text).mapError .spelling

end Selection

namespace Subscription

def encode (s : Subscription) : Serial :=
  .fields [("handle", s.handle.encode), ("subscriber_id", .text s.subscriber),
    ("selection", s.selection.encode), ("event", s.event.encode)]

/-- No field may be missing. -/
def decode (value : Serial) : Decoded Subscription := do
  let entries ← require (value.record? ["handle", "subscriber_id", "selection", "event"])
  let handle ← Handle.decode (← require (field? "handle" entries))
  let subscriber ← textField "subscriber_id" entries
  let selection ← Selection.decode (← require (field? "selection" entries))
  let event ← EventPattern.decode (← require (field? "event" entries))
  return ⟨handle, subscriber, selection, event⟩

end Subscription

namespace Resource

/-- Interfaces are written only if there are any. -/
def encode (r : Resource) : Serial :=
  .fields ([("id", .text r.id), ("type", .text r.type)] ++
    if r.interfaces.isEmpty then [] else [("interfaces", ofStringSet r.interfaces)])

/-- Interfaces may be missing, and repeated ones count once. -/
def decode (value : Serial) : Decoded Resource := do
  let entries ← require (value.record? ["id", "type", "interfaces"])
  let id ← textField "id" entries
  let type ← textField "type" entries
  let interfaces ← stringSetField "interfaces" entries
  return ⟨id, type, interfaces⟩

end Resource

namespace Attributes

def encode (a : Attributes) : Serial :=
  .fields [("type", .text a.type), ("interfaces", ofStringSet a.interfaces),
    ("groups", ofStringSet a.groups)]

/-- Only the type may not be missing. -/
def decode (value : Serial) : Decoded Attributes := do
  let entries ← require (value.record? ["type", "interfaces", "groups"])
  let type ← textField "type" entries
  let interfaces ← stringSetField "interfaces" entries
  let groups ← stringSetField "groups" entries
  return ⟨type, interfaces, groups⟩

end Attributes

namespace GroupForest

/-- A forest is a field for each tree, named by its segment. -/
def encode : GroupForest → List (String × Serial)
  | .nil => []
  | .node segment resources children siblings =>
    (segment, .fields [("children", .fields children.encode), ("resources", ofStringSet resources)])
      :: siblings.encode

end GroupForest

namespace GroupTree

/-- A node is its children and its resources; both are written. -/
def encode (tree : GroupTree) : Serial :=
  .fields [("children", .fields tree.children.encode), ("resources", ofStringSet tree.resources)]

mutual

/-- Both parts of a node may be missing and are then empty. -/
def decode : Serial → Decoded GroupTree
  | .fields entries => decodeParts entries
  | .list [] => .ok .empty
  | .list [children] => do
    let children ← decodeChildren children
    return { empty with children }
  | .list [children, resources] => do
    let children ← decodeChildren children
    let resources ← require resources.stringSet?
    return ⟨resources, children⟩
  | _ => .error .shape

def decodeParts : List (String × Serial) → Decoded GroupTree
  | [] => .ok .empty
  | (name, value) :: entries => do
    let tree ← decodeParts entries
    if name = "children" then
      let children ← decodeChildren value
      return { tree with children }
    else if name = "resources" then
      let resources ← require value.stringSet?
      return { tree with resources }
    else
      return tree

def decodeChildren : Serial → Decoded GroupForest
  | .fields entries => decodeForest entries
  | _ => .error .shape

def decodeForest : List (String × Serial) → Decoded GroupForest
  | [] => .ok .nil
  | (segment, value) :: entries => do
    let tree ← decode value
    let siblings ← decodeForest entries
    return siblings.insert segment tree

end

end GroupTree

namespace Error

/-- An error is one field, named by its tag. -/
def encode (e : Error) : Serial :=
  .fields [(e.tag,
    match e with
    | .unreadable offset fragment =>
      .fields [("offset", ofNat offset), ("fragment", .text fragment)]
    | .malformed reason | .misspelled reason | .unavailable reason => .text reason)]

/-- A value with any other number of fields than one is no error. The contents of unreadable text
are read by name only. -/
def decode (value : Serial) : Decoded Error :=
  match value with
  | .fields [("InvalidToken", content)] => do
    let entries ← require content.fields?
    let offset ← require ((field? "offset" entries).bind natural?)
    let fragment ← textField "fragment" entries
    return .unreadable offset fragment
  | .fields [("ParseError", content)] => return .malformed (← require content.text?)
  | .fields [("InvalidFormat", content)] => return .misspelled (← require content.text?)
  | .fields [("PoisonedLockError", content)] => return .unavailable (← require content.text?)
  | _ => .error .shape

end Error

namespace Duration

def encode (d : Duration) : Serial := .fields [("secs", ofNat d.secs), ("nanos", ofNat d.nanos)]

end Duration

namespace QueryReport

def encodeTimed (t : Timed QueryReport) : Serial :=
  .fields [("duration", t.duration.encode), ("selection", .text t.report.selection),
    ("matched", ofNat t.report.matched)]

end QueryReport

namespace DispatchReport

def encodeTimed (t : Timed DispatchReport) : Serial :=
  .fields [("duration", t.duration.encode), ("resource_id", .text t.report.resource),
    ("event", .text t.report.event), ("candidates", ofNat t.report.candidates),
    ("subscribers", ofNat t.report.subscribers)]

end DispatchReport

end ResourceRouting
