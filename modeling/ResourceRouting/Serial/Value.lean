import ResourceRouting.Error
import ResourceRouting.StringSet

/-!
# Serialized data

The values in which data is exchanged, and the access to their parts.

**Records** (`Serial.record?`). A record is written as its fields by name, and is also read from the
list of their values in order. Reading is strict about types and indulgent about names: unknown
fields are ignored. A list can hold no unknown fields, so one that is too long is refused.

**Names** (`Serial.name?`). One of some named choices is written as its name, and is also read from
a single field of this name that is null.
-/

namespace ResourceRouting

/-- A value of serialized data. -/
inductive Serial where
  | null
  | bool (value : Bool)
  /-- The number `mantissa / 10 ^ scale`. -/
  | number (mantissa : Int) (scale : Nat)
  | text (value : String)
  | list (items : List Serial)
  | fields (entries : List (String × Serial))
  deriving Repr, Inhabited

/-- Why serialized data is refused. -/
inductive SerialFault where
  /-- A value has another type than it should have, or a field is missing. -/
  | shape
  /-- A text does not spell what it should spell. -/
  | spelling (e : Error)
  deriving DecidableEq, Repr

namespace Serial

abbrev Decoded : Type → Type := Except SerialFault

/-- A value that must be there. -/
def require {α : Type} : Option α → Decoded α
  | some value => .ok value
  | none => .error .shape

def ofNat (n : Nat) : Serial := .number n 0

def ofStringSet (names : StringSet) : Serial := .list (names.toList.map .text)

def text? : Serial → Option String
  | .text value => some value
  | _ => none

/-- The unsigned number of 64 bits that a value is. -/
def natural? : Serial → Option Nat
  | .number (.ofNat n) 0 => if n < UInt64.size then some n else none
  | _ => none

def stringSet? : Serial → Option StringSet
  | .list items => (items.mapM text?).map StringSet.ofList
  | _ => none

def fields? : Serial → Option (List (String × Serial))
  | .fields entries => some entries
  | _ => none

/-- The fields of a record whose fields have the given names in order; a list may end early. -/
def record? (names : List String) : Serial → Option (List (String × Serial))
  | .fields entries => some entries
  | .list items => if items.length ≤ names.length then some (names.zip items) else none
  | _ => none

def name? : Serial → Option String
  | .text value => some value
  | .fields [(name, .null)] => some name
  | _ => none

def field? (name : String) (entries : List (String × Serial)) : Option Serial :=
  (entries.find? (·.1 == name)).map (·.2)

/-- The text in a field that must be there. -/
def textField (name : String) (entries : List (String × Serial)) : Decoded String :=
  require ((field? name entries).bind text?)

/-- The set of texts in a field; a missing field means the empty set. -/
def stringSetField (name : String) (entries : List (String × Serial)) : Decoded StringSet :=
  match field? name entries with
  | none => .ok ∅
  | some value => require value.stringSet?

end Serial

end ResourceRouting
