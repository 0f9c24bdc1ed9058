import ResourceRouting.Error
import ResourceRouting.Resource
import ResourceRouting.Text.Basic

/-!
# Subscriptions

Who wants to hear of which events from which resources.

**Event patterns** (`EventPattern`). Which events a subscription asks for, by their names.

**Handles** (`Handle`). A handle names one subscription. It is a number of 128 bits, written as 32
lower-case hexadecimal digits. When a handle is read, letters may be of either case, and four forms
are accepted: the 32 digits; groups of 8, 4, 4, 4 and 12 digits between hyphens; these groups in
braces; and these groups after `urn:uuid:`.
-/

namespace ResourceRouting

/-! ## Event patterns -/

/-- How a pattern is compared with the name of an event. -/
inductive PatternKind where
  /-- The name is the pattern. -/
  | exact
  /-- The name starts with the pattern. -/
  | leading
  deriving DecidableEq, Repr, Inhabited

namespace PatternKind

/-- The name of a kind in serialized data. -/
def name : PatternKind → String
  | .exact => "exact"
  | .leading => "prefix"

def ofName? (name : String) : Option PatternKind :=
  [exact, leading].find? fun kind => kind.name == name

end PatternKind

/-- A set of events, by their names. -/
structure EventPattern where
  pattern : String
  kind : PatternKind
  deriving DecidableEq, Repr

namespace EventPattern

def covers (p : EventPattern) (event : String) : Bool :=
  match p.kind with
  | .exact => event == p.pattern
  | .leading => p.pattern.toList.isPrefixOf event.toList

/-- The text of a pattern: a star stands for any continuation. -/
def render (p : EventPattern) : String :=
  match p.kind with
  | .exact => p.pattern
  | .leading => p.pattern ++ "*"

end EventPattern

/-! ## Handles -/

/-- The name of a subscription. -/
structure Handle where
  bits : BitVec 128
  deriving DecidableEq, Repr

namespace Handle

instance : Ord Handle where
  compare h k := compare h.bits.toNat k.bits.toNat

instance : Std.TransOrd Handle :=
  inferInstanceAs (Std.TransCmp (compareOn fun h : Handle => h.bits.toNat))

instance : Std.LawfulEqOrd Handle where
  eq_of_compare {h k} heq := by
    have hnat : h.bits.toNat = k.bits.toNat := Std.LawfulEqOrd.eq_of_compare heq
    cases h
    cases k
    simpa using BitVec.eq_of_toNat_eq hnat

def render (h : Handle) : String := String.ofList (Text.Hex.digits 32 h.bits.toNat)

def groupLengths : List Nat := [8, 4, 4, 4, 12]

/-- The digits of hyphenated groups with the given lengths. -/
def joinGroups? : List Nat → List Char → Option (List Char)
  | [], [] => some []
  | [], _ :: _ => none
  | [last], text => if text.length = last then some text else none
  | length :: lengths, text =>
    match text.drop length with
    | '-' :: rest => (joinGroups? lengths rest).map (text.take length ++ ·)
    | _ => none

def unbrace? : List Char → Option (List Char)
  | '\x7b' :: rest => if rest.getLast? = some '\x7d' then some rest.dropLast else none
  | _ => none

/-- What may stand before the groups, in letters of either case. -/
def scheme : List Char := "urn:uuid:".toList

def afterScheme? (text : List Char) : Option (List Char) :=
  if (text.take scheme.length).map Char.toLower = scheme then
    some (text.drop scheme.length)
  else
    none

/-- The 32 digits in a text of one of the four forms, which differ in length. -/
def digits? (text : List Char) : Option (List Char) :=
  match text.length with
  | 32 => some text
  | 36 => joinGroups? groupLengths text
  | 38 => (unbrace? text).bind (joinGroups? groupLengths)
  | 45 => (afterScheme? text).bind (joinGroups? groupLengths)
  | _ => none

/-- The handle of a text, if the text has one of the accepted forms. -/
def ofString? (text : String) : Option Handle :=
  ((digits? text.toList).bind Text.Hex.ofDigits?).map fun n => ⟨BitVec.ofNat 128 n⟩

/-- The handle of a text. The error says which text is no handle, and leaves out in what way it is
not. -/
def ofString (text : String) : Except Error Handle :=
  match ofString? text with
  | some h => .ok h
  | none => .error (.misspelled ("invalid subscription handle '" ++ text ++ "'"))

end Handle

/-! ## Subscriptions -/

/-- The wish of one subscriber. -/
structure Subscription where
  handle : Handle
  subscriber : String
  selection : Selection
  event : EventPattern
  deriving DecidableEq

namespace Subscription

/-- Whether a subscription asks for an event of a resource. -/
def wants (s : Subscription) (r : Profile) (event : String) : Bool :=
  s.event.covers event && s.selection.admits r

end Subscription

end ResourceRouting
