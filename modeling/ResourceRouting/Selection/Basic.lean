/-!
# Selections

A selection describes which resources are meant: checks of single properties, joined by `and`, `or`
and `not`. Four properties of a resource can be checked (`Property`), by their names.

**Meaning** (`Selection.holds`). Given the truth of every check, a selection is true or false as its
connectives say. An empty `and` is true and an empty `or` is false.

The children of a node form a list, so the type is nested; `Selection.induction` is the induction
principle in which the children's case is a statement about every member of that list.
-/

namespace ResourceRouting

/-- An attribute of a resource that a selection can test. -/
inductive Property where
  | id
  | type
  | interface
  | group
  deriving DecidableEq, Repr, Inhabited

namespace Property

def all : List Property := [.id, .type, .interface, .group]

/-- The name of a property in selections and in serialized data. -/
def name : Property → String
  | .id => "id"
  | .type => "type"
  | .interface => "interface"
  | .group => "group"

/-- The property of exactly that name, letter case included. -/
def ofName? (name : String) : Option Property := all.find? fun p => p.name == name

/-- Properties in canonical order, repetitions kept. -/
def sort (ps : List Property) : List Property := all.flatMap fun p => ps.filter (· = p)

theorem mem_all (p : Property) : p ∈ all := by cases p <;> decide

theorem ofName?_name (p : Property) : ofName? p.name = some p := by cases p <;> decide

end Property

/-- A test of one property. -/
inductive Check where
  /-- The resource has the property at all. -/
  | present (p : Property)
  /-- The resource has the property with this value. -/
  | equals (p : Property) (value : String)
  deriving DecidableEq, Repr, Inhabited

/-- The two ways in which a list of selections becomes one. -/
inductive Connective where
  | and
  | or
  deriving DecidableEq, Repr, Inhabited

namespace Connective

def keyword : Connective → String
  | .and => "and"
  | .or => "or"

/-- The truth of no operands; any operand of the other truth decides. -/
def neutral : Connective → Bool
  | .and => true
  | .or => false

end Connective

/-- A description of resources. -/
inductive Selection where
  | check (c : Check)
  | not (operand : Selection)
  | join (op : Connective) (operands : List Selection)
  deriving Repr, Inhabited

namespace Selection

@[match_pattern] abbrev and (operands : List Selection) : Selection := .join .and operands

@[match_pattern] abbrev or (operands : List Selection) : Selection := .join .or operands

/-- Induction over a selection, with the claim for all operands of a node at hand. -/
@[elab_as_elim, induction_eliminator]
theorem induction {motive : Selection → Prop} (check : ∀ c, motive (.check c))
    (not : ∀ s, motive s → motive (.not s))
    (join : ∀ op ss, (∀ s ∈ ss, motive s) → motive (.join op ss)) (s : Selection) : motive s :=
  @Selection.rec motive (fun ss => ∀ s ∈ ss, motive s) check not join (by simp)
    (fun _ _ h hs => by simpa using ⟨h, hs⟩) s

/-! ## Equality -/

mutual

def decEq : (s t : Selection) → Decidable (s = t)
  | .check c, .check d => decidable_of_iff (c = d) (by simp)
  | .not s, .not t =>
    match decEq s t with
    | isTrue h => isTrue (by simp [h])
    | isFalse h => isFalse (by simp [h])
  | .join op ss, .join op' ts =>
    match decEqList ss ts with
    | isTrue h => decidable_of_iff (op = op') (by simp [h])
    | isFalse h => isFalse (by simp [h])
  | .check _, .not _ => isFalse (by simp)
  | .check _, .join .. => isFalse (by simp)
  | .not _, .check _ => isFalse (by simp)
  | .not _, .join .. => isFalse (by simp)
  | .join .., .check _ => isFalse (by simp)
  | .join .., .not _ => isFalse (by simp)

/-- Equality of lists of selections is decided member by member. -/
def decEqList : (ss ts : List Selection) → Decidable (ss = ts)
  | [], [] => isTrue rfl
  | s :: ss, t :: ts =>
    match decEq s t, decEqList ss ts with
    | isTrue h, isTrue h' => isTrue (by simp [h, h'])
    | isFalse h, _ => isFalse (by simp [h])
    | _, isFalse h' => isFalse (by simp [h'])
  | [], _ :: _ => isFalse (by simp)
  | _ :: _, [] => isFalse (by simp)

end

instance : DecidableEq Selection := decEq

/-! ## Meaning -/

mutual

/-- The truth of a selection, given the truth of every check. -/
def holds (truth : Check → Bool) : Selection → Bool
  | .check c => truth c
  | .not s => !holds truth s
  | .join .and ss => allHold truth ss
  | .join .or ss => anyHolds truth ss

def allHold (truth : Check → Bool) : List Selection → Bool
  | [] => true
  | s :: ss => holds truth s && allHold truth ss

def anyHolds (truth : Check → Bool) : List Selection → Bool
  | [] => false
  | s :: ss => holds truth s || anyHolds truth ss

end

variable {truth : Check → Bool}

@[simp] theorem holds_check (c : Check) : (Selection.check c).holds truth = truth c := rfl

@[simp] theorem holds_not (s : Selection) : (Selection.not s).holds truth = !s.holds truth := rfl

@[simp] theorem holds_and (ss : List Selection) :
    (Selection.and ss).holds truth = ss.all (·.holds truth) := by
  rw [and, holds]
  induction ss with
  | nil => rfl
  | cons s ss ih => simp [allHold, ih]

@[simp] theorem holds_or (ss : List Selection) :
    (Selection.or ss).holds truth = ss.any (·.holds truth) := by
  rw [or, holds]
  induction ss with
  | nil => rfl
  | cons s ss ih => simp [anyHolds, ih]

end Selection

end ResourceRouting
