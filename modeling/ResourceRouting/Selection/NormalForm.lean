import ResourceRouting.Selection.Render

/-!
# Normal forms

Selections that differ only in the grouping and the order of operands have one normalized text.

**Flattening** (`flatten`) splices the operands of an `and` inside an `and`, and of an `or` inside
an `or`, into the outer list, and replaces a connective with fewer than two operands by what it
stands for. Rendering then sorts what is left.

**Flat selections** (`isFlat`). Where nothing is to be flattened the selection itself is rendered.
-/

namespace ResourceRouting.Selection

/-- The operands that a selection contributes to an enclosing node of a connective. -/
def operandsUnder (op : Connective) : Selection → List Selection
  | .join op' ss => if op' = op then ss else [.join op' ss]
  | s => [s]

/-- The node over some operands; fewer than two need none. -/
def joinOf (op : Connective) : List Selection → Selection
  | [] => vacuous op
  | [only] => only
  | ss => .join op ss

mutual

/-- The selection with nested nodes of the same connective merged. -/
def flatten : Selection → Selection
  | .check c => .check c
  | .not s => .not s.flatten
  | .join op ss => joinOf op (flattenUnder op ss)

/-- The operands of a node, each flattened, in one list. -/
def flattenUnder (op : Connective) : List Selection → List Selection
  | [] => []
  | s :: ss => operandsUnder op s.flatten ++ flattenUnder op ss

end

/-- Whether a selection is a node of the connective. -/
def isJoinOf (op : Connective) : Selection → Bool
  | .join op' _ => op' = op
  | _ => false

mutual

/-- Whether every connective has at least two operands and none of them uses it too. -/
def isFlat : Selection → Bool
  | .check _ => true
  | .not s => s.isFlat
  | .join op ss => 2 ≤ ss.length && areFlatUnder op ss

/-- Whether the operands of a node are flat and none uses its connective. -/
def areFlatUnder (op : Connective) : List Selection → Bool
  | [] => true
  | s :: ss => (!s.isJoinOf op && s.isFlat) && areFlatUnder op ss

end

/-- The text by which selections are compared. -/
def normalized (s : Selection) : String := if s.isFlat then s.render else s.flatten.render

def isEquivalent (s t : Selection) : Bool := s.normalized == t.normalized

@[simp] theorem flattenUnder_eq_flatMap (op : Connective) (ss : List Selection) :
    flattenUnder op ss = ss.flatMap fun s => operandsUnder op s.flatten := by
  induction ss with
  | nil => rfl
  | cons s ss ih => simp [flattenUnder, ih]

@[simp] theorem areFlatUnder_eq_all (op : Connective) (ss : List Selection) :
    areFlatUnder op ss = ss.all fun s => !s.isJoinOf op && s.isFlat := by
  induction ss with
  | nil => rfl
  | cons s ss ih => simp [areFlatUnder, ih]

@[simp] theorem flatten_check (c : Check) : (Selection.check c).flatten = .check c := rfl

@[simp] theorem flatten_not (s : Selection) : (Selection.not s).flatten = .not s.flatten := rfl

@[simp] theorem flatten_join (op : Connective) (ss : List Selection) :
    (Selection.join op ss).flatten =
      joinOf op (ss.flatMap fun s => operandsUnder op s.flatten) := by
  rw [flatten, flattenUnder_eq_flatMap]

end ResourceRouting.Selection
