import ResourceRouting.Lookup
import ResourceRouting.Selection.Basic

/-!
# Evaluating selections

Two ways to put a selection to a lookup.

**All resources** (`Selection.evaluate`). The set of resources that the selection describes, from
the sets of its checks. Every operand is evaluated, whatever the others give, and a negation is
taken within all resources, which are listed before its operand is.

**One resource** (`Selection.probe`). Whether one resource is described. Checks are asked from left
to right, and no further than needed.
-/

namespace ResourceRouting.Selection

variable {σ : Type}

mutual

def evaluate (L : Lookup σ) : Selection → Access σ StringSet
  | .check c => L.select (.check c)
  | .not s => do
    let all ← L.select .all
    let excluded ← evaluate L s
    return all \ excluded
  | .join .and [] => L.select .all
  | .join .and (s :: ss) => do
    let first ← evaluate L s
    let others ← evaluateEach L ss
    return others.foldl (· ∩ ·) first
  | .join .or ss => do
    let all ← evaluateEach L ss
    return all.foldl (· ∪ ·) ∅

def evaluateEach (L : Lookup σ) : List Selection → Access σ (List StringSet)
  | [] => return []
  | s :: ss => do
    let first ← evaluate L s
    let others ← evaluateEach L ss
    return first :: others

end

mutual

def probe (L : Lookup σ) (id : String) : Selection → Access σ Bool
  | .check c => L.contains (.check c) id
  | .not s => do
    let held ← probe L id s
    return !held
  | .join op ss => probeUntil L id op ss

/-- The truth of joined operands, asked up to the first that decides. -/
def probeUntil (L : Lookup σ) (id : String) (op : Connective) : List Selection → Access σ Bool
  | [] => return op.neutral
  | s :: ss => do
    let held ← probe L id s
    if held = op.neutral then probeUntil L id op ss else return held

end

end ResourceRouting.Selection
