import ResourceRouting.StringSet
import ResourceRouting.Text.Basic

/-!
# Group paths

Groups form a hierarchy, and a path names a place in it: `House/Kitchen/Counter` lies in
`House/Kitchen`, which lies in `House`. The empty path is the root, in which every path lies.

**Ancestry.** A member of a group counts as a member of every group above it, too. `ancestry` lists
these paths from the top down to the path itself. Any string is a path, so segments may be empty.

**Covering.** `covers` tells of two paths whether one lies in the other.
-/

namespace ResourceRouting.GroupPath

def separator : Char := '/'

/-- The initial parts of a path that end before a separator, and the path itself. -/
def ancestryOf : List Char → List (List Char)
  | [] => [[]]
  | c :: rest =>
    if c = separator then [] :: (ancestryOf rest).map (c :: ·) else (ancestryOf rest).map (c :: ·)

/-- The paths above a path and the path itself, the shortest first. -/
def ancestry (path : String) : List String := (ancestryOf path.toList).map String.ofList

/-- All paths above the given ones, and these. -/
def coverage (paths : StringSet) : StringSet := StringSet.ofList (paths.toList.flatMap ancestry)

/-- Whether `path` is `above` or lies in it. -/
def covers (above path : String) : Bool :=
  above == "" ||
    match Text.afterStart? above.toList path.toList with
    | none => false
    | some [] => true
    | some (c :: _) => c == separator

/-- The segments of a path that are not empty. -/
def segments (path : List Char) : List String :=
  ((path.splitOn separator).filter fun segment => !segment.isEmpty).map String.ofList

/-- The segments by which `path` goes on below `above`, in which it lies. -/
def segmentsBelow (above path : String) : List String := segments (path.toList.drop above.length)

@[simp] theorem mem_coverage {paths : StringSet} {p : String} :
    p ∈ coverage paths ↔ ∃ path ∈ paths, p ∈ ancestry path := by
  simp [coverage]

/-! ## Ancestry and covering as statements about texts -/

/-- The ancestry of a path is the path and what stands before its separators. -/
theorem mem_ancestryOf {p q : List Char} :
    q ∈ ancestryOf p ↔ q = p ∨ ∃ rest, p = q ++ separator :: rest := by
  induction p generalizing q with
  | nil => simp [ancestryOf]
  | cons c p ih =>
    have key : q ∈ (ancestryOf p).map (c :: ·) ↔
        ∃ q', q = c :: q' ∧ (q' = p ∨ ∃ rest, p = q' ++ separator :: rest) := by
      simp only [List.mem_map, ih]
      exact exists_congr fun q' => by rw [and_comm, eq_comm]
    cases q with
    | nil =>
      unfold ancestryOf
      split
      · rename_i hc
        simp [hc]
      · rename_i hc
        simp [hc]
    | cons d q =>
      unfold ancestryOf
      split <;> simp only [List.mem_cons, reduceCtorEq, false_or, key, List.cons.injEq,
        List.cons_append] <;> grind

/-- A path covers what goes on from it after a separator, and itself; the root covers all. -/
theorem covers_iff {above path : String} :
    covers above path = true ↔
      above = "" ∨ path = above ∨ ∃ rest, path.toList = above.toList ++ separator :: rest := by
  unfold covers
  rw [Bool.or_eq_true, beq_iff_eq]
  refine or_congr_right ?_
  have hself : path = above ↔ path.toList = above.toList := String.toList_inj.symm
  rw [hself]
  split
  · rename_i h
    have hno : ∀ rest, path.toList ≠ above.toList ++ rest := fun rest hrest => by
      simp [Text.afterStart?_eq_some_iff.2 hrest] at h
    have hne := hno []
    rw [List.append_nil] at hne
    simp [hne, hno]
  · rename_i h
    simp [Text.afterStart?_eq_some_iff.1 h]
  · rename_i c rest h
    simp [Text.afterStart?_eq_some_iff.1 h]

end ResourceRouting.GroupPath
