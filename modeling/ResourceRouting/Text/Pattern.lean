import ResourceRouting.Text.Basic

/-!
# Patterns

Regular patterns, and the front part of a text that one of them takes.

A pattern may match several front parts of a text. `ends` lists what they leave over, in the order
in which they are preferred: the first alternative comes before the second, and a repetition goes on
as long as it can before it stops anywhere else. `find?` takes the part that is preferred most.
-/

namespace ResourceRouting.Text

/-- A regular pattern. -/
inductive Pattern where
  | empty
  | oneOf (cs : List Char)
  | noneOf (cs : List Char)
  | seq (first second : Pattern)
  | alt (first second : Pattern)
  | many (p : Pattern)
  deriving DecidableEq, Repr, Inhabited

namespace Pattern

def char (c : Char) : Pattern := .oneOf [c]

def times : Nat → Pattern → Pattern
  | 0, _ => .empty
  | n + 1, p => .seq p (times n p)

/-- What is left over when steps are taken again and again, most of them first. A step that takes
nothing is not repeated. -/
def repeated (step : List Char → List (List Char)) (text : List Char) : List (List Char) :=
  ((step text).flatMap fun rest =>
    if _h : rest.length < text.length then repeated step rest else []) ++ [text]
termination_by text.length

/-- What is left over behind the front parts of a text that match, the preferred ones first. -/
def ends : Pattern → List Char → List (List Char)
  | .empty, text => [text]
  | .oneOf _, [] => []
  | .oneOf cs, c :: text => if c ∈ cs then [text] else []
  | .noneOf _, [] => []
  | .noneOf cs, c :: text => if c ∈ cs then [] else [text]
  | .seq p q, text => (p.ends text).flatMap q.ends
  | .alt p q, text =>
    -- What the first alternative leaves over, too, is not listed again.
    let first := p.ends text
    first ++ (q.ends text).filter (· ∉ first)
  | .many p, text => repeated p.ends text

/-- The preferred front part of a text that matches, and what follows it. -/
def find? (p : Pattern) (text : List Char) : Option (List Char × List Char) :=
  (p.ends text).head?.map fun rest => (before text rest, rest)

theorem isSuffix_of_mem_repeated {step : List Char → List (List Char)}
    (h : ∀ text, ∀ rest ∈ step text, rest <:+ text) (text : List Char) :
    ∀ rest ∈ repeated step text, rest <:+ text := by
  fun_induction repeated step text with
  | case1 text ih =>
    intro rest hrest
    rcases List.mem_append.1 hrest with hmore | hdone
    · obtain ⟨between, hbetween, hrest⟩ := List.mem_flatMap.1 hmore
      split at hrest
      · rename_i hlt
        exact (ih between hlt rest hrest).trans (h text between hbetween)
      · cases hrest
    · exact List.mem_singleton.1 hdone ▸ List.suffix_refl text

/-- What is left over is a final part of the text. -/
theorem isSuffix_of_mem_ends (p : Pattern) :
    ∀ text, ∀ rest ∈ p.ends text, rest <:+ text := by
  induction p with
  | empty => simp [ends]
  | oneOf cs => rintro (_ | ⟨c, text⟩) <;> simp +contextual [ends]
  | noneOf cs => rintro (_ | ⟨c, text⟩) <;> simp +contextual [ends]
  | seq p q ihp ihq =>
    intro text rest hrest
    obtain ⟨between, hbetween, hrest⟩ := List.mem_flatMap.1 hrest
    exact (ihq between rest hrest).trans (ihp text between hbetween)
  | alt p q ihp ihq =>
    intro text rest hrest
    rcases List.mem_append.1 hrest with hrest | hrest
    · exact ihp text rest hrest
    · exact ihq text rest (List.mem_filter.1 hrest).1
  | many p ih => exact isSuffix_of_mem_repeated ih

end Pattern

end ResourceRouting.Text
