import ResourceRouting.Selection.Grammar

/-!
# Derivations of selections

The grammar says which tokens spell which selection, but not in how many ways.

**Derivations** (`Derivation`). The trees of the grammar: one constructor for each rule, and at the
leaves what a token adds. A derivation has its tokens and its selection, and a selection is spelled
exactly by the tokens of its derivations (`spells_iff_exists`).

**Theorem (`Derivation.eq_of_tokens_eq`).** The grammar is unambiguous: tokens have at most one
derivation at each level.

A derivation is not only found from its own tokens, but also from any that go on behind them: where
the first token behind a phrase cannot continue the phrase, the phrase and its end are determined
(`Derivation.eq_of_append`). A factor ends by itself. A term may go on with `and`, a predicate with
`and` or `or`, and nothing else.
-/

namespace ResourceRouting

/-- A tree of the grammar, at a level of binding. -/
inductive Derivation : Level → Type where
  | present (p : Property) : Derivation .factor
  | equals (p : Property) (value : String) : Derivation .factor
  | parens (inner : Derivation .predicate) : Derivation .factor
  | not (operand : Derivation .factor) : Derivation .factor
  | ofFactor (factor : Derivation .factor) : Derivation .term
  | and (left : Derivation .factor) (right : Derivation .term) : Derivation .term
  | ofTerm (term : Derivation .term) : Derivation .predicate
  | or (left : Derivation .term) (right : Derivation .predicate) : Derivation .predicate

namespace Derivation

/-- The tokens at the leaves, in order. -/
def tokens : {l : Level} → Derivation l → List Token
  | _, .present p => [.symbol (.property p), .symbol .equals, .symbol .star]
  | _, .equals p value => [.symbol (.property p), .symbol .equals, .literal value]
  | _, .parens inner => .symbol .openParen :: (inner.tokens ++ [.symbol .closeParen])
  | _, .not operand => .symbol .not :: operand.tokens
  | _, .ofFactor factor => factor.tokens
  | _, .and left right => left.tokens ++ .symbol .and :: right.tokens
  | _, .ofTerm term => term.tokens
  | _, .or left right => left.tokens ++ .symbol .or :: right.tokens

/-- The selection that is spelled. Parentheses leave no node. -/
def selection : {l : Level} → Derivation l → Selection
  | _, .present p => .check (.present p)
  | _, .equals p value => .check (.equals p value)
  | _, .parens inner => inner.selection
  | _, .not operand => .not operand.selection
  | _, .ofFactor factor => factor.selection
  | _, .and left right => .and [left.selection, right.selection]
  | _, .ofTerm term => term.selection
  | _, .or left right => .or [left.selection, right.selection]

theorem spells {l : Level} (d : Derivation l) : Spells l d.tokens d.selection := by
  induction d with
  | present p => exact .present p
  | equals p value => exact .equals p value
  | parens _ ih => exact .parens ih
  | not _ ih => exact .not ih
  | ofFactor _ ih => exact .ofFactor ih
  | and _ _ ihl ihr => exact .and ihl ihr
  | ofTerm _ ih => exact .ofTerm ih
  | or _ _ ihl ihr => exact .or ihl ihr

end Derivation

theorem spells_iff_exists {l : Level} {ts : List Token} {s : Selection} :
    Spells l ts s ↔ ∃ d : Derivation l, d.tokens = ts ∧ d.selection = s := by
  constructor
  · intro h
    induction h with
    | present p => exact ⟨.present p, rfl, rfl⟩
    | equals p value => exact ⟨.equals p value, rfl, rfl⟩
    | parens _ ih =>
      obtain ⟨d, rfl, rfl⟩ := ih
      exact ⟨.parens d, rfl, rfl⟩
    | not _ ih =>
      obtain ⟨d, rfl, rfl⟩ := ih
      exact ⟨.not d, rfl, rfl⟩
    | ofFactor _ ih =>
      obtain ⟨d, rfl, rfl⟩ := ih
      exact ⟨.ofFactor d, rfl, rfl⟩
    | and _ _ ihl ihr =>
      obtain ⟨d, rfl, rfl⟩ := ihl
      obtain ⟨e, rfl, rfl⟩ := ihr
      exact ⟨.and d e, rfl, rfl⟩
    | ofTerm _ ih =>
      obtain ⟨d, rfl, rfl⟩ := ih
      exact ⟨.ofTerm d, rfl, rfl⟩
    | or _ _ ihl ihr =>
      obtain ⟨d, rfl, rfl⟩ := ihl
      obtain ⟨e, rfl, rfl⟩ := ihr
      exact ⟨.or d e, rfl, rfl⟩
  · intro h
    obtain ⟨d, rfl, rfl⟩ := h
    exact d.spells

/-! ## Where a phrase ends -/

/-- The tokens behind a phrase of a level do not go on with the phrase. -/
def Level.EndsBefore : Level → List Token → Prop
  | .factor, _ => True
  | .term, rest => rest.head? ≠ some (.symbol .and)
  | .predicate, rest => rest.head? ≠ some (.symbol .and) ∧ rest.head? ≠ some (.symbol .or)

namespace Derivation

/-- **A phrase and its end are determined by the tokens**, if nothing behind goes on with it. -/
theorem eq_of_append {l : Level} (d d' : Derivation l) {rest rest' : List Token}
    (hend : l.EndsBefore rest) (hend' : l.EndsBefore rest')
    (h : d.tokens ++ rest = d'.tokens ++ rest') : d = d' ∧ rest = rest' := by
  induction d generalizing rest rest' with
  | present p => cases d' <;> simp_all [tokens]
  | equals p value => cases d' <;> simp_all [tokens]
  | parens inner ih =>
    cases d' with
    | parens inner' =>
      simp only [tokens, List.cons_append, List.append_assoc, List.nil_append, List.cons.injEq,
        true_and] at h
      obtain ⟨rfl, hrest⟩ := ih inner' (by simp [Level.EndsBefore]) (by simp [Level.EndsBefore]) h
      simpa using hrest
    | _ => simp [tokens] at h
  | not operand ih =>
    cases d' with
    | not operand' =>
      simp only [tokens, List.cons_append, List.cons.injEq, true_and] at h
      obtain ⟨rfl, hrest⟩ := ih operand' trivial trivial h
      exact ⟨rfl, hrest⟩
    | _ => simp [tokens] at h
  | ofFactor factor ih =>
    cases d' with
    | ofFactor factor' =>
      obtain ⟨rfl, hrest⟩ := ih factor' trivial trivial h
      exact ⟨rfl, hrest⟩
    | and left right =>
      -- The factors are the same, so `d` would be followed by the `and` of the longer term.
      simp only [tokens, List.append_assoc, List.cons_append] at h
      obtain ⟨-, rfl⟩ := ih left trivial trivial h
      exact absurd rfl hend
  | and left right ihl ihr =>
    cases d' with
    | ofFactor factor =>
      simp only [tokens, List.append_assoc, List.cons_append] at h
      obtain ⟨-, rfl⟩ := ihl factor trivial trivial h
      exact absurd rfl hend'
    | and left' right' =>
      simp only [tokens, List.append_assoc, List.cons_append] at h
      obtain ⟨rfl, hright⟩ := ihl left' trivial trivial h
      obtain ⟨rfl, hrest⟩ := ihr right' hend hend' (List.cons.inj hright).2
      exact ⟨rfl, hrest⟩
  | ofTerm term ih =>
    cases d' with
    | ofTerm term' =>
      obtain ⟨rfl, hrest⟩ := ih term' hend.1 hend'.1 h
      exact ⟨rfl, hrest⟩
    | or left right =>
      simp only [tokens, List.append_assoc, List.cons_append] at h
      obtain ⟨-, rfl⟩ := ih left hend.1 (by simp [Level.EndsBefore]) h
      exact absurd rfl hend.2
  | or left right ihl ihr =>
    cases d' with
    | ofTerm term =>
      simp only [tokens, List.append_assoc, List.cons_append] at h
      obtain ⟨-, rfl⟩ := ihl term (by simp [Level.EndsBefore]) hend'.1 h
      exact absurd rfl hend'.2
    | or left' right' =>
      simp only [tokens, List.append_assoc, List.cons_append] at h
      obtain ⟨rfl, hright⟩ :=
        ihl left' (by simp [Level.EndsBefore]) (by simp [Level.EndsBefore]) h
      obtain ⟨rfl, hrest⟩ := ihr right' hend hend' (List.cons.inj hright).2
      exact ⟨rfl, hrest⟩

theorem endsBefore_nil (l : Level) : l.EndsBefore [] := by
  cases l <;> simp [Level.EndsBefore]

/-- **The grammar is unambiguous.** -/
theorem eq_of_tokens_eq {l : Level} {d d' : Derivation l} (h : d.tokens = d'.tokens) : d = d' :=
  (eq_of_append d d' (endsBefore_nil l) (endsBefore_nil l) (congrArg (· ++ []) h)).1

end Derivation

end ResourceRouting
