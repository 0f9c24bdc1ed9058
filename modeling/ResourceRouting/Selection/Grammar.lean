import ResourceRouting.Selection.Basic
import ResourceRouting.Token.Basic

/-!
# The grammar of selections

Which tokens spell which selection, as a relation and without a procedure:

    predicate = term | term "or" predicate
    term      = factor | factor "and" term
    factor    = property "=" "*" | property "=" literal | "(" predicate ")" | "not" factor

So `and` binds tighter than `or`, both group to the right into nodes of two operands, and
parentheses leave no node of their own.
-/

namespace ResourceRouting

/-- The three levels of binding. -/
inductive Level where
  | predicate
  | term
  | factor
  deriving DecidableEq, Repr

/-- At a level of binding, the tokens spell the selection. -/
inductive Spells : Level → List Token → Selection → Prop where
  | present (p : Property) :
      Spells .factor [.symbol (.property p), .symbol .equals, .symbol .star] (.check (.present p))
  | equals (p : Property) (value : String) :
      Spells .factor [.symbol (.property p), .symbol .equals, .literal value]
        (.check (.equals p value))
  | parens {ts : List Token} {s : Selection} (inner : Spells .predicate ts s) :
      Spells .factor (.symbol .openParen :: (ts ++ [.symbol .closeParen])) s
  | not {ts : List Token} {s : Selection} (operand : Spells .factor ts s) :
      Spells .factor (.symbol .not :: ts) (.not s)
  | ofFactor {ts : List Token} {s : Selection} (factor : Spells .factor ts s) : Spells .term ts s
  | and {ts us : List Token} {s t : Selection} (left : Spells .factor ts s)
      (right : Spells .term us t) : Spells .term (ts ++ .symbol .and :: us) (.and [s, t])
  | ofTerm {ts : List Token} {s : Selection} (term : Spells .term ts s) : Spells .predicate ts s
  | or {ts us : List Token} {s t : Selection} (left : Spells .term ts s)
      (right : Spells .predicate us t) : Spells .predicate (ts ++ .symbol .or :: us) (.or [s, t])

end ResourceRouting
