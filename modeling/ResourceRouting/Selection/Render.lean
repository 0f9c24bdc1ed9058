import ResourceRouting.Selection.Basic
import ResourceRouting.Text.Quoted
import ResourceRouting.Text.Basic

/-!
# Rendering selections

The text of a selection:

- a check is the property, `=` and the quoted value or `*`;
- a negation is `( not … )`;
- operands are rendered, put in the order of their texts, joined by the keyword and enclosed in one
  pair of parentheses;
- a single operand is rendered alone, and no operands as the selection with the same meaning.

Every rendering is a check or stands in parentheses, so it keeps its bounds inside any other.
-/

namespace ResourceRouting

namespace Check

def render : Check → String
  | .present p => p.name ++ "=*"
  | .equals p value => p.name ++ "=" ++ Text.Quoted.ofString value

end Check

namespace Selection

def everything : Selection := .check (.present .id)

/-- The selection that a connective without operands stands for. -/
def vacuous : Connective → Selection
  | .and => everything
  | .or => .not everything

/-- The text of a negation, given that of its operand. -/
def renderNot (operand : String) : String := "( not " ++ operand ++ " )"

def renderJoin (op : Connective) : List String → String
  | [] =>
    match op with
    | .and => (Check.present .id).render
    | .or => renderNot (Check.present .id).render
  | [only] => only
  | operands =>
    "( " ++ String.intercalate (" " ++ op.keyword ++ " ") (Text.sorted operands) ++ " )"

mutual

def render : Selection → String
  | .check c => c.render
  | .not s => renderNot s.render
  | .join op ss => renderJoin op (renderEach ss)

def renderEach : List Selection → List String
  | [] => []
  | s :: ss => s.render :: renderEach ss

end

@[simp] theorem renderEach_eq_map (ss : List Selection) : renderEach ss = ss.map render := by
  induction ss with
  | nil => rfl
  | cons s ss ih => simp [renderEach, ih]

@[simp] theorem render_check (c : Check) : (Selection.check c).render = c.render := rfl

@[simp] theorem render_not (s : Selection) : (Selection.not s).render = renderNot s.render := rfl

@[simp] theorem render_join (op : Connective) (ss : List Selection) :
    (Selection.join op ss).render = renderJoin op (ss.map render) := by
  rw [render, renderEach_eq_map]

/-- A connective without operands is rendered as what it stands for. -/
theorem render_join_nil (op : Connective) :
    (Selection.join op []).render = (vacuous op).render := by
  cases op <;> rfl

end Selection

end ResourceRouting
