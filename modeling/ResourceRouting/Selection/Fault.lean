import ResourceRouting.Error
import ResourceRouting.Token.Basic

/-!
# Faults in selections

Why a sequence of tokens is no selection, and what a reader is told.
-/

namespace ResourceRouting

/-- Why tokens form no selection. -/
inductive SyntaxFault where
  /-- There are no tokens. -/
  | empty
  /-- A selection is complete, and a token follows. -/
  | trailing (found : Token)
  /-- A parenthesis has to be closed, and another token follows. -/
  | closeExpected (found : Token)
  /-- A parenthesis has to be closed, and the text ends. -/
  | closeMissing
  /-- An operand is due, and a symbol follows that starts none. -/
  | operandExpected (found : Symbol)
  /-- An operand is due, and a literal follows. -/
  | propertyExpected (found : String)
  /-- An operand is due, and the text ends. -/
  | operandMissing
  /-- No `=` follows the property. -/
  | equalsExpected (p : Property)
  /-- Neither `*` nor a literal follows the `=` of the property. -/
  | valueExpected (p : Property) (found : Token)
  /-- The text ends after the `=` of the property. -/
  | valueMissing (p : Property)
  deriving DecidableEq, Repr

namespace SyntaxFault

def message : SyntaxFault → String
  | .empty => "empty selection"
  | .trailing found => "unexpected `" ++ found.text ++ "` after a complete selection"
  | .closeExpected found => "expected `)`, found `" ++ found.text ++ "`"
  | .closeMissing => "expected `)` before end of selection"
  | .operandExpected found =>
    "expected a property name, `(` or `not`, found `" ++ found.text ++ "`"
  | .propertyExpected found =>
    "expected a property name, found `" ++ (Token.literal found).text ++ "`"
  | .operandMissing => "unexpected end of selection"
  | .equalsExpected p => "expected `=` after `" ++ p.name ++ "`"
  | .valueExpected p found =>
    "expected `*` or a quoted string after `" ++ p.name ++ "=`, found `" ++ found.text ++ "`"
  | .valueMissing p => "expected a value after `" ++ p.name ++ "=`"

def toError (fault : SyntaxFault) : Error := .malformed fault.message

end SyntaxFault

end ResourceRouting
