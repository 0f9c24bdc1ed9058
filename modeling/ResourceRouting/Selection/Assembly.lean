import ResourceRouting.Selection.Basic
import ResourceRouting.Selection.Fault
import ResourceRouting.Token.Cursor

/-!
# Reading selections

A selection is put together from its tokens, one after the other, by a machine with a stack.

**Assemblies** (`Assembly`). What has been read so far: for every open parenthesis the operands that
wait for their right-hand side (`Bracket`), and what may follow (`Expectation`). `accept` takes one
token, `finish` ends the text.

**Faults** (`SyntaxFault`). An assembly refuses the first token that no selection can have at its
place.

**Items** (`Assembly.drive`). Tokens arrive through a stream that may fail, and the reader is always
one item ahead: it holds one token, and to take it is to read the next item. A failure surfaces as
soon as the token before it is taken. Where an operand or a value is due, a token is taken before it
is judged, everywhere else it is judged first.
-/

namespace ResourceRouting

/-- What waits inside one pair of parentheses, or outside all of them. -/
structure Bracket where
  /-- Terms that wait for the right-hand side of their `or`, the latest first. -/
  terms : List Selection
  /-- Factors that wait for the right-hand side of their `and`, the latest first. -/
  factors : List Selection
  /-- How many `not` stand before the factor that is due. -/
  negations : Nat
  deriving DecidableEq, Repr

namespace Bracket

def empty : Bracket := ⟨[], [], 0⟩

/-- A factor under the `not`s that stand before it. -/
def negate (b : Bracket) (factor : Selection) : Selection := b.negations.repeat .not factor

/-- The term that ends with a factor. -/
def term (b : Bracket) (factor : Selection) : Selection :=
  b.factors.foldl (fun right left => .and [left, right]) factor

/-- The predicate that ends with a factor. -/
def close (b : Bracket) (factor : Selection) : Selection :=
  b.terms.foldl (fun right left => .or [left, right]) (b.term factor)

end Bracket

/-- What an assembly waits for. -/
inductive Expectation where
  /-- An operand, or a `not` before it. -/
  | operand
  /-- The `=` after a property. -/
  | equals (p : Property)
  /-- The value of a property. -/
  | value (p : Property)
  /-- A connective, a closing parenthesis or the end, after a complete factor. -/
  | connective (factor : Selection)
  deriving DecidableEq, Repr

/-- A selection of which only a part has been read. -/
structure Assembly where
  expects : Expectation
  /-- What waits inside the innermost parentheses. -/
  inner : Bracket
  /-- What waits outside them, the innermost first. -/
  outer : List Bracket
  deriving DecidableEq, Repr

namespace Assembly

def start : Assembly := ⟨.operand, .empty, []⟩

/-- The operand that was due is complete. -/
def supply (a : Assembly) (operand : Selection) : Assembly :=
  { a with
    expects := .connective (a.inner.negate operand)
    inner := { a.inner with negations := 0 } }

/-- The assembly after one more token. -/
def accept (a : Assembly) (t : Token) : Except SyntaxFault Assembly :=
  match a.expects with
  | .operand =>
    match t with
    | .symbol .not => .ok { a with inner := { a.inner with negations := a.inner.negations + 1 } }
    | .symbol .openParen => .ok ⟨.operand, .empty, a.inner :: a.outer⟩
    | .symbol (.property p) => .ok { a with expects := .equals p }
    | .symbol s => .error (.operandExpected s)
    | .literal value => .error (.propertyExpected value)
  | .equals p =>
    match t with
    | .symbol .equals => .ok { a with expects := .value p }
    | _ => .error (.equalsExpected p)
  | .value p =>
    match t with
    | .symbol .star => .ok (a.supply (.check (.present p)))
    | .literal value => .ok (a.supply (.check (.equals p value)))
    | _ => .error (.valueExpected p t)
  | .connective factor =>
    match t with
    | .symbol .and =>
      .ok { a with
        expects := .operand
        inner := { a.inner with factors := factor :: a.inner.factors } }
    | .symbol .or =>
      .ok { a with
        expects := .operand
        inner := { a.inner with terms := a.inner.term factor :: a.inner.terms, factors := [] } }
    | _ =>
      match a.outer with
      | [] => .error (.trailing t)
      | b :: outer =>
        if t = .symbol .closeParen then
          .ok (Assembly.supply ⟨.operand, b, outer⟩ (a.inner.close factor))
        else
          .error (.closeExpected t)

/-- The selection, if the text ends here. -/
def finish (a : Assembly) : Except SyntaxFault Selection :=
  match a.expects with
  | .operand => .error .operandMissing
  | .equals p => .error (.equalsExpected p)
  | .value p => .error (.valueMissing p)
  | .connective factor =>
    if a.outer.isEmpty then .ok (a.inner.close factor) else .error .closeMissing

/-- What comes of an assembly that holds a token, and the items that stay unread. -/
def drive (a : Assembly) (held : Token) (unread : List (Except Error Token)) :
    Except Error Selection × List (Except Error Token) :=
  match a.expects with
  | .operand | .value _ =>
    -- The next item is read, then the token is judged.
    match unread with
    | [] => (((a.accept held).bind finish).mapError SyntaxFault.toError, [])
    | .error e :: later => (.error e, later)
    | .ok next :: later =>
      match a.accept held with
      | .ok b => b.drive next later
      | .error fault => (.error fault.toError, later)
  | .equals _ | .connective _ =>
    -- The token is judged, and if it is accepted, the next item is read.
    match a.accept held with
    | .error fault => (.error fault.toError, unread)
    | .ok b =>
      match unread with
      | [] => (b.finish.mapError SyntaxFault.toError, [])
      | .error e :: later => (.error e, later)
      | .ok next :: later => b.drive next later

end Assembly

namespace Selection

/-- The selection that the items spell, and the items that stay unread. -/
def readAhead : List (Except Error Token) → Except Error Selection × List (Except Error Token)
  | [] => (.error SyntaxFault.empty.toError, [])
  | .error e :: later => (.error e, later)
  | .ok t :: later => Assembly.start.drive t later

def assemble (items : List (Except Error Token)) : Except Error Selection := (readAhead items).1

def ofTokens (ts : List Token) : Except Error Selection := assemble (ts.map .ok)

def ofString (input : String) : Except Error Selection :=
  assemble (TokenStream.ofString input).items

end Selection

end ResourceRouting
