import ResourceRouting.Serial.Value
import ResourceRouting.Text.Basic

/-!
# Complaints

What a reader of serialized data says when a text does not spell what it should spell.

A complaint has a place, the line and column at which the data is refused. Line zero stands for no
place. Words that end in a place, such as `… at line 3 column 14`, are taken apart into the words
and the place, so that a place is never given twice. Shown again, such words differ from what they
were: numbers lose their leading zeros, and a place in line zero is gone.
-/

namespace ResourceRouting

open Serial

/-- Words with the place that they speak of. -/
structure Complaint where
  words : String
  line : Nat
  column : Nat
  deriving DecidableEq, Repr

namespace Complaint

/-- What stands before the line of a place. -/
def lineMark : List Char := " at line ".toList

/-- What stands between the line and the column of a place. -/
def columnMark : List Char := " column ".toList

/-- The number of 64 bits at the start of a text that is written backwards, and the rest. -/
def backwardNumber? (text : List Char) : Option (Nat × List Char) :=
  let digits := text.takeWhile Char.isDigit
  let n := Nat.ofDigitChars 10 digits.reverse 0
  if digits.isEmpty || UInt64.size ≤ n then none else some (n, text.drop digits.length)

/-- The complaint whose place a text that is written backwards starts with. -/
def ofBackward? (text : List Char) : Option Complaint := do
  let (column, text) ← backwardNumber? text
  let text ← Text.afterStart? columnMark.reverse text
  let (line, text) ← backwardNumber? text
  let text ← Text.afterStart? lineMark.reverse text
  return ⟨String.ofList text.reverse, line, column⟩

/-- The complaint in some words; words that end in no place have none. -/
def ofWords (words : String) : Complaint :=
  (ofBackward? words.toList.reverse).getD ⟨words, 0, 0⟩

/-- The words, and the place if there is one. -/
def render (c : Complaint) : String :=
  if c.line = 0 then
    c.words
  else
    c.words ++ String.ofList lineMark ++ toString c.line ++ String.ofList columnMark ++
      toString c.column

end Complaint

namespace SerialFault

/-- What is said of a text that is not spelled right. -/
def complaint? : SerialFault → Option Complaint
  | .shape => none
  | .spelling e => some (.ofWords e.message)

end SerialFault

end ResourceRouting
