/-!
# Errors

What can go wrong when selections are read, handles are spelled or resources are looked up, and
the text shown for it.
-/

namespace ResourceRouting

/-- The reasons for which an operation of the library can fail. -/
inductive Error where
  /-- The text at a byte offset starts no token; the fragment shows how it goes on. -/
  | unreadable (offset : Nat) (fragment : String)
  /-- The tokens form no selection. -/
  | malformed (reason : String)
  /-- A spelled value does not have the form that it should have. -/
  | misspelled (reason : String)
  /-- The resources could not be looked up. -/
  | unavailable (reason : String)
  deriving DecidableEq, Repr, Inhabited

namespace Error

/-- The tag of an error in serialized data. -/
def tag : Error → String
  | .unreadable .. => "InvalidToken"
  | .malformed _ => "ParseError"
  | .misspelled _ => "InvalidFormat"
  | .unavailable _ => "PoisonedLockError"

def message : Error → String
  | .unreadable offset fragment => "invalid token at offset " ++ toString offset ++ ": " ++ fragment
  | .malformed reason => "parse error: " ++ reason
  | .misspelled reason => "invalid format: " ++ reason
  | .unavailable reason => "poisoned lock error: " ++ reason

/-- Whether the error lies in what the caller supplied. -/
def isInvalidInput : Error → Bool
  | .unavailable _ => false
  | _ => true

/-- At most this many characters of unreadable text are shown. -/
def fragmentLimit : Nat := 24

def unreadableAt (offset : Nat) (rest : List Char) : Error :=
  .unreadable offset (String.ofList (rest.take fragmentLimit))

end Error

end ResourceRouting
