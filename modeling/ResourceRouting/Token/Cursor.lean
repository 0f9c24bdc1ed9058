import ResourceRouting.Error
import ResourceRouting.Text.Basic
import ResourceRouting.Token.Basic

/-!
# Reading tokens

A selection string is read token by token, with any white space between them.

**Cursors** (`Cursor`). A place in the string: the text not yet read and its byte offset. `next`
skips white space and takes one token. It moves past the white space even if no token follows, so
an error is found again at the same place.

**Streams** (`TokenStream`). The same tokens as a sequence of items that ends: each token in turn,
then at most one error. `TokenStream.items` lists them.
-/

namespace ResourceRouting

/-- A place in a selection string. -/
structure Cursor where
  /-- The text not yet read. -/
  rest : List Char
  /-- The byte offset of `rest` in the whole text. -/
  position : Nat
  deriving DecidableEq, Repr

namespace Cursor

def ofString (input : String) : Cursor := ⟨input.toList, 0⟩

/-- The cursor at `rest`, a final part of the text not yet read. -/
def moveTo (c : Cursor) (rest : List Char) : Cursor :=
  ⟨rest, c.position + Text.byteCount (Text.before c.rest rest)⟩

/-- The cursor after the white space that it stands before. -/
def skipBlank (c : Cursor) : Cursor := c.moveTo (Text.dropBlank c.rest)

/-- The token after a cursor and the cursor behind it; no token at the end of the text. -/
def next (c : Cursor) : Except Error (Option Token) × Cursor :=
  let start := c.skipBlank
  if start.rest.isEmpty then
    (.ok none, start)
  else
    match Token.read? start.rest with
    | some (t, rest) => (.ok (some t), start.moveTo rest)
    | none => (.error (.unreadableAt start.position start.rest), start)

theorem length_next {c c' : Cursor} {t : Token} (h : c.next = (.ok (some t), c')) :
    c'.rest.length < c.rest.length := by
  simp only [next] at h
  split at h
  · simp at h
  · split at h
    · rename_i hread
      simp only [Prod.mk.injEq, Except.ok.injEq, Option.some.injEq] at h
      obtain ⟨_, rfl⟩ := h
      exact Nat.lt_of_lt_of_le (Token.length_read? hread) (Text.length_dropBlank_le _)
    · simp at h

/-- The tokens of a text up to its end or to the first error. -/
structure Reading where
  /-- Each token with the cursor behind it. -/
  tokens : List (Token × Cursor)
  /-- The error, unless the end was reached. -/
  error : Option Error
  /-- Where the reading stopped. -/
  final : Cursor

/-- All tokens after a cursor, up to the end or to the first error. -/
def readAll (c : Cursor) : Reading :=
  match _h : c.next with
  | (.ok none, c') => ⟨[], none, c'⟩
  | (.error e, c') => ⟨[], some e, c'⟩
  | (.ok (some t), c') =>
    let others := c'.readAll
    { others with tokens := (t, c') :: others.tokens }
termination_by c.rest.length
decreasing_by exact length_next _h

end Cursor

/-- The items of a text, taken one by one. -/
structure TokenStream where
  cursor : Cursor
  /-- Whether an error was given out already. -/
  failed : Bool
  deriving DecidableEq, Repr

namespace TokenStream

def ofString (input : String) : TokenStream := ⟨Cursor.ofString input, false⟩

def next? (s : TokenStream) : Option (Except Error Token) × TokenStream :=
  if s.failed then
    (none, s)
  else
    match s.cursor.next with
    | (.ok none, c) => (none, ⟨c, false⟩)
    | (.ok (some t), c) => (some (.ok t), ⟨c, false⟩)
    | (.error e, c) => (some (.error e), ⟨c, true⟩)

/-- What bounds the items that are left. -/
def remaining (s : TokenStream) : Nat := if s.failed then 0 else s.cursor.rest.length + 1

theorem remaining_next? {s s' : TokenStream} {item : Except Error Token}
    (h : s.next? = (some item, s')) : s'.remaining < s.remaining := by
  unfold next? at h
  split at h
  · simp at h
  · rename_i hopen
    split at h
    · simp at h
    · rename_i hnext
      simp only [Prod.mk.injEq, Option.some.injEq] at h
      obtain ⟨_, rfl⟩ := h
      have := Cursor.length_next hnext
      simp [remaining, hopen, this]
    · simp only [Prod.mk.injEq, Option.some.injEq] at h
      obtain ⟨_, rfl⟩ := h
      simp [remaining, hopen]

/-- All items that are left, and the stream once they are taken. -/
def drain (s : TokenStream) : List (Except Error Token) × TokenStream :=
  match _h : s.next? with
  | (none, s') => ([], s')
  | (some item, s') =>
    let (items, final) := s'.drain
    (item :: items, final)
termination_by s.remaining
decreasing_by exact remaining_next? _h

def items (s : TokenStream) : List (Except Error Token) := s.drain.1

end TokenStream

end ResourceRouting
