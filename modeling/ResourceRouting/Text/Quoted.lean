import ResourceRouting.Text.Pattern

/-!
# Quoted text

String literals in the manner of JSON: how a text is quoted, and how a quoted text is read.

**Writing** (`quote`) escapes only what has to be escaped.

**Reading** (`read?`) takes two stages. First the literal is found: the front part of the text that
matches a pattern (`literal`). The pattern knows which escapes there are and keeps the letters in
the digits of one `u` escape to one case, but it lets control characters and any code units pass.
Then what was found is decoded as a JSON string (`decode?`). JSON lets letters of both cases stand
in one escape, but it allows no control character, and a surrogate stands for a character only as
the first or second half of a pair.

The decoder works on the text after the opening quote, one item at a time (`readItem?`), so each
item is one character of the value.
-/

namespace ResourceRouting.Text.Quoted

/-! ## Writing -/

/-- The escapes of one letter, as pairs of the letter and the character that it stands for. -/
def shortEscapes : List (Char × Char) :=
  [('"', '"'), ('\\', '\\'), ('b', '\x08'), ('f', '\x0c'), ('n', '\n'), ('r', '\r'), ('t', '\t')]

/-- Characters below the space are control characters, which never stand unescaped. -/
def isControl (c : Char) : Bool := c.toNat < 0x20

/-- One character inside a quoted text. -/
def escape (c : Char) : List Char :=
  match shortEscapes.find? (·.2 == c) with
  | some (letter, _) => ['\\', letter]
  | none => if isControl c then '\\' :: 'u' :: Hex.digits 4 c.toNat else [c]

def quote (text : List Char) : List Char := '"' :: (text.flatMap escape ++ ['"'])

def ofString (text : String) : String := String.ofList (quote text.toList)

/-! ## Finding -/

/-- One piece of a literal between its quotes. -/
def piece : Pattern :=
  .alt (.noneOf ['"', '\\']) <|
    .alt (.seq (.char '\\') (.oneOf ['"', '\\', '/', 'b', 'f', 'n', 'r', 't'])) <|
      .seq (.char '\\') (.seq (.char 'u')
        (.alt (.times 4 (.oneOf Hex.upperDigits)) (.times 4 (.oneOf Hex.lowerDigits))))

/-- A literal with both its quotes. -/
def literal : Pattern := .seq (.char '"') (.seq (.many piece) (.char '"'))

/-! ## Decoding -/

/-- The character that a letter after a backslash stands for; `/` may be escaped too. -/
def unescape? (letter : Char) : Option Char :=
  if letter = '/' then some '/' else (shortEscapes.find? (·.1 == letter)).map (·.2)

/-- Whether a code unit is the first half of a surrogate pair. -/
def isHighSurrogate (unit : Nat) : Bool := 0xD800 ≤ unit && unit < 0xDC00

/-- Whether a code unit is the second half of a surrogate pair. -/
def isLowSurrogate (unit : Nat) : Bool := 0xDC00 ≤ unit && unit < 0xE000

/-- The character of a surrogate pair. -/
def ofSurrogates (high low : Nat) : Char :=
  Char.ofNat (0x10000 + (high - 0xD800) * 0x400 + (low - 0xDC00))

/-- The code unit of a `u` escape, read after its backslash, and the text that follows. -/
def readUnit? : List Char → Option (Nat × List Char)
  | 'u' :: a :: b :: c :: d :: rest => (Hex.ofDigits? [a, b, c, d]).map (·, rest)
  | _ => none

/-- The second half of a surrogate pair, as an escape of its own, and the text that follows. -/
def readLowSurrogate? : List Char → Option (Nat × List Char)
  | '\\' :: rest => (readUnit? rest).filter (isLowSurrogate ·.1)
  | _ => none

/-- The character of an escape, read after its backslash, and the text that follows. -/
def readEscape? : List Char → Option (Char × List Char)
  | [] => none
  | letter :: rest =>
    if letter = 'u' then
      match readUnit? (letter :: rest) with
      | none => none
      | some (unit, rest) =>
        if isHighSurrogate unit then
          (readLowSurrogate? rest).map fun (low, rest) => (ofSurrogates unit low, rest)
        else if isLowSurrogate unit then
          none
        else
          some (Char.ofNat unit, rest)
    else
      (unescape? letter).map (·, rest)

/-- One character of the value, and the text that follows. The closing quote is no item. -/
def readItem? : List Char → Option (Char × List Char)
  | [] => none
  | c :: rest =>
    if c = '\\' then readEscape? rest
    else if c = '"' || isControl c then none
    else some (c, rest)

theorem length_readUnit? {text rest : List Char} {unit : Nat}
    (h : readUnit? text = some (unit, rest)) : rest.length < text.length := by
  unfold readUnit? at h
  split at h
  · simp only [Option.map_eq_some_iff, Prod.mk.injEq] at h
    obtain ⟨_, _, _, rfl⟩ := h
    simp only [List.length_cons]
    omega
  · cases h

theorem length_readLowSurrogate? {text rest : List Char} {unit : Nat}
    (h : readLowSurrogate? text = some (unit, rest)) : rest.length < text.length := by
  unfold readLowSurrogate? at h
  split at h
  · have := length_readUnit? (Option.filter_eq_some_iff.1 h).1
    simp only [List.length_cons]
    omega
  · cases h

theorem length_readEscape? {text rest : List Char} {c : Char}
    (h : readEscape? text = some (c, rest)) : rest.length < text.length := by
  unfold readEscape? at h
  split at h
  · cases h
  · split at h
    · split at h
      · cases h
      · rename_i hunit
        have hlt := length_readUnit? hunit
        split at h
        · simp only [Option.map_eq_some_iff, Prod.mk.injEq] at h
          obtain ⟨⟨low, rest'⟩, hlow, _, rfl⟩ := h
          have hlt' : rest'.length < _ := length_readLowSurrogate? hlow
          exact Nat.lt_trans hlt' hlt
        · split at h
          · cases h
          · simp only [Option.some.injEq, Prod.mk.injEq] at h
            obtain ⟨_, rfl⟩ := h
            omega
    · simp only [Option.map_eq_some_iff, Prod.mk.injEq] at h
      obtain ⟨_, _, _, rfl⟩ := h
      simp

theorem length_readItem? {text rest : List Char} {c : Char} (h : readItem? text = some (c, rest)) :
    rest.length < text.length := by
  unfold readItem? at h
  split at h
  · cases h
  · split at h
    · have := length_readEscape? h
      simp only [List.length_cons]
      omega
    · split at h
      · cases h
      · simp only [Option.some.injEq, Prod.mk.injEq] at h
        obtain ⟨_, rfl⟩ := h
        simp

/-- The items up to the closing quote, and the text after it. -/
def readItems? (text : List Char) : Option (List Char × List Char) :=
  match text with
  | '"' :: rest => some ([], rest)
  | text =>
    match _h : readItem? text with
    | none => none
    | some (c, rest) => (readItems? rest).map fun (value, rest) => (c :: value, rest)
termination_by text.length
decreasing_by exact length_readItem? _h

/-- The value of a JSON string, behind which nothing may follow. -/
def decode? : List Char → Option (List Char)
  | '"' :: text => ((readItems? text).filter (·.2.isEmpty)).map (·.1)
  | _ => none

/-! ## Reading -/

/-- The value of the literal at the start of a text, and what follows it. -/
def read? (text : List Char) : Option (List Char × List Char) :=
  (literal.find? text).bind fun (found, rest) => (decode? found).map (·, rest)

/-- A literal takes up at least its opening quote. -/
theorem length_lt_of_mem_ends {text rest : List Char} (h : rest ∈ literal.ends text) :
    rest.length < text.length := by
  obtain ⟨behind, hquote, hrest⟩ := List.mem_flatMap.1 h
  have hle := (Pattern.isSuffix_of_mem_ends _ behind rest hrest).length_le
  cases text with
  | nil => cases hquote
  | cons c text =>
    have hbehind : behind = text := by
      simp only [Pattern.char, Pattern.ends] at hquote
      split at hquote
      · exact List.mem_singleton.1 hquote
      · cases hquote
    rw [List.length_cons, ← hbehind]
    exact Nat.lt_succ_of_le hle

theorem length_read? {text value rest : List Char} (h : read? text = some (value, rest)) :
    rest.length < text.length := by
  obtain ⟨⟨found, rest'⟩, hfind, hdecode⟩ := Option.bind_eq_some_iff.1 h
  obtain ⟨_, _, heq⟩ := Option.map_eq_some_iff.1 hdecode
  obtain ⟨rest'', hhead, heq'⟩ := Option.map_eq_some_iff.1 hfind
  cases heq
  cases heq'
  exact length_lt_of_mem_ends (List.mem_of_head? hhead)

end ResourceRouting.Text.Quoted
