import ResourceRouting.Proofs.Text.Items
import ResourceRouting.Proofs.Text.Pattern

/-!
# What a literal is

A literal is found by a pattern and decoded as a JSON string. Each of the two lets texts pass that
the other refuses, and together they take exactly the literals that are spelled by items.

**Found** (`Pieces`). Between its quotes the pattern takes pieces: a character, an escape of one
letter, or an escape of four digits of one case. A piece may be a control character or half of a
surrogate pair, so not all pieces are items.

**Escaped quotes** (`Escapes`). A quote is escaped if the number of backslashes directly before it
is odd. All quotes inside a piece are escaped, and behind a piece nothing is (`Piece.closed`). So
the closing quote is the first one that is not escaped, however many backslashes stand before it,
and the pattern has no choice (`prefixFree_literal`).

**Decoded.** The decoder knows nothing of pieces, and could take digits of both cases. Where pieces
stand before a quote it takes items only, each of one piece or of two (`Pieces.exists_item`).

Main results: `read?_eq_some_iff`, the composition of the two; from it `read?_quote`, a quoted text
is read back as it was, and `selfDelimiting_read?`, a literal ends at its closing quote, whatever
follows.
-/

namespace ResourceRouting.Text

/-- A reader takes a front part of a text, and takes the same part whatever follows it. -/
def SelfDelimiting {α : Type} (read? : List Char → Option (α × List Char)) : Prop :=
  ∀ {text rest : List Char} {a : α}, read? text = some (a, rest) →
    ∃ taken, text = taken ++ rest ∧ ∀ later, read? (taken ++ later) = some (a, later)

namespace Quoted

/-! ## Pieces -/

/-- What the pattern takes in one round. -/
inductive Piece : List Char → Prop
  | plain {c : Char} (hquote : c ≠ '"') (hslash : c ≠ '\\') : Piece [c]
  | letter {l c : Char} (h : (l, c) ∈ letters) : Piece ['\\', l]
  | unit {digits : List Char} {n : Nat} (h : FourDigits digits n) : Piece ('\\' :: 'u' :: digits)

/-- Pieces one after the other. -/
inductive Pieces : List Char → Prop
  | nil : Pieces []
  | cons {first others : List Char} (hfirst : Piece first) (hothers : Pieces others) :
      Pieces (first ++ others)

theorem mem_language_piece {text : List Char} : text ∈ piece.language ↔ Piece text := by
  have hletters : ∀ l, l ∈ ['"', '\\', '/', 'b', 'f', 'n', 'r', 't'] ↔ ∃ c, (l, c) ∈ letters := by
    simp [letters, exists_or]
  simp only [piece, Pattern.mem_language_alt, Pattern.mem_language_noneOf,
    Pattern.mem_language_seq, Pattern.mem_language_char, Pattern.mem_language_oneOf,
    Pattern.mem_language_times_oneOf, ← and_or_left, ← FourDigits.exists_iff, hletters]
  constructor
  · rintro (⟨c, hc, rfl⟩ | ⟨_, rfl, _, ⟨l, ⟨c, hc⟩, rfl⟩, rfl⟩ |
      ⟨_, rfl, _, ⟨_, rfl, digits, ⟨n, hn⟩, rfl⟩, rfl⟩)
    · exact .plain (fun h => hc (by simp [h])) fun h => hc (by simp [h])
    · exact .letter hc
    · exact .unit hn
  · rintro (⟨hquote, hslash⟩ | ⟨hl⟩ | ⟨hdigits⟩)
    · exact .inl ⟨_, by simp [hquote, hslash], rfl⟩
    · exact .inr (.inl ⟨_, rfl, _, ⟨_, ⟨_, hl⟩, rfl⟩, rfl⟩)
    · exact .inr (.inr ⟨_, rfl, _, ⟨_, rfl, _, ⟨_, hdigits⟩, rfl⟩, rfl⟩)

theorem mem_language_many_piece {text : List Char} :
    text ∈ (Pattern.many piece).language ↔ Pieces text := by
  constructor
  · intro h
    obtain ⟨words, rfl, hwords⟩ := Language.mem_kstar.1 h
    clear h
    induction words with
    | nil => exact .nil
    | cons word words ih =>
      rw [List.forall_mem_cons] at hwords
      exact .cons (mem_language_piece.1 hwords.1) (ih hwords.2)
  · intro h
    induction h with
    | nil => exact Language.nil_mem_kstar _
    | cons hfirst _ ih => exact Pattern.append_mem_kstar (mem_language_piece.2 hfirst) ih

theorem mem_language_literal {text : List Char} :
    text ∈ literal.language ↔ ∃ body, Pieces body ∧ text = '"' :: (body ++ ['"']) := by
  simp only [literal, Pattern.mem_language_seq, Pattern.mem_language_char]
  constructor
  · rintro ⟨_, rfl, _, ⟨body, hbody, _, rfl, rfl⟩, rfl⟩
    exact ⟨body, mem_language_many_piece.1 hbody, rfl⟩
  · rintro ⟨body, hbody, rfl⟩
    exact ⟨_, rfl, _, ⟨body, mem_language_many_piece.2 hbody, _, rfl, rfl⟩, rfl⟩

/-! ## Escaped quotes -/

/-- Whether a text escapes the character behind it: it ends with an odd number of backslashes. -/
def Escapes (front : List Char) : Prop :=
  (front.reverse.takeWhile (· == '\\')).length % 2 = 1

theorem not_escapes_nil : ¬Escapes [] := by
  simp [Escapes]

theorem escapes_concat {front : List Char} {c : Char} :
    Escapes (front ++ [c]) ↔ c = '\\' ∧ ¬Escapes front := by
  unfold Escapes
  by_cases hc : c = '\\'
  · simp [hc]
    omega
  · simp [hc]

/-- A text in which quotes are escaped and behind which nothing is. -/
def Closed (text : List Char) : Prop :=
  ∀ front, ¬Escapes front → ¬Escapes (front ++ text) ∧
    ∀ before after, text = before ++ '"' :: after → Escapes (front ++ before)

theorem closed_nil : Closed [] := by
  intro front hfront
  simpa using hfront

theorem Closed.append {text text' : List Char} (h : Closed text) (h' : Closed text') :
    Closed (text ++ text') := by
  intro front hfront
  obtain ⟨hend, hquotes⟩ := h front hfront
  obtain ⟨hend', hquotes'⟩ := h' (front ++ text) hend
  rw [List.append_assoc] at hend'
  refine ⟨hend', fun before after heq => ?_⟩
  -- The quote stands in the second part, or where it begins, or in the first part.
  rcases List.append_eq_append_iff.1 heq with ⟨before', rfl, htext'⟩ | ⟨after', rfl, hafter⟩
  · rw [← List.append_assoc]
    exact hquotes' before' after htext'
  · rcases List.cons_eq_append_iff.1 hafter with ⟨rfl, htext'⟩ | ⟨after'', rfl, -⟩
    · simpa using hquotes' [] after htext'
    · exact hquotes before after'' rfl

theorem closed_of_forall {text : List Char} (h : ∀ c ∈ text, c ≠ '"' ∧ c ≠ '\\') :
    Closed text := by
  induction text with
  | nil => exact closed_nil
  | cons c text ih =>
    rw [List.forall_mem_cons] at h
    have hc : Closed [c] := by
      intro front hfront
      refine ⟨fun hescapes => h.1.2 (escapes_concat.1 hescapes).1, fun before after heq => ?_⟩
      rcases List.cons_eq_append_iff.1 heq with ⟨rfl, hquote⟩ | ⟨before', rfl, hquote⟩
      · cases hquote
        exact absurd rfl h.1.1
      · simp at hquote
    exact hc.append (ih h.2)

/-- Whatever follows a backslash, it is escaped, and what comes then is not. -/
theorem closed_letter (l : Char) : Closed ['\\', l] := by
  intro front hfront
  have hslash : Escapes (front ++ ['\\']) := escapes_concat.2 ⟨rfl, hfront⟩
  constructor
  · rw [List.append_cons, escapes_concat]
    exact fun hescapes => hescapes.2 hslash
  · intro before after heq
    rcases List.cons_eq_append_iff.1 heq with ⟨rfl, hquote⟩ | ⟨before', rfl, hquote⟩
    · cases hquote
    · rcases List.cons_eq_append_iff.1 hquote with ⟨rfl, -⟩ | ⟨before'', rfl, hnil⟩
      · exact hslash
      · simp at hnil

theorem Piece.closed {text : List Char} (h : Piece text) : Closed text := by
  cases h with
  | plain hquote hslash => exact closed_of_forall (by simp [hquote, hslash])
  | letter h => exact closed_letter _
  | unit h =>
    have hlower : ∀ d ∈ Hex.lowerDigits, d ≠ '"' ∧ d ≠ '\\' := by simp [Hex.lowerDigits]
    have hupper : ∀ d ∈ Hex.upperDigits, d ≠ '"' ∧ d ≠ '\\' := by simp [Hex.upperDigits]
    refine (closed_letter 'u').append (closed_of_forall fun d hd => ?_)
    rcases (FourDigits.exists_iff.1 ⟨_, h⟩).2 with hall | hall
    · exact hupper d (hall d hd)
    · exact hlower d (hall d hd)

namespace Pieces

variable {body body' rest rest' value : List Char}

theorem closed (h : Pieces body) : Closed body := by
  induction h with
  | nil => exact closed_nil
  | cons hfirst _ ih => exact hfirst.closed.append ih

theorem not_escapes (h : Pieces body) : ¬Escapes body := (h.closed [] not_escapes_nil).1

theorem escapes_of_quote {before after : List Char} (h : Pieces (before ++ '"' :: after)) :
    Escapes before := (h.closed [] not_escapes_nil).2 before after rfl

/-- **Where pieces end before a quote, no others do.** -/
theorem unique (h : Pieces body) (h' : Pieces body')
    (heq : body ++ '"' :: rest = body' ++ '"' :: rest') : body = body' := by
  rcases List.append_eq_append_iff.1 heq with ⟨between, rfl, hrest⟩ | ⟨between, rfl, hrest⟩
  · rcases List.cons_eq_append_iff.1 hrest with ⟨rfl, -⟩ | ⟨between, rfl, -⟩
    · rw [List.append_nil]
    · exact absurd h'.escapes_of_quote h.not_escapes
  · rcases List.cons_eq_append_iff.1 hrest with ⟨rfl, -⟩ | ⟨between, rfl, -⟩
    · rw [List.append_nil]
    · exact absurd h.escapes_of_quote h'.not_escapes

end Pieces

theorem prefixFree_literal : literal.PrefixFree := by
  intro s hs t ht hst
  obtain ⟨body, hbody, rfl⟩ := mem_language_literal.1 hs
  obtain ⟨body', hbody', rfl⟩ := mem_language_literal.1 ht
  obtain ⟨rest, hrest⟩ := hst
  have heq : body ++ '"' :: rest = body' ++ ['"'] := by simpa using hrest
  rw [hbody.unique hbody' heq]

/-- **What is found is what the pattern matches**, and only one front part does. -/
theorem find?_literal_eq_some_iff {text found rest : List Char} :
    literal.find? text = some (found, rest) ↔
      ∃ body, Pieces body ∧ found = '"' :: (body ++ ['"']) ∧ text = found ++ rest := by
  rw [Pattern.find?_eq_some_iff prefixFree_literal, mem_language_literal]
  constructor
  · rintro ⟨⟨body, hbody, hfound⟩, htext⟩
    exact ⟨body, hbody, hfound, htext⟩
  · rintro ⟨body, hbody, hfound, htext⟩
    exact ⟨⟨body, hbody, hfound⟩, htext⟩

/-! ## Items among pieces -/

theorem mem_letters_of_unescape? {l c : Char} (h : unescape? l = some c) : (l, c) ∈ letters := by
  unfold unescape? at h
  split at h
  · rename_i hsolidus
    obtain rfl := Option.some.inj h
    subst hsolidus
    decide
  · obtain ⟨⟨l', c'⟩, hfind, rfl⟩ := Option.map_eq_some_iff.1 h
    obtain rfl : l' = l := by simpa using List.find?_some hfind
    have hshort : ∀ found ∈ shortEscapes, found ∈ letters := by decide
    exact hshort _ (List.mem_of_find?_eq_some hfind)

theorem ne_of_mem_letters {l c : Char} (h : (l, c) ∈ letters) : l ≠ 'u' := by
  rintro rfl
  simp [letters] at h

namespace Pieces

variable {body rest behind value : List Char} {n : Nat} {c : Char}

/-- The other half of a surrogate pair is one piece. -/
theorem exists_low (hbody : Pieces body)
    (h : readLowSurrogate? (body ++ '"' :: rest) = some (n, behind)) :
    ∃ digits others, FourDigits digits n ∧ (0xDC00 ≤ n ∧ n < 0xE000) ∧ Pieces others ∧
      body = '\\' :: 'u' :: digits ++ others ∧ behind = others ++ '"' :: rest := by
  cases hbody with
  | nil => simp [readLowSurrogate?] at h
  | @cons _ others hfirst hothers =>
    cases hfirst with
    | plain hquote hslash => simp [readLowSurrogate?, hslash] at h
    | letter hl => simp [readLowSurrogate?, readUnit?, ne_of_mem_letters hl] at h
    | @unit digits n' hdigits =>
      rw [List.append_assoc, List.cons_append, List.cons_append, readLowSurrogate?,
        readUnit?_of_fourDigits hdigits] at h
      obtain ⟨heq, hlow⟩ := Option.filter_eq_some_iff.1 h
      cases heq
      exact ⟨digits, others, hdigits, isLowSurrogate_iff.1 hlow, hothers, rfl, rfl⟩

/-- **What is decoded in one step is an item**, where pieces stand before a quote. Behind it there
are pieces again. -/
theorem exists_item (hbody : Pieces body) (h : readItem? (body ++ '"' :: rest) = some (c, behind)) :
    ∃ item others, Item item c ∧ Pieces others ∧ body = item ++ others ∧
      behind = others ++ '"' :: rest := by
  cases hbody with
  | nil => simp [readItem?] at h
  | @cons _ others hfirst hothers =>
    cases hfirst with
    | @plain d hquote hslash =>
      rw [List.append_assoc, List.singleton_append, readItem?, if_neg hslash] at h
      split at h
      · cases h
      · rename_i hplain
        cases h
        have hcontrol : 0x20 ≤ c.toNat := by simpa [hquote, isControl] using hplain
        exact ⟨[c], others, .plain hquote hslash hcontrol, hothers, rfl, rfl⟩
    | @letter l _ hl =>
      rw [List.append_assoc, List.cons_append, readItem?, if_pos rfl, List.singleton_append,
        readEscape?, if_neg (ne_of_mem_letters hl)] at h
      obtain ⟨d, hd, heq⟩ := Option.map_eq_some_iff.1 h
      cases heq
      exact ⟨_, others, .letter (mem_letters_of_unescape? hd), hothers, rfl, rfl⟩
    | @unit digits n hdigits =>
      rw [List.append_assoc, List.cons_append, List.cons_append,
        readItem?_of_readUnit? (readUnit?_of_fourDigits hdigits _)] at h
      split at h
      · rename_i hhigh
        obtain ⟨⟨low, _⟩, hread, heq⟩ := Option.map_eq_some_iff.1 h
        obtain ⟨rfl, rfl⟩ := Prod.mk.inj heq
        obtain ⟨digits', others', hdigits', hlow, hothers', rfl, rfl⟩ := hothers.exists_low hread
        have hhigh := isHighSurrogate_iff.1 hhigh
        have hpair : (ofSurrogates n low).toNat =
            0x10000 + (n - 0xD800) * 0x400 + (low - 0xDC00) :=
          toNat_charOfNat (.inr ⟨by omega, by omega⟩)
        exact ⟨_, others', .pair hdigits hdigits' hhigh hlow hpair, hothers', by simp, rfl⟩
      · rename_i hhigh
        split at h
        · cases h
        · rename_i hlow
          cases h
          rw [isHighSurrogate_iff] at hhigh
          rw [isLowSurrogate_iff] at hlow
          have hlt := hdigits.lt
          have hn : (Char.ofNat n).toNat = n := toNat_charOfNat (by omega)
          exact ⟨_, others, .unit (hn.symm ▸ hdigits), hothers, rfl, rfl⟩

theorem spelled_of_readItems? (hbody : Pieces body)
    (h : readItems? (body ++ '"' :: rest) = some (value, behind)) : Spelled body value := by
  generalize htext : body ++ '"' :: rest = text at h
  fun_induction readItems? text generalizing body value with
  | case1 text =>
    cases h
    -- Pieces before which nothing stands start with no quote.
    cases body with
    | nil => exact .nil
    | cons c body =>
      cases htext
      have hquote : Pieces ([] ++ '"' :: body) := hbody
      exact absurd hquote.escapes_of_quote not_escapes_nil
  | case2 => cases h
  | case3 text _ c behind' hread ih =>
    obtain ⟨⟨value', _⟩, hothers, heq⟩ := Option.map_eq_some_iff.1 h
    cases heq
    subst htext
    obtain ⟨item, others, hitem, hpieces, rfl, rfl⟩ := hbody.exists_item hread
    exact .cons hitem (ih hpieces rfl hothers)

end Pieces

/-- An item is one piece, and a surrogate pair is two. -/
theorem Item.pieces {item body : List Char} {c : Char} (h : Item item c) (hbody : Pieces body) :
    Pieces (item ++ body) := by
  cases h with
  | plain hquote hslash => exact .cons (.plain hquote hslash) hbody
  | letter h => exact .cons (.letter h) hbody
  | unit h => exact .cons (.unit h) hbody
  | pair hdigits hdigits' =>
    rw [List.append_assoc]
    exact .cons (.unit hdigits) (.cons (.unit hdigits') hbody)

theorem Spelled.pieces {body value : List Char} (h : Spelled body value) : Pieces body := by
  induction h with
  | nil => exact .nil
  | cons first _ ih => exact first.pieces ih

/-- **The pieces that can be decoded are those that are items.** -/
theorem decode?_eq_some_iff {body value : List Char} (hbody : Pieces body) :
    decode? ('"' :: (body ++ ['"'])) = some value ↔ Spelled body value := by
  constructor
  · intro h
    obtain ⟨⟨_, behind⟩, hread, rfl⟩ := Option.map_eq_some_iff.1 h
    exact hbody.spelled_of_readItems? (Option.filter_eq_some_iff.1 hread).1
  · intro h
    rw [decode?, readItems?_of_spelled h]
    rfl

/-! ## Reading -/

variable {text value rest : List Char}

/-- **What is read is what is spelled between two quotes.** -/
theorem read?_eq_some_iff : read? text = some (value, rest) ↔
    ∃ body, Spelled body value ∧ text = '"' :: (body ++ '"' :: rest) := by
  simp only [read?, Option.bind_eq_some_iff, Prod.exists, Option.map_eq_some_iff, Prod.mk.injEq]
  constructor
  · rintro ⟨found, behind, hfind, value, hdecode, rfl, rfl⟩
    obtain ⟨body, hbody, rfl, rfl⟩ := find?_literal_eq_some_iff.1 hfind
    exact ⟨body, (decode?_eq_some_iff hbody).1 hdecode, by simp⟩
  · rintro ⟨body, hbody, rfl⟩
    have hfind : literal.find? ('"' :: (body ++ '"' :: rest)) =
        some ('"' :: (body ++ ['"']), rest) :=
      find?_literal_eq_some_iff.2 ⟨body, hbody.pieces, rfl, by simp⟩
    exact ⟨_, _, hfind, value, (decode?_eq_some_iff hbody.pieces).2 hbody, rfl, rfl⟩

/-- **A quoted text is read back as it was.** -/
theorem read?_quote (value rest : List Char) :
    read? (quote value ++ rest) = some (value, rest) := by
  refine read?_eq_some_iff.2 ⟨value.flatMap escape, spelled_flatMap_escape value, ?_⟩
  rw [quote, List.cons_append, List.append_assoc, List.singleton_append]

/-- **A literal ends at its closing quote, whatever follows.** -/
theorem selfDelimiting_read? : SelfDelimiting read? := by
  intro text rest value h
  obtain ⟨body, hbody, rfl⟩ := read?_eq_some_iff.1 h
  refine ⟨'"' :: (body ++ ['"']), by simp, fun later => ?_⟩
  exact read?_eq_some_iff.2 ⟨body, hbody, by simp⟩

theorem exists_of_read? (h : read? text = some (value, rest)) : ∃ others, text = '"' :: others := by
  obtain ⟨body, -, rfl⟩ := read?_eq_some_iff.1 h
  exact ⟨_, rfl⟩

end Quoted

end ResourceRouting.Text
