import Mathlib.Data.List.TakeWhile
import Mathlib.Data.String.Basic
import ResourceRouting.Proofs.Token.Spelling

/-!
# Readings of texts that are put together

A text is read from left to right, and what has been read of it is not read again. So a text that
consists of two parts is read as the first part and then as the second one, if the first part ends
where a token ends. No separator is needed: no token that is read could become longer by what
follows (`Token.selfDelimiting_read?`).

**Extended and shifted cursors** (`Cursor.extend`, `Cursor.shift`). In the whole text a cursor of
the first part has more left to read, and a cursor of the second part has passed more bytes. Blanks
at the end of the first part are passed together with those at the start of the second one
(`Cursor.next_extend_of_end`).

**Theorem (`readAll_compositional`).** If the first part has no error, the whole text gives the
tokens of the first part and then those of the second one; an error of the second part is found at
its byte offset behind the first part, with the same fragment. And tokens that are spelled with any
blanks around them are read back.
-/

namespace ResourceRouting

namespace Text

theorem byteCount_toList (text : String) : byteCount text.toList = text.utf8ByteSize := by
  have hlen : ∀ cs : List Char, byteCount cs = String.utf8Len cs := by
    intro cs
    induction cs with
    | nil => rfl
    | cons c cs ih => rw [byteCount_cons, String.utf8Len_cons, ih, Nat.add_comm]
  rw [hlen, ← String.utf8ByteSize_ofList, String.ofList_toList]

theorem dropBlank_eq_nil_iff {text : List Char} :
    dropBlank text = [] ↔ ∀ c ∈ text, isBlank c = true := by
  rw [dropBlank, List.dropWhile_eq_nil_iff]

theorem exists_eq_append_dropBlank (text : List Char) :
    ∃ blank, text = blank ++ dropBlank text ∧ dropBlank blank = [] := by
  refine ⟨text.takeWhile isBlank, List.takeWhile_append_dropWhile.symm, ?_⟩
  rw [dropBlank_eq_nil_iff]
  exact fun c => List.mem_takeWhile_imp

end Text

/-! ## Parts of a text -/

/-- The error as it is found with a text of so many bytes in front. -/
def Error.shift (bytes : Nat) : Error → Error
  | .unreadable offset fragment => .unreadable (bytes + offset) fragment
  | e => e

namespace Cursor

/-- The cursor at the same place with a text of so many bytes in front. -/
def shift (bytes : Nat) (c : Cursor) : Cursor := ⟨c.rest, bytes + c.position⟩

/-- The cursor at the same place of a text that goes on. -/
def extend (later : List Char) (c : Cursor) : Cursor := ⟨c.rest ++ later, c.position⟩

/-- The cursor behind all that it has not read yet, where another text begins. -/
def skipAll (later : List Char) (c : Cursor) : Cursor :=
  ⟨later, c.position + Text.byteCount c.rest⟩

@[simp] theorem rest_shift (bytes : Nat) (c : Cursor) : (c.shift bytes).rest = c.rest := rfl

theorem moveTo_shift (bytes : Nat) (c : Cursor) (rest : List Char) :
    (c.shift bytes).moveTo rest = (c.moveTo rest).shift bytes := by
  simp [moveTo, shift, Nat.add_assoc]

theorem next_shift (bytes : Nat) (c : Cursor) :
    (c.shift bytes).next = (c.next.1.mapError (Error.shift bytes), c.next.2.shift bytes) := by
  have hskip : (c.shift bytes).skipBlank = c.skipBlank.shift bytes := moveTo_shift bytes c _
  unfold next
  simp only [hskip, rest_shift]
  split
  · rfl
  · split
    · rw [moveTo_shift]; rfl
    · rfl

theorem moveTo_append (taken rest : List Char) (position : Nat) :
    moveTo ⟨taken ++ rest, position⟩ rest = ⟨rest, position + Text.byteCount taken⟩ := by
  rw [moveTo, Text.before_append]

theorem next_append_blank {blank : List Char} (h : Text.dropBlank blank = []) (text : List Char)
    (position : Nat) :
    next ⟨blank ++ text, position⟩ = next ⟨text, position + Text.byteCount blank⟩ := by
  have hskip : skipBlank ⟨blank ++ text, position⟩ =
      skipBlank ⟨text, position + Text.byteCount blank⟩ := by
    obtain ⟨front, htext, -⟩ := Text.exists_eq_append_dropBlank text
    have hwhole := moveTo_append (blank ++ front) (Text.dropBlank text) position
    have hpart := moveTo_append front (Text.dropBlank text) (position + Text.byteCount blank)
    rw [List.append_assoc, ← htext] at hwhole
    rw [← htext] at hpart
    rw [skipBlank, skipBlank]
    simp only [Text.dropBlank_append_of_nil h]
    rw [hwhole, hpart, Text.byteCount_append, Nat.add_assoc]
  unfold next
  rw [hskip]

theorem skipBlank_of_dropBlank {text : List Char} (h : Text.dropBlank text = text)
    (position : Nat) : skipBlank ⟨text, position⟩ = ⟨text, position⟩ := by
  rw [skipBlank]
  simp only [h]
  exact moveTo_append [] text position

theorem dropBlank_of_next_end {c c' : Cursor} (h : c.next = (.ok none, c')) :
    Text.dropBlank c.rest = [] := by
  unfold next at h
  simp only at h
  split at h
  · rename_i hempty
    exact List.isEmpty_iff.1 hempty
  · split at h <;> simp at h

/-- What a cursor passes with a token: blanks, and a text that is this token whatever follows. -/
theorem exists_of_next_token {c c' : Cursor} {t : Token} (h : c.next = (.ok (some t), c')) :
    ∃ blank taken, c = ⟨blank ++ (taken ++ c'.rest), c.position⟩ ∧ Text.dropBlank blank = [] ∧
      (∀ later, Token.read? (taken ++ later) = some (t, later)) ∧
      c'.position = c.position + Text.byteCount (blank ++ taken) := by
  obtain ⟨text, position⟩ := c
  obtain ⟨blank, hblank, hnil⟩ := Text.exists_eq_append_dropBlank text
  rw [hblank, next_append_blank hnil, next,
    skipBlank_of_dropBlank (Text.dropBlank_dropBlank text)] at h
  simp only at h
  split at h
  · simp at h
  · split at h
    · rename_i t' rest hread
      rw [Prod.mk.injEq, Except.ok.injEq, Option.some.injEq] at h
      obtain ⟨rfl, rfl⟩ := h
      obtain ⟨taken, htaken, hany⟩ := Token.selfDelimiting_read? hread
      rw [htaken, moveTo_append]
      refine ⟨blank, taken, ?_, hnil, hany, ?_⟩
      · rw [← htaken, ← hblank]
      · rw [Text.byteCount_append, Nat.add_assoc]
    · simp at h

/-- Such a token is read from any text that goes on behind it. -/
theorem next_of_taken {blank taken : List Char} {t : Token} (hblank : Text.dropBlank blank = [])
    (htaken : ∀ later, Token.read? (taken ++ later) = some (t, later)) (later : List Char)
    (position : Nat) : next ⟨blank ++ (taken ++ later), position⟩ =
      (.ok (some t), ⟨later, position + Text.byteCount (blank ++ taken)⟩) := by
  have hread := htaken later
  have hne : ¬(taken ++ later).isEmpty = true := by
    intro hnil
    have hlt := Token.length_read? hread
    simp [List.isEmpty_iff.1 hnil] at hlt
  rw [next_append_blank hblank, next, skipBlank_of_dropBlank (Token.dropBlank_of_read? hread)]
  simp only [if_neg hne, hread, moveTo_append]
  rw [Text.byteCount_append, Nat.add_assoc]

theorem next_extend_of_token {c c' : Cursor} {t : Token} (h : c.next = (.ok (some t), c'))
    (later : List Char) : (c.extend later).next = (.ok (some t), c'.extend later) := by
  obtain ⟨blank, taken, hc, hblank, htaken, hposition⟩ := exists_of_next_token h
  rw [hc, extend, List.append_assoc, List.append_assoc, next_of_taken hblank htaken, ← hposition]
  rfl

/-- No byte is lost between a token and the next one. -/
theorem skipAll_of_token {c c' : Cursor} {t : Token} (h : c.next = (.ok (some t), c'))
    (later : List Char) : c'.skipAll later = c.skipAll later := by
  obtain ⟨blank, taken, hc, -, -, hposition⟩ := exists_of_next_token h
  rw [hc, skipAll, skipAll, hposition]
  simp [Nat.add_assoc]

/-- Blanks at the end of a text belong to the blanks at the start of what follows. -/
theorem next_extend_of_end {c c' : Cursor} (h : c.next = (.ok none, c')) (later : List Char) :
    (c.extend later).next = (c.skipAll later).next :=
  next_append_blank (dropBlank_of_next_end h) later c.position

/-! ## Whole readings -/

/-- A reading depends only on what is read next. -/
theorem readAll_congr {c d : Cursor} (h : c.next = d.next) : c.readAll = d.readAll := by
  match hd : d.next with
  | (.ok none, d') => rw [readAll_of_end (h.trans hd), readAll_of_end hd]
  | (.ok (some t), d') => rw [readAll_of_token (h.trans hd), readAll_of_token hd]
  | (.error e, d') => rw [readAll_of_error (h.trans hd), readAll_of_error hd]

/-- The reading with a text of so many bytes in front. -/
def Reading.shift (bytes : Nat) (r : Reading) : Reading :=
  ⟨r.tokens.map fun (t, c) => (t, c.shift bytes), r.error.map (Error.shift bytes),
    r.final.shift bytes⟩

theorem readAll_shift (bytes : Nat) (c : Cursor) :
    (c.shift bytes).readAll = c.readAll.shift bytes := by
  fun_induction readAll c with
  | case1 c c' h =>
    have hshift := next_shift bytes c
    rw [h] at hshift
    rw [readAll_of_end hshift]
    rfl
  | case2 c e c' h =>
    have hshift := next_shift bytes c
    rw [h] at hshift
    rw [readAll_of_error hshift]
    rfl
  | case3 c t c' h others ih =>
    have hshift := next_shift bytes c
    rw [h] at hshift
    rw [readAll_of_token hshift, ih]
    rfl

/-- **A reading without error goes on with what is read behind it.** -/
theorem readAll_extend {c : Cursor} (h : c.readAll.error = none) (later : List Char) :
    (c.extend later).readAll =
      { (c.skipAll later).readAll with
        tokens := c.readAll.tokens.map (fun (t, c) => (t, c.extend later)) ++
          (c.skipAll later).readAll.tokens } := by
  fun_induction readAll c with
  | case1 c c' hend => exact readAll_congr (next_extend_of_end hend later)
  | case2 c e c' herror => cases h
  | case3 c t c' htoken others ih =>
    rw [readAll_of_token (next_extend_of_token htoken later), ih h, skipAll_of_token htoken]
    rfl

/-- Only the text itself can be the reason why a reading ends with an error. -/
theorem error_readAll {c : Cursor} {e : Error} (h : c.readAll.error = some e) :
    ∃ offset fragment, e = .unreadable offset fragment := by
  fun_induction readAll c with
  | case1 c c' hend => cases h
  | case2 c e' c' herror =>
    obtain rfl := Option.some.inj h
    unfold next at herror
    simp only at herror
    split at herror
    · simp at herror
    · split at herror
      · simp at herror
      · obtain ⟨rfl, -⟩ := by simpa using herror
        exact ⟨_, _, rfl⟩
  | case3 c t c' htoken others ih => exact ih h

theorem readAll_append {s t : String} (h : (ofString s).readAll.error = none) :
    (ofString (s ++ t)).readAll =
      { (ofString t).readAll.shift s.utf8ByteSize with
        tokens := (ofString s).readAll.tokens.map (fun (token, c) => (token, c.extend t.toList)) ++
          ((ofString t).readAll.shift s.utf8ByteSize).tokens } := by
  have hwhole : ofString (s ++ t) = (ofString s).extend t.toList := by
    rw [ofString, String.toList_append]
    rfl
  have hsecond : (ofString s).skipAll t.toList = (ofString t).shift s.utf8ByteSize := by
    rw [← Text.byteCount_toList, skipAll, Nat.add_comm]
    rfl
  rw [hwhole, readAll_extend h, hsecond, readAll_shift]

end Cursor

theorem TokenStream.items_append {s t : String}
    (h : (Cursor.ofString s).readAll.error = none) :
    (ofString (s ++ t)).items = (ofString s).items ++
      (ofString t).items.map (.mapError (.shift s.utf8ByteSize)) := by
  rw [ofString, ofString, ofString, items_eq_readAll, items_eq_readAll, items_eq_readAll, h,
    Cursor.readAll_append h]
  cases herror : (Cursor.ofString t).readAll.error with
  | none => simp [Cursor.Reading.shift, herror, Function.comp_def, Except.mapError]
  | some e => simp [Cursor.Reading.shift, herror, Function.comp_def, Except.mapError]

/-! ## Spelled tokens -/

namespace Token

/-- Tokens, each with blanks in front, and blanks behind them all. -/
def spread (spelled : List (String × Token)) (last : String) : String :=
  spelled.foldr (fun (blank, t) text => blank ++ t.text ++ text) last

theorem writes_spread {spelled : List (String × Token)} {last : String}
    (hblank : ∀ piece ∈ spelled, ∀ c ∈ piece.1.toList, Text.isBlank c = true)
    (hlast : ∀ c ∈ last.toList, Text.isBlank c = true) :
    Writes (spread spelled last) (spelled.map Prod.snd) := by
  induction spelled with
  | nil => exact .ofBlank (Text.dropBlank_eq_nil_iff.2 hlast)
  | cons piece spelled ih =>
    rw [List.forall_mem_cons] at hblank
    have hfront : Writes piece.1 [] := .ofBlank (Text.dropBlank_eq_nil_iff.2 hblank.1)
    exact (hfront.append (.token piece.2)).append (ih hblank.2)

end Token

namespace Cursor

/-- **Reading is compositional.** Behind a text without error another one is read as it is read
alone, and tokens that are spelled with any blanks before, between and behind them are read back. -/
theorem readAll_compositional :
    (∀ s t : String, (ofString s).readAll.error = none →
      let first := (ofString s).readAll
      let second := (ofString t).readAll
      let whole := (ofString (s ++ t)).readAll
      whole.tokens = first.tokens.map (fun (token, c) => (token, c.extend t.toList)) ++
          second.tokens.map (fun (token, c) => (token, c.shift s.utf8ByteSize)) ∧
        whole.final = second.final.shift s.utf8ByteSize ∧
        (second.error = none → whole.error = none) ∧
        (∀ e, second.error = some e → ∃ offset fragment, e = .unreadable offset fragment ∧
          whole.error = some (.unreadable (s.utf8ByteSize + offset) fragment)) ∧
        (TokenStream.ofString (s ++ t)).items = (TokenStream.ofString s).items ++
          (TokenStream.ofString t).items.map (.mapError (.shift s.utf8ByteSize))) ∧
    ∀ (spelled : List (String × Token)) (last : String),
      (∀ piece ∈ spelled, ∀ c ∈ piece.1.toList, Text.isBlank c = true) →
      (∀ c ∈ last.toList, Text.isBlank c = true) →
      let whole := (ofString (Token.spread spelled last)).readAll
      whole.tokens.map Prod.fst = spelled.map Prod.snd ∧ whole.error = none ∧
        (TokenStream.ofString (Token.spread spelled last)).items =
          (spelled.map Prod.snd).map .ok := by
  constructor
  · intro s t h first second whole
    have hwhole : whole = _ := readAll_append h
    refine ⟨by rw [hwhole]; rfl, by rw [hwhole]; rfl, ?_, ?_, ?_⟩
    · intro hnone
      rw [hwhole]
      show second.error.map _ = none
      rw [hnone]
      rfl
    · intro e he
      obtain ⟨offset, fragment, rfl⟩ := error_readAll he
      refine ⟨offset, fragment, rfl, ?_⟩
      rw [hwhole]
      show second.error.map _ = _
      rw [he]
      rfl
    · exact TokenStream.items_append h
  · intro spelled last hblank hlast whole
    have hwrites := Token.writes_spread hblank hlast
    obtain ⟨htokens, herror⟩ := readAll_of_tokenizes hwrites.tokenizes 0
    exact ⟨htokens, herror, TokenStream.items_of_writes hwrites⟩

/-- A check before a text with a stray character, which is found behind the bytes of the check;
and two tokens, spelled without a blank between them but with some around them. -/
theorem readAll_of_check_and_stray :
    let check := "id = \"\\u00e9\""
    let spelled : List (String × Token) := [("\t", .literal "\"\n"), ("", .symbol .and)]
    (ofString check).readAll.error = none ∧
      (ofString " and #").readAll.error = some (.unreadable 5 "#") ∧
      (ofString (check ++ " and #")).readAll.error = some (.unreadable 18 "#") ∧
      (TokenStream.ofString (Token.spread spelled "\u3000")).items =
        [.ok (.literal "\"\n"), .ok (.symbol .and)] := by
  intro check spelled
  have hcheck : (ofString check).readAll.error = none := by decide +kernel
  have hstray : (ofString " and #").readAll.error = some (.unreadable 5 "#") := by decide +kernel
  obtain ⟨-, -, -, herror, -⟩ := readAll_compositional.1 check " and #" hcheck
  obtain ⟨offset, fragment, hparts, hwhole⟩ := herror _ hstray
  obtain ⟨rfl, rfl⟩ : 5 = offset ∧ "#" = fragment := by simpa using hparts
  have hblank : ∀ piece ∈ spelled, ∀ c ∈ piece.1.toList, Text.isBlank c = true := by
    intro piece hpiece
    rw [← Text.dropBlank_eq_nil_iff]
    rcases List.mem_pair.1 hpiece with rfl | rfl <;> rfl
  have hlast : ∀ c ∈ "\u3000".toList, Text.isBlank c = true := Text.dropBlank_eq_nil_iff.1 rfl
  obtain ⟨-, -, hitems⟩ := readAll_compositional.2 spelled "\u3000" hblank hlast
  exact ⟨hcheck, hstray, hwhole, hitems⟩

end Cursor

end ResourceRouting
