import ResourceRouting.Proofs.Text.Quoting
import ResourceRouting.Token.Cursor

/-!
# Spelled tokens are read back

A token that is spelled in its canonical way is read back from the start of any text that starts
with the spelling. No spelling of a symbol starts another one, and none starts with a quote, so no
separator has to follow (`Token.read?_text`). For the same reason a token that is read, in whatever
way it is spelled, is read from any other text that starts with it (`Token.selfDelimiting_read?`).

**Tokenization** (`Tokenizes`). The tokens of a text without their places: blanks are dropped and
one token is taken, up to the end.

**Written tokens** (`Writes`). A text writes tokens when these come first in whatever it is put in
front of. A blank writes none, a spelling writes its token, and texts that are put together write
their tokens one after the other (`Writes.append`), so printed text is followed piece by piece.

Main result: `TokenStream.items_of_writes`. The items of a text are the tokens that it writes.
-/

namespace ResourceRouting

namespace Symbol

/-- The symbol that is spelled comes first among those that a text starts with. -/
theorem read?_text (s : Symbol) (rest : List Char) :
    read? (s.text.toList ++ rest) = some (s, rest) := by
  cases s with
  | property p => cases p <;> rfl
  | _ => rfl

theorem read?_quote (rest : List Char) : read? ('"' :: rest) = none := rfl

/-- **No symbol that is read could become another one by what follows.** -/
theorem selfDelimiting_read? : Text.SelfDelimiting read? := by
  intro text rest s h
  exact ⟨s.text.toList, eq_append_of_read? h, read?_text s⟩

end Symbol

namespace Token

/-- **A spelled token is read back, whatever follows.** -/
theorem read?_text (t : Token) (rest : List Char) :
    read? (t.text.toList ++ rest) = some (t, rest) := by
  cases t with
  | symbol s =>
    rw [read?, text, Symbol.read?_text]
  | literal value =>
    have hquote : (Token.literal value).text.toList ++ rest =
        Text.Quoted.quote value.toList ++ rest := by
      rw [text, Text.Quoted.ofString, String.toList_ofList]
    have hsymbol : Symbol.read? (Text.Quoted.quote value.toList ++ rest) = none :=
      Symbol.read?_quote _
    rw [hquote, read?, hsymbol, Text.Quoted.read?_quote]
    simp

/-- A token ends with its symbol or with its closing quote, whatever follows. -/
theorem selfDelimiting_read? : Text.SelfDelimiting read? := by
  intro text rest t h
  unfold read? at h
  split at h
  · rename_i s rest' hs
    rw [Option.some.injEq, Prod.mk.injEq] at h
    obtain ⟨rfl, rfl⟩ := h
    obtain ⟨taken, rfl, htaken⟩ := Symbol.selfDelimiting_read? hs
    refine ⟨taken, rfl, fun later => ?_⟩
    rw [read?, htaken]
  · rename_i hnone
    simp only [Option.map_eq_some_iff, Prod.mk.injEq] at h
    obtain ⟨⟨value, _⟩, hquoted, rfl, rfl⟩ := h
    obtain ⟨taken, rfl, htaken⟩ := Text.Quoted.selfDelimiting_read? hquoted
    refine ⟨taken, rfl, fun later => ?_⟩
    -- A quoted text starts with its quote, which starts no symbol.
    have hsymbol : Symbol.read? (taken ++ later) = none := by
      obtain ⟨others, hquote⟩ := Text.Quoted.exists_of_read? (htaken later)
      rw [hquote, Symbol.read?_quote]
    rw [read?, hsymbol, htaken]
    rfl

theorem dropBlank_of_read? {text rest : List Char} {t : Token} (h : read? text = some (t, rest)) :
    Text.dropBlank text = text := by
  unfold read? at h
  split at h
  · rename_i s rest' hs
    rw [Symbol.eq_append_of_read? hs]
    cases s with
    | property p => cases p <;> rfl
    | _ => rfl
  · simp only [Option.map_eq_some_iff, Prod.mk.injEq] at h
    obtain ⟨_, hquoted, -⟩ := h
    obtain ⟨others, rfl⟩ := Text.Quoted.exists_of_read? hquoted
    rfl

theorem dropBlank_text (t : Token) (rest : List Char) :
    Text.dropBlank (t.text.toList ++ rest) = t.text.toList ++ rest :=
  dropBlank_of_read? (read?_text t rest)

end Token

/-- Blanks at the end of a text belong to the blanks at the start of what follows. -/
theorem Text.dropBlank_append_of_nil {blank : List Char} (h : dropBlank blank = [])
    (text : List Char) : dropBlank (blank ++ text) = dropBlank text := by
  rw [dropBlank, List.dropWhile_append, ← dropBlank, h]
  rfl

/-- The tokens of a text, with any blanks between them. -/
inductive Tokenizes : List Char → List Token → Prop
  | nil {text : List Char} (h : Text.dropBlank text = []) : Tokenizes text []
  | cons {text rest : List Char} {t : Token} {ts : List Token}
      (first : Token.read? (Text.dropBlank text) = some (t, rest)) (others : Tokenizes rest ts) :
      Tokenizes text (t :: ts)

theorem Tokenizes.append_blank {blank rest : List Char} {ts : List Token}
    (hblank : Text.dropBlank blank = []) (h : Tokenizes rest ts) :
    Tokenizes (blank ++ rest) ts := by
  have hdrop := Text.dropBlank_append_of_nil hblank rest
  cases h with
  | nil hnil => exact .nil (hdrop.trans hnil)
  | cons first others => exact .cons (hdrop ▸ first) others

/-- Wherever the text stands, its tokens come first. -/
def Writes (text : String) (ts : List Token) : Prop :=
  ∀ rest us, Tokenizes rest us → Tokenizes (text.toList ++ rest) (ts ++ us)

namespace Writes

theorem ofBlank {text : String} (h : Text.dropBlank text.toList = []) : Writes text [] :=
  fun _ _ hrest => hrest.append_blank h

theorem blank : Writes " " [] := ofBlank rfl

theorem token (t : Token) : Writes t.text [t] := by
  intro rest us h
  refine .cons ?_ h
  rw [Token.dropBlank_text, Token.read?_text]

theorem symbol (s : Symbol) : Writes s.text [.symbol s] := token (.symbol s)

theorem append {a b : String} {ts us : List Token} (ha : Writes a ts) (hb : Writes b us) :
    Writes (a ++ b) (ts ++ us) := by
  intro rest vs h
  rw [String.toList_append, List.append_assoc, List.append_assoc]
  exact ha _ _ (hb _ _ h)

theorem tokenizes {text : String} {ts : List Token} (h : Writes text ts) :
    Tokenizes text.toList ts := by
  have hend : Tokenizes [] [] := .nil rfl
  simpa using h [] [] hend

end Writes

/-! ## Streams -/

namespace Cursor

theorem next_of_dropBlank_nil {text : List Char} (h : Text.dropBlank text = []) (position : Nat) :
    (next ⟨text, position⟩).1 = .ok none := by
  simp [next, skipBlank, moveTo, h]

theorem next_of_read? {text rest : List Char} {t : Token}
    (h : Token.read? (Text.dropBlank text) = some (t, rest)) (position : Nat) :
    ∃ behind, next ⟨text, position⟩ = (.ok (some t), ⟨rest, behind⟩) := by
  have hne : Text.dropBlank text ≠ [] := by
    intro hnil
    have hlt := Token.length_read? h
    simp [hnil] at hlt
  have hread : Token.read? (skipBlank ⟨text, position⟩).rest = some (t, rest) := h
  refine ⟨((skipBlank ⟨text, position⟩).moveTo rest).position, ?_⟩
  rw [next, if_neg (by simpa [skipBlank, moveTo] using hne), hread]
  rfl

theorem readAll_of_end {c c' : Cursor} (h : c.next = (.ok none, c')) :
    c.readAll = ⟨[], none, c'⟩ := by
  rw [readAll]
  split <;> simp_all

theorem readAll_of_error {c c' : Cursor} {e : Error} (h : c.next = (.error e, c')) :
    c.readAll = ⟨[], some e, c'⟩ := by
  rw [readAll]
  split <;> simp_all

theorem readAll_of_token {c c' : Cursor} {t : Token} (h : c.next = (.ok (some t), c')) :
    c.readAll = { c'.readAll with tokens := (t, c') :: c'.readAll.tokens } := by
  rw [readAll]
  split <;> simp_all

theorem readAll_of_tokenizes {text : List Char} {ts : List Token} (h : Tokenizes text ts)
    (position : Nat) : (readAll ⟨text, position⟩).tokens.map Prod.fst = ts ∧
      (readAll ⟨text, position⟩).error = none := by
  induction h generalizing position with
  | @nil text h =>
    have hnext := next_of_dropBlank_nil h position
    match hmatch : next ⟨text, position⟩ with
    | (.ok none, c) =>
      rw [readAll_of_end hmatch]
      exact ⟨rfl, rfl⟩
    | (.ok (some t), c) =>
      rw [hmatch] at hnext
      simp at hnext
    | (.error e, c) =>
      rw [hmatch] at hnext
      cases hnext
  | @cons text rest t ts first others ih =>
    obtain ⟨behind, hnext⟩ := next_of_read? first position
    obtain ⟨htokens, herror⟩ := ih behind
    rw [readAll_of_token hnext]
    exact ⟨congrArg (t :: ·) htokens, herror⟩

end Cursor

namespace TokenStream

theorem items_of_next?_none {s : TokenStream} (h : s.next?.1 = none) : s.items = [] := by
  rw [items, drain]
  split
  · rfl
  · rename_i hsome
    rw [hsome] at h
    cases h

theorem items_of_next?_some {s later : TokenStream} {item : Except Error Token}
    (h : s.next? = (some item, later)) : s.items = item :: later.items := by
  rw [items, drain]
  split
  · rename_i hnone
    rw [hnone] at h
    cases h
  · rename_i hsome
    rw [h, Prod.mk.injEq, Option.some.injEq] at hsome
    obtain ⟨rfl, rfl⟩ := hsome
    rfl

/-- The items of a text are its tokens and the error that ends its reading. -/
theorem items_eq_readAll (c : Cursor) : items ⟨c, false⟩ =
    c.readAll.tokens.map (fun token => .ok token.1) ++ c.readAll.error.toList.map .error := by
  fun_induction Cursor.readAll c with
  | case1 c c' hend =>
    refine items_of_next?_none ?_
    simp [next?, hend]
  | case2 c e c' herror =>
    have hitem : next? ⟨c, false⟩ = (some (.error e), ⟨c', true⟩) := by simp [next?, herror]
    rw [items_of_next?_some hitem, items_of_next?_none rfl]
    rfl
  | case3 c t c' htoken others ih =>
    have hitem : next? ⟨c, false⟩ = (some (.ok t), ⟨c', false⟩) := by simp [next?, htoken]
    rw [items_of_next?_some hitem, ih]
    rfl

theorem items_of_tokenizes {text : List Char} {ts : List Token} (h : Tokenizes text ts)
    (position : Nat) : items ⟨⟨text, position⟩, false⟩ = ts.map .ok := by
  obtain ⟨htokens, herror⟩ := Cursor.readAll_of_tokenizes h position
  rw [items_eq_readAll, herror, ← htokens, List.map_map]
  exact List.append_nil _

/-- **The items of a string are the tokens that it writes.** -/
theorem items_of_writes {input : String} {ts : List Token} (h : Writes input ts) :
    (ofString input).items = ts.map .ok :=
  items_of_tokenizes h.tokenizes 0

end TokenStream

end ResourceRouting
