import ResourceRouting.Proofs.Selection.Rereading
import ResourceRouting.Proofs.Token.Composition

/-!
# Accepted texts

A text is accepted, and gives a selection, exactly when it writes the tokens of a predicate that
spells the selection (`Selection.ofString_eq_ok_iff`). To write tokens means to give them wherever
the text stands, so an accepted text keeps what it spells inside any other text.

In parentheses an accepted text is one factor, whatever its outermost connective is
(`Selection.stands_parens`). So texts in parentheses are joined and negated as the selections that
they give are: no part of them is taken for an operand of what stands behind the closing
parenthesis.
-/

namespace ResourceRouting

/-! ## Written tokens -/

namespace Cursor

theorem read?_of_next {c c' : Cursor} {t : Token} (h : c.next = (.ok (some t), c')) :
    Token.read? (Text.dropBlank c.rest) = some (t, c'.rest) := by
  obtain ⟨blank, taken, hc, hblank, htaken, -⟩ := exists_of_next_token h
  have hrest : c.rest = blank ++ (taken ++ c'.rest) := congrArg Cursor.rest hc
  have hread := htaken c'.rest
  rw [hrest, Text.dropBlank_append_of_nil hblank, Token.dropBlank_of_read? hread, hread]

theorem tokenizes_of_readAll {c : Cursor} (h : c.readAll.error = none) :
    Tokenizes c.rest (c.readAll.tokens.map Prod.fst) := by
  fun_induction readAll c with
  | case1 c c' hend => exact .nil (dropBlank_of_next_end hend)
  | case2 c e c' herror => cases h
  | case3 c t c' htoken others ih => exact .cons (read?_of_next htoken) (ih h)

end Cursor

/-- Texts that are put together give their tokens one after the other. -/
theorem Tokenizes.append {text rest : List Char} {ts us : List Token} (h : Tokenizes text ts)
    (hrest : Tokenizes rest us) : Tokenizes (text ++ rest) (ts ++ us) := by
  induction h with
  | nil hblank => exact hrest.append_blank hblank
  | @cons text later t ts first _ ih =>
    refine .cons ?_ ih
    obtain ⟨blank, htext, hblank⟩ := Text.exists_eq_append_dropBlank text
    obtain ⟨taken, htaken, hany⟩ := Token.selfDelimiting_read? first
    have hread := hany (later ++ rest)
    rw [htext, htaken, List.append_assoc, List.append_assoc, Text.dropBlank_append_of_nil hblank,
      Token.dropBlank_of_read? hread, hread]

theorem writes_iff_tokenizes {text : String} {ts : List Token} :
    Writes text ts ↔ Tokenizes text.toList ts :=
  ⟨Writes.tokenizes, fun h _ _ hrest => h.append hrest⟩

/-! ## Accepted texts -/

theorem Assembly.exists_tokens_of_run {a : Assembly} {items : List (Except Error Token)}
    {s : Selection} (h : a.run items = .ok s) : ∃ ts : List Token, items = ts.map .ok := by
  induction items generalizing a with
  | nil => exact ⟨[], rfl⟩
  | cons item items ih =>
    cases item with
    | error e => cases h
    | ok t =>
      rw [run] at h
      split at h
      · obtain ⟨ts, rfl⟩ := ih h
        exact ⟨t :: ts, rfl⟩
      · cases h

namespace Selection

variable {input text text' : String} {s t : Selection}

theorem error_readAll_of_ofString (h : ofString input = .ok s) :
    (Cursor.ofString input).readAll.error = none := by
  have htokens : ∃ ts : List Token, (TokenStream.ofString input).items = ts.map .ok := by
    rw [ofString] at h
    cases hitems : (TokenStream.ofString input).items with
    | nil => exact ⟨[], rfl⟩
    | cons item items =>
      rw [hitems, assemble_cons] at h
      exact Assembly.exists_tokens_of_run h
  obtain ⟨ts, hts⟩ := htokens
  rw [TokenStream.ofString, TokenStream.items_eq_readAll] at hts
  cases herror : (Cursor.ofString input).readAll.error with
  | none => rfl
  | some e =>
    have hmem : Except.error e ∈ ts.map Except.ok := by
      rw [← hts, herror]
      simp
    simp at hmem

theorem ofString_of_writes {ts : List Token} (h : Writes input ts)
    (hs : Spells .predicate ts s) : ofString input = .ok s := by
  rw [ofString, TokenStream.items_of_writes h]
  exact ofTokens_eq_ok_iff_spells.2 hs

/-- **A text gives a selection exactly when it writes tokens that spell the selection.** -/
theorem ofString_eq_ok_iff :
    ofString input = .ok s ↔ ∃ ts, Writes input ts ∧ Spells .predicate ts s := by
  constructor
  · intro h
    have htokenizes := Cursor.tokenizes_of_readAll (error_readAll_of_ofString h)
    have hwrites : Writes input _ := writes_iff_tokenizes.2 htokenizes
    refine ⟨_, hwrites, ?_⟩
    rw [ofString, TokenStream.items_of_writes hwrites] at h
    exact ofTokens_eq_ok_iff_spells.1 h
  · intro h
    obtain ⟨ts, hwrites, hs⟩ := h
    exact ofString_of_writes hwrites hs

/-! ## Texts in parentheses -/

/-- **In parentheses an accepted text is one factor.** -/
theorem stands_parens (h : ofString text = .ok s) : Stands ("(" ++ text ++ ")") s := by
  obtain ⟨ts, hwrites, hs⟩ := ofString_eq_ok_iff.1 h
  exact ⟨_, ((Writes.symbol .openParen).append hwrites).append (.symbol .closeParen), .parens hs⟩

theorem ofString_parens (h : ofString text = .ok s) : ofString ("(" ++ text ++ ")") = .ok s := by
  obtain ⟨ts, hwrites, hs⟩ := stands_parens h
  exact ofString_of_writes hwrites (.ofTerm (.ofFactor hs))

theorem ofString_not_parens (h : ofString text = .ok s) :
    ofString ("not (" ++ text ++ ")") = .ok (.not s) := by
  obtain ⟨ts, hwrites, hs⟩ := stands_parens h
  have htext : "not (" ++ text ++ ")" = "not" ++ " " ++ ("(" ++ text ++ ")") := by
    rw [← String.append_assoc, ← String.append_assoc]
    rfl
  rw [htext]
  exact ofString_of_writes (((Writes.symbol .not).append .blank).append hwrites)
    (.ofTerm (.ofFactor (.not hs)))

theorem ofString_joined (op : Connective) (h : Stands text s) (h' : Stands text' t) :
    ofString (text ++ (" " ++ op.keyword ++ " ") ++ text') = .ok (.join op [s, t]) := by
  obtain ⟨ts, hwrites, hs⟩ := h
  obtain ⟨us, hwrites', ht⟩ := h'
  have hkeyword := (Writes.blank.append op.writes_keyword).append .blank
  refine ofString_of_writes ((hwrites.append hkeyword).append hwrites') (op.spells_predicate ?_)
  simpa using op.spells_join hs (op.spells_of_factor ht)

theorem ofString_join_parens (op : Connective) (h : ofString text = .ok s)
    (h' : ofString text' = .ok t) :
    ofString ("(" ++ text ++ (") " ++ op.keyword ++ " (") ++ text' ++ ")") =
      .ok (.join op [s, t]) := by
  have hjoined := ofString_joined op (stands_parens h) (stands_parens h')
  have hopen : " (" = " " ++ "(" := rfl
  have hclose : ") " = ")" ++ " " := rfl
  rw [hopen, hclose]
  simpa only [String.append_assoc] using hjoined

end Selection

end ResourceRouting
