import ResourceRouting.Proofs.Token.Composition

/-!
# Literals at the cursor

A quote starts a literal or nothing at all. It starts a literal exactly if items and a closing quote
follow it (`Text.Quoted.Spelled`), although the cursor looks for a pattern and for a JSON string and
not for items. The closing quote is the first one that is not escaped (`Text.Quoted.Escapes`).

Main result: `Cursor.next_literal_iff_spelled`.
-/

namespace ResourceRouting

open Text.Quoted

variable {blank body value text : List Char}

namespace Token

theorem read?_of_quote (text : List Char) : Token.read? ('"' :: text) =
    (Text.Quoted.read? ('"' :: text)).map fun (value, rest) =>
      (.literal (String.ofList value), rest) := by
  rw [Token.read?, Symbol.read?_quote]

theorem read?_of_spelled (h : Spelled body value) (rest : List Char) :
    Token.read? ('"' :: body ++ ['"'] ++ rest) = some (.literal (String.ofList value), rest) := by
  have hread : Text.Quoted.read? ('"' :: (body ++ '"' :: rest)) = some (value, rest) :=
    read?_eq_some_iff.2 ⟨body, h, rfl⟩
  rw [List.append_assoc, List.cons_append, Token.read?_of_quote, List.singleton_append, hread]
  rfl

theorem read?_of_not_spelled
    (h : ¬∃ body value rest, Spelled body value ∧ text = body ++ '"' :: rest) :
    Token.read? ('"' :: text) = none := by
  rw [Token.read?_of_quote, Option.map_eq_none_iff, Option.eq_none_iff_forall_ne_some]
  rintro ⟨value, rest⟩ hsome
  obtain ⟨body, hbody, htext⟩ := read?_eq_some_iff.1 hsome
  exact h ⟨body, value, rest, hbody, List.tail_eq_of_cons_eq htext⟩

end Token

namespace Cursor

theorem next_of_spelled (hblank : Text.dropBlank blank = []) (h : Spelled body value)
    (rest : List Char) (position : Nat) :
    next ⟨blank ++ '"' :: (body ++ '"' :: rest), position⟩ =
      (.ok (some (.literal (String.ofList value))),
        ⟨rest, position + Text.byteCount (blank ++ '"' :: body ++ ['"'])⟩) := by
  have hnext := next_of_taken hblank (Token.read?_of_spelled h) rest position
  simpa using hnext

theorem next_of_not_spelled (hblank : Text.dropBlank blank = [])
    (h : ¬∃ body value rest, Spelled body value ∧ text = body ++ '"' :: rest) (position : Nat) :
    next ⟨blank ++ '"' :: text, position⟩ =
      (.error (.unreadableAt (position + Text.byteCount blank) ('"' :: text)),
        ⟨'"' :: text, position + Text.byteCount blank⟩) := by
  rw [next_append_blank hblank, next, skipBlank_of_dropBlank rfl]
  simp [Token.read?_of_not_spelled h]

/-- **A quote starts a literal exactly when items and a closing quote follow it.** Then the value is
what the items stand for, and the cursor moves behind the closing quote, which is the first quote
that is not escaped. Otherwise the text is unreadable from the opening quote on, and the cursor
stays there. -/
theorem next_literal_iff_spelled (consumed blank text : List Char)
    (hblank : ∀ c ∈ blank, Text.isBlank c = true) :
    let start : Cursor := ⟨blank ++ '"' :: text, Text.byteCount consumed⟩
    let opening := Text.byteCount (consumed ++ blank)
    ((∃ value behind, start.next = (.ok (some (.literal value)), behind)) ↔
        ∃ body value rest, Spelled body value ∧ text = body ++ '"' :: rest) ∧
      (∀ body value rest, Spelled body value → text = body ++ '"' :: rest →
        start.next = (.ok (some (.literal (String.ofList value))),
            ⟨rest, Text.byteCount (consumed ++ blank ++ '"' :: body ++ ['"'])⟩) ∧
          ¬Escapes body ∧
          ∀ before after, body = before ++ '"' :: after → Escapes before) ∧
      ((¬∃ body value rest, Spelled body value ∧ text = body ++ '"' :: rest) →
        start.next = (.error (.unreadableAt opening ('"' :: text)), ⟨'"' :: text, opening⟩)) := by
  intro start opening
  rw [← Text.dropBlank_eq_nil_iff] at hblank
  have hopening : opening = Text.byteCount consumed + Text.byteCount blank :=
    Text.byteCount_append consumed blank
  have hspelled : ∀ body value rest, Spelled body value → text = body ++ '"' :: rest →
      start.next = (.ok (some (.literal (String.ofList value))),
        ⟨rest, Text.byteCount (consumed ++ blank ++ '"' :: body ++ ['"'])⟩) := by
    rintro body value rest h rfl
    have hnext := next_of_spelled hblank h rest (Text.byteCount consumed)
    rw [← Text.byteCount_append] at hnext
    simpa using hnext
  have hfails : (¬∃ body value rest, Spelled body value ∧ text = body ++ '"' :: rest) →
      start.next = (.error (.unreadableAt opening ('"' :: text)), ⟨'"' :: text, opening⟩) := by
    intro h
    rw [hopening]
    exact next_of_not_spelled hblank h (Text.byteCount consumed)
  refine ⟨⟨fun ⟨value, behind, hliteral⟩ => ?_, ?_⟩, fun body value rest h htext => ?_, hfails⟩
  · by_contra hnone
    rw [hfails hnone] at hliteral
    cases hliteral
  · rintro ⟨body, value, rest, h, htext⟩
    exact ⟨_, _, hspelled body value rest h htext⟩
  · refine ⟨hspelled body value rest h htext, h.pieces.not_escapes, ?_⟩
    rintro before after rfl
    exact h.pieces.escapes_of_quote

/-- Two backslashes, an escaped quote and a surrogate pair, each half in a case of its own, up to a
quote before which the number of backslashes is even. With letters of both cases in one escape there
is no literal. -/
theorem next_literal_of_backslashes :
    let consumed := "id =".toList
    let blank := " \u3000".toList
    let body := "\\\\\\\"\\ud83d\\uDE00\\\\".toList
    let mixed := "\\u00eA\"".toList
    (∀ c ∈ blank, Text.isBlank c = true) ∧
      next ⟨blank ++ '"' :: (body ++ '"' :: " or".toList), Text.byteCount consumed⟩ =
        (.ok (some (.literal "\\\"😀\\")), ⟨" or".toList, 28⟩) ∧ ¬Escapes body ∧
      ¬(∃ body value rest, Spelled body value ∧ mixed = body ++ '"' :: rest) ∧
      next ⟨blank ++ '"' :: mixed, Text.byteCount consumed⟩ =
        (.error (.unreadable 8 "\"\\u00eA\""), ⟨'"' :: mixed, 8⟩) := by
  intro consumed blank body mixed
  have hblank : ∀ c ∈ blank, Text.isBlank c = true := Text.dropBlank_eq_nil_iff.1 rfl
  have hhigh : FourDigits ['d', '8', '3', 'd'] 0xD83D :=
    .mk (w := 13) (x := 8) (y := 3) (z := 13) (.inl rfl) rfl rfl rfl rfl
  have hlow : FourDigits ['D', 'E', '0', '0'] 0xDE00 :=
    .mk (w := 13) (x := 14) (y := 0) (z := 0) (.inr rfl) rfl rfl rfl rfl
  have hbody : Spelled body ['\\', '"', '😀', '\\'] :=
    .cons (.letter (by decide)) (.cons (.letter (by decide))
      (.cons (.pair hhigh hlow (by decide) (by decide) (by decide))
        (.cons (.letter (by decide)) .nil)))
  obtain ⟨-, hliteral, -⟩ :=
    next_literal_iff_spelled consumed blank (body ++ '"' :: " or".toList) hblank
  obtain ⟨hread, hend, -⟩ := hliteral body _ " or".toList hbody rfl
  obtain ⟨-, -, hfails⟩ := next_literal_iff_spelled consumed blank mixed hblank
  have hnone : ¬∃ body value rest, Spelled body value ∧ mixed = body ++ '"' :: rest := by
    rintro ⟨body, value, rest, h⟩
    have hmixed : Text.Quoted.read? ('"' :: mixed) = none := by decide +kernel
    rw [read?_eq_some_iff.2 ⟨body, h.1, congrArg ('"' :: ·) h.2⟩] at hmixed
    cases hmixed
  exact ⟨hblank, hread, hend, hnone, hfails hnone⟩

end Cursor

end ResourceRouting
