import Mathlib.Logic.Function.Iterate
import ResourceRouting.Proofs.Token.Literals

/-!
# The places where tokens are taken

Tokens are taken by one call after the other, and each call leaves the cursor at a place of the
text. These places cut the text into what the calls have taken, so no part of it is passed over and
none is read twice.

**Spellings** (`Token.SpelledAs`). A symbol has one spelling, a literal has many: a quote, items and
a quote. A token is read from a text exactly when the text starts with one of its spellings
(`Token.read?_eq_some_iff`).

**Calls** (`Cursor.Call`). A call passes blanks, and then it finds the end of the text, or takes a
token by its spelling, or fails at a character with which no spelling starts. There is no other call
(`Cursor.call_next`). Where a call took no token the next one has the same answer and moves nothing
(`Cursor.next_of_stopped`), as there are no blanks left to pass.

**Places** (`Cursor.StandsAt`). A cursor stands at a place of the text if this is so many bytes from
its start, and what the cursor has not read yet is all that follows. Places are positions of the
library's strings, so they are never inside a character or behind the end. Every call goes on to a
place (`Cursor.StandsAt.move`).

Main result: `Cursor.calls_tile`.
-/

namespace ResourceRouting

theorem Text.byteCount_pos {text : List Char} (h : text ≠ []) : 0 < byteCount text := by
  cases text with
  | nil => exact absurd rfl h
  | cons c text => exact Nat.add_pos_left c.utf8Size_pos _

theorem Error.unreadableAt_eq (offset : Nat) (left : List Char) : unreadableAt offset left =
    .unreadable offset (String.ofList (left.take (min 24 left.length))) := by
  rw [unreadableAt, List.take_eq_take_min]
  rfl

/-! ## Spellings -/

namespace Token

/-- The ways to spell a token. -/
inductive SpelledAs : Token → List Char → Prop
  | symbol (s : Symbol) : SpelledAs (.symbol s) s.text.toList
  | literal {body value : List Char} (h : Text.Quoted.Spelled body value) :
      SpelledAs (.literal (String.ofList value)) ('"' :: body ++ ['"'])

variable {t : Token} {spelling text rest : List Char}

/-- **Every spelling of a token is read, whatever follows.** -/
theorem SpelledAs.read? (h : SpelledAs t spelling) (rest : List Char) :
    Token.read? (spelling ++ rest) = some (t, rest) := by
  cases h with
  | symbol s => exact read?_text (.symbol s) rest
  | literal h => exact read?_of_spelled h rest

/-- **A token is read exactly where a spelling of it stands.** -/
theorem read?_eq_some_iff : Token.read? text = some (t, rest) ↔
    ∃ spelling, SpelledAs t spelling ∧ text = spelling ++ rest := by
  constructor
  · intro h
    cases hsymbol : Symbol.read? text with
    | some found =>
      obtain ⟨s, behind⟩ := found
      rw [Token.read?, hsymbol] at h
      cases h
      exact ⟨_, .symbol s, Symbol.eq_append_of_read? hsymbol⟩
    | none =>
      rw [Token.read?, hsymbol] at h
      obtain ⟨⟨value, behind⟩, hquoted, heq⟩ := Option.map_eq_some_iff.1 h
      cases heq
      obtain ⟨body, hbody, rfl⟩ := Text.Quoted.read?_eq_some_iff.1 hquoted
      exact ⟨_, .literal hbody, by simp⟩
  · rintro ⟨spelling, hspelling, rfl⟩
    exact hspelling.read? rest

theorem read?_eq_none_iff :
    Token.read? text = none ↔ ∀ t spelling, SpelledAs t spelling → ¬spelling <+: text := by
  rw [Option.eq_none_iff_forall_ne_some]
  constructor
  · rintro h t spelling hspelling ⟨rest, rfl⟩
    exact h (t, rest) (hspelling.read? rest)
  · rintro h ⟨t, rest⟩ hread
    obtain ⟨spelling, hspelling, rfl⟩ := read?_eq_some_iff.1 hread
    exact h t spelling hspelling (List.prefix_append _ _)

theorem SpelledAs.ne_nil (h : SpelledAs t spelling) : spelling ≠ [] := by
  cases h with
  | symbol s => exact s.text_ne_nil
  | literal h => simp

end Token

namespace Cursor

/-! ## Calls -/

/-- What a call for the next token answers, and where it leaves the cursor. -/
inductive Call : Cursor → Except Error (Option Token) × Cursor → Prop
  | stop {blank : List Char} {position : Nat} (hblank : Text.dropBlank blank = []) :
      Call ⟨blank, position⟩ (.ok none, ⟨[], position + Text.byteCount blank⟩)
  | take {blank spelling rest : List Char} {position : Nat} {t : Token}
      (hblank : Text.dropBlank blank = []) (hspelling : t.SpelledAs spelling) :
      Call ⟨blank ++ spelling ++ rest, position⟩
        (.ok (some t), ⟨rest, position + Text.byteCount (blank ++ spelling)⟩)
  | fail {blank rest : List Char} {stray : Char} {position : Nat}
      (hblank : Text.dropBlank blank = []) (hstray : Text.isBlank stray = false)
      (hnone : Token.read? (stray :: rest) = none) :
      Call ⟨blank ++ stray :: rest, position⟩
        (.error (.unreadableAt (position + Text.byteCount blank) (stray :: rest)),
          ⟨stray :: rest, position + Text.byteCount blank⟩)

theorem next_of_stray {stray : Char} {rest : List Char} (hstray : Text.isBlank stray = false)
    (hnone : Token.read? (stray :: rest) = none) (position : Nat) :
    next ⟨stray :: rest, position⟩ =
      (.error (.unreadableAt position (stray :: rest)), ⟨stray :: rest, position⟩) := by
  have hdrop : Text.dropBlank (stray :: rest) = stray :: rest := by simp [Text.dropBlank, hstray]
  rw [next, skipBlank_of_dropBlank hdrop]
  simp [hnone]

/-- **Every call passes blanks, and then stops at the end, takes a spelling or fails.** -/
theorem call_next (c : Cursor) : Call c c.next := by
  obtain ⟨text, position⟩ := c
  obtain ⟨blank, htext, hblank⟩ := Text.exists_eq_append_dropBlank text
  have hdrop := Text.dropBlank_dropBlank text
  generalize Text.dropBlank text = behind at htext hdrop
  subst htext
  cases behind with
  | nil =>
    rw [next_append_blank hblank, List.append_nil]
    exact .stop hblank
  | cons first rest =>
    cases hread : Token.read? (first :: rest) with
    | none =>
      have hstray : Text.isBlank first = false := by
        by_contra hfirst
        have hlt := Text.length_dropBlank_le rest
        rw [Text.dropBlank, List.dropWhile_cons_of_pos (by simpa using hfirst)] at hdrop
        rw [Text.dropBlank, hdrop] at hlt
        simp at hlt
      rw [next_append_blank hblank, next_of_stray hstray hread]
      exact .fail hblank hstray hread
    | some found =>
      obtain ⟨t, behind⟩ := found
      obtain ⟨spelling, hspelling, htext⟩ := Token.read?_eq_some_iff.1 hread
      rw [htext, next_of_taken hblank hspelling.read?, ← List.append_assoc]
      exact .take hblank hspelling

variable {c c' : Cursor} {answer : Except Error (Option Token)}

theorem Call.exists_passed (h : Call c (answer, c')) :
    ∃ passed, c.rest = passed ++ c'.rest ∧ c'.position = c.position + Text.byteCount passed := by
  cases h with
  | stop hblank => exact ⟨_, (List.append_nil _).symm, rfl⟩
  | take hblank hspelling => exact ⟨_, rfl, rfl⟩
  | fail hblank hstray hnone => exact ⟨_, rfl, rfl⟩

/-- **Where a call took no token, the next call does the same and moves nothing.** -/
theorem next_of_stopped (h : c.next = (answer, c')) (hstop : ∀ t, answer ≠ .ok (some t)) :
    c'.next = (answer, c') := by
  have hcall := call_next c
  rw [h] at hcall
  cases hcall with
  | stop hblank => rfl
  | take hblank hspelling => exact absurd rfl (hstop _)
  | fail hblank hstray hnone => exact next_of_stray hstray hnone _

theorem rest_of_end (h : c.next = (.ok none, c')) : c'.rest = [] := by
  have hcall := call_next c
  rw [h] at hcall
  cases hcall with
  | stop hblank => rfl

theorem exists_stray_of_error {e : Error} (h : c.next = (.error e, c')) :
    ∃ stray rest, c'.rest = stray :: rest ∧ Text.isBlank stray = false ∧
      Token.read? (stray :: rest) = none ∧ e = .unreadableAt c'.position (stray :: rest) := by
  have hcall := call_next c
  rw [h] at hcall
  cases hcall with
  | fail hblank hstray hnone => exact ⟨_, _, rfl, hstray, hnone, rfl⟩

/-! ## Runs of calls -/

/-- The cursor after some calls for the next token. -/
def after (c : Cursor) (n : Nat) : Cursor := (fun c => c.next.2)^[n] c

theorem after_succ (c : Cursor) (n : Nat) : c.after (n + 1) = (c.after n).next.2 :=
  Function.iterate_succ_apply' _ n c

theorem after_of_next (h : c.next = (answer, c')) (n : Nat) : c.after (n + 1) = c'.after n := by
  have hc' : c.next.2 = c' := congrArg Prod.snd h
  rw [after, Function.iterate_succ_apply, hc', after]

/-- The first calls take the tokens of the whole reading, one each. -/
theorem next_after_of_getElem? {n : Nat} {t : Token}
    (h : (c.readAll.tokens.map Prod.fst)[n]? = some t) : (c.after n).next.1 = .ok (some t) := by
  induction n generalizing c with
  | zero =>
    match hnext : c.next with
    | (.ok none, c') => simp [readAll_of_end hnext] at h
    | (.error e, c') => simp [readAll_of_error hnext] at h
    | (.ok (some t'), c') =>
      obtain rfl : t' = t := by simpa [readAll_of_token hnext] using h
      rfl
  | succ n ih =>
    match hnext : c.next with
    | (.ok none, c') => simp [readAll_of_end hnext] at h
    | (.error e, c') => simp [readAll_of_error hnext] at h
    | (.ok (some t'), c') =>
      rw [after_of_next hnext]
      exact ih (by simpa [readAll_of_token hnext] using h)

/-- What a call answers once all tokens are taken. -/
def Reading.ending (r : Reading) : Except Error (Option Token) :=
  match r.error with
  | none => .ok none
  | some e => .error e

/-- **Once all tokens are taken, every call answers how the reading ended, and where.** -/
theorem next_after_of_le {n : Nat} (hn : c.readAll.tokens.length ≤ n) :
    (c.after n).next = (c.readAll.ending, c.readAll.final) := by
  induction n, hn using Nat.le_induction with
  | base =>
    fun_induction readAll c with
    | case1 c c' hend => exact hend
    | case2 c e c' herror => exact herror
    | case3 c t c' htoken others ih =>
      rw [List.length_cons, after_of_next htoken]
      exact ih
  | succ n hn ih =>
    rw [after_succ, ih]
    refine next_of_stopped ih fun t => ?_
    unfold Reading.ending
    split <;> simp

theorem next_after_of_error_none (herror : c.readAll.error = none) {n : Nat}
    (hn : c.readAll.tokens.length ≤ n) :
    (c.after n).next = (.ok none, ⟨[], c.readAll.final.position⟩) := by
  have hending : c.readAll.ending = .ok none := by rw [Reading.ending, herror]
  have hnext := next_after_of_le hn
  rw [hending] at hnext
  rw [hnext, ← rest_of_end hnext]

theorem exists_stray_of_error_some {e : Error} (herror : c.readAll.error = some e) :
    ∃ stray rest, Text.isBlank stray = false ∧ Token.read? (stray :: rest) = none ∧
      e = .unreadableAt c.readAll.final.position (stray :: rest) ∧
      ∀ n ≥ c.readAll.tokens.length,
        (c.after n).next = (.error e, ⟨stray :: rest, c.readAll.final.position⟩) := by
  have hending : c.readAll.ending = .error e := by rw [Reading.ending, herror]
  have hlater : ∀ n ≥ c.readAll.tokens.length, (c.after n).next = (.error e, c.readAll.final) :=
    fun n hn => hending ▸ next_after_of_le hn
  obtain ⟨stray, rest, hrest, hstray, hnone, he⟩ := exists_stray_of_error (hlater _ le_rfl)
  refine ⟨stray, rest, hstray, hnone, he, fun n hn => ?_⟩
  rw [hlater n hn, ← hrest]

/-! ## Places -/

variable {input : String}

/-- The cursor is as many bytes from the start of the text as the place, and what follows the place
is not yet read. -/
def StandsAt (c : Cursor) (place : input.Pos) : Prop :=
  place.offset.byteIdx = c.position ∧ (input.sliceFrom place).copy.toList = c.rest

theorem standsAt_ofString (input : String) : (ofString input).StandsAt input.startPos :=
  ⟨rfl, by rw [(String.splits_startPos input).copy_sliceFrom_eq]; rfl⟩

theorem StandsAt.eq {place place' : input.Pos} (h : c.StandsAt place) (h' : c.StandsAt place') :
    place = place' :=
  String.Pos.ext (String.Pos.Raw.ext (h.1.trans h'.1.symm))

theorem StandsAt.position_le {place : input.Pos} (h : c.StandsAt place) :
    c.position ≤ input.utf8ByteSize :=
  h.1 ▸ place.isValid.le_utf8ByteSize

theorem StandsAt.position_of_rest_nil {place : input.Pos} (h : c.StandsAt place)
    (hrest : c.rest = []) : c.position = input.utf8ByteSize := by
  have hnone : (input.sliceFrom place).copy = "" := String.toList_inj.1 (h.2.trans hrest)
  have hend : place = input.endPos := place.splits.eq_endPos_iff.2 hnone
  rw [← h.1, hend]
  rfl

/-- **A cursor that passes a text goes on to a place, and this text stands between the places.** -/
theorem StandsAt.move {place : input.Pos} (h : c.StandsAt place) {passed rest : List Char}
    (hrest : c.rest = passed ++ rest) :
    ∃ place' : input.Pos, StandsAt ⟨rest, c.position + Text.byteCount passed⟩ place' ∧
      (String.extract place place').toList = passed := by
  set front := (input.sliceTo place).copy
  have hbehind : (input.sliceFrom place).copy = String.ofList passed ++ String.ofList rest := by
    rw [← String.toList_inj, h.2, hrest, String.toList_append, String.toList_ofList,
      String.toList_ofList]
  have hsplits : place.Splits front (String.ofList passed ++ String.ofList rest) :=
    hbehind ▸ place.splits
  have hinput : input = front ++ String.ofList passed ++ String.ofList rest := by
    rw [String.append_assoc, ← hsplits.eq_append]
  have hvalid : (front ++ String.ofList passed).rawEndPos.IsValid input :=
    String.Pos.Raw.isValid_iff_exists_append.2 ⟨_, _, hinput, rfl⟩
  have hsplits' : (⟨_, hvalid⟩ : input.Pos).Splits (front ++ String.ofList passed)
      (String.ofList rest) := ⟨hinput, rfl⟩
  obtain ⟨hle, hbetween⟩ := String.copy_slice_eq_iff_splits.2 ⟨_, _, hsplits, hsplits'⟩
  refine ⟨⟨_, hvalid⟩, ⟨?_, ?_⟩, ?_⟩
  · have hfront : front.utf8ByteSize = c.position := by
      rw [← h.1, hsplits.offset_eq_rawEndPos]
      rfl
    show (front ++ String.ofList passed).utf8ByteSize = _
    rw [String.utf8ByteSize_append, hfront, ← Text.byteCount_toList, String.toList_ofList]
  · rw [hsplits'.copy_sliceFrom_eq, String.toList_ofList]
  · rw [String.extract_eq_copy_slice _ _ hle, hbetween, String.toList_ofList]

theorem StandsAt.next {place : input.Pos} (h : c.StandsAt place) :
    ∃ place' : input.Pos, StandsAt c.next.2 place' := by
  obtain ⟨passed, hrest, hposition⟩ := (call_next c).exists_passed
  obtain ⟨place', hplace', -⟩ := h.move hrest
  rw [← hposition] at hplace'
  exact ⟨place', hplace'⟩

theorem exists_standsAt_after (input : String) (n : Nat) :
    ∃ place : input.Pos, StandsAt ((ofString input).after n) place := by
  induction n with
  | zero => exact ⟨_, standsAt_ofString input⟩
  | succ n ih =>
    obtain ⟨place, hplace⟩ := ih
    rw [after_succ]
    exact hplace.next

/-- A call that takes a token goes on, over blanks and a spelling of the token. -/
theorem exists_between_of_token {t : Token} {place place' : input.Pos} (h : c.next.1 = .ok (some t))
    (hplace : c.StandsAt place) (hplace' : c.next.2.StandsAt place') :
    c.position < c.next.2.position ∧ ∃ blank spelling,
      (String.extract place place').toList = blank ++ spelling ∧
        (∀ b ∈ blank, Text.isBlank b = true) ∧ t.SpelledAs spelling := by
  have hcall := call_next c
  generalize c.next = result at h hplace' hcall
  cases hcall with
  | stop hblank => cases h
  | fail hblank hstray hnone => cases h
  | @take blank spelling rest position t' hblank hspelling =>
    obtain rfl : t' = t := Option.some.inj (Except.ok.inj h)
    constructor
    · have hpos := Text.byteCount_pos hspelling.ne_nil
      show position < position + Text.byteCount (blank ++ spelling)
      rw [Text.byteCount_append]
      omega
    · obtain ⟨behind, hbehind, hbetween⟩ := hplace.move rfl
      rw [hplace'.eq hbehind]
      exact ⟨blank, spelling, hbetween, Text.dropBlank_eq_nil_iff.1 hblank, hspelling⟩

/-- A call that takes no token goes on over blanks only. -/
theorem blank_between_of_stopped {place place' : input.Pos} (h : ∀ t, c.next.1 ≠ .ok (some t))
    (hplace : c.StandsAt place) (hplace' : c.next.2.StandsAt place') :
    ∀ b ∈ (String.extract place place').toList, Text.isBlank b = true := by
  have hcall := call_next c
  generalize c.next = result at h hplace' hcall
  cases hcall with
  | take hblank hspelling => exact absurd rfl (h _)
  | @stop blank position hblank =>
    obtain ⟨behind, hbehind, hbetween⟩ := hplace.move (List.append_nil blank).symm
    rw [hplace'.eq hbehind, hbetween]
    exact Text.dropBlank_eq_nil_iff.1 hblank
  | fail hblank hstray hnone =>
    obtain ⟨behind, hbehind, hbetween⟩ := hplace.move rfl
    rw [hplace'.eq hbehind, hbetween]
    exact Text.dropBlank_eq_nil_iff.1 hblank

end Cursor

/-! ## Streams -/

namespace TokenStream

/-- The stream after some items were asked for. -/
def after (s : TokenStream) (n : Nat) : TokenStream := (fun s => s.next?.2)^[n] s

theorem next?_of_none {s s' : TokenStream} (h : s.next? = (none, s')) : s'.next?.1 = none := by
  unfold next? at h
  split at h
  · rename_i hfailed
    cases h
    rw [next?, if_pos hfailed]
  · split at h
    · rename_i hend
      cases h
      rw [next?, Cursor.next_of_stopped hend (by simp)]
      rfl
    · cases h
    · cases h

/-- **Asked for one by one, the items are those of the whole list, and then there are none.** -/
theorem next?_after (s : TokenStream) (n : Nat) : (s.after n).next?.1 = s.items[n]? := by
  induction n generalizing s with
  | zero =>
    show s.next?.1 = _
    match hnext : s.next? with
    | (none, s') => simp [items_of_next?_none (congrArg Prod.fst hnext)]
    | (some item, s') => simp [items_of_next?_some hnext]
  | succ n ih =>
    rw [after, Function.iterate_succ_apply, ← after, ih]
    match hnext : s.next? with
    | (none, s') =>
      rw [items_of_next?_none (congrArg Prod.fst hnext), items_of_next?_none (next?_of_none hnext)]
      rfl
    | (some item, s') =>
      rw [items_of_next?_some hnext]
      rfl

end TokenStream

namespace Cursor

/-- **The places where tokens are taken tile the text.** After any number of calls the cursor stands
at a place of the text. Some first calls take tokens, one each and each at a later place; what
stands between the places is blanks and a spelling of the token. All later calls pass blanks only.
Either all of them answer the end, behind the last byte, or all of them fail with the same error at
the same place, before a character that is no blank and with which no spelling starts. A stream
gives out these tokens, then the error if there is one, and then nothing. -/
theorem calls_tile (input : String) :
    let cursor : Nat → Cursor := fun n => (ofString input).after n
    let answer : Nat → Except Error (Option Token) := fun n => (cursor n).next.1
    let item : Nat → Option (Except Error Token) := fun n =>
      ((TokenStream.ofString input).after n).next?.1
    ∃ (tokens : List Token) (place : Nat → input.Pos),
      (∀ n, (cursor n).StandsAt (place n) ∧ (cursor n).position ≤ input.utf8ByteSize) ∧
      (∀ n (h : n < tokens.length),
        answer n = .ok (some tokens[n]) ∧ item n = some (.ok tokens[n]) ∧
          (cursor n).position < (cursor (n + 1)).position ∧
          ∃ blank spelling,
            (String.extract (place n) (place (n + 1))).toList = blank ++ spelling ∧
              (∀ b ∈ blank, Text.isBlank b = true) ∧ tokens[n].SpelledAs spelling) ∧
      (∀ n ≥ tokens.length, ∀ b ∈ (String.extract (place n) (place (n + 1))).toList,
        Text.isBlank b = true) ∧
      ((∀ n ≥ tokens.length, answer n = .ok none ∧ item n = none ∧
          (cursor (n + 1)).position = input.utf8ByteSize) ∨
        ∃ offset stray rest,
          let left := stray :: rest
          let e := Error.unreadable offset (String.ofList (left.take (min 24 left.length)))
          Text.isBlank stray = false ∧
            (∀ t spelling, Token.SpelledAs t spelling → ¬spelling <+: left) ∧
            item tokens.length = some (.error e) ∧
            ∀ n ≥ tokens.length, answer n = .error e ∧ item (n + 1) = none ∧
              (cursor (n + 1)).position = offset ∧ (cursor (n + 1)).rest = left) := by
  intro cursor answer item
  set c := ofString input
  set tokens := c.readAll.tokens.map Prod.fst
  choose place hplace using exists_standsAt_after input
  have hlength : tokens.length = c.readAll.tokens.length := List.length_map _
  have htoken : ∀ n (h : n < tokens.length), answer n = .ok (some tokens[n]) := fun n h =>
    next_after_of_getElem? (List.getElem?_eq_getElem h)
  have hcursor : ∀ n, cursor (n + 1) = (cursor n).next.2 := after_succ c
  have hitem : ∀ n, item n =
      (tokens.map Except.ok ++ c.readAll.error.toList.map Except.error)[n]? := by
    intro n
    rw [List.map_map]
    exact (TokenStream.next?_after _ n).trans (congrArg (·[n]?) (TokenStream.items_eq_readAll c))
  refine ⟨tokens, place, fun n => ⟨hplace n, (hplace n).position_le⟩,
    fun n h => ⟨htoken n h, ?_, ?_⟩, fun n hn => ?_, ?_⟩
  · rw [hitem, List.getElem?_append_left (by simpa using h)]
    simp [h]
  · rw [hcursor]
    exact exists_between_of_token (htoken n h) (hplace n) (hcursor n ▸ hplace (n + 1))
  · refine blank_between_of_stopped (fun t => ?_) (hplace n) (hcursor n ▸ hplace (n + 1))
    have hending : (cursor n).next = _ := next_after_of_le (hlength ▸ hn)
    rw [hending, Reading.ending]
    split <;> simp
  cases herror : c.readAll.error with
  | none =>
    refine .inl fun n hn => ?_
    have hend : (cursor n).next = _ := next_after_of_error_none herror (hlength ▸ hn)
    refine ⟨congrArg Prod.fst hend, ?_, (hplace (n + 1)).position_of_rest_nil ?_⟩
    · rw [hitem, herror]
      simpa using hn
    · rw [after_succ, hend]
  | some e =>
    obtain ⟨stray, rest, hstray, hnone, he, hlater⟩ := exists_stray_of_error_some herror
    rw [← hlength] at hlater
    rw [Error.unreadableAt_eq] at he
    refine .inr ⟨c.readAll.final.position, stray, rest, hstray, Token.read?_eq_none_iff.1 hnone,
      ?_, fun n hn => ⟨he ▸ congrArg Prod.fst (hlater n hn), ?_, ?_, ?_⟩⟩
    · rw [hitem, herror, he]
      simp
    · rw [hitem, herror, List.getElem?_append_right (by simp; omega)]
      simp
      omega
    · rw [hcursor, hlater n hn]
    · rw [hcursor, hlater n hn]

/-- Two tokens with a wide blank in front, and a stray character behind another blank. -/
theorem calls_tile_of_stray :
    let input := "\u3000id= #é"
    let cursor : Nat → Cursor := fun n => (ofString input).after n
    (cursor 1).position = 5 ∧ (cursor 2).position = 6 ∧
      (∃ place : Nat → input.Pos, (∀ n, (cursor n).StandsAt (place n)) ∧
        ∃ blank, (String.extract (place 0) (place 1)).toList = blank ++ ['i', 'd'] ∧
          ∀ b ∈ blank, Text.isBlank b = true) ∧
      ∀ n ≥ 2, (cursor n).next.1 = .error (.unreadable 7 "#é") ∧ (cursor (n + 1)).position = 7 := by
  intro input cursor
  have hid : (cursor 0).next.1 = .ok (some (.symbol (.property .id))) := by decide +kernel
  have hequals : (cursor 1).next.1 = .ok (some (.symbol .equals)) := by decide +kernel
  have herror : (cursor 2).next.1 = .error (.unreadable 7 "#é") := by decide +kernel
  obtain ⟨tokens, place, hplace, htoken, -, hlater⟩ := calls_tile input
  have hle : tokens.length ≤ 2 := by
    by_contra hlt
    exact absurd (herror.symm.trans (htoken 2 (by omega)).1) (by simp)
  have hge : 2 ≤ tokens.length := by
    by_contra hlt
    rcases hlater with hend | ⟨offset, stray, rest, -, -, -, hfails⟩
    · exact absurd (hequals.symm.trans (hend 1 (by omega)).1) (by simp)
    · exact absurd (hequals.symm.trans (hfails 1 (by omega)).1) (by simp)
  refine ⟨by decide +kernel, by decide +kernel, ⟨place, fun n => (hplace n).1, ?_⟩, fun n hn => ?_⟩
  · obtain ⟨hfirst, -, -, blank, spelling, hbetween, hblank, hspelling⟩ := htoken 0 (by omega)
    have hzero : Token.symbol (.property .id) = tokens[0] :=
      Option.some.inj (Except.ok.inj (hid.symm.trans hfirst))
    rw [← hzero] at hspelling
    cases hspelling
    exact ⟨blank, hbetween, hblank⟩
  · rcases hlater with hend | ⟨offset, stray, rest, -, -, -, hfails⟩
    · exact absurd (herror.symm.trans (hend 2 hle).1) (by simp)
    · obtain ⟨hthird, -, hposition, -⟩ := hfails 2 hle
      obtain ⟨hanswer, -, hsame, -⟩ := hfails n (hle.trans hn)
      have hstart : (cursor 3).position = 7 := by decide +kernel
      exact ⟨hanswer.trans (hthird.symm.trans herror), hsame.trans (hposition.symm.trans hstart)⟩

end Cursor

end ResourceRouting
