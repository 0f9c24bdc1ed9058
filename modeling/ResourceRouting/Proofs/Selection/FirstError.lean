import ResourceRouting.Proofs.Selection.Assembly

/-!
# Which error a reader is told

The items of a stream are read up to the first error at most. Whether this error or a fault of the
tokens before it is told depends on how far these are the beginning of a predicate.

**Viable tokens** (`Viable`). Some predicate of the grammar begins with them. They are exactly the
tokens that an assembly takes (`viable_iff_read`), because whatever has been taken can be completed
(`Assembly.exists_completion`).

**Reading ahead** (`Assembly.drive`). The reader is one item ahead of the token that it judges, so a
refusal may come too late (`Assembly.drive_of_refused`). What follows an error is never read
(`Assembly.exists_drive_error`).

**Theorem (`first_error_wins`).** Behind viable tokens the error is told. Behind two or more tokens
that go beyond the longest viable beginning the fault of the tokens is told. Behind exactly one such
token the error is told where a factor or a value is due, and the fault everywhere else. What
follows the error is left unread.
-/

namespace ResourceRouting

/-- Some predicate of the grammar begins with the tokens. -/
def Viable (ts : List Token) : Prop := ∃ us s, Spells .predicate (ts ++ us) s

/-- A factor may stand behind the tokens. -/
def FactorDue (ts : List Token) : Prop := ∃ us s, Spells .factor us s ∧ Viable (ts ++ us)

/-- The tokens end with `=`, so a value is due behind them. -/
def ValueDue (ts : List Token) : Prop := ts.getLast? = some (.symbol .equals)

/-- The tokens are their longest viable beginning and what is left over. -/
structure LongestViable (ts front left : List Token) : Prop where
  eq_append : ts = front ++ left
  viable : Viable front
  longest : ∀ us, us <+: ts → Viable us → us <+: front

theorem Viable.of_append {ts us : List Token} (h : Viable (ts ++ us)) : Viable ts := by
  obtain ⟨vs, s, hspells⟩ := h
  rw [List.append_assoc] at hspells
  exact ⟨_, s, hspells⟩

namespace Assembly

/-! ## What has been taken can be completed -/

theorem read_concat {a b : Assembly} {ts : List Token} (h : a.read ts = .ok b) (t : Token) :
    a.read (ts ++ [t]) = b.accept t := by
  rw [read_append_of_read h, read_cons]
  cases b.accept t <;> rfl

theorem exists_connective (a : Assembly) :
    ∃ us b f, a.read us = .ok b ∧ b.expects = .connective f ∧ b.outer = a.outer := by
  obtain ⟨expects, inner, outer⟩ := a
  cases expects with
  | operand =>
    exact ⟨[.symbol (.property .id), .symbol .equals, .symbol .star], _, _, rfl, rfl, rfl⟩
  | equals p => exact ⟨[.symbol .equals, .symbol .star], _, _, rfl, rfl, rfl⟩
  | value p => exact ⟨[.symbol .star], _, _, rfl, rfl, rfl⟩
  | connective f => exact ⟨[], _, f, rfl, rfl, rfl⟩

/-- **Whatever has been taken, something can follow with which the text may end**: an operand is
completed, then one parenthesis after the other. -/
theorem exists_completion (a : Assembly) : ∃ us b s, a.read us = .ok b ∧ b.finish = .ok s := by
  have hclose : ∀ (outer : List Bracket) (f : Selection) (inner : Bracket),
      ∃ us b s, read ⟨.connective f, inner, outer⟩ us = .ok b ∧ b.finish = .ok s := by
    intro outer
    induction outer with
    | nil =>
      intro f inner
      exact ⟨[], _, _, rfl, rfl⟩
    | cons bracket outer ih =>
      intro f inner
      obtain ⟨us, b, s, hread, hfinish⟩ :=
        ih (bracket.negate (inner.close f)) { bracket with negations := 0 }
      exact ⟨.symbol .closeParen :: us, b, s, hread, hfinish⟩
  obtain ⟨us, ⟨expects, inner, outer⟩, f, hread, rfl, -⟩ := a.exists_connective
  obtain ⟨vs, b, s, hread', hfinish⟩ := hclose outer f inner
  refine ⟨us ++ vs, b, s, ?_, hfinish⟩
  rw [read_append_of_read hread, hread']

end Assembly

/-- **Viable tokens are those that an assembly takes.** -/
theorem viable_iff_read {ts : List Token} : Viable ts ↔ ∃ a, Assembly.start.read ts = .ok a := by
  constructor
  · intro h
    obtain ⟨us, s, hspells⟩ := h
    obtain ⟨b, hread, -⟩ := Assembly.read_of_spells hspells
    rw [Assembly.read_append] at hread
    cases hfirst : Assembly.start.read ts with
    | ok a => exact ⟨a, rfl⟩
    | error fault =>
      rw [hfirst] at hread
      cases hread
  · intro h
    obtain ⟨a, hread⟩ := h
    obtain ⟨us, b, s, hrest, hfinish⟩ := a.exists_completion
    have hwhole : Assembly.start.read (ts ++ us) = .ok b := by
      rw [Assembly.read_append_of_read hread, hrest]
    exact ⟨us, s, Selection.ofTokens_eq_ok_iff_spells.1
      (Selection.ofTokens_eq_ok_iff.2 ⟨b, hwhole, hfinish⟩)⟩

/-! ## Where a token is taken before it is judged -/

namespace Assembly

/-- A factor begins with a property, a parenthesis or `not`, which only an operand can be. -/
theorem expects_operand_of_factor {a b : Assembly} {us : List Token} {s : Selection}
    (hs : Spells .factor us s) (hread : a.read us = .ok b) : a.expects = .operand := by
  obtain ⟨expects, inner, outer⟩ := a
  cases expects with
  | operand => rfl
  | equals p => cases hs <;> cases hread
  | value p => cases hs <;> cases hread
  | connective f =>
    cases outer with
    | nil => cases hs <;> cases hread
    | cons b outer => cases hs <;> cases hread

/-- A value is due behind an `=`, and nowhere else. -/
theorem expects_value_iff {a b : Assembly} {t : Token} (h : a.accept t = .ok b) :
    (∃ p, b.expects = .value p) ↔ t = .symbol .equals := by
  obtain ⟨expects, inner, outer⟩ := a
  cases expects with
  | operand =>
    simp only [accept] at h
    split at h <;> cases h <;> simp
  | equals p =>
    simp only [accept] at h
    split at h <;> cases h
    simp
  | value p =>
    simp only [accept] at h
    split at h <;> cases h <;> simp [supply]
  | connective f =>
    simp only [accept] at h
    split at h
    · cases h
      simp
    · cases h
      simp
    · cases outer with
      | nil => cases h
      | cons bracket outer =>
        simp only at h
        split at h
        · rename_i hclose
          cases h
          simp [supply, hclose]
        · cases h

theorem takesBeforeJudging_iff {a : Assembly} :
    a.takesBeforeJudging = true ↔ a.expects = .operand ∨ ∃ p, a.expects = .value p := by
  obtain ⟨expects, inner, outer⟩ := a
  cases expects <;> simp [takesBeforeJudging]

end Assembly

theorem factorDue_iff {ts : List Token} {a : Assembly} (h : Assembly.start.read ts = .ok a) :
    FactorDue ts ↔ a.expects = .operand := by
  constructor
  · intro hdue
    obtain ⟨us, s, hfactor, hviable⟩ := hdue
    obtain ⟨b, hread⟩ := viable_iff_read.1 hviable
    rw [Assembly.read_append_of_read h] at hread
    exact Assembly.expects_operand_of_factor hfactor hread
  · intro hoperand
    obtain ⟨expects, inner, outer⟩ := a
    obtain rfl : expects = .operand := hoperand
    refine ⟨_, _, .present .id, viable_iff_read.2 ?_⟩
    rw [Assembly.read_append_of_read h]
    exact ⟨_, rfl⟩

theorem valueDue_iff {ts : List Token} {a : Assembly} (h : Assembly.start.read ts = .ok a) :
    ValueDue ts ↔ ∃ p, a.expects = .value p := by
  rcases List.eq_nil_or_concat ts with rfl | ⟨us, t, rfl⟩
  · obtain rfl := Except.ok.inj h
    simp [ValueDue, Assembly.start]
  · rw [List.concat_eq_append] at h ⊢
    rw [ValueDue, List.getLast?_concat, Option.some.injEq]
    obtain ⟨b, hread⟩ := viable_iff_read.1 (viable_iff_read.2 ⟨a, h⟩).of_append
    rw [Assembly.read_concat hread] at h
    exact (Assembly.expects_value_iff h).symm

/-- **A token is taken before it is judged where a factor or a value is due.** -/
theorem takesBeforeJudging_iff_due {ts : List Token} {a : Assembly}
    (h : Assembly.start.read ts = .ok a) :
    a.takesBeforeJudging = true ↔ FactorDue ts ∨ ValueDue ts := by
  rw [Assembly.takesBeforeJudging_iff, factorDue_iff h, valueDue_iff h]

/-! ## Runs with an error -/

namespace Assembly

theorem run_append_of_read {a b : Assembly} {ts : List Token} (h : a.read ts = .ok b)
    (items : List (Except Error Token)) : a.run (ts.map .ok ++ items) = b.run items := by
  induction ts generalizing a with
  | nil =>
    obtain rfl := Except.ok.inj h
    rfl
  | cons t ts ih =>
    rw [read_cons] at h
    cases haccept : a.accept t with
    | error fault =>
      rw [haccept] at h
      cases h
    | ok c =>
      rw [haccept] at h
      rw [List.map_cons, List.cons_append, run, haccept]
      exact ih h

theorem read_ok_or_refused (a : Assembly) (ts : List Token) :
    (∃ b, a.read ts = .ok b) ∨ ∃ us t vs b fault, ts = us ++ t :: vs ∧ a.read us = .ok b ∧
      b.accept t = .error fault := by
  induction ts generalizing a with
  | nil => exact .inl ⟨a, rfl⟩
  | cons t ts ih =>
    cases haccept : a.accept t with
    | error fault => exact .inr ⟨[], t, ts, a, fault, rfl, rfl, haccept⟩
    | ok c =>
      rcases ih c with ⟨b, hread⟩ | ⟨us, t', vs, b, fault, rfl, hread, hrefused⟩
      · exact .inl ⟨b, by rw [read_cons_of_accept haccept, hread]⟩
      · refine .inr ⟨t :: us, t', vs, b, fault, rfl, ?_, hrefused⟩
        rw [read_cons_of_accept haccept, hread]

/-! ## What is left unread -/

theorem exists_drive_of_refused {a : Assembly} {held : Token} {fault : SyntaxFault}
    (h : a.accept held = .error fault) (ts : List Token) (e : Error) :
    ∃ result unread, ∀ later,
      a.drive held (ts.map .ok ++ .error e :: later) = (result, unread ++ later) := by
  cases htakes : a.takesBeforeJudging with
  | false =>
    refine ⟨.error fault.toError, ts.map .ok ++ [.error e], fun later => ?_⟩
    cases ts <;> simp [drive_of_refused h, refuse, htakes]
  | true =>
    cases ts with
    | nil => exact ⟨.error e, [], fun later => by simp [drive_of_refused h, refuse, htakes]⟩
    | cons t ts =>
      refine ⟨.error fault.toError, ts.map .ok ++ [.error e], fun later => ?_⟩
      simp [drive_of_refused h, refuse, htakes]

/-- What follows an error is left unread, whatever it is. -/
theorem exists_drive_error (a : Assembly) (held : Token) (ts : List Token) (e : Error) :
    ∃ result unread, ∀ later,
      a.drive held (ts.map .ok ++ .error e :: later) = (result, unread ++ later) := by
  induction ts generalizing a held with
  | nil =>
    cases haccept : a.accept held with
    | error fault => exact exists_drive_of_refused haccept [] e
    | ok b => exact ⟨.error e, [], (drive_of_accept haccept).2.1 e⟩
  | cons t ts ih =>
    cases haccept : a.accept held with
    | error fault => exact exists_drive_of_refused haccept (t :: ts) e
    | ok b =>
      obtain ⟨result, unread, hdrive⟩ := ih b t
      exact ⟨result, unread, fun later => ((drive_of_accept haccept).2.2 t _).trans (hdrive later)⟩

end Assembly

namespace Selection

theorem exists_readAhead_error (ts : List Token) (e : Error) :
    ∃ result unread, ∀ later,
      readAhead (ts.map .ok ++ .error e :: later) = (result, unread ++ later) := by
  cases ts with
  | nil => exact ⟨.error e, [], fun later => rfl⟩
  | cons t ts => exact Assembly.start.exists_drive_error t ts e

end Selection

/-! ## The longest viable beginning -/

namespace LongestViable

theorem of_viable {ts : List Token} (h : Viable ts) : LongestViable ts ts [] :=
  ⟨(List.append_nil ts).symm, h, fun _ hprefix _ => hprefix⟩

/-- The tokens before the first one that is refused are the longest viable beginning. -/
theorem of_refused {us vs : List Token} {t : Token} {b : Assembly}
    {fault : SyntaxFault} (hread : Assembly.start.read us = .ok b)
    (hrefused : b.accept t = .error fault) : LongestViable (us ++ t :: vs) us (t :: vs) := by
  refine ⟨rfl, viable_iff_read.2 ⟨b, hread⟩, fun ws hprefix hviable => ?_⟩
  have hbeyond : ¬Viable (us ++ [t]) := by
    intro h
    obtain ⟨c, hc⟩ := viable_iff_read.1 h
    rw [Assembly.read_concat hread, hrefused] at hc
    cases hc
  have hconcat : us ++ [t] <+: us ++ t :: vs := ⟨vs, by simp⟩
  rcases List.prefix_or_prefix_of_prefix hprefix hconcat with hwithin | ⟨xs, rfl⟩
  · rcases List.prefix_concat_iff.1 hwithin with rfl | hws
    · exact absurd hviable hbeyond
    · exact hws
  · exact absurd hviable.of_append hbeyond

theorem unique {ts us vs xs ys : List Token} (h : LongestViable ts us vs)
    (h' : LongestViable ts xs ys) : us = xs ∧ vs = ys := by
  have hprefix : us <+: xs := h'.longest us ⟨vs, h.eq_append.symm⟩ h.viable
  have hprefix' : xs <+: us := h.longest xs ⟨ys, h'.eq_append.symm⟩ h'.viable
  obtain rfl : us = xs := hprefix.eq_of_length_le hprefix'.length_le
  exact ⟨rfl, List.append_cancel_left (h.eq_append.symm.trans h'.eq_append)⟩

end LongestViable

namespace Selection

theorem assemble_append_cons (items later : List (Except Error Token)) (item : Except Error Token) :
    assemble (items ++ item :: later) = Assembly.start.run (items ++ item :: later) := by
  cases items <;> exact assemble_cons ..

theorem assemble_of_viable {ts : List Token} (h : Viable ts) (e : Error)
    (rest : List (Except Error Token)) : assemble (ts.map .ok ++ .error e :: rest) = .error e := by
  obtain ⟨a, hread⟩ := viable_iff_read.1 h
  rw [assemble_append_cons, Assembly.run_append_of_read hread]
  rfl

/-- Behind a refused token comes the refusal, in view of the next item. -/
theorem assemble_of_refused {us : List Token} {t : Token} {b : Assembly} {fault : SyntaxFault}
    (hread : Assembly.start.read us = .ok b) (hrefused : b.accept t = .error fault)
    (items : List (Except Error Token)) :
    assemble (us.map .ok ++ .ok t :: items) = .error (b.refuse fault items) := by
  rw [assemble_append_cons, Assembly.run_append_of_read hread, Assembly.run, hrefused]

/-- **Which error is told.** The tokens before the first error are their longest viable beginning
and what is left over. If nothing is left over, or one token where a factor or a value is due, the
error is told; otherwise the fault is told that the tokens have alone. What follows the error is not
read. -/
theorem first_error_wins (ts : List Token) (e : Error) (rest : List (Except Error Token)) :
    let items := ts.map .ok ++ .error e :: rest
    (∀ s, assemble items ≠ .ok s) ∧
      (Viable ts → assemble items = .error e) ∧
      (∃ front left, LongestViable ts front left) ∧
      (∀ front left, LongestViable ts front left →
        (left = [] ↔ Viable ts) ∧
          (left ≠ [] → ∃ fault : SyntaxFault, ofTokens ts = .error (.malformed fault.message)) ∧
          (2 ≤ left.length → assemble items = ofTokens ts) ∧
          (left.length = 1 → FactorDue front ∨ ValueDue front → assemble items = .error e) ∧
          (left.length = 1 → ¬(FactorDue front ∨ ValueDue front) →
            assemble items = ofTokens ts)) ∧
      ∃ unread, ∀ later, readAhead (ts.map .ok ++ .error e :: later) =
        (assemble items, unread ++ later) := by
  intro items
  have hunread : ∃ unread, ∀ later, readAhead (ts.map .ok ++ .error e :: later) =
      (assemble items, unread ++ later) := by
    obtain ⟨result, unread, hread⟩ := exists_readAhead_error ts e
    have hresult : result = assemble items := (congrArg Prod.fst (hread rest)).symm
    exact ⟨unread, hresult ▸ hread⟩
  rcases Assembly.start.read_ok_or_refused ts with
    ⟨a, hread⟩ | ⟨us, t, vs, b, fault, rfl, hread, hrefused⟩
  · have hviable : Viable ts := viable_iff_read.2 ⟨a, hread⟩
    have herror : assemble items = .error e := assemble_of_viable hviable e rest
    refine ⟨by simp [herror], fun _ => herror, ⟨ts, [], .of_viable hviable⟩, ?_, hunread⟩
    intro front left h
    obtain ⟨rfl, rfl⟩ := h.unique (.of_viable hviable)
    simp [hviable, herror]
  · have hlongest : LongestViable (us ++ t :: vs) us (t :: vs) := .of_refused hread hrefused
    have hno : ¬Viable (us ++ t :: vs) := by
      intro h
      have := (hlongest.unique (.of_viable h)).2
      cases this
    have halone : ofTokens (us ++ t :: vs) = .error fault.toError := by
      rw [ofTokens, List.map_append, List.map_cons, assemble_of_refused hread hrefused]
      cases vs <;> rfl
    have hitems : assemble items = .error (b.refuse fault (vs.map .ok ++ .error e :: rest)) := by
      rw [← assemble_of_refused hread hrefused]
      simp [items]
    refine ⟨by simp [hitems], fun h => absurd h hno, ⟨us, _, hlongest⟩, ?_, hunread⟩
    intro front left h
    obtain ⟨rfl, rfl⟩ := h.unique hlongest
    rw [hitems, halone, ← takesBeforeJudging_iff_due hread]
    refine ⟨by simp [hno], fun _ => ⟨fault, rfl⟩, ?_, ?_, ?_⟩
    · intro hlength
      cases vs with
      | nil => simp at hlength
      | cons u vs => rfl
    · intro hlength htakes
      obtain rfl : vs = [] := by simpa using hlength
      simp [Assembly.refuse, htakes]
    · intro hlength htakes
      obtain rfl : vs = [] := by simpa using hlength
      simp [Assembly.refuse, htakes]

/-- An error right behind a token in the place of a value, and one behind a token in the place of an
`=`. -/
theorem first_error_of_checks :
    let property : Token := .symbol (.property .id)
    let e : Error := .unreadable 6 "#"
    (ValueDue [property, .symbol .equals] ∧ ∀ rest,
      assemble ([property, .symbol .equals, .symbol .or].map .ok ++ .error e :: rest) =
        .error e) ∧
      ∀ rest, assemble ([property, .symbol .or].map .ok ++ .error e :: rest) =
        .error (.malformed "expected `=` after `id`") := by
  intro property e
  constructor
  · have hvalue : ValueDue [property, .symbol .equals] := rfl
    have hlongest : LongestViable ([property, .symbol .equals] ++ [.symbol .or])
        [property, .symbol .equals] [.symbol .or] := .of_refused rfl rfl
    refine ⟨hvalue, fun rest => ?_⟩
    obtain ⟨-, -, -, h, -⟩ := first_error_wins _ e rest
    obtain ⟨-, -, -, hdue, -⟩ := h _ _ hlongest
    exact hdue rfl (.inr hvalue)
  · intro rest
    have hlongest : LongestViable ([property] ++ [.symbol .or]) [property] [.symbol .or] :=
      .of_refused rfl rfl
    have hnot : ¬(FactorDue [property] ∨ ValueDue [property]) := by
      rw [← takesBeforeJudging_iff_due rfl]
      decide
    obtain ⟨-, -, -, h, -⟩ := first_error_wins ([property] ++ [.symbol .or]) e rest
    obtain ⟨-, -, -, -, hjudged⟩ := h _ _ hlongest
    exact hjudged rfl hnot

end Selection

end ResourceRouting
