import ResourceRouting.Proofs.Selection.Derivation
import ResourceRouting.Selection.Assembly

/-!
# Assemblies read the grammar

The machine that puts selections together takes exactly the token lists of the grammar, and builds
what they spell.

**Completeness** (`Assembly.read_of_spells`). A phrase is read in any context: a factor leaves one
complete factor, a term leaves factors that fold up to it, a predicate leaves terms and factors that
fold up to it.

**Soundness** (`Assembly.Reads`). The invariant of a run is that the tokens taken so far make up
what waits: bracket by bracket, every waiting term or factor is spelled by its tokens and followed
by its connective. One more token keeps this (`Assembly.Reads.accept`), and at the end the waiting
operands close up to one predicate.

Main result: `Selection.ofTokens_accepts_grammar`. Every token list of the grammar has one
derivation and gives its selection, and every other one has a fault.
-/

namespace ResourceRouting

namespace Assembly

/-! ## Reading tokens only -/

/-- The assembly after some tokens, if it takes them all. -/
def read (a : Assembly) (ts : List Token) : Except SyntaxFault Assembly := ts.foldlM accept a

@[simp] theorem read_nil (a : Assembly) : a.read [] = .ok a := rfl

theorem read_cons (a : Assembly) (t : Token) (ts : List Token) :
    a.read (t :: ts) = (a.accept t).bind fun a' => a'.read ts := rfl

theorem read_cons_of_accept {a b : Assembly} {t : Token} (h : a.accept t = .ok b)
    (ts : List Token) : a.read (t :: ts) = b.read ts := by
  rw [read_cons, h]
  rfl

theorem read_append (a : Assembly) (ts us : List Token) :
    a.read (ts ++ us) = (a.read ts).bind fun b => b.read us := List.foldlM_append

theorem read_append_of_read {a b : Assembly} {ts : List Token} (h : a.read ts = .ok b)
    (us : List Token) : a.read (ts ++ us) = b.read us := by
  rw [read_append, h]
  rfl

/-! ## Runs over items -/

/-- Whether a token is taken before it is judged. -/
def takesBeforeJudging (a : Assembly) : Bool :=
  match a.expects with
  | .operand | .value _ => true
  | .equals _ | .connective _ => false

/-- The outcome of a refusal, given what follows the refused token. -/
def refuse (a : Assembly) (fault : SyntaxFault) : List (Except Error Token) → Error
  | .error e :: _ => if a.takesBeforeJudging then e else fault.toError
  | _ => fault.toError

/-- The selection of which the items are the remaining part. -/
def run (a : Assembly) : List (Except Error Token) → Except Error Selection
  | [] => a.finish.mapError SyntaxFault.toError
  | .error e :: _ => .error e
  | .ok t :: items =>
    match a.accept t with
    | .ok a' => a'.run items
    | .error fault => .error (a.refuse fault items)

theorem drive_of_accept {a b : Assembly} {held : Token} (h : a.accept held = .ok b) :
    a.drive held [] = (b.finish.mapError SyntaxFault.toError, []) ∧
      (∀ e later, a.drive held (.error e :: later) = (.error e, later)) ∧
      ∀ next later, a.drive held (.ok next :: later) = b.drive next later := by
  refine ⟨?_, fun e later => ?_, fun next later => ?_⟩ <;> rw [drive] <;> split <;>
    simp [h, Except.bind]

/-- A refusal is told, or the error that is read before the token is judged. -/
theorem drive_of_refused {a : Assembly} {held : Token} {fault : SyntaxFault}
    (h : a.accept held = .error fault) (unread : List (Except Error Token)) :
    a.drive held unread =
      (.error (a.refuse fault unread), if a.takesBeforeJudging then unread.tail else unread) := by
  have hfault : ((Except.error fault).bind finish).mapError SyntaxFault.toError =
      .error fault.toError := rfl
  rw [drive.eq_def]
  split <;> rename_i hexpects <;> rcases unread with _ | ⟨e | next, later⟩ <;>
    simp [h, hfault, refuse, takesBeforeJudging, hexpects]

/-- **Reading ahead comes to the same end as a run over all items.** -/
theorem drive_eq_run (a : Assembly) (held : Token) (unread : List (Except Error Token)) :
    (a.drive held unread).1 = a.run (.ok held :: unread) := by
  induction unread generalizing a held with
  | nil =>
    rw [run]
    cases haccept : a.accept held with
    | error fault => rw [drive_of_refused haccept]
    | ok b =>
      rw [(drive_of_accept haccept).1]
      rfl
  | cons item unread ih =>
    rw [run]
    cases haccept : a.accept held with
    | error fault => rw [drive_of_refused haccept]
    | ok b =>
      obtain ⟨-, herror, hnext⟩ := drive_of_accept haccept
      cases item with
      | error e =>
        rw [herror]
        rfl
      | ok next => rw [hnext, ih]

theorem run_map_ok (a : Assembly) (ts : List Token) :
    a.run (ts.map .ok) = ((a.read ts).bind finish).mapError SyntaxFault.toError := by
  induction ts generalizing a with
  | nil => rfl
  | cons t ts ih =>
    rw [List.map_cons, run, read_cons]
    cases haccept : a.accept t with
    | error fault => cases ts <;> rfl
    | ok b => exact ih b

end Assembly

namespace Selection

theorem assemble_cons (item : Except Error Token) (items : List (Except Error Token)) :
    assemble (item :: items) = Assembly.start.run (item :: items) := by
  cases item with
  | error e => rfl
  | ok t => exact Assembly.start.drive_eq_run t items

theorem ofTokens_eq_ok_iff {ts : List Token} {s : Selection} :
    ofTokens ts = .ok s ↔ ∃ a, Assembly.start.read ts = .ok a ∧ a.finish = .ok s := by
  cases ts with
  | nil => simp [ofTokens, assemble, readAhead, Assembly.start, Assembly.finish]
  | cons t ts =>
    have hrun : ofTokens (t :: ts) = Assembly.start.run ((t :: ts).map .ok) := assemble_cons ..
    rw [hrun, Assembly.run_map_ok]
    cases Assembly.start.read (t :: ts) with
    | error fault =>
      constructor
      · intro h
        cases h
      · intro h
        obtain ⟨a, ha, -⟩ := h
        cases ha
    | ok a =>
      show a.finish.mapError SyntaxFault.toError = .ok s ↔ _
      constructor
      · intro h
        refine ⟨a, rfl, ?_⟩
        cases hfinish : a.finish with
        | error fault =>
          rw [hfinish] at h
          cases h
        | ok t =>
          rw [hfinish] at h
          exact congrArg Except.ok (Except.ok.inj h)
      · intro h
        obtain ⟨b, hb, hfinish⟩ := h
        obtain rfl := Except.ok.inj hb
        rw [hfinish]
        rfl

theorem exists_fault_of_ofTokens {ts : List Token} (h : ∀ s, ofTokens ts ≠ .ok s) :
    ∃ fault : SyntaxFault, ofTokens ts = .error fault.toError := by
  cases ts with
  | nil => exact ⟨.empty, rfl⟩
  | cons t ts =>
    have hrun : ofTokens (t :: ts) = Assembly.start.run ((t :: ts).map .ok) := assemble_cons ..
    rw [hrun, Assembly.run_map_ok] at h ⊢
    cases hread : (Assembly.start.read (t :: ts)).bind Assembly.finish with
    | error fault => exact ⟨fault, rfl⟩
    | ok s =>
      rw [hread] at h
      exact absurd rfl (h s)

end Selection

namespace Assembly

/-! ## Completeness -/

theorem repeat_not_succ (n : Nat) (s : Selection) :
    (n + 1).repeat Selection.not s = n.repeat Selection.not (.not s) := by
  induction n with
  | zero => rfl
  | succ n ih => exact congrArg Selection.not ih

/-- What reading a phrase does where an operand is due, by the level of the phrase. -/
def Completes (ts : List Token) (s : Selection) : Level → Prop
  | .factor => ∀ b outer, read ⟨.operand, b, outer⟩ ts = .ok (supply ⟨.operand, b, outer⟩ s)
  | .term => ∃ f fs, Bracket.term ⟨[], fs, 0⟩ f = s ∧ ∀ terms factors outer,
      read ⟨.operand, ⟨terms, factors, 0⟩, outer⟩ ts =
        .ok ⟨.connective f, ⟨terms, fs ++ factors, 0⟩, outer⟩
  | .predicate => ∃ f fs ss, Bracket.close ⟨ss, fs, 0⟩ f = s ∧ ∀ terms outer,
      read ⟨.operand, ⟨terms, [], 0⟩, outer⟩ ts =
        .ok ⟨.connective f, ⟨ss ++ terms, fs, 0⟩, outer⟩

/-- A phrase is read in every context, and what it leaves folds up to its selection. -/
theorem completes_of_spells {l : Level} {ts : List Token} {s : Selection} (h : Spells l ts s) :
    Completes ts s l := by
  induction h with
  | present p =>
    intro b outer
    rfl
  | equals p value =>
    intro b outer
    rfl
  | @parens ts s inner ih =>
    -- The closing parenthesis folds up what the predicate inside has left, to one operand of `b`.
    obtain ⟨f, fs, ss, hclose, hread⟩ := ih
    intro b outer
    rw [read_cons_of_accept (b := ⟨.operand, ⟨[], [], 0⟩, b :: outer⟩) rfl,
      read_append_of_read (hread [] (b :: outer)), List.append_nil,
      read_cons_of_accept (b := supply ⟨.operand, b, outer⟩ s)]
    · rfl
    · rw [← hclose]
      rfl
  | @not ts s operand ih =>
    intro b outer
    rw [read_cons_of_accept (b := ⟨.operand, { b with negations := b.negations + 1 }, outer⟩) rfl,
      ih]
    simp only [supply, Bracket.negate, repeat_not_succ]
  | @ofFactor ts s factor ih =>
    refine ⟨s, [], rfl, fun terms factors outer => ?_⟩
    rw [ih]
    rfl
  | @and ts us s t left right ihl ihr =>
    obtain ⟨f, fs, hterm, hread⟩ := ihr
    refine ⟨f, fs ++ [s], ?_, fun terms factors outer => ?_⟩
    · rw [← hterm]
      simp [Bracket.term]
    · rw [read_append_of_read (ihl _ _),
        read_cons_of_accept (b := ⟨.operand, ⟨terms, s :: factors, 0⟩, outer⟩) rfl, hread]
      simp
  | @ofTerm ts s term ih =>
    obtain ⟨f, fs, hterm, hread⟩ := ih
    refine ⟨f, fs, [], hterm, fun terms outer => ?_⟩
    rw [hread, List.append_nil]
    rfl
  | @or ts us s t left right ihl ihr =>
    obtain ⟨f, fs, hterm, hread⟩ := ihl
    obtain ⟨g, gs, ss, hclose, hread'⟩ := ihr
    -- The `or` completes the term on its left, which waits below all terms of the right-hand side.
    refine ⟨g, gs, ss ++ [s], ?_, fun terms outer => ?_⟩
    · rw [← hclose]
      simp [Bracket.close, Bracket.term]
    · rw [read_append_of_read (hread terms [] outer), List.append_nil,
        read_cons_of_accept (b := ⟨.operand, ⟨s :: terms, [], 0⟩, outer⟩), hread']
      · simp
      · rw [← hterm]
        rfl

/-- **Every predicate of the grammar is read and may end.** -/
theorem read_of_spells {ts : List Token} {s : Selection} (h : Spells .predicate ts s) :
    ∃ a, start.read ts = .ok a ∧ a.finish = .ok s := by
  obtain ⟨f, fs, ss, hclose, hread⟩ := completes_of_spells h
  refine ⟨_, hread [] [], ?_⟩
  rw [← hclose, List.append_nil]
  rfl

/-! ## Soundness -/

end Assembly

namespace Bracket

/-- The tokens that make up what waits in a bracket. Behind each operand that waits stands its
connective. -/
inductive Waits : Bracket → List Token → Prop
  | empty : Waits .empty []
  | not {terms factors : List Selection} {n : Nat} {ts : List Token}
      (before : Waits ⟨terms, factors, n⟩ ts) :
      Waits ⟨terms, factors, n + 1⟩ (ts ++ [.symbol .not])
  | and {terms factors : List Selection} {f : Selection} {ts us : List Token}
      (before : Waits ⟨terms, factors, 0⟩ ts) (factor : Spells .factor us f) :
      Waits ⟨terms, f :: factors, 0⟩ (ts ++ us ++ [.symbol .and])
  | or {terms : List Selection} {t : Selection} {ts us : List Token}
      (before : Waits ⟨terms, [], 0⟩ ts) (term : Spells .term us t) :
      Waits ⟨t :: terms, [], 0⟩ (ts ++ us ++ [.symbol .or])

/-- The nots before a factor are part of a longer factor. -/
theorem Waits.negate {b : Bracket} {ts us : List Token} {f : Selection} (h : b.Waits ts)
    (hf : Spells .factor us f) : ∃ vs ws, ts ++ us = vs ++ ws ∧
      Waits { b with negations := 0 } vs ∧ Spells .factor ws (b.negate f) := by
  induction h generalizing us f with
  | empty => exact ⟨[], us, rfl, .empty, hf⟩
  | @not terms factors n ts before ih =>
    obtain ⟨vs, ws, heq, hvs, hws⟩ := ih (.not hf)
    refine ⟨vs, ws, ?_, hvs, ?_⟩
    · rw [← heq]
      simp
    · rwa [Bracket.negate, Assembly.repeat_not_succ]
  | @and terms factors g ts vs before factor => exact ⟨_, us, rfl, .and before factor, hf⟩
  | @or terms t ts vs before term => exact ⟨_, us, rfl, .or before term, hf⟩

/-- The factors that wait make up a longer term with the one that ends them. -/
theorem Waits.term {terms factors : List Selection} {ts us : List Token} {t : Selection}
    (h : Waits ⟨terms, factors, 0⟩ ts) (ht : Spells .term us t) : ∃ vs ws, ts ++ us = vs ++ ws ∧
      Waits ⟨terms, [], 0⟩ vs ∧ Spells .term ws (Bracket.term ⟨terms, factors, 0⟩ t) := by
  induction factors generalizing ts us t with
  | nil => exact ⟨ts, us, rfl, h, ht⟩
  | cons f factors ih =>
    cases h with
    | @and _ _ _ ts vs before factor =>
      obtain ⟨xs, ys, heq, hxs, hys⟩ := ih before (.and factor ht)
      refine ⟨xs, ys, ?_, hxs, hys⟩
      rw [← heq]
      simp

/-- The terms that wait make up a longer predicate with the one that ends them. -/
theorem Waits.predicate {terms : List Selection} {ts us : List Token} {s : Selection}
    (h : Waits ⟨terms, [], 0⟩ ts) (hs : Spells .predicate us s) :
    Spells .predicate (ts ++ us) (terms.foldl (fun right left => .or [left, right]) s) := by
  induction terms generalizing ts us s with
  | nil =>
    cases h with
    | empty => exact hs
  | cons t terms ih =>
    cases h with
    | @or _ _ ts vs before term =>
      have := ih before (.or term hs)
      simpa using this

theorem Waits.close {b : Bracket} {ts us : List Token} {f : Selection} (h : b.Waits ts)
    (hnone : b.negations = 0) (hf : Spells .factor us f) :
    Spells .predicate (ts ++ us) (b.close f) := by
  obtain ⟨terms, factors, negations⟩ := b
  subst hnone
  obtain ⟨vs, ws, heq, hvs, hws⟩ := h.term (.ofFactor hf)
  rw [heq]
  exact hvs.predicate (.ofTerm hws)

end Bracket

/-- The tokens of an operand that is not complete yet, or of the factor that is. -/
def Expectation.Begun (negations : Nat) (ts : List Token) : Expectation → Prop
  | .operand => ts = []
  | .equals p => ts = [.symbol (.property p)]
  | .value p => ts = [.symbol (.property p), .symbol .equals]
  | .connective f => negations = 0 ∧ Spells .factor ts f

namespace Assembly

/-- The tokens that make up what waits outside the innermost parentheses. -/
inductive Encloses : List Bracket → List Token → Prop
  | nil : Encloses [] []
  | cons {b : Bracket} {outer : List Bracket} {ts us : List Token} (around : Encloses outer ts)
      (waits : b.Waits us) : Encloses (b :: outer) (ts ++ us ++ [.symbol .openParen])

/-- The tokens that make up an assembly: those around the innermost parentheses, those that wait
inside them, and those of the operand that has begun. -/
def Reads (a : Assembly) (ts : List Token) : Prop :=
  ∃ us vs ws, ts = us ++ (vs ++ ws) ∧ Encloses a.outer us ∧ a.inner.Waits vs ∧
    a.expects.Begun a.inner.negations ws

theorem reads_start : start.Reads [] := ⟨[], [], [], rfl, .nil, .empty, rfl⟩

/-- A complete operand makes up a factor with the nots before it. -/
theorem reads_supply {e : Expectation} {b : Bracket} {outer : List Bracket} {s : Selection}
    {us vs ws : List Token} (houter : Encloses outer us) (hinner : b.Waits vs)
    (hs : Spells .factor ws s) : (supply ⟨e, b, outer⟩ s).Reads (us ++ (vs ++ ws)) := by
  obtain ⟨xs, ys, heq, hxs, hys⟩ := hinner.negate hs
  exact ⟨us, xs, ys, by rw [heq], houter, hxs, rfl, hys⟩

/-- Behind a complete factor comes a connective, or the parenthesis that ends the bracket. -/
theorem reads_of_connective {b : Assembly} {terms factors : List Selection} {outer : List Bracket}
    {f : Selection} {t : Token} {us vs ws : List Token} (houter : Encloses outer us)
    (hinner : Bracket.Waits ⟨terms, factors, 0⟩ vs) (hf : Spells .factor ws f)
    (haccept : accept ⟨.connective f, ⟨terms, factors, 0⟩, outer⟩ t = .ok b) :
    b.Reads (us ++ (vs ++ ws) ++ [t]) := by
  simp only [accept] at haccept
  split at haccept
  · obtain rfl := Except.ok.inj haccept
    exact ⟨us, _, [], by simp, houter, .and hinner hf, rfl⟩
  · obtain rfl := Except.ok.inj haccept
    obtain ⟨xs, ys, heq, hxs, hys⟩ := hinner.term (.ofFactor hf)
    exact ⟨us, _, [], by simp [heq], houter, .or hxs hys, rfl⟩
  · cases houter with
    | nil => cases haccept
    | @cons c outer ts us' houter' hc =>
      simp only at haccept
      split at haccept
      · rename_i hclose
        obtain rfl := Except.ok.inj haccept
        have hparens := Spells.parens (hinner.close rfl hf)
        have := reads_supply (e := .operand) houter' hc hparens
        rw [hclose]
        simpa using this
      · cases haccept

/-- **One more token keeps what the tokens make up.** -/
theorem Reads.accept {a b : Assembly} {ts : List Token} {t : Token} (h : a.Reads ts)
    (haccept : a.accept t = .ok b) : b.Reads (ts ++ [t]) := by
  obtain ⟨expects, ⟨terms, factors, n⟩, outer⟩ := a
  obtain ⟨us, vs, ws, rfl, houter, hinner, hbegun⟩ := h
  -- What the token adds depends on what is expected: only behind a complete factor it closes
  -- something that waits, everywhere else it stands at the end of what was there.
  cases expects with
  | operand =>
    obtain rfl : ws = [] := hbegun
    simp only [Assembly.accept] at haccept
    split at haccept
    · obtain rfl := Except.ok.inj haccept
      exact ⟨us, _, [], by simp, houter, .not hinner, rfl⟩
    · obtain rfl := Except.ok.inj haccept
      exact ⟨_, [], [], by simp, .cons houter hinner, .empty, rfl⟩
    · obtain rfl := Except.ok.inj haccept
      exact ⟨us, vs, _, by simp, houter, hinner, rfl⟩
    · cases haccept
    · cases haccept
  | equals p =>
    obtain rfl : ws = [.symbol (.property p)] := hbegun
    simp only [Assembly.accept] at haccept
    split at haccept
    · obtain rfl := Except.ok.inj haccept
      exact ⟨us, vs, _, by simp, houter, hinner, rfl⟩
    · cases haccept
  | value p =>
    obtain rfl : ws = [.symbol (.property p), .symbol .equals] := hbegun
    simp only [Assembly.accept] at haccept
    split at haccept
    · obtain rfl := Except.ok.inj haccept
      simpa using reads_supply houter hinner (.present p)
    · rename_i value
      obtain rfl := Except.ok.inj haccept
      simpa using reads_supply houter hinner (.equals p value)
    · cases haccept
  | connective f =>
    obtain ⟨hnone, hf⟩ := hbegun
    obtain rfl : n = 0 := hnone
    exact reads_of_connective houter hinner hf haccept

theorem Reads.read {a b : Assembly} {ts us : List Token} (h : a.Reads ts)
    (hread : a.read us = .ok b) : b.Reads (ts ++ us) := by
  induction us generalizing a ts with
  | nil =>
    obtain rfl := Except.ok.inj hread
    simpa using h
  | cons t us ih =>
    rw [read_cons] at hread
    cases haccept : a.accept t with
    | error fault => simp [haccept, Except.bind] at hread
    | ok c =>
      rw [haccept] at hread
      simpa using ih (h.accept haccept) hread

theorem Reads.finish {a : Assembly} {ts : List Token} {s : Selection} (h : a.Reads ts)
    (hfinish : a.finish = .ok s) : Spells .predicate ts s := by
  obtain ⟨expects, inner, outer⟩ := a
  obtain ⟨us, vs, ws, rfl, houter, hinner, hbegun⟩ := h
  cases expects with
  | connective f =>
    cases houter with
    | nil =>
      obtain rfl := Except.ok.inj hfinish
      exact hinner.close hbegun.1 hbegun.2
    | cons _ _ => cases hfinish
  | _ => cases hfinish

end Assembly

/-! ## Token lists and selections -/

namespace Selection

/-- **A token list gives a selection exactly when it spells the selection.** -/
theorem ofTokens_eq_ok_iff_spells {ts : List Token} {s : Selection} :
    ofTokens ts = .ok s ↔ Spells .predicate ts s := by
  rw [ofTokens_eq_ok_iff]
  constructor
  · intro h
    obtain ⟨a, hread, hfinish⟩ := h
    have hreads : a.Reads ts := Assembly.reads_start.read hread
    exact hreads.finish hfinish
  · exact Assembly.read_of_spells

/-- **Reading accepts exactly the grammar.** A token list gives the selection of its derivation. It
has at most one derivation, and it has a fault exactly when it has none. -/
theorem ofTokens_accepts_grammar (ts : List Token) :
    (∀ s, ofTokens ts = .ok s ↔ Spells .predicate ts s) ∧
      (∀ s, Spells .predicate ts s ↔
        ∃ d : Derivation .predicate, d.tokens = ts ∧ d.selection = s) ∧
      Subsingleton { d : Derivation .predicate // d.tokens = ts } ∧
      ((∃ fault : SyntaxFault, ofTokens ts = .error (.malformed fault.message)) ↔
        ¬∃ s, Spells .predicate ts s) := by
  refine ⟨fun s => ofTokens_eq_ok_iff_spells, fun s => spells_iff_exists, ⟨?_⟩, ?_⟩
  · rintro ⟨d, hd⟩ ⟨d', hd'⟩
    exact Subtype.ext (Derivation.eq_of_tokens_eq (hd.trans hd'.symm))
  · constructor
    · rintro ⟨fault, hfault⟩ ⟨s, hs⟩
      rw [ofTokens_eq_ok_iff_spells.2 hs] at hfault
      cases hfault
    · intro hno
      exact exists_fault_of_ofTokens fun s hs => hno ⟨s, ofTokens_eq_ok_iff_spells.1 hs⟩

end Selection

end ResourceRouting
