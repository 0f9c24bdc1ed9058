import ResourceRouting.Proofs.Lookup

/-!
# Questions in order

What a computation asks of a lookup can be said without the computation: questions are put one after
the other, each to the state that the one before has left, up to the end or to the first that fails.

**Scripts** (`Access.Answers`, `Access.Stops`). A script lists questions, each with an answer. It is
followed to its end if every question gets its answer, and it stops at a question that fails if
those before it get theirs. What a script says behind that question does not matter. One of the two
has to be the case for a script that is kept to (`Access.KeepsTo`).

**Fixed questions** (`Access.Puts`). A computation puts certain questions if it puts just these in
order, whatever is answered, and fails with the first that fails. Such computations are put together
by `Puts.bind`.

Both ways to end are kept when calls are noted, and what is noted are the questions that were put
(`Answers.recorded`, `Stops.recorded`).
-/

namespace ResourceRouting.Access

variable {σ α β γ ι : Type}

/-- Questions that are put one after the other get the answers that are listed with them. -/
inductive Answers (ask : ι → Access σ α) : List (ι × α) → σ → σ → Prop
  | nil {state : σ} : Answers ask [] state state
  | cons {q : ι} {a : α} {script : List (ι × α)} {state mid final : σ}
      (first : (ask q).run state = (.ok a, mid)) (others : Answers ask script mid final) :
      Answers ask ((q, a) :: script) state final

/-- Questions that are put one after the other get their answers up to one that fails. They are
listed as far as they were put, the last one being that which failed. -/
inductive Stops (ask : ι → Access σ α) : List (ι × α) → List ι → Error → σ → σ → Prop
  | here {q : ι} {a : α} {script : List (ι × α)} {e : Error} {state final : σ}
      (fails : (ask q).run state = (.error e, final)) :
      Stops ask ((q, a) :: script) [q] e state final
  | later {q : ι} {a : α} {script : List (ι × α)} {put : List ι} {e : Error} {state mid final : σ}
      (first : (ask q).run state = (.ok a, mid)) (others : Stops ask script put e mid final) :
      Stops ask ((q, a) :: script) (q :: put) e state final

variable {ask ask' : ι → Access σ α} {script script' : List (ι × α)} {put : List ι} {e : Error}
  {state mid final : σ}

/-! ## Scripts in parts -/

theorem answers_append : Answers ask (script ++ script') state final ↔
    ∃ mid, Answers ask script state mid ∧ Answers ask script' mid final := by
  induction script generalizing state with
  | nil =>
    constructor
    · intro h
      exact ⟨state, .nil, h⟩
    · rintro ⟨mid, h, h'⟩
      cases h
      exact h'
  | cons entry script ih =>
    constructor
    · intro h
      cases h with
      | cons first others =>
        obtain ⟨mid, h, h'⟩ := ih.1 others
        exact ⟨mid, .cons first h, h'⟩
    · rintro ⟨mid, h, h'⟩
      cases h with
      | cons first others => exact .cons first (ih.2 ⟨mid, others, h'⟩)

theorem stops_append : Stops ask (script ++ script') put e state final ↔
    Stops ask script put e state final ∨ ∃ mid put', Answers ask script state mid ∧
      Stops ask script' put' e mid final ∧ put = script.map Prod.fst ++ put' := by
  induction script generalizing put state with
  | nil =>
    constructor
    · intro h
      exact .inr ⟨state, put, .nil, h, rfl⟩
    · rintro (h | ⟨mid, put', h, h', rfl⟩)
      · cases h
      · cases h
        exact h'
  | cons entry script ih =>
    constructor
    · intro h
      cases h with
      | here fails => exact .inl (.here fails)
      | later first others =>
        rcases ih.1 others with h | ⟨mid, put', h, h', rfl⟩
        · exact .inl (.later first h)
        · exact .inr ⟨mid, put', .cons first h, h', rfl⟩
    · rintro (h | ⟨mid, put', h, h', rfl⟩)
      · cases h with
        | here fails => exact .here fails
        | later first others => exact .later first (ih.2 (.inl others))
      · cases h with
        | cons first others => exact .later first (ih.2 (.inr ⟨mid, put', others, h', rfl⟩))

theorem Stops.put_prefix (h : Stops ask script put e state final) :
    put <+: script.map Prod.fst := by
  induction h with
  | here fails => simp
  | later first others ih => simpa using ih

/-- A script is kept to, up to its end or up to a question that fails. -/
def KeepsTo (ask : ι → Access σ α) (script : List (ι × α)) (state : σ) : Prop :=
  (∃ final, Answers ask script state final) ∨ ∃ put e final, Stops ask script put e state final

theorem Answers.keepsTo_append (h : Answers ask script state mid) (h' : KeepsTo ask script' mid) :
    KeepsTo ask (script ++ script') state := by
  rcases h' with ⟨final, h'⟩ | ⟨put, e, final, h'⟩
  · exact .inl ⟨final, answers_append.2 ⟨mid, h, h'⟩⟩
  · exact .inr ⟨_, e, final, stops_append.2 (.inr ⟨mid, put, h, h', rfl⟩)⟩

theorem Stops.exists_fails (h : Stops ask script put e state final) :
    ∃ q mid, (ask q).run mid = (.error e, final) := by
  induction h with
  | here fails => exact ⟨_, _, fails⟩
  | later first others ih => exact ih

theorem KeepsTo.exists_answers (h : KeepsTo ask script state)
    (hask : ∀ q state, ∃ a final, (ask q).run state = (.ok a, final)) :
    ∃ final, Answers ask script state final := by
  rcases h with h | ⟨put, e, final, h⟩
  · exact h
  · obtain ⟨q, mid, hfails⟩ := h.exists_fails
    obtain ⟨a, final', hok⟩ := hask q mid
    rw [hfails] at hok
    cases hok

/-- Only how the questions of a script are dealt with matters. -/
theorem Answers.congr (h : Answers ask script state final)
    (hask : ∀ q ∈ script.map Prod.fst, ask' q = ask q) : Answers ask' script state final := by
  induction h with
  | nil => exact .nil
  | cons first others ih =>
    rw [List.map_cons, List.forall_mem_cons] at hask
    exact .cons (hask.1 ▸ first) (ih hask.2)

/-- Whatever the questions, there are answers with which they are a script that is kept to. -/
theorem exists_script [Inhabited α] (ask : ι → Access σ α) (qs : List ι) (state : σ) :
    ∃ script, script.map Prod.fst = qs ∧ KeepsTo ask script state := by
  induction qs generalizing state with
  | nil => exact ⟨[], rfl, .inl ⟨state, .nil⟩⟩
  | cons q qs ih =>
    match hrun : (ask q).run state with
    | (.ok a, mid) =>
      obtain ⟨script, rfl, h⟩ := ih mid
      have hfirst : Answers ask [(q, a)] state mid := .cons hrun .nil
      exact ⟨(q, a) :: script, rfl, hfirst.keepsTo_append h⟩
    | (.error e, final) =>
      refine ⟨(q, default) :: qs.map fun q => (q, default), ?_, .inr ⟨[q], e, final, .here hrun⟩⟩
      simp [Function.comp_def]

/-! ## Fixed questions -/

/-- A computation puts these questions in order and no others, whatever is answered. -/
def Puts (ask : ι → Access σ α) (qs : List ι) (act : Access σ β) : Prop :=
  ∀ state script, script.map Prod.fst = qs →
    (∀ final, Answers ask script state final → ∃ b, act.run state = (.ok b, final)) ∧
      ∀ put e final, Stops ask script put e state final → act.run state = (.error e, final)

namespace Puts

theorem pure (b : β) : Puts ask [] (Pure.pure b : Access σ β) := by
  intro state script hscript
  obtain rfl := List.map_eq_nil_iff.1 hscript
  constructor
  · intro final h
    cases h
    exact ⟨b, rfl⟩
  · intro put e final h
    cases h

theorem one (q : ι) : Puts ask [q] (ask q) := by
  intro state script hscript
  obtain ⟨⟨q', a⟩, others, rfl, rfl, hothers⟩ := List.map_eq_cons_iff.1 hscript
  obtain rfl := List.map_eq_nil_iff.1 hothers
  constructor
  · intro final h
    cases h with
    | cons first others =>
      cases others
      exact ⟨a, first⟩
  · intro put e final h
    cases h with
    | here fails => exact fails
    | later first others => cases others

/-- What is asked first must not depend on anything, and what is asked then not on the answer. -/
theorem bind {qs qs' : List ι} {act : Access σ β} {f : β → Access σ γ} (hact : Puts ask qs act)
    (hf : ∀ b, Puts ask qs' (f b)) : Puts ask (qs ++ qs') (act >>= f) := by
  intro state whole hwhole
  obtain ⟨script, script', rfl, hscript, hscript'⟩ := List.map_eq_append_iff.1 hwhole
  obtain ⟨hanswers, hstops⟩ := hact state script hscript
  constructor
  · intro final h
    obtain ⟨mid, h, h'⟩ := answers_append.1 h
    obtain ⟨b, hb⟩ := hanswers mid h
    rw [run_bind_of_ok hb]
    exact (hf b mid script' hscript').1 final h'
  · intro put e final h
    rcases stops_append.1 h with h | ⟨mid, put', h, h', -⟩
    · exact run_bind_of_error (hstops put e final h) f
    · obtain ⟨b, hb⟩ := hanswers mid h
      rw [run_bind_of_ok hb]
      exact (hf b mid script' hscript').2 put' e final h'

end Puts

/-! ## Noted questions -/

theorem run_note {call : Call} {act : Access σ α} {answer : Except Error α}
    (h : act.run state = (answer, final)) (calls : List Call) :
    (Recorded.note call act).run ⟨state, calls⟩ = (answer, ⟨final, calls ++ [call]⟩) := by
  show ((act.run state).1, (⟨(act.run state).2, calls ++ [call]⟩ : Recorded σ)) = _
  rw [h]

theorem Answers.recorded (h : Answers ask script state final) (call : ι → Call)
    (calls : List Call) : Answers (fun q => Recorded.note (call q) (ask q)) script ⟨state, calls⟩
      ⟨final, calls ++ (script.map Prod.fst).map call⟩ := by
  induction h generalizing calls with
  | nil => simpa using Answers.nil
  | @cons q a script state mid final first others ih =>
    refine .cons (run_note first calls) ?_
    simpa using ih (calls ++ [call q])

theorem Stops.recorded (h : Stops ask script put e state final) (call : ι → Call)
    (calls : List Call) : Stops (fun q => Recorded.note (call q) (ask q)) script put e
      ⟨state, calls⟩ ⟨final, calls ++ put.map call⟩ := by
  induction h generalizing calls with
  | here fails => exact .here (run_note fails calls)
  | @later q a script put e state mid final first others ih =>
    refine .later (run_note first calls) ?_
    simpa using ih (calls ++ [call q])

end ResourceRouting.Access
