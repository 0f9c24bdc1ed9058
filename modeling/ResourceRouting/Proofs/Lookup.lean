import ResourceRouting.Router

/-!
# Using a lookup

A computation on a lookup hands its state on, whether it answers or fails.

**Views** (`Access.Keeps`). Of the state of a lookup a view may show what is behind it. Looking
something up keeps the view, so a whole evaluation keeps it, at whatever call it fails.

**Readers** (`Lookup.Reads`). A lookup reads the catalog that a view shows if its calls keep the
view, and if the attributes that it answers are those in the catalog. It may fail at any call, for
any reason. Lookups stay readers when their calls are noted, counted and set to fail
(`Lookup.Reads.recorded`, `Lookup.Reads.failingAt`).
-/

namespace ResourceRouting

/-! ## Running computations -/

section Access

variable {σ α β : Type}

theorem Access.run_bind_of_ok {act : Access σ α} {state state' : σ} {a : α}
    (h : act.run state = (.ok a, state')) (f : α → Access σ β) :
    (act >>= f).run state = (f a).run state' := by
  show ExceptT.bindCont f (act.run state).1 (act.run state).2 = _
  rw [h]
  rfl

theorem Access.run_bind_of_error {act : Access σ α} {state state' : σ} {e : Error}
    (h : act.run state = (.error e, state')) (f : α → Access σ β) :
    (act >>= f).run state = (.error e, state') := by
  show ExceptT.bindCont f (act.run state).1 (act.run state).2 = _
  rw [h]
  rfl

/-- Routing keeps the roster and the reports while it uses its lookup. -/
theorem Router.run_ask {act : Access σ α} {source source' : σ} {answer : Except Error α}
    (h : act.run source = (answer, source')) (roster : Roster) (reports : List Telemetry) :
    (Router.ask act).run ⟨source, roster, reports⟩ = (answer, ⟨source', roster, reports⟩) := by
  show ((act.run source).1, (⟨(act.run source).2, roster, reports⟩ : Router σ)) = _
  rw [h]

section Query

variable {L : Lookup σ} {s : Selection} {source source' : σ}

theorem Router.run_query {found : StringSet} (h : (s.evaluate L).run source = (.ok found, source'))
    (roster : Roster) (reports : List Telemetry) :
    (Router.query L s).run ⟨source, roster, reports⟩ =
      (.ok found, ⟨source', roster, reports ++ [.query ⟨s.normalized, found.size⟩]⟩) := by
  rw [Router.query, Access.run_bind_of_ok (Router.run_ask h roster reports)]
  rfl

theorem Router.run_query_of_error {e : Error}
    (h : (s.evaluate L).run source = (.error e, source')) (roster : Roster)
    (reports : List Telemetry) : (Router.query L s).run ⟨source, roster, reports⟩ =
      (.error e, ⟨source', roster, reports⟩) := by
  rw [Router.query, Access.run_bind_of_error (Router.run_ask h roster reports)]

end Query

end Access

/-! ## Views -/

namespace Access

variable {σ α β υ : Type} {view : σ → υ}

/-- A view shows the same before and after the computation, whatever comes of it. -/
def Keeps (view : σ → υ) (act : Access σ α) : Prop := ∀ state, view (act.run state).2 = view state

theorem Keeps.pure (a : α) : Keeps view (pure a : Access σ α) := fun _ => rfl

theorem Keeps.bind {act : Access σ α} {f : α → Access σ β} (hact : Keeps view act)
    (hf : ∀ a, Keeps view (f a)) : Keeps view (act >>= f) := by
  intro state
  have hstate := hact state
  match hrun : act.run state with
  | (.ok a, state') =>
    rw [hrun] at hstate
    rw [run_bind_of_ok hrun, hf a state']
    exact hstate
  | (.error e, state') =>
    rw [hrun] at hstate
    rw [run_bind_of_error hrun]
    exact hstate

end Access

theorem Counted.run_guard {σ α : Type} (fails : Nat → Bool) (act : Access σ α)
    (state : Counted σ) : (Counted.guard fails act).run state =
      if fails (state.count + 1) then
        (.error (Counted.failure (state.count + 1)), { state with count := state.count + 1 })
      else ((act.run state.source).1, ⟨(act.run state.source).2, state.count + 1⟩) := rfl

/-! ## Readers -/

namespace Lookup

variable {σ : Type} {view : σ → Catalog} {L : Lookup σ}

/-- A lookup into the catalog that a view shows. Its calls may fail, but they change nothing in the
catalog. -/
structure Reads (view : σ → Catalog) (L : Lookup σ) : Prop where
  select (key : Key) : Access.Keeps view (L.select key)
  contains (key : Key) (id : String) : Access.Keeps view (L.contains key id)
  attributes (id : String) : Access.Keeps view (L.attributes id)
  attributes_eq {id : String} {state state' : σ} {a : Option Attributes}
    (h : (L.attributes id).run state = (.ok a, state')) : a = (view state).attributes? id

namespace Reads

theorem evaluateEach (ss : List Selection) (h : ∀ s ∈ ss, Access.Keeps view (s.evaluate L)) :
    Access.Keeps view (Selection.evaluateEach L ss) := by
  induction ss with
  | nil => exact .pure []
  | cons s ss ih =>
    rw [List.forall_mem_cons] at h
    rw [Selection.evaluateEach]
    exact .bind h.1 fun first => .bind (ih h.2) fun others => .pure _

/-- **An evaluation changes nothing in the catalog**, at whatever call it fails. -/
theorem evaluate (hL : L.Reads view) (s : Selection) : Access.Keeps view (s.evaluate L) := by
  induction s with
  | check k => exact hL.select _
  | not s ih =>
    rw [Selection.evaluate]
    exact .bind (hL.select .all) fun all => .bind ih fun excluded => .pure _
  | join op ss ih =>
    cases op with
    | and =>
      cases ss with
      | nil =>
        rw [Selection.evaluate]
        exact hL.select .all
      | cons s ss =>
        rw [List.forall_mem_cons] at ih
        rw [Selection.evaluate]
        exact .bind ih.1 fun first => .bind (evaluateEach ss ih.2) fun others => .pure _
    | or =>
      rw [Selection.evaluate]
      exact .bind (evaluateEach ss ih) fun all => .pure _

theorem probeUntil (id : String) (op : Connective) (ss : List Selection)
    (h : ∀ s ∈ ss, Access.Keeps view (s.probe L id)) :
    Access.Keeps view (Selection.probeUntil L id op ss) := by
  induction ss with
  | nil => exact .pure _
  | cons s ss ih =>
    rw [List.forall_mem_cons] at h
    rw [Selection.probeUntil]
    refine .bind h.1 fun held => ?_
    split
    · exact ih h.2
    · exact .pure held

theorem probe (hL : L.Reads view) (id : String) (s : Selection) :
    Access.Keeps view (s.probe L id) := by
  induction s with
  | check k => exact hL.contains _ id
  | not s ih =>
    rw [Selection.probe]
    exact .bind ih fun held => .pure _
  | join op ss ih =>
    rw [Selection.probe]
    exact probeUntil id op ss ih

theorem containsBySelect (hL : L.Reads view) : L.containsBySelect.Reads view where
  select := hL.select
  contains key _ := .bind (hL.select key) fun _ => .pure _
  attributes := hL.attributes
  attributes_eq h := hL.attributes_eq h

theorem recorded (hL : L.Reads view) : L.recorded.Reads fun state => view state.source where
  select key state := hL.select key state.source
  contains key id state := hL.contains key id state.source
  attributes id state := hL.attributes id state.source
  attributes_eq {id state state' a} h := by
    have hanswer : ((L.attributes id).run state.source).1 = .ok a := congrArg Prod.fst h
    exact hL.attributes_eq (Prod.ext hanswer rfl)

theorem keeps_guard {α : Type} {fails : Nat → Bool} {act : Access σ α}
    (h : Access.Keeps view act) :
    Access.Keeps (fun state => view state.source) (Counted.guard fails act) := by
  intro state
  rw [Counted.run_guard]
  split
  · rfl
  · exact h state.source

theorem failingAt (hL : L.Reads view) (fails : Nat → Bool) :
    (L.failingAt fails).Reads fun state => view state.source where
  select key := keeps_guard (hL.select key)
  contains key id := keeps_guard (hL.contains key id)
  attributes id := keeps_guard (hL.attributes id)
  attributes_eq {id state state' a} h := by
    replace h : (Counted.guard fails (L.attributes id)).run state = (.ok a, state') := h
    rw [Counted.run_guard] at h
    split at h
    · cases congrArg Prod.fst h
    · have hanswer : ((L.attributes id).run state.source).1 = .ok a := congrArg Prod.fst h
      exact hL.attributes_eq (Prod.ext hanswer rfl)

end Reads

end Lookup

theorem Catalog.reads_lookup : Catalog.lookup.Reads id where
  select key c := rfl
  contains key id c := rfl
  attributes id c := rfl
  attributes_eq h := by
    obtain ⟨h, -⟩ := Prod.mk.inj h
    exact (Except.ok.inj h).symm

end ResourceRouting
