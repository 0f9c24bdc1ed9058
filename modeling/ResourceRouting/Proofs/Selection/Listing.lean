import ResourceRouting.Catalog.Edit
import ResourceRouting.Proofs.Lookup.Questions
import ResourceRouting.Proofs.Selection.Leaves

/-!
# Which keys an evaluation lists

The evaluation of a selection over all resources lists a key for every leaf, whatever is found under
the others. It never stops early for what it has found, so the keys can be told from the selection.

**Listed keys** (`Selection.listed`). The keys of the leaves from left to right. All resources are
listed before the operand of each negation, which is taken within them, and for each `and` without
operands. The keys of every part of a selection stand together (`listed_infix`).

Evaluation puts these questions in order and no others (`Access.Puts`). So if one of them fails, it
ends with the first that does.

Main result: `Router.query_lists_keys`.
-/

namespace ResourceRouting

namespace Selection

mutual

/-- The keys that an evaluation lists, in order. -/
def listed : Selection → List Key
  | .check k => [.check k]
  | .not s => .all :: listed s
  | .join .and [] => [.all]
  | .join _ ss => listedEach ss

/-- The keys that are listed for operands, one after the other. -/
def listedEach : List Selection → List Key
  | [] => []
  | s :: ss => listed s ++ listedEach ss

end

theorem listedEach_eq_flatMap (ss : List Selection) : listedEach ss = ss.flatMap listed := by
  induction ss with
  | nil => rfl
  | cons s ss ih => rw [listedEach, List.flatMap_cons, ih]

theorem listed_join_cons (op : Connective) (s : Selection) (ss : List Selection) :
    (Selection.join op (s :: ss)).listed = listedEach (s :: ss) := by
  cases op <;> rfl

theorem listed_or (ss : List Selection) : (Selection.or ss).listed = listedEach ss := by
  cases ss <;> rfl

/-! ## Keys and leaves -/

theorem filter_listedEach {ss : List Selection} {i : Nat}
    (h : ∀ s ∈ ss, s.listed.filter (· ≠ .all) = s.leaves.map fun leaf => .check leaf.check) :
    (listedEach ss).filter (· ≠ .all) = (leavesFrom i ss).map fun leaf => .check leaf.check := by
  induction ss generalizing i with
  | nil => rfl
  | cons s ss ih =>
    rw [List.forall_mem_cons] at h
    rw [listedEach, leavesFrom, List.filter_append, List.map_append, h.1, ih h.2, List.map_map]
    rfl

/-- **The keys that are listed for checks are those of the leaves, from left to right.** -/
theorem filter_listed (s : Selection) :
    s.listed.filter (· ≠ .all) = s.leaves.map fun leaf => .check leaf.check := by
  induction s with
  | check k => rfl
  | not s ih =>
    rw [listed, leaves, List.map_map, List.filter_cons_of_neg (by simp), ih]
    rfl
  | join op ss ih =>
    rw [leaves]
    cases ss with
    | nil => cases op <;> rfl
    | cons s ss =>
      rw [listed_join_cons]
      exact filter_listedEach ih

theorem listed_infix_of_operand? {s t : Selection} {i : Nat} (h : s.operand? i = some t) :
    t.listed <:+: s.listed := by
  cases s with
  | check k => cases h
  | not s =>
    obtain ⟨-, h⟩ := Option.ite_none_right_eq_some.1 h
    obtain rfl := Option.some.inj h
    exact ⟨[.all], [], by simp [listed]⟩
  | join op ss =>
    have hmem : t ∈ ss := List.mem_of_getElem? h
    have hlisted : (Selection.join op ss).listed = (ss.map listed).flatten := by
      cases ss with
      | nil => cases hmem
      | cons s ss => rw [listed_join_cons, listedEach_eq_flatMap, List.flatMap_def]
    rw [hlisted]
    exact List.infix_of_mem_flatten (List.mem_map_of_mem hmem)

/-- **Every part of a selection is listed in one piece.** -/
theorem listed_infix {s t : Selection} {place : List Nat} (h : s.at? place = some t) :
    t.listed <:+: s.listed := by
  induction place generalizing s with
  | nil =>
    obtain rfl := Option.some.inj h
    exact List.infix_rfl
  | cons i place ih =>
    obtain ⟨u, hu, hplace⟩ := Option.bind_eq_some_iff.1 h
    exact (ih hplace).trans (listed_infix_of_operand? hu)

/-! ## Evaluation -/

open Access

variable {σ : Type}

theorem puts_evaluateEach {L : Lookup σ} {ss : List Selection}
    (h : ∀ s ∈ ss, Puts L.select s.listed (s.evaluate L)) :
    Puts L.select (listedEach ss) (evaluateEach L ss) := by
  induction ss with
  | nil => exact .pure []
  | cons s ss ih =>
    rw [List.forall_mem_cons] at h
    rw [listedEach, evaluateEach, ← List.append_nil (listedEach ss)]
    exact .bind h.1 fun first => .bind (ih h.2) fun others => .pure _

/-- **An evaluation lists its keys in order and asks nothing else**, whatever is found. -/
theorem puts_evaluate (L : Lookup σ) (s : Selection) :
    Puts L.select s.listed (s.evaluate L) := by
  induction s with
  | check k => exact .one _
  | not s ih =>
    rw [listed, evaluate, ← List.singleton_append, ← List.append_nil s.listed]
    exact .bind (.one Key.all) fun all => .bind ih fun excluded => .pure _
  | join op ss ih =>
    cases op with
    | and =>
      cases ss with
      | nil => exact .one Key.all
      | cons s ss =>
        rw [List.forall_mem_cons] at ih
        rw [listed_join_cons, listedEach, evaluate, ← List.append_nil (listedEach ss)]
        exact .bind ih.1 fun first => .bind (puts_evaluateEach ih.2) fun others => .pure _
    | or =>
      rw [listed_or, evaluate, ← List.append_nil (listedEach ss)]
      exact .bind (puts_evaluateEach ih) fun all => .pure _

end Selection

/-! ## Queries -/

namespace Router

open Access

variable {σ : Type}

/-- **A query lists the keys of its selection in order, up to the first that fails.** They are those
of the leaves from left to right, with all resources between them, and what is found makes no
difference to them. If all of them are answered, so is the query, and there are no other calls. If
one fails, its error is the result and the last call, and nothing is told of what was found. -/
theorem query_lists_keys (L : Lookup σ) (s : Selection) (state : σ) (calls : List Call)
    (roster : Roster) (reports : List Telemetry) :
    let run := (query L.recorded s).run ⟨⟨state, calls⟩, roster, reports⟩
    let left (final : σ) (put : List Key) (told : List Telemetry) : Router (Recorded σ) :=
      ⟨⟨final, calls ++ put.map .select⟩, roster, reports ++ told⟩
    s.listed.filter (· ≠ .all) = s.leaves.map (fun leaf => .check leaf.check) ∧
      (∀ place t, s.at? place = some t → t.listed <:+: s.listed) ∧
      (∃ script, script.map Prod.fst = s.listed ∧ KeepsTo L.select script state) ∧
      (∀ script final, script.map Prod.fst = s.listed → Answers L.select script state final →
        ∃ found, run = (.ok found, left final s.listed [.query ⟨s.normalized, found.size⟩])) ∧
      ∀ script put e final, script.map Prod.fst = s.listed →
        Stops L.select script put e state final →
        put <+: s.listed ∧ run = (.error e, left final put []) := by
  intro run left
  have hputs := Selection.puts_evaluate L.recorded s ⟨state, calls⟩
  refine ⟨s.filter_listed, fun place t => Selection.listed_infix,
    exists_script L.select s.listed state, fun script final hscript h => ?_,
    fun script put e final hscript h => ⟨?_, ?_⟩⟩
  · have hnoted := h.recorded .select calls
    rw [hscript] at hnoted
    obtain ⟨found, hfound⟩ := (hputs script hscript).1 _ hnoted
    exact ⟨found, run_query hfound roster reports⟩
  · rw [← hscript]
    exact h.put_prefix
  · have hfails := (hputs script hscript).2 put e _ (h.recorded .select calls)
    refine (run_query_of_error hfails roster reports).trans ?_
    simp only [left, List.append_nil]

/-- Of a catalog with a lamp all keys are listed, though the first operand already finds all that
there is. If the fourth call fails, it is the last one, and nothing is answered. -/
theorem query_lists_keys_of_lamp :
    let light : Check := .equals .type "light"
    let garden : Check := .equals .group "Garden"
    let s : Selection := .or [.not (.check garden), .and [],
      .and [.check light, .check (.present .interface)]]
    let c := Catalog.replay [.register ⟨"lamp", "light", ∅⟩, .join "lamp" "House/Kitchen"]
    let failing := Catalog.lookup.failingAt (· == 4)
    let keys : List Key := [.all, .check garden, .all, .check light, .check (.present .interface)]
    (∃ found, (query Catalog.lookup.recorded s).run ⟨⟨c, []⟩, .empty, []⟩ =
        (.ok found, ⟨⟨c, keys.map .select⟩, .empty, [.query ⟨s.normalized, found.size⟩]⟩)) ∧
      (query failing.recorded s).run ⟨⟨⟨c, 0⟩, []⟩, .empty, []⟩ =
        (.error (Counted.failure 4), ⟨⟨⟨c, 4⟩, (keys.take 4).map .select⟩, .empty, []⟩) := by
  intro light garden s c failing keys
  let script := keys.map fun key => (key, c.select key)
  have hanswers : Answers Catalog.lookup.select script c c :=
    .cons rfl (.cons rfl (.cons rfl (.cons rfl (.cons rfl .nil))))
  have hstops : Stops failing.select script (keys.take 4) (Counted.failure 4) ⟨c, 0⟩ ⟨c, 4⟩ :=
    .later rfl (.later rfl (.later rfl (.here rfl)))
  obtain ⟨-, -, -, hall, -⟩ := query_lists_keys Catalog.lookup s c [] .empty []
  obtain ⟨-, -, -, -, hfailing⟩ := query_lists_keys failing s ⟨c, 0⟩ [] .empty []
  exact ⟨hall script c rfl hanswers, (hfailing script _ _ _ rfl hstops).2⟩

end Router

end ResourceRouting
