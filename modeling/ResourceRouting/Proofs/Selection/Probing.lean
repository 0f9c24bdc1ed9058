import ResourceRouting.Proofs.Lookup.Questions
import ResourceRouting.Catalog.Edit
import ResourceRouting.Proofs.Selection.Leaves

/-!
# Which leaves are asked for one resource

A question about one resource asks for the leaves of a selection one after the other, and not for
all of them: an `and` ends with the first operand that is false, an `or` with the first that is
true.

**Due leaves** (`Selection.Due`). Whether a leaf is asked shows on the way that leads to it. At
every node on the way all operands before the one that leads on have to leave the node undecided.
The truth of a leaf is that of its place. It need not be that of its check, as a lookup may answer
the same question in another way when it is asked again.

**Asked leaves** (`Selection.asked`). The same leaves in the order in which they are met
(`mem_asked`). With their truths they are a script for the lookup. If it is followed to its end, the
selection has its truth (`run_probe_of_script`), and if it stops, so does the selection
(`run_probe_of_stop`). Every lookup keeps to the script of some truth (`exists_truth`).

Main result: `Router.isIn_asks_due_leaves`.
-/

namespace ResourceRouting

/-- Whether a resource passes a check, as a question to a lookup. -/
def Lookup.passes {σ : Type} (L : Lookup σ) (id : String) (k : Check) : Access σ Bool :=
  L.contains (.check k) id

/-- Leaves as questions, each with the answer that is true at its place. -/
def Leaf.script (truth : List Nat → Bool) (leaves : List Leaf) : List (Check × Bool) :=
  leaves.map fun leaf => (leaf.check, truth leaf.place)

namespace Leaf

theorem script_map_under (truth : List Nat → Bool) (i : Nat) (leaves : List Leaf) :
    script truth (leaves.map (.under i)) = script (fun place => truth (i :: place)) leaves := by
  simp [script, under, Function.comp_def]

theorem script_append (truth : List Nat → Bool) (leaves leaves' : List Leaf) :
    script truth (leaves ++ leaves') = script truth leaves ++ script truth leaves' :=
  List.map_append

theorem map_fst_script (truth : List Nat → Bool) (leaves : List Leaf) :
    (script truth leaves).map Prod.fst = leaves.map (·.check) := by
  simp [script]

end Leaf

namespace Selection

open Access

/-! ## Due leaves -/

/-- Whether the leaf at a place is asked. At every node on the way to it, the operands before the
one that leads there are all true, if it is an `and`, or all false, if it is an `or`. -/
def Due (truth : List Nat → Bool) (s : Selection) (place : List Nat) : Prop :=
  ∀ above i below op ss, place = above ++ i :: below → s.at? above = some (.join op ss) →
    ∀ j t, j < i → ss[j]? = some t →
      t.holdsAt (fun place => truth (above ++ j :: place)) = op.neutral

mutual

/-- The leaves that are asked, in order, as long as each gives its truth for an answer. -/
def asked (truth : List Nat → Bool) : Selection → List Leaf
  | .check k => [⟨[], k⟩]
  | .not s => (asked (fun place => truth (0 :: place)) s).map (.under 0)
  | .join op ss => askedFrom truth op 0 ss

/-- The leaves that are asked of joined operands that are numbered from `i` on. -/
def askedFrom (truth : List Nat → Bool) (op : Connective) (i : Nat) : List Selection → List Leaf
  | [] => []
  | s :: ss =>
    (asked (fun place => truth (i :: place)) s).map (.under i) ++
      if s.holdsAt (fun place => truth (i :: place)) = op.neutral then
        askedFrom truth op (i + 1) ss
      else []

end

variable {truth truth' : List Nat → Bool} {s : Selection} {op : Connective} {ss : List Selection}
  {i : Nat}

theorem due_nil : s.Due truth [] := by
  intro above i below op ss hplace
  simp at hplace

/-- What is due in an operand is due in the node, if no operand before it decides. -/
theorem due_cons {place : List Nat} : s.Due truth (i :: place) ↔
    (∀ op ss, s = .join op ss → ∀ j t, j < i → ss[j]? = some t →
      t.holdsAt (fun place => truth (j :: place)) = op.neutral) ∧
    ∀ t, s.operand? i = some t → t.Due (fun place => truth (i :: place)) place := by
  constructor
  · intro h
    refine ⟨fun op ss hs => h [] i place op ss rfl (by rw [at?_nil, hs]), fun t ht => ?_⟩
    intro above j below op ss hplace hat
    exact h (i :: above) j below op ss (by rw [hplace]; rfl) (by rw [at?_cons, ht]; exact hat)
  · rintro ⟨hhere, hbelow⟩ above j below op ss hplace hat
    cases above with
    | nil =>
      obtain ⟨rfl, rfl⟩ := by simpa using hplace
      exact hhere op ss (Option.some.inj hat)
    | cons j' above =>
      obtain ⟨rfl, rfl⟩ := by simpa using hplace
      obtain ⟨t, ht, hat⟩ := Option.bind_eq_some_iff.1 hat
      exact hbelow t ht above j below op ss rfl hat

theorem mem_askedFrom {leaf : Leaf} : leaf ∈ askedFrom truth op i ss ↔
    ∃ j place s, leaf.place = (i + j) :: place ∧ ss[j]? = some s ∧
      ⟨place, leaf.check⟩ ∈ s.asked (fun place => truth ((i + j) :: place)) ∧
      ∀ j' t, j' < j → ss[j']? = some t →
        t.holdsAt (fun place => truth ((i + j') :: place)) = op.neutral := by
  induction ss generalizing i with
  | nil => simp [askedFrom]
  | cons s ss ih =>
    have hshift : ∀ j, i + 1 + j = i + (j + 1) := by omega
    rw [askedFrom, List.mem_append, Leaf.mem_map_under]
    constructor
    · rintro (⟨place, hplace, hbelow⟩ | hothers)
      · exact ⟨0, place, s, hplace, rfl, hbelow, by simp⟩
      · split at hothers
        · rename_i hs
          obtain ⟨j, place, t, hplace, ht, hbelow, hbefore⟩ := ih.1 hothers
          rw [hshift] at hplace hbelow
          refine ⟨j + 1, place, t, hplace, ht, hbelow, fun j' u hj' hu => ?_⟩
          cases j' with
          | zero =>
            obtain rfl := Option.some.inj hu
            exact hs
          | succ j' =>
            rw [← hshift]
            exact hbefore j' u (by omega) hu
        · cases hothers
    · rintro ⟨_ | j, place, t, hplace, ht, hbelow, hbefore⟩
      · obtain rfl := Option.some.inj ht
        exact .inl ⟨place, hplace, hbelow⟩
      · rw [← hshift] at hplace hbelow
        have hs : s.holdsAt (fun place => truth (i :: place)) = op.neutral :=
          hbefore 0 s (by omega) rfl
        rw [if_pos hs]
        refine .inr (ih.2 ⟨j, place, t, hplace, ht, hbelow, fun j' u hj' hu => ?_⟩)
        rw [hshift]
        exact hbefore (j' + 1) u (by omega) hu

/-- **A leaf is asked exactly when it is due.** -/
theorem mem_asked {leaf : Leaf} :
    leaf ∈ s.asked truth ↔ leaf ∈ s.leaves ∧ s.Due truth leaf.place := by
  obtain ⟨place, k⟩ := leaf
  induction s generalizing truth place with
  | check l =>
    rw [asked, leaves]
    refine (and_iff_left_of_imp fun hleaf => ?_).symm
    obtain ⟨rfl, -⟩ := by simpa using hleaf
    exact due_nil
  | not s ih =>
    rw [asked, leaves, Leaf.mem_map_under, Leaf.mem_map_under]
    cases place with
    | nil => simp
    | cons i place => by_cases hi : i = 0 <;> simp [due_cons, operand?, hi, ih]
  | join op ss ih =>
    rw [asked, leaves, mem_askedFrom, mem_leavesFrom]
    cases place with
    | nil => simp
    | cons i place =>
      rw [due_cons]
      simp only [Nat.zero_add, List.cons.injEq]
      constructor
      · rintro ⟨j, place', t, ⟨rfl, rfl⟩, ht, hbelow, hbefore⟩
        obtain ⟨hleaf, hdue⟩ := (ih t (List.mem_of_getElem? ht) place).1 hbelow
        refine ⟨⟨i, place, t, ⟨rfl, rfl⟩, ht, hleaf⟩, fun op' ss' heq => ?_, fun u hu => ?_⟩
        · cases heq
          exact hbefore
        · obtain rfl := Option.some.inj (ht.symm.trans hu)
          exact hdue
      · rintro ⟨⟨j, place', t, ⟨rfl, rfl⟩, ht, hleaf⟩, hbefore, hdue⟩
        have hbelow := (ih t (List.mem_of_getElem? ht) place).2 ⟨hleaf, hdue t ht⟩
        exact ⟨i, place, t, ⟨rfl, rfl⟩, ht, hbelow, hbefore op ss rfl⟩

theorem askedFrom_sublist (h : ∀ s ∈ ss, ∀ truth, (s.asked truth).Sublist s.leaves) :
    (askedFrom truth op i ss).Sublist (leavesFrom i ss) := by
  induction ss generalizing i with
  | nil => exact .refl _
  | cons s ss ih =>
    rw [List.forall_mem_cons] at h
    rw [askedFrom, leavesFrom]
    refine ((h.1 _).map _).append ?_
    split
    · exact ih h.2
    · exact List.nil_sublist _

theorem asked_sublist (truth : List Nat → Bool) (s : Selection) :
    (s.asked truth).Sublist s.leaves := by
  induction s generalizing truth with
  | check k => exact .refl _
  | not s ih =>
    rw [asked, leaves]
    exact (ih _).map _
  | join op ss ih =>
    rw [asked, leaves]
    exact askedFrom_sublist ih

/-! ## Asking -/

variable {σ : Type} {L : Lookup σ} {id : String} {state : σ}

section Answered

variable {final : σ}

theorem run_probeUntil_of_script
    (h : ∀ s ∈ ss, ∀ {truth state final},
      Answers (L.passes id) (Leaf.script truth (s.asked truth)) state final →
        (s.probe L id).run state = (.ok (s.holdsAt truth), final))
    (hscript : Answers (L.passes id) (Leaf.script truth (askedFrom truth op i ss)) state final) :
    (probeUntil L id op ss).run state = (.ok (holdsFrom truth op i ss), final) := by
  induction ss generalizing i state with
  | nil =>
    cases hscript
    rfl
  | cons s ss ih =>
    rw [List.forall_mem_cons] at h
    rw [askedFrom, Leaf.script_append, Leaf.script_map_under, answers_append] at hscript
    obtain ⟨mid, hfirst, hothers⟩ := hscript
    rw [probeUntil, run_bind_of_ok (h.1 hfirst), holdsFrom, Connective.combine_eq_ite]
    split
    · rename_i hs
      rw [if_pos hs] at hothers
      exact ih h.2 hothers
    · rename_i hs
      rw [if_neg hs] at hothers
      cases hothers
      rfl

/-- **If the leaves that are asked answer with their truth, the selection answers with its own.** -/
theorem run_probe_of_script
    (h : Answers (L.passes id) (Leaf.script truth (s.asked truth)) state final) :
    (s.probe L id).run state = (.ok (s.holdsAt truth), final) := by
  induction s generalizing truth state final with
  | check k =>
    cases h with
    | cons first others =>
      cases others
      exact first
  | not s ih =>
    rw [asked, Leaf.script_map_under] at h
    rw [probe, run_bind_of_ok (ih h)]
    rfl
  | join op ss ih =>
    rw [asked] at h
    rw [probe, holdsAt]
    exact run_probeUntil_of_script ih h

end Answered

section Failed

variable {final : σ} {put : List Check} {e : Error}

theorem run_probeUntil_of_stop
    (h : ∀ s ∈ ss, ∀ {truth state put},
      Stops (L.passes id) (Leaf.script truth (s.asked truth)) put e state final →
        (s.probe L id).run state = (.error e, final))
    (hscript : Stops (L.passes id) (Leaf.script truth (askedFrom truth op i ss)) put e state
      final) : (probeUntil L id op ss).run state = (.error e, final) := by
  induction ss generalizing i put state with
  | nil => cases hscript
  | cons s ss ih =>
    rw [List.forall_mem_cons] at h
    rw [askedFrom, Leaf.script_append, Leaf.script_map_under, stops_append] at hscript
    rw [probeUntil]
    rcases hscript with hfirst | ⟨mid, put', hfirst, hothers, -⟩
    · exact run_bind_of_error (h.1 hfirst) _
    · rw [run_bind_of_ok (run_probe_of_script hfirst)]
      split at hothers
      · rename_i hs
        rw [if_pos hs]
        exact ih h.2 hothers
      · cases hothers

/-- **If a leaf that is asked fails, the selection fails with it.** -/
theorem run_probe_of_stop
    (h : Stops (L.passes id) (Leaf.script truth (s.asked truth)) put e state final) :
    (s.probe L id).run state = (.error e, final) := by
  induction s generalizing truth state put with
  | check k =>
    cases h with
    | here fails => exact fails
    | later first others => cases others
  | not s ih =>
    rw [asked, Leaf.script_map_under] at h
    rw [probe, run_bind_of_error (ih h)]
  | join op ss ih =>
    rw [asked] at h
    rw [probe]
    exact run_probeUntil_of_stop ih h

end Failed

/-! ## The truth of a lookup -/

/-- Truths of the leaves in the operand with a number and in others. -/
def withOperand (i : Nat) (first others : List Nat → Bool) : List Nat → Bool
  | [] => others []
  | j :: place => if j = i then first place else others (j :: place)

/-- Operands are asked by the truth of their own leaves alone. -/
theorem script_askedFrom_congr
    (h : ∀ j place, i ≤ j → truth (j :: place) = truth' (j :: place)) :
    Leaf.script truth (askedFrom truth op i ss) =
      Leaf.script truth' (askedFrom truth' op i ss) := by
  induction ss generalizing i with
  | nil => rfl
  | cons s ss ih =>
    have hfirst : (fun place => truth (i :: place)) = fun place => truth' (i :: place) :=
      funext fun place => h i place (Nat.le_refl i)
    rw [askedFrom, askedFrom, Leaf.script_append, Leaf.script_append, Leaf.script_map_under,
      Leaf.script_map_under, hfirst]
    split
    · rw [ih fun j place hj => h j place (by omega)]
    · rfl

theorem script_askedFrom_withOperand (first others : List Nat → Bool) :
    let truth := withOperand i first others
    Leaf.script truth (askedFrom truth op i (s :: ss)) = Leaf.script first (s.asked first) ++
      if s.holdsAt first = op.neutral then Leaf.script others (askedFrom others op (i + 1) ss)
      else [] := by
  intro truth
  have hfirst : (fun place => truth (i :: place)) = first :=
    funext fun place => if_pos rfl
  have hothers : ∀ j place, i + 1 ≤ j → truth (j :: place) = others (j :: place) :=
    fun j place hj => if_neg (by omega)
  rw [askedFrom, Leaf.script_append, Leaf.script_map_under, hfirst]
  split
  · rw [script_askedFrom_congr hothers]
  · rfl

theorem exists_truth_from
    (h : ∀ s ∈ ss, ∀ state, ∃ truth,
      KeepsTo (L.passes id) (Leaf.script truth (s.asked truth)) state)
    (op : Connective) (i : Nat) (state : σ) :
    ∃ truth, KeepsTo (L.passes id) (Leaf.script truth (askedFrom truth op i ss)) state := by
  induction ss generalizing i state with
  | nil => exact ⟨fun _ => false, .inl ⟨state, .nil⟩⟩
  | cons s ss ih =>
    rw [List.forall_mem_cons] at h
    obtain ⟨first, ⟨mid, hfirst⟩ | ⟨put, e, final, hfirst⟩⟩ := h.1 state
    · obtain ⟨others, hothers⟩ := ih h.2 (i + 1) mid
      refine ⟨withOperand i first others, ?_⟩
      rw [script_askedFrom_withOperand]
      refine hfirst.keepsTo_append ?_
      split
      · exact hothers
      · exact .inl ⟨mid, .nil⟩
    · -- The others are not asked any more, so any truth of theirs will do.
      refine ⟨withOperand i first first, .inr ⟨put, e, final, ?_⟩⟩
      rw [script_askedFrom_withOperand]
      exact stops_append.2 (.inl hfirst)

/-- **Whatever a lookup answers, it keeps to some truth of the leaves**, up to one that fails. -/
theorem exists_truth (L : Lookup σ) (id : String) (s : Selection) (state : σ) :
    ∃ truth, KeepsTo (L.passes id) (Leaf.script truth (s.asked truth)) state := by
  induction s generalizing state with
  | check k =>
    match hrun : (L.passes id k).run state with
    | (.ok held, final) => exact ⟨fun _ => held, .inl ⟨final, .cons hrun .nil⟩⟩
    | (.error e, final) => exact ⟨fun _ => false, .inr ⟨[k], e, final, .here hrun⟩⟩
  | not s ih =>
    obtain ⟨truth, h⟩ := ih state
    refine ⟨fun place => truth place.tail, ?_⟩
    rw [asked, Leaf.script_map_under]
    exact h
  | join op ss ih => exact exists_truth_from ih op 0 state

end Selection

/-! ## Questions about one resource -/

namespace Router

open Access

variable {σ : Type}

/-- **A question about one resource asks for leaves from left to right, and only for those that are
due.** The leaves are the checks at the places of the selection. Whatever the lookup does, it keeps
to the leaves that are asked by some truth of the leaves. If all of them are answered, the answer is
the truth of the selection, and there are no other calls. If one of them fails, its error is the
result and the last call. What the lookup does with other checks makes no difference. -/
theorem isIn_asks_due_leaves (L : Lookup σ) (id : String) (s : Selection) (state : σ)
    (calls : List Call) (roster : Roster) (reports : List Telemetry) :
    let run (L : Lookup σ) := (isIn L.recorded id s).run ⟨⟨state, calls⟩, roster, reports⟩
    let left (final : σ) (put : List Check) : Router (Recorded σ) :=
      ⟨⟨final, calls ++ put.map fun k => .contains (.check k) id⟩, roster, reports⟩
    let script (truth : List Nat → Bool) := Leaf.script truth (s.asked truth)
    (∀ leaf, leaf ∈ s.leaves ↔ s.at? leaf.place = some (.check leaf.check)) ∧
      s.leaves.Pairwise Leaf.Precedes ∧
      (∀ truth, (s.asked truth).Sublist s.leaves ∧
        ∀ leaf ∈ s.leaves, leaf ∈ s.asked truth ↔ s.Due truth leaf.place) ∧
      (∀ truth fact, (∀ leaf ∈ s.leaves, truth leaf.place = fact leaf.check) →
        s.holdsAt truth = s.holds fact) ∧
      (∃ truth, KeepsTo (L.passes id) (script truth) state) ∧
      ((∀ k state, ∃ held final, (L.passes id k).run state = (.ok held, final)) →
        ∃ truth final, Answers (L.passes id) (script truth) state final) ∧
      (∀ truth final, Answers (L.passes id) (script truth) state final →
        run L = (.ok (s.holdsAt truth), left final ((s.asked truth).map (·.check)))) ∧
      (∀ truth put e final, Stops (L.passes id) (script truth) put e state final →
        put <+: (s.asked truth).map (·.check) ∧ run L = (.error e, left final put)) ∧
      ∀ truth final (L' : Lookup σ), Answers (L.passes id) (script truth) state final →
        (∀ leaf ∈ s.asked truth, L'.passes id leaf.check = L.passes id leaf.check) →
        run L' = run L := by
  intro run left script
  have hanswered : ∀ (L : Lookup σ) truth final, Answers (L.passes id) (script truth) state final →
      run L = (.ok (s.holdsAt truth), left final ((s.asked truth).map (·.check))) := by
    intro L truth final h
    have hnoted := h.recorded (fun k => .contains (.check k) id) calls
    rw [Leaf.map_fst_script] at hnoted
    exact run_ask (Selection.run_probe_of_script (L := L.recorded) hnoted) roster reports
  refine ⟨fun leaf => Selection.mem_leaves, s.pairwise_leaves, fun truth => ⟨s.asked_sublist truth,
    fun leaf hleaf => ?_⟩, fun truth fact h => Selection.holdsAt_eq_holds h,
    Selection.exists_truth L id s state, fun hok => ?_, hanswered L,
    fun truth put e final h => ⟨?_, ?_⟩, fun truth final L' h hsame => ?_⟩
  · rw [Selection.mem_asked]
    exact and_iff_right hleaf
  · obtain ⟨truth, h⟩ := Selection.exists_truth L id s state
    exact ⟨truth, h.exists_answers hok⟩
  · rw [← Leaf.map_fst_script]
    exact h.put_prefix
  · have hnoted := h.recorded (fun k => .contains (.check k) id) calls
    exact run_ask (Selection.run_probe_of_stop (L := L.recorded) hnoted) roster reports
  · have h' : Answers (L'.passes id) (script truth) state final := by
      refine h.congr ?_
      rw [Leaf.map_fst_script, List.forall_mem_map]
      exact hsame
    rw [hanswered L' truth final h', hanswered L truth final h]

/-- A lamp without interfaces is told apart by its third leaf. The second operand of the `or` and
the last one of the `and` are not asked, so a lookup that fails for the last one answers as well.
One whose second call fails does not get to the third leaf. -/
theorem isIn_asks_due_leaves_of_lamp :
    let light : Check := .equals .type "light"
    let garden : Check := .equals .group "Garden"
    let s : Selection := .and [.or [.check light, .check (.equals .id "bulb")],
      .not (.check garden), .check (.present .interface), .check (.present .group)]
    let c := Catalog.replay [.register ⟨"lamp", "light", ∅⟩, .join "lamp" "House/Kitchen"]
    let groupless : Lookup Catalog := { Catalog.lookup with
      contains := fun
        | .check (.present .group), _ => throw (.unavailable "groups")
        | key, id => Catalog.lookup.contains key id }
    let failing := Catalog.lookup.failingAt (· == 2)
    let truth (place : List Nat) : Bool := place == [0, 0]
    let asked : List Call := [.contains (.check light) "lamp", .contains (.check garden) "lamp",
      .contains (.check (.present .interface)) "lamp"]
    s.Due truth [2] ∧ ¬s.Due truth [3] ∧ s.holdsAt truth = s.holds (· == light) ∧
      (∃ truth final, Answers (Catalog.lookup.passes "lamp") (Leaf.script truth (s.asked truth)) c
        final) ∧
      (isIn Catalog.lookup.recorded "lamp" s).run ⟨⟨c, []⟩, .empty, []⟩ =
        (.ok false, ⟨⟨c, asked⟩, .empty, []⟩) ∧
      (isIn groupless.recorded "lamp" s).run ⟨⟨c, []⟩, .empty, []⟩ =
        (.ok false, ⟨⟨c, asked⟩, .empty, []⟩) ∧
      (isIn failing.recorded "lamp" s).run ⟨⟨⟨c, 0⟩, []⟩, .empty, []⟩ =
        (.error (Counted.failure 2), ⟨⟨⟨c, 2⟩, asked.take 2⟩, .empty, []⟩) := by
  intro light garden s c groupless failing truth asked
  obtain ⟨-, -, hdue, hmeaning, -, hscript, hanswered, -, hsame⟩ :=
    isIn_asks_due_leaves Catalog.lookup "lamp" s c [] .empty []
  obtain ⟨-, -, -, -, -, -, -, hstopped, -⟩ :=
    isIn_asks_due_leaves failing "lamp" s ⟨c, 0⟩ [] .empty []
  have hlight : c.contains (.check light) "lamp" = true := by decide +kernel
  have hlookup : ∀ k held, c.contains (.check k) "lamp" = held →
      (Catalog.lookup.passes "lamp" k).run c = (.ok held, c) := by
    rintro k _ rfl
    rfl
  have hasked : Answers (Catalog.lookup.passes "lamp") (Leaf.script truth (s.asked truth)) c c :=
    .cons (hlookup light true hlight)
      (.cons (hlookup garden false (by decide +kernel))
        (.cons (hlookup (.present .interface) false (by decide +kernel)) .nil))
  have hrun := hanswered truth c hasked
  refine ⟨((hdue truth).2 ⟨[2], .present .interface⟩ (by decide)).1 (by decide), fun hlast => ?_,
    hmeaning truth (· == light) (by decide), hscript fun k state => ⟨_, _, rfl⟩, hrun,
    (hsame truth c groupless hasked ?_).trans hrun, ?_⟩
  · exact absurd (((hdue truth).2 ⟨[3], .present .group⟩ (by decide)).2 hlast) (by decide)
  · have hleaves : s.asked truth =
        [⟨[0, 0], light⟩, ⟨[1, 0], garden⟩, ⟨[2], .present .interface⟩] := rfl
    simp only [hleaves, List.forall_mem_cons, List.not_mem_nil, false_imp_iff, implies_true,
      and_true]
    exact ⟨rfl, rfl, rfl⟩
  · have hfirst : (failing.passes "lamp" light).run ⟨c, 0⟩ = (.ok true, ⟨c, 1⟩) := by
      rw [← hlight]
      rfl
    exact (hstopped truth _ _ _ (.later hfirst (.here rfl))).2

end Router

end ResourceRouting
