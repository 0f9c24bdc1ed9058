import Mathlib.Logic.Function.Iterate
import ResourceRouting.Proofs.Selection.Normalization

/-!
# Equivalent selections

**Theorem (`isEquivalent_exactly_reordering`).** Selections are equivalent exactly when, once
flattened, they are equal up to the order of operands. So equivalence is blind to the order and the
grouping of operands, and to nothing else: not to a property, a value, a connective, a negation, or
how often an operand is given.

Equivalence is equality of two texts. The texts are rendered selections, so they can be read back.
Selections with one text are read back as one, and this flattens to the operands of both.

**Contexts** (`Context`). A selection with a gap at some depth. Two selections in the gap make
equivalent selections exactly when they are equivalent themselves, so nothing around a difference
can make up for it (`isEquivalent_fill`). The reason is that the operands of a node are known from
its text up to their order (`isEquivalent_join_iff`), and what two nodes have in common cancels.
-/

namespace ResourceRouting.Selection

variable {op : Connective} {s t : Selection} {ss ts : List Selection}

theorem isEquivalent_iff_normalized_eq : s.isEquivalent t = true ↔ s.normalized = t.normalized :=
  beq_iff_eq

/-! ## Equal texts -/

/-- **Selections with one rendering have the same flattened operands**, up to their order. -/
theorem reordered_flatten_of_render_eq (h : s.render = t.render) :
    Reordered s.flatten t.flatten := by
  have hs := (reordered_flatten_reread s).symm
  rw [reread_eq_of_render_eq h] at hs
  exact hs.trans (reordered_flatten_reread t)

theorem isEquivalent_iff_reordered : s.isEquivalent t = true ↔ Reordered s.flatten t.flatten := by
  rw [isEquivalent_iff_normalized_eq]
  refine ⟨fun h => ?_, normalized_eq_of_reordered⟩
  rw [normalized_eq_render_flatten, normalized_eq_render_flatten] at h
  have hflat := reordered_flatten_of_render_eq h
  rwa [flatten_flatten, flatten_flatten] at hflat

/-! ## Operands and their texts -/

theorem FlatUnder.map_flatten (h : FlatUnder op ss) : ss.map flatten = ss :=
  (List.map_congr_left fun s hs => flatten_of_isFlat (h s hs).2).trans (List.map_id ss)

theorem rearranged_iff_perm (hss : FlatUnder op ss) (hts : FlatUnder op ts) :
    Rearranged ss ts ↔ (ss.map render).Perm (ts.map render) := by
  refine ⟨Rearranged.map_render_perm, fun h => ?_⟩
  -- The second list is put in the order of the first, so texts are compared place by place.
  have h : Relation.Comp (· = List.map render ·) List.Perm (ss.map render) ts := by
    rwa [List.eq_map_comp_perm]
  obtain ⟨us, htexts, order⟩ := h
  have hus : FlatUnder op us := fun u hu => hts u (order.mem_iff.1 hu)
  rw [← List.forall₂_eq_eq_eq, List.forall₂_map_left_iff, List.forall₂_map_right_iff] at htexts
  have hflat : List.Forall₂ Reordered (ss.map flatten) (us.map flatten) := by
    rw [List.forall₂_map_left_iff, List.forall₂_map_right_iff]
    exact htexts.imp fun _ _ => reordered_flatten_of_render_eq
  rw [hss.map_flatten, hus.map_flatten] at hflat
  exact .of_forall₂_perm hflat order

theorem isEquivalent_iff_perm (op : Connective) :
    s.isEquivalent t = true ↔
      ((operandsUnder op s.flatten).map render).Perm ((operandsUnder op t.flatten).map render) := by
  have hs := isFlat_flatten s
  have ht := isFlat_flatten t
  rw [← rearranged_iff_perm (flatUnder_operandsUnder op hs) (flatUnder_operandsUnder op ht),
    ← reordered_joinOf_iff (flatUnder_operandsUnder op hs) (flatUnder_operandsUnder op ht)
      (operandsUnder_ne_nil op hs) (operandsUnder_ne_nil op ht),
    joinOf_operandsUnder op hs, joinOf_operandsUnder op ht, isEquivalent_iff_reordered]

theorem operandsUnder_flatten_join (hss : ss ≠ []) :
    operandsUnder op (Selection.join op ss).flatten = spliced op ss := by
  rw [flatten_join_eq, operandsUnder_joinOf (spliced_ne_nil op hss) (flatUnder_spliced op ss)]

theorem isEquivalent_join_iff (hss : ss ≠ []) (hts : ts ≠ []) :
    (Selection.join op ss).isEquivalent (.join op ts) = true ↔
      ((spliced op ss).map render).Perm ((spliced op ts).map render) := by
  rw [isEquivalent_iff_perm op, operandsUnder_flatten_join hss, operandsUnder_flatten_join hts]

/-! ## What equivalence is blind to -/

theorem normalized_join_perm (h : ss.Perm ts) (op : Connective) :
    (Selection.join op ss).normalized = (Selection.join op ts).normalized := by
  have hspliced : Rearranged (spliced op ss) (spliced op ts) :=
    (Rearranged.refl _).perm_right (h.flatMap_right _)
  refine normalized_eq_of_reordered ?_
  rw [flatten_join_eq, flatten_join_eq]
  exact hspliced.joinOf op

theorem flatten_join_group {group : List Selection} (hne : group ≠ []) (op : Connective)
    (before after : List Selection) :
    (Selection.join op (before ++ .join op group :: after)).flatten =
      (Selection.join op (before ++ group ++ after)).flatten := by
  have hspliced : spliced op (before ++ .join op group :: after) =
      spliced op (before ++ group ++ after) := by
    rw [spliced, List.flatMap_append, List.flatMap_cons, operandsUnder_flatten_join hne]
    simp [spliced]
  rw [flatten_join_eq, flatten_join_eq, hspliced]

/-! ## Contexts -/

/-- A selection with a gap for a selection, at any depth. -/
inductive Context where
  | here
  | not (inner : Context)
  | join (op : Connective) (before : List Selection) (inner : Context) (after : List Selection)

/-- The selection with the gap filled. -/
def Context.fill : Context → Selection → Selection
  | .here, s => s
  | .not inner, s => .not (inner.fill s)
  | .join op before inner after, s => .join op (before ++ inner.fill s :: after)

theorem isEquivalent_not : (Selection.not s).isEquivalent (.not t) = s.isEquivalent t := by
  rw [Bool.eq_iff_iff, isEquivalent_iff_reordered, isEquivalent_iff_reordered, flatten_not,
    flatten_not]
  constructor
  · intro h
    cases h with
    | not operand => exact operand
  · exact .not

/-- One operand of a node is decisive when the others are the same. -/
theorem isEquivalent_operand (op : Connective) (before after : List Selection) :
    (Selection.join op (before ++ s :: after)).isEquivalent (.join op (before ++ t :: after)) =
      s.isEquivalent t := by
  -- The texts before and after are the same on both sides, so they cancel.
  have htexts (u : Selection) : (spliced op (before ++ u :: after)).map render =
      (spliced op before).map render ++ ((operandsUnder op u.flatten).map render ++
        (spliced op after).map render) := by
    simp [spliced]
  rw [Bool.eq_iff_iff, isEquivalent_join_iff (by simp) (by simp), htexts, htexts,
    List.perm_append_left_iff, List.perm_append_right_iff, isEquivalent_iff_perm op]

/-- **In any context equivalence is that of the selections in the gap.** -/
theorem isEquivalent_fill (K : Context) (s t : Selection) :
    (K.fill s).isEquivalent (K.fill t) = s.isEquivalent t := by
  induction K with
  | here => rfl
  | not inner ih => rw [Context.fill, Context.fill, isEquivalent_not, ih]
  | join op before inner after ih => rw [Context.fill, Context.fill, isEquivalent_operand, ih]

/-- One change in the order or in the grouping of operands, somewhere in a selection. -/
inductive Regrouped : Selection → Selection → Prop
  | permute (K : Context) (op : Connective) {ss ts : List Selection} (order : ss.Perm ts) :
      Regrouped (K.fill (.join op ss)) (K.fill (.join op ts))
  | group (K : Context) (op : Connective) (before after : List Selection) {group : List Selection}
      (hne : group ≠ []) :
      Regrouped (K.fill (.join op (before ++ .join op group :: after)))
        (K.fill (.join op (before ++ group ++ after)))

theorem Regrouped.normalized_eq (h : Regrouped s t) : s.normalized = t.normalized := by
  rw [← isEquivalent_iff_normalized_eq]
  cases h with
  | permute K op order =>
    rw [isEquivalent_fill, isEquivalent_iff_normalized_eq, normalized_join_perm order]
  | group K op before after hne =>
    rw [isEquivalent_fill, isEquivalent_iff_reordered, flatten_join_group hne]
    exact .refl _

/-! ## What equivalence tells apart -/

theorem isEquivalent_check (c d : Check) :
    (Selection.check c).isEquivalent (.check d) = true ↔ c = d := by
  rw [isEquivalent_iff_reordered]
  constructor
  · intro h
    cases h
    rfl
  · rintro rfl
    exact .refl _

theorem flatten_negated (n : Nat) (s : Selection) :
    (Selection.not^[n] s).flatten = Selection.not^[n] s.flatten := by
  induction n with
  | zero => rfl
  | succ n ih => rw [Function.iterate_succ_apply', Function.iterate_succ_apply', flatten_not, ih]

theorem not_reordered_negated (n : Nat) (s : Selection) :
    ¬Reordered (Selection.not^[n + 1] s) s := by
  rw [Function.iterate_succ_apply']
  induction s with
  | check c => nofun
  | not s ih =>
    intro h
    cases h with
    | not operand =>
      -- One negation less on both sides is the same question about the operand.
      rw [← Function.iterate_succ_apply, Function.iterate_succ_apply'] at operand
      exact ih operand
  | join op ss ih => nofun

theorem eq_of_reordered_negated {m n : Nat}
    (h : Reordered (Selection.not^[m] s) (Selection.not^[n] s)) : m = n := by
  induction m generalizing n with
  | zero =>
    cases n with
    | zero => rfl
    | succ n => exact absurd h.symm (not_reordered_negated n s)
  | succ m ih =>
    cases n with
    | zero => exact absurd h (not_reordered_negated m s)
    | succ n =>
      rw [Function.iterate_succ_apply', Function.iterate_succ_apply'] at h
      cases h with
      | not operand => rw [ih operand]

theorem isEquivalent_negated {m n : Nat} (h : m ≠ n) (s : Selection) :
    (Selection.not^[m] s).isEquivalent (Selection.not^[n] s) = false := by
  rw [Bool.eq_false_iff, ne_eq, isEquivalent_iff_reordered, flatten_negated, flatten_negated]
  exact fun hreordered => h (eq_of_reordered_negated hreordered)

theorem length_le_length_spliced (op : Connective) (ss : List Selection) :
    ss.length ≤ (spliced op ss).length := by
  induction ss with
  | nil => exact Nat.zero_le _
  | cons s ss ih =>
    have hhead := List.length_pos_of_ne_nil (operandsUnder_ne_nil op (isFlat_flatten s))
    rw [spliced] at ih ⊢
    rw [List.flatMap_cons, List.length_append, List.length_cons]
    omega

/-- Nodes of two operands or more keep their connective. -/
theorem isEquivalent_connectives {op' : Connective} (hop : op ≠ op') (hss : 2 ≤ ss.length)
    (hts : 2 ≤ ts.length) : (Selection.join op ss).isEquivalent (.join op' ts) = false := by
  rw [Bool.eq_false_iff, ne_eq, isEquivalent_iff_reordered, flatten_join_eq, flatten_join_eq,
    joinOf_of_two_le (Nat.le_trans hss (length_le_length_spliced op ss)),
    joinOf_of_two_le (Nat.le_trans hts (length_le_length_spliced op' ts))]
  intro h
  cases h
  exact hop rfl

/-- How many operands of a node are equivalent to a selection, once nested nodes are merged. -/
def multiplicity (op : Connective) (u s : Selection) : Nat :=
  (operandsUnder op s.flatten).countP u.isEquivalent

theorem multiplicity_eq_count (op : Connective) (u s : Selection) :
    multiplicity op u s = ((operandsUnder op s.flatten).map render).count u.normalized := by
  have hflat := flatUnder_operandsUnder op (isFlat_flatten s)
  rw [multiplicity, List.count, List.countP_map]
  refine List.countP_congr fun t ht => ?_
  rw [isEquivalent_iff_normalized_eq, normalized_eq_render_flatten t,
    flatten_of_isFlat (hflat t ht).2, Function.comp_apply, beq_iff_eq, eq_comm]

theorem multiplicity_congr (h : s.isEquivalent t = true) (op : Connective) (u : Selection) :
    multiplicity op u s = multiplicity op u t := by
  rw [multiplicity_eq_count, multiplicity_eq_count]
  exact ((isEquivalent_iff_perm op).1 h).count_eq _

/-- Two selections that differ in one respect, somewhere inside. -/
inductive Differs : Selection → Selection → Prop
  /-- In the property of a check, in its value, or in whether it has one. -/
  | check {c d : Check} (h : c ≠ d) : Differs (.check c) (.check d)
  /-- In the connective of two operands or more. Fewer are not joined by it. -/
  | connective {op op' : Connective} {ss ts : List Selection} (h : op ≠ op')
      (hss : 2 ≤ ss.length) (hts : 2 ≤ ts.length) : Differs (.join op ss) (.join op' ts)
  /-- In the number of negations. -/
  | negation {m n : Nat} (h : m ≠ n) (s : Selection) :
      Differs (Selection.not^[m] s) (Selection.not^[n] s)
  /-- In how often an operand is given. -/
  | multiplicity {op : Connective} {u s t : Selection}
      (h : multiplicity op u s ≠ multiplicity op u t) : Differs s t
  | inside (K : Context) {s t : Selection} (h : Differs s t) : Differs (K.fill s) (K.fill t)

theorem Differs.isEquivalent_eq_false (h : Differs s t) : s.isEquivalent t = false := by
  induction h with
  | check h => exact Bool.eq_false_iff.2 fun heq => h ((isEquivalent_check _ _).1 heq)
  | connective h hss hts => exact isEquivalent_connectives h hss hts
  | negation h s => exact isEquivalent_negated h s
  | multiplicity h => exact Bool.eq_false_iff.2 fun heq => h (multiplicity_congr heq _ _)
  | inside K _ ih => rw [isEquivalent_fill, ih]

/-- **Equivalence is equality up to the order of operands, once selections are flattened.** Changing
the order or the grouping of operands keeps the normalized text, exchanging equivalent parts keeps
equivalence, and selections that differ otherwise are never equivalent. -/
theorem isEquivalent_exactly_reordering (s t : Selection) :
    (s.isEquivalent t = true ↔ Reordered s.flatten t.flatten) ∧
      (Regrouped s t → s.normalized = t.normalized) ∧
      (∀ K : Context, (K.fill s).isEquivalent (K.fill t) = s.isEquivalent t) ∧
      (Differs s t → s.isEquivalent t = false) :=
  ⟨isEquivalent_iff_reordered, Regrouped.normalized_eq, fun K => isEquivalent_fill K s t,
    Differs.isEquivalent_eq_false⟩

/-- Under a negation, operands may be grouped, but not repeated. -/
theorem isEquivalent_grouped_not_repeated :
    let light : Selection := .check (.equals .type "light")
    let house : Selection := .check (.equals .group "House")
    let grouped : Selection := .not (.and [light, .and [house, light]])
    let plain : Selection := .not (.and [light, house, light])
    let repeated : Selection := .not (.and [light, house, light, house])
    Regrouped grouped plain ∧ grouped.normalized = plain.normalized ∧
      Differs plain repeated ∧ plain.isEquivalent repeated = false := by
  intro light house grouped plain repeated
  have hgroup : Regrouped grouped plain :=
    .group (.not .here) .and [light] [] (List.cons_ne_nil house [light])
  have hdiffers : Differs plain repeated := by
    refine .inside (.not .here) (@Differs.multiplicity .and house _ _ ?_)
    decide +kernel
  exact ⟨hgroup, (isEquivalent_exactly_reordering grouped plain).2.1 hgroup, hdiffers,
    (isEquivalent_exactly_reordering plain repeated).2.2.2 hdiffers⟩

end ResourceRouting.Selection
