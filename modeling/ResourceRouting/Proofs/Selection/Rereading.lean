import ResourceRouting.Proofs.Selection.Assembly
import ResourceRouting.Proofs.Token.Spelling
import ResourceRouting.Resource
import ResourceRouting.Selection.Render

/-!
# Rendered selections are read back

**Theorem (`Selection.ofString_render`).** The rendering of any selection is accepted. What is read
is the selection put into the form that a text can spell (`reread`), and it meets the same
resources.

A text spells nodes of two operands only. So a longer list of operands comes back as nested nodes,
in the order of the operands' texts, a single operand comes back without its node, and no operands
come back as what they stand for.

**Standing alone** (`Stands`). The proof follows the printed text by structural induction. Each
rendering writes the tokens of one *factor*, whatever it is put in front of. A check is a factor by
itself, and a negation or joined operands are one because of their parentheses. Only factors are
joined, so no keyword can take an operand apart, and the values in quotes are single tokens.
-/

namespace ResourceRouting

namespace Selection

/-! ## What is read back -/

/-- The operands of a connective in nested nodes of two, grouped to the right. -/
def nest (op : Connective) : List Selection → Selection
  | [] => vacuous op
  | [only] => only
  | s :: t :: ss => .join op [s, nest op (t :: ss)]

mutual

/-- The selection that the rendering of a selection spells. -/
def reread : Selection → Selection
  | .check c => .check c
  | .not s => .not s.reread
  | .join op ss => nest op ((Text.sortedBy Prod.fst (rereadEach ss)).map Prod.snd)

/-- Each selection of a list as it is reread, with its rendering. -/
def rereadEach : List Selection → List (String × Selection)
  | [] => []
  | s :: ss => (s.render, s.reread) :: rereadEach ss

end

theorem rereadEach_eq_map (ss : List Selection) :
    rereadEach ss = ss.map fun s => (s.render, s.reread) := by
  induction ss with
  | nil => rfl
  | cons s ss ih => rw [rereadEach, ih, List.map_cons]

@[simp] theorem reread_check (c : Check) : (Selection.check c).reread = .check c := by
  rw [reread]

@[simp] theorem reread_not (s : Selection) : (Selection.not s).reread = .not s.reread := by
  rw [reread]

theorem reread_join (op : Connective) (ss : List Selection) :
    (Selection.join op ss).reread = nest op ((Text.sortedBy render ss).map reread) := by
  rw [reread, rereadEach_eq_map, Text.sortedBy_map, List.map_map]
  rfl

/-! ## The same meaning -/

section Meaning

variable {truth : Check → Bool}

theorem holds_vacuous (hid : truth (.present .id) = true) (op : Connective) :
    (vacuous op).holds truth = op.neutral := by
  cases op with
  | and => exact hid
  | or => exact congrArg Bool.not hid

theorem holds_nest (hid : truth (.present .id) = true) (op : Connective) (ss : List Selection) :
    (nest op ss).holds truth = (Selection.join op ss).holds truth := by
  fun_induction nest op ss with
  | case1 =>
    rw [holds_vacuous hid]
    cases op <;> simp [Connective.neutral]
  | case2 only => cases op <;> simp
  | case3 s t ss ih => cases op <;> simp_all

theorem holds_join_perm {ss ts : List Selection} (h : ss.Perm ts) (op : Connective) :
    (Selection.join op ss).holds truth = (Selection.join op ts).holds truth := by
  cases op with
  | and => rw [holds_and, holds_and, h.all_eq]
  | or => rw [holds_or, holds_or, h.any_eq]

theorem holds_join_map {f : Selection → Selection} {ss : List Selection}
    (h : ∀ s ∈ ss, (f s).holds truth = s.holds truth) (op : Connective) :
    (Selection.join op (ss.map f)).holds truth = (Selection.join op ss).holds truth := by
  cases op with
  | and =>
    rw [holds_and, holds_and, List.all_map, Bool.eq_iff_iff, List.all_eq_true, List.all_eq_true]
    exact forall₂_congr fun s hs => by rw [Function.comp_apply, h s hs]
  | or =>
    rw [holds_or, holds_or, List.any_map, Bool.eq_iff_iff, List.any_eq_true, List.any_eq_true]
    exact exists_congr fun s => and_congr_right fun hs => by rw [Function.comp_apply, h s hs]

/-- **Rereading keeps the meaning**, where everything has an id. -/
theorem holds_reread (hid : truth (.present .id) = true) (s : Selection) :
    s.reread.holds truth = s.holds truth := by
  induction s with
  | check c => rw [reread_check]
  | not s ih => rw [reread_not, holds_not, holds_not, ih]
  | join op ss ih =>
    have hsorted := Text.sortedBy_perm render ss
    rw [reread_join, holds_nest hid, holds_join_map fun s hs => ih s (hsorted.mem_iff.1 hs),
      holds_join_perm hsorted]

end Meaning

/-! ## The spelling -/

end Selection

namespace Connective

/-- The token of the keyword. -/
def symbol : Connective → Symbol
  | .and => .and
  | .or => .or

/-- The level at which operands are joined. -/
def level : Connective → Level
  | .and => .term
  | .or => .predicate

theorem writes_keyword (op : Connective) : Writes op.keyword [.symbol op.symbol] := by
  cases op with
  | and => exact .symbol .and
  | or => exact .symbol .or

variable {ts us : List Token} {s t : Selection}

theorem spells_of_factor (op : Connective) (h : Spells .factor ts s) : Spells op.level ts s := by
  cases op with
  | and => exact .ofFactor h
  | or => exact .ofTerm (.ofFactor h)

theorem spells_join (op : Connective) (left : Spells .factor ts s) (right : Spells op.level us t) :
    Spells op.level (ts ++ .symbol op.symbol :: us) (.join op [s, t]) := by
  cases op with
  | and => exact .and left right
  | or => exact .or (.ofFactor left) right

theorem spells_predicate (op : Connective) (h : Spells op.level ts s) : Spells .predicate ts s := by
  cases op with
  | and => exact .ofTerm h
  | or => exact h

end Connective

/-- A text that spells a selection as one factor, wherever it stands. -/
def Stands (text : String) (s : Selection) : Prop :=
  ∃ ts, Writes text ts ∧ Spells .factor ts s

namespace Stands

theorem check (c : Check) : Stands c.render (.check c) := by
  have hproperty (p : Property) := Writes.symbol (.property p)
  cases c with
  | present p =>
    have hstar := (Writes.symbol .equals).append (Writes.symbol .star)
    exact ⟨_, (hproperty p).append hstar, .present p⟩
  | equals p value =>
    have hvalue := Writes.token (.literal value)
    exact ⟨_, ((hproperty p).append (.symbol .equals)).append hvalue, .equals p value⟩

theorem parens {text : String} {ts : List Token} {s : Selection} (h : Writes text ts)
    (hs : Spells .predicate ts s) : Stands ("( " ++ text ++ " )") s := by
  have hopen : Writes "( " [.symbol .openParen] := (Writes.symbol .openParen).append .blank
  have hclose : Writes " )" [.symbol .closeParen] := Writes.blank.append (.symbol .closeParen)
  exact ⟨_, (hopen.append h).append hclose, .parens hs⟩

theorem not {text : String} {s : Selection} (h : Stands text s) :
    Stands (Selection.renderNot text) (.not s) := by
  obtain ⟨ts, hwrites, hspells⟩ := h
  have hnot : Writes "not " [.symbol .not] := (Writes.symbol .not).append .blank
  have hparens := parens (hnot.append hwrites) (.ofTerm (.ofFactor (.not hspells)))
  have htext : "( " ++ ("not " ++ text) ++ " )" = Selection.renderNot text := by
    rw [Selection.renderNot, ← String.append_assoc]
    rfl
  exact htext ▸ hparens

theorem vacuous (op : Connective) :
    Stands (Selection.vacuous op).render (Selection.vacuous op) := by
  cases op with
  | and => exact check _
  | or => exact (check _).not

/-- Factors with a keyword between them spell the nested nodes. -/
theorem exists_intercalate (op : Connective) (ss : List Selection) (hne : ss ≠ [])
    (h : ∀ s ∈ ss, Stands s.render s.reread) :
    ∃ ts, Writes (String.intercalate (" " ++ op.keyword ++ " ") (ss.map Selection.render)) ts ∧
      Spells op.level ts (Selection.nest op (ss.map Selection.reread)) := by
  induction ss with
  | nil => exact absurd rfl hne
  | cons s ss ih =>
    obtain ⟨ts, hwrites, hspells⟩ := h s List.mem_cons_self
    cases ss with
    | nil =>
      refine ⟨ts, ?_, op.spells_of_factor hspells⟩
      rw [List.map_cons, List.map_nil, String.intercalate_singleton]
      exact hwrites
    | cons t ss =>
      obtain ⟨us, hwrites', hspells'⟩ :=
        ih (List.cons_ne_nil t ss) fun s hs => h s (List.mem_cons_of_mem _ hs)
      -- Nodes are grouped to the right: the new factor is the left operand, all others the right.
      have hkeyword := (Writes.blank.append op.writes_keyword).append .blank
      refine ⟨ts ++ .symbol op.symbol :: us, ?_, op.spells_join hspells hspells'⟩
      rw [List.map_cons, List.map_cons, String.intercalate_cons_cons, ← List.map_cons]
      simpa using (hwrites.append hkeyword).append hwrites'

/-- **Every rendering stands alone**, as what is read back. -/
theorem render (s : Selection) : Stands s.render s.reread := by
  induction s with
  | check c => exact Selection.reread_check c ▸ check c
  | not s ih => exact Selection.reread_not s ▸ ih.not
  | join op ss ih =>
    match ss, ih with
    | [], _ =>
      rw [Selection.render_join_nil, Selection.reread_join, Text.sortedBy_nil]
      exact vacuous op
    | [only], ih =>
      rw [Selection.render_join, Selection.reread_join, Text.sortedBy_singleton]
      exact ih only List.mem_cons_self
    | s :: t :: ss, ih =>
      have hsorted := Text.sortedBy_perm Selection.render (s :: t :: ss)
      have hne : Text.sortedBy Selection.render (s :: t :: ss) ≠ [] := by
        intro hnil
        rw [hnil] at hsorted
        exact List.cons_ne_nil _ _ hsorted.nil_eq.symm
      obtain ⟨ts, hwrites, hspells⟩ :=
        exists_intercalate op _ hne fun s hs => ih s (hsorted.mem_iff.1 hs)
      rw [Selection.render_join, Selection.reread_join]
      -- The texts of the sorted operands are the sorted texts.
      rw [← Text.sortedBy_map (fun text => text) Selection.render] at hwrites
      exact parens hwrites (op.spells_predicate hspells)

end Stands

namespace Selection

/-- **A rendering is read back** as the reread selection, which meets the same resources. -/
theorem ofString_render (s : Selection) :
    ofString s.render = .ok s.reread ∧
      ∀ id a, s.reread.matchesResource id a = s.matchesResource id a := by
  constructor
  · obtain ⟨ts, hwrites, hspells⟩ := Stands.render s
    have htokens : ofTokens ts = .ok s.reread :=
      ofTokens_eq_ok_iff_spells.2 (.ofTerm (.ofFactor hspells))
    rw [ofString, TokenStream.items_of_writes hwrites]
    exact htokens
  · intro id a
    exact holds_reread rfl s

end Selection

end ResourceRouting
