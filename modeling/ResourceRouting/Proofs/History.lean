import Mathlib.Data.List.Induction

/-!
# What remains of a history

Some events make a fact and others end it. The fact **remains** after a history (`Remains`) when
some event made it and none after that one ended it. Whether an event makes the fact may depend on
what came before it, as an event need not succeed.

**One step is enough** (`iff_remains`). Suppose that a fact holds after one more event exactly when
that event makes it, or it held before and the event does not end it. Then it holds after a history
exactly when it remains.
-/

namespace ResourceRouting

section

variable {α : Type*} {makes : List α → α → Prop} {ends : α → Prop}

/-- Some event made a fact and no later event ended it. -/
def Remains (makes : List α → α → Prop) (ends : α → Prop) (history : List α) : Prop :=
  ∃ before e after, history = before ++ e :: after ∧ makes before e ∧ ∀ later ∈ after, ¬ends later

theorem not_remains_nil : ¬Remains makes ends [] := by
  rintro ⟨before, e, after, h, -⟩
  cases before <;> cases h

/-- After one more event a fact remains if that event makes it, or if it remained before and the
event does not end it. -/
theorem remains_concat {history : List α} {e : α} :
    Remains makes ends (history ++ [e]) ↔
      makes history e ∨ (Remains makes ends history ∧ ¬ends e) := by
  constructor
  · rintro ⟨before, made, after, h, hmakes, hends⟩
    rcases List.eq_nil_or_concat after with rfl | ⟨after, last, rfl⟩
    · obtain ⟨rfl, hlast⟩ := List.append_inj' h rfl
      obtain rfl := List.singleton_inj.1 hlast
      exact Or.inl hmakes
    · rw [List.concat_eq_append] at h hends
      have hsplit : history ++ [e] = (before ++ made :: after) ++ [last] := by simpa using h
      obtain ⟨rfl, hlast⟩ := List.append_inj' hsplit rfl
      obtain rfl := List.singleton_inj.1 hlast
      refine Or.inr ⟨⟨before, made, after, rfl, hmakes, fun later hlater => ?_⟩, ?_⟩
      · exact hends later (List.mem_append_left _ hlater)
      · exact hends _ (List.mem_append_right _ (List.mem_singleton_self _))
  · rintro (hmakes | ⟨⟨before, made, after, rfl, hmakes, hends⟩, he⟩)
    · exact ⟨history, e, [], rfl, hmakes, by simp⟩
    · refine ⟨before, made, after ++ [e], by simp, hmakes, fun later hlater => ?_⟩
      rcases List.mem_append.1 hlater with hlater | hlater
      · exact hends later hlater
      · rwa [List.mem_singleton.1 hlater]

/-- **A fact that each event makes, ends or leaves alone holds after a history when it remains.** -/
theorem iff_remains (holds : List α → Prop) (hnil : ¬holds [])
    (hstep : ∀ history e, holds (history ++ [e]) ↔ makes history e ∨ (holds history ∧ ¬ends e))
    (history : List α) : holds history ↔ Remains makes ends history := by
  induction history using List.reverseRecOn with
  | nil => exact iff_of_false hnil not_remains_nil
  | append_singleton history e ih => rw [hstep, remains_concat, ih]

/-- A fact that is made as soon as another, and ended only with it, remains when that one does. -/
theorem Remains.mono {makes' : List α → α → Prop} {ends' : α → Prop} {history : List α}
    (h : Remains makes ends history) (hmakes : ∀ before e, makes before e → makes' before e)
    (hends : ∀ e, ends' e → ends e) : Remains makes' ends' history := by
  obtain ⟨before, e, after, hhistory, hmade, hafter⟩ := h
  exact ⟨before, e, after, hhistory, hmakes before e hmade,
    fun later hlater hend => hafter later hlater (hends later hend)⟩

end

end ResourceRouting
