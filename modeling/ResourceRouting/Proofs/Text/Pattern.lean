import Mathlib.Computability.Language
import ResourceRouting.Text.Pattern

/-!
# What a pattern matches

The texts that match a pattern form a regular language (`language`). A front part of a text can be
taken exactly if it is in that language (`mem_ends_iff`).

Which of these parts is taken depends on how the pattern is written. It does not where no match is
the front part of a longer one (`PrefixFree`): then there is one part at most, and it is found
(`find?_eq_some_iff`).
-/

namespace ResourceRouting.Text.Pattern

open scoped Computability

/-- The texts that match a pattern. -/
def language : Pattern → Language Char
  | .empty => 1
  | .oneOf cs => {text | ∃ c ∈ cs, text = [c]}
  | .noneOf cs => {text | ∃ c ∉ cs, text = [c]}
  | .seq p q => p.language * q.language
  | .alt p q => p.language + q.language
  | .many p => p.language∗

variable {p q : Pattern} {cs text taken rest : List Char}

@[simp] theorem mem_language_oneOf : text ∈ (oneOf cs).language ↔ ∃ c ∈ cs, text = [c] := Iff.rfl

@[simp] theorem mem_language_noneOf : text ∈ (noneOf cs).language ↔ ∃ c ∉ cs, text = [c] := Iff.rfl

@[simp] theorem mem_language_char {c : Char} : text ∈ (char c).language ↔ text = [c] := by
  simp [char]

theorem mem_language_seq : text ∈ (seq p q).language ↔
    ∃ first ∈ p.language, ∃ second ∈ q.language, first ++ second = text := Iff.rfl

@[simp] theorem mem_language_alt :
    text ∈ (alt p q).language ↔ text ∈ p.language ∨ text ∈ q.language := Iff.rfl

theorem mem_language_times_oneOf {n : Nat} :
    text ∈ (times n (oneOf cs)).language ↔ text.length = n ∧ ∀ c ∈ text, c ∈ cs := by
  induction n generalizing text with
  | zero => simp +contextual [times, language]
  | succ n ih =>
    simp only [times, mem_language_seq, ih, mem_language_oneOf]
    constructor
    · rintro ⟨_, ⟨c, hc, rfl⟩, text, ⟨hlength, hall⟩, rfl⟩
      simpa [hlength, hc] using hall
    · rintro ⟨hlength, hall⟩
      obtain ⟨c, text, rfl⟩ := List.exists_cons_of_length_eq_add_one hlength
      rw [List.forall_mem_cons] at hall
      exact ⟨[c], ⟨c, hall.1, rfl⟩, text, ⟨by simpa using hlength, hall.2⟩, rfl⟩

theorem append_mem_kstar {L : Language Char} (h : taken ∈ L) (h' : text ∈ L∗) :
    taken ++ text ∈ L∗ :=
  Set.mem_of_mem_of_subset (Language.append_mem_mul h h') (mul_kstar_le_kstar (a := L))

/-! ## Front parts -/

/-- Steps that take the words of a language take, one after the other, those of its closure. -/
theorem mem_repeated_iff {step : List Char → List (List Char)} {L : Language Char}
    (h : ∀ text rest, rest ∈ step text ↔ ∃ taken ∈ L, text = taken ++ rest) :
    rest ∈ repeated step text ↔ ∃ taken ∈ L∗, text = taken ++ rest := by
  constructor
  · intro hrest
    fun_induction repeated step text with
    | case1 text ih =>
      rcases List.mem_append.1 hrest with hmore | hdone
      · obtain ⟨between, hbetween, hmem⟩ := List.mem_flatMap.1 hmore
        split at hmem
        · rename_i hlt
          obtain ⟨first, hfirst, rfl⟩ := (h text between).1 hbetween
          obtain ⟨others, hothers, rfl⟩ := ih between hlt hmem
          exact ⟨first ++ others, append_mem_kstar hfirst hothers, (List.append_assoc ..).symm⟩
        · cases hmem
      · exact ⟨[], Language.nil_mem_kstar L, (List.mem_singleton.1 hdone).symm⟩
  · rintro ⟨taken, htaken, rfl⟩
    -- A step that takes nothing is not repeated, so the words are taken without the empty ones.
    obtain ⟨words, rfl, hwords⟩ := Language.mem_kstar_iff_exists_nonempty.1 htaken
    clear htaken
    induction words with
    | nil =>
      rw [repeated]
      exact List.mem_append_right _ (List.mem_singleton.2 rfl)
    | cons word words ih =>
      rw [List.forall_mem_cons] at hwords
      obtain ⟨⟨hword, hne⟩, hwords⟩ := hwords
      rw [List.flatten_cons, List.append_assoc, repeated]
      refine List.mem_append_left _ (List.mem_flatMap.2 ⟨words.flatten ++ rest, ?_, ?_⟩)
      · exact (h _ _).2 ⟨word, hword, rfl⟩
      · have hlt : (words.flatten ++ rest).length < (word ++ (words.flatten ++ rest)).length := by
          have := List.length_pos_iff.2 hne
          simpa using this
        rw [dif_pos hlt]
        exact ih hwords

/-- **The front parts that can be taken are those that match.** -/
theorem mem_ends_iff : rest ∈ p.ends text ↔ ∃ taken ∈ p.language, text = taken ++ rest := by
  induction p generalizing text rest with
  | empty => simp [ends, language, eq_comm]
  | oneOf cs => cases text <;> simp [ends, eq_comm]
  | noneOf cs => cases text <;> simp [ends, eq_comm]
  | seq p q ihp ihq =>
    simp only [ends, List.mem_flatMap, ihp, ihq, mem_language_seq]
    constructor
    · rintro ⟨_, ⟨first, hfirst, rfl⟩, second, hsecond, rfl⟩
      exact ⟨_, ⟨first, hfirst, second, hsecond, rfl⟩, (List.append_assoc ..).symm⟩
    · rintro ⟨_, ⟨first, hfirst, second, hsecond, rfl⟩, rfl⟩
      exact ⟨_, ⟨first, hfirst, List.append_assoc ..⟩, second, hsecond, rfl⟩
  | alt p q ihp ihq =>
    have hends : rest ∈ (alt p q).ends text ↔ rest ∈ p.ends text ∨ rest ∈ q.ends text := by
      by_cases h : rest ∈ p.ends text <;> simp [ends, h]
    simp only [hends, ihp, ihq, mem_language_alt, or_and_right, exists_or]
  | many p ih => exact mem_repeated_iff fun _ _ => ih

/-- No match is the front part of another. -/
def PrefixFree (p : Pattern) : Prop :=
  ∀ s ∈ p.language, ∀ t ∈ p.language, s <+: t → s = t

/-- **What is found is the one front part that matches.** -/
theorem find?_eq_some_iff (hfree : p.PrefixFree) :
    p.find? text = some (taken, rest) ↔ taken ∈ p.language ∧ text = taken ++ rest := by
  have hsound : ∀ rest, (p.ends text).head? = some rest →
      ∃ taken ∈ p.language, text = taken ++ rest := fun rest hhead =>
    mem_ends_iff.1 (List.mem_of_head? hhead)
  constructor
  · intro h
    obtain ⟨rest', hhead, heq⟩ := Option.map_eq_some_iff.1 h
    obtain ⟨taken', htaken', rfl⟩ := hsound rest' hhead
    rw [before_append] at heq
    cases heq
    exact ⟨htaken', rfl⟩
  · rintro ⟨htaken, rfl⟩
    have hmem : rest ∈ p.ends (taken ++ rest) := mem_ends_iff.2 ⟨taken, htaken, rfl⟩
    obtain ⟨rest', hhead⟩ := Option.isSome_iff_exists.1
      (List.isSome_head?.2 (List.ne_nil_of_mem hmem))
    obtain ⟨taken', htaken', htext⟩ := hsound rest' hhead
    -- Both are front parts of one text, so one of them is a front part of the other.
    have heq : taken = taken' := by
      have hprefix' : taken' <+: taken ++ rest := htext ▸ List.prefix_append taken' rest'
      rcases List.prefix_or_prefix_of_prefix (List.prefix_append taken rest) hprefix' with h | h
      · exact hfree taken htaken taken' htaken' h
      · exact (hfree taken' htaken' taken htaken h).symm
    subst heq
    obtain rfl := List.append_cancel_left htext
    rw [find?, hhead, Option.map_some, before_append]

end ResourceRouting.Text.Pattern
