import ResourceRouting.Proofs.Selection.Meaning

/-!
# The order of group paths

That a path lies in another is said in two ways: the other occurs in its ancestry, or covers it. For
every path but the root these are the same (`covers_iff_mem_ancestry`); the root covers everything,
but is in an ancestry only where a path starts with a separator.

Lying in a path is transitive (`covers_of_mem_ancestry`), so a set of groups from which all that
lies in one path is taken away still holds every group above its members. A covered path goes on
from the covering one, so it can be cut there (`exists_cut_of_covers`). What follows has no segments
when it is made of separators only (`segmentsBelow_eq_nil_iff`), so a path is not the only one that
ends where it does.
-/

namespace ResourceRouting.GroupPath

variable {above path : String}

/-- A path is in an ancestry when it is the path itself or ends before one of its separators. -/
theorem mem_ancestry_iff :
    above ∈ ancestry path ↔
      path = above ∨ ∃ rest, path.toList = above.toList ++ separator :: rest := by
  rw [ancestry, List.mem_map]
  constructor
  · rintro ⟨cs, hcs, rfl⟩
    rcases mem_ancestryOf.1 hcs with rfl | ⟨rest, hrest⟩
    · exact Or.inl String.ofList_toList.symm
    · exact Or.inr ⟨rest, by rw [hrest, String.toList_ofList]⟩
  · intro h
    refine ⟨above.toList, mem_ancestryOf.2 (h.imp_left ?_), String.ofList_toList⟩
    rintro rfl
    rfl

theorem covers_iff_mem_ancestry (h : above ≠ "") :
    covers above path = true ↔ above ∈ ancestry path := by
  rw [covers_iff, mem_ancestry_iff]
  exact or_iff_right h

@[simp] theorem covers_root (path : String) : covers "" path = true :=
  covers_iff.2 (Or.inl rfl)

theorem mem_ancestry_trans {p q r : String} (hqr : q ∈ ancestry r) (hpq : p ∈ ancestry q) :
    p ∈ ancestry r := by
  rw [mem_ancestry_iff] at hqr hpq ⊢
  rcases hqr with rfl | ⟨rest, hrest⟩
  · exact hpq
  · rcases hpq with rfl | ⟨rest', hrest'⟩
    · exact Or.inr ⟨rest, hrest⟩
    · exact Or.inr ⟨rest' ++ separator :: rest, by rw [hrest, hrest', List.append_assoc]; rfl⟩

/-- A path that covers another covers all that lies in it. -/
theorem covers_of_mem_ancestry {p q : String} (hcovers : covers above q = true)
    (hpq : q ∈ ancestry p) : covers above p = true := by
  by_cases habove : above = ""
  · rw [habove]
    exact covers_root p
  · rw [covers_iff_mem_ancestry habove] at hcovers ⊢
    exact mem_ancestry_trans hpq hcovers

theorem exists_append_of_covers (h : covers above path = true) : ∃ rest, path = above ++ rest := by
  rcases covers_iff.1 h with rfl | rfl | ⟨rest, hrest⟩
  · exact ⟨path, String.empty_append.symm⟩
  · exact ⟨"", String.append_empty.symm⟩
  · refine ⟨String.ofList (separator :: rest), ?_⟩
    rw [← String.toList_inj, hrest, String.toList_append, String.toList_ofList]

/-- **A covered path can be cut behind the covering one**: at that many bytes a character starts or
the path ends, and the segments below are those of what follows. -/
theorem exists_cut_of_covers (h : covers above path = true) :
    ∃ cut : path.Pos, cut.offset.byteIdx = above.utf8ByteSize ∧
      segmentsBelow above path = segments (path.sliceFrom cut).copy.toList := by
  obtain ⟨rest, rfl⟩ := exists_append_of_covers h
  have hvalid : above.rawEndPos.IsValid (above ++ rest) :=
    String.Pos.Raw.isValid_iff_exists_append.2 ⟨above, rest, rfl, rfl⟩
  have hsplits : (⟨above.rawEndPos, hvalid⟩ : (above ++ rest).Pos).Splits above rest := ⟨rfl, rfl⟩
  refine ⟨⟨above.rawEndPos, hvalid⟩, rfl, ?_⟩
  rw [hsplits.copy_sliceFrom_eq, segmentsBelow, String.toList_append, ← String.length_toList,
    List.drop_left]

theorem covers_antisymm {p q : String} (hpq : covers p q = true) (hqp : covers q p = true) :
    p = q := by
  obtain ⟨rest, rfl⟩ := exists_append_of_covers hpq
  obtain ⟨rest', hrest'⟩ := exists_append_of_covers hqp
  have hlength : p.length = p.length + rest.length + rest'.length := by
    rw [← String.length_append, ← String.length_append, ← hrest']
  have hnone : rest.length = 0 := by omega
  rw [String.length_eq_zero_iff.1 hnone, String.append_empty]

theorem not_covers_of_append {first : Char} {rest : List Char} (habove : above ≠ "")
    (hfirst : first ≠ separator) (hpath : path.toList = above.toList ++ first :: rest) :
    ¬covers above path = true := by
  rw [covers_iff, hpath]
  rintro (hroot | rfl | ⟨rest', hrest'⟩)
  · exact habove hroot
  · simp at hpath
  · exact hfirst (List.cons.inj (List.append_cancel_left hrest')).1

/-! ## Where no segments follow -/

/-- Only separators are split into nothing but empty parts. -/
theorem forall_splitOn_eq_nil_iff (text : List Char) :
    (∀ part ∈ text.splitOn separator, part = []) ↔ ∀ c ∈ text, c = separator := by
  rw [List.splitOn]
  induction text with
  | nil => simp
  | cons c text ih =>
    rw [List.splitOnP_cons_eq_if_modifyHead, List.forall_mem_cons]
    by_cases hc : c = separator
    · rw [if_pos (beq_iff_eq.2 hc), List.forall_mem_cons, ih]
      exact and_congr_left' (iff_of_true rfl hc)
    · -- A part that starts with another character is not empty.
      obtain ⟨part, parts, hparts⟩ :=
        List.exists_cons_of_ne_nil (List.splitOnP_ne_nil (· == separator) text)
      rw [if_neg (mt beq_iff_eq.1 hc), hparts, List.modifyHead_cons, List.forall_mem_cons]
      exact iff_of_false (fun h => absurd h.1 (List.cons_ne_nil c part)) fun h => hc h.1

theorem segments_eq_nil_iff (text : List Char) :
    segments text = [] ↔ ∀ c ∈ text, c = separator := by
  rw [segments, List.map_eq_nil_iff, List.filter_eq_nil_iff, ← forall_splitOn_eq_nil_iff]
  simp

/-- A path with some separators behind it. -/
def padded (path : String) (n : Nat) : String :=
  path ++ String.ofList (List.replicate n separator)

theorem padded_zero (path : String) : padded path 0 = path := String.append_empty

theorem covers_padded (path : String) (n : Nat) : covers path (padded path n) = true := by
  rw [covers_iff]
  cases n with
  | zero => exact Or.inr (Or.inl (padded_zero path))
  | succ n =>
    refine Or.inr (Or.inr ⟨List.replicate n separator, ?_⟩)
    rw [padded, String.toList_append, String.toList_ofList, List.replicate_succ]

/-- **A covered path has no segments of its own exactly when only separators follow.** -/
theorem segmentsBelow_eq_nil_iff (h : covers above path = true) :
    segmentsBelow above path = [] ↔ ∃ n, path = padded above n := by
  obtain ⟨rest, rfl⟩ := exists_append_of_covers h
  rw [segmentsBelow, String.toList_append, ← String.length_toList, List.drop_left,
    segments_eq_nil_iff]
  constructor
  · intro hrest
    refine ⟨rest.toList.length, ?_⟩
    rw [padded, ← List.eq_replicate_iff.2 ⟨rfl, hrest⟩, String.ofList_toList]
  · rintro ⟨n, hn⟩ c hc
    obtain rfl : rest = String.ofList (List.replicate n separator) := by
      rw [padded, ← String.toList_inj, String.toList_append, String.toList_append] at hn
      exact String.toList_inj.1 (List.append_cancel_left hn)
    rw [String.toList_ofList] at hc
    exact List.eq_of_mem_replicate hc

end ResourceRouting.GroupPath
