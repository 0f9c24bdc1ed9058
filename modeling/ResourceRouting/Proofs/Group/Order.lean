import ResourceRouting.Proofs.Group.Path

/-!
# Paths above a path

Ancestry lists what is above a path, and covering tells of two paths whether one is above the other.
Both are the same order, and the paths above one path form a chain in it.

**The chain** (`pairwise_ancestry`). Each path of an ancestry goes on from every one listed before
it with a separator, so paths that are listed later lie in those listed earlier. What is listed up
to a path is the ancestry of that path (`ancestry_of_append`), so two paths above a third one are
found in one list, and the one listed first covers the other (`covers_or_covers`).

Main result: `covers_chain_above`.
-/

namespace ResourceRouting.GroupPath

variable {above path : String}

/-! ## Ancestry as a list -/

theorem getLast?_ancestryOf (p : List Char) : (ancestryOf p).getLast? = some p := by
  induction p with
  | nil => rfl
  | cons c p ih =>
    rw [ancestryOf]
    split <;> simp [List.getLast?_cons, ih]

theorem pairwise_ancestryOf (p : List Char) :
    (ancestryOf p).Pairwise fun q r => ∃ rest, r = q ++ separator :: rest := by
  induction p with
  | nil => exact List.pairwise_singleton _ _
  | cons c p ih =>
    have hmap : ((ancestryOf p).map (c :: ·)).Pairwise
        fun q r => ∃ rest, r = q ++ separator :: rest := by
      refine List.Pairwise.map _ (fun q r h => ?_) ih
      obtain ⟨rest, rfl⟩ := h
      exact ⟨rest, rfl⟩
    rw [ancestryOf]
    split
    · rename_i hc
      subst hc
      refine List.pairwise_cons.2 ⟨fun r hr => ?_, hmap⟩
      obtain ⟨rest, -, rfl⟩ := List.mem_map.1 hr
      exact ⟨rest, rfl⟩
    · exact hmap

/-- What is listed up to a text is the list for that text. -/
theorem ancestryOf_of_append {p q : List Char} {before after : List (List Char)}
    (h : ancestryOf p = before ++ q :: after) : ancestryOf q = before ++ [q] := by
  induction p generalizing q before after with
  | nil =>
    obtain ⟨rfl, rfl, -⟩ : before = [] ∧ q = [] ∧ after = [] := by
      cases before <;> simp_all [ancestryOf]
    rfl
  | cons c p ih =>
    -- All texts that start with `c` are listed for `p`, too, without it.
    have hmap : ∀ {front}, (ancestryOf p).map (c :: ·) = front ++ q :: after →
        ∃ q', q = c :: q' ∧ (ancestryOf q').map (c :: ·) = front ++ [q] := by
      intro front hfront
      obtain ⟨front', back', hp, rfl, hback⟩ := List.map_eq_append_iff.1 hfront
      obtain ⟨q', after', rfl, rfl, -⟩ := List.map_eq_cons_iff.1 hback
      exact ⟨q', rfl, by rw [ih hp, List.map_append]; rfl⟩
    rw [ancestryOf] at h
    split at h
    · rename_i hc
      cases before with
      | nil =>
        obtain ⟨rfl, -⟩ := List.cons.inj h
        rfl
      | cons first before =>
        obtain ⟨rfl, hrest⟩ := List.cons.inj h
        obtain ⟨q', rfl, hq⟩ := hmap hrest
        rw [ancestryOf, if_pos hc, hq]
        rfl
    · rename_i hc
      obtain ⟨q', rfl, hq⟩ := hmap h
      rw [ancestryOf, if_neg hc, hq]

theorem getLast?_ancestry (path : String) : (ancestry path).getLast? = some path := by
  rw [ancestry, List.getLast?_map, getLast?_ancestryOf]
  exact congrArg some String.ofList_toList

/-- **What is listed up to a path is the ancestry of that path.** -/
theorem ancestry_of_append {q : String} {before after : List String}
    (h : ancestry path = before ++ q :: after) : ancestry q = before ++ [q] := by
  obtain ⟨front, back, hpath, rfl, hback⟩ := List.map_eq_append_iff.1 h
  obtain ⟨q, after, rfl, rfl, -⟩ := List.map_eq_cons_iff.1 hback
  rw [ancestry, String.toList_ofList, ancestryOf_of_append hpath, List.map_append]
  rfl

/-- **Every path of an ancestry lies in those listed before it**, and is none of them. -/
theorem pairwise_ancestry (path : String) :
    (ancestry path).Pairwise fun q r => covers q r = true ∧ q ≠ r := by
  refine List.Pairwise.map _ (fun q r h => ?_) (pairwise_ancestryOf path.toList)
  obtain ⟨rest, rfl⟩ := h
  refine ⟨covers_iff.2 (Or.inr (Or.inr ⟨rest, by simp⟩)), fun heq => ?_⟩
  simpa using congrArg String.length heq

/-! ## Covering as an order -/

theorem covers_refl (path : String) : covers path path = true := covers_iff.2 (Or.inr (Or.inl rfl))

theorem covers_trans {p q r : String} (hpq : covers p q = true) (hqr : covers q r = true) :
    covers p r = true := by
  by_cases hq : q = ""
  · -- Only the root lies above the root.
    subst hq
    obtain rfl : p = "" := covers_antisymm hpq (covers_root p)
    exact covers_root r
  · exact covers_of_mem_ancestry hpq ((covers_iff_mem_ancestry hq).1 hqr)

theorem size_lt_of_covers (h : covers above path = true) (hne : above ≠ path) :
    above.length < path.length ∧ above.utf8ByteSize < path.utf8ByteSize := by
  obtain ⟨rest, rfl⟩ := exists_append_of_covers h
  have hrest : rest ≠ "" := by
    rintro rfl
    exact hne String.append_empty.symm
  have hlength : rest.length ≠ 0 := mt String.length_eq_zero_iff.1 hrest
  have hsize : rest.utf8ByteSize ≠ 0 := mt String.utf8ByteSize_eq_zero_iff.1 hrest
  rw [String.length_append, String.utf8ByteSize_append]
  omega

/-- **Of two paths above a third one, one is above the other.** -/
theorem covers_or_covers {p q : String} (hp : covers p path = true) (hq : covers q path = true) :
    covers p q = true ∨ covers q p = true := by
  by_cases hroot : p = ""
  · rw [hroot]
    exact Or.inl (covers_root q)
  by_cases hroot' : q = ""
  · rw [hroot']
    exact Or.inr (covers_root p)
  rw [covers_iff_mem_ancestry hroot] at hp
  rw [covers_iff_mem_ancestry hroot'] at hq
  obtain ⟨before, after, hpath⟩ := List.append_of_mem hp
  have hchain := pairwise_ancestry path
  rw [hpath] at hq hchain
  have hafter := (List.pairwise_cons.1 (List.pairwise_append.1 hchain).2.1).1
  rcases List.mem_append.1 hq with hbefore | hrest
  · have hmem : q ∈ ancestry p := ancestry_of_append hpath ▸ List.mem_append_left [p] hbefore
    exact Or.inr ((covers_iff_mem_ancestry hroot').2 hmem)
  · rcases List.mem_cons.1 hrest with rfl | hrest
    · exact Or.inl (covers_refl q)
    · exact Or.inl (hafter q hrest).1

/-- **Covering is an order in which what is above a path forms a chain, and ancestry lists it.** The
root is above everything. Of all other paths those are listed that cover the path, the shorter ones
first and the path itself last, and up to each of them its own ancestry is listed. -/
theorem covers_chain_above (p a b : String) :
    (a ≠ "" → (covers a p = true ↔ a ∈ ancestry p)) ∧
      (ancestry p).Pairwise (fun q r => q.length < r.length ∧ q.utf8ByteSize < r.utf8ByteSize) ∧
      (ancestry p).getLast? = some p ∧
      (∀ before q after, ancestry p = before ++ q :: after → ancestry q = before ++ [q]) ∧
      covers "" p = true ∧ covers p p = true ∧
      (covers a b = true ∧ covers b a = true ↔ a = b) ∧
      (covers a b = true → covers b p = true → covers a p = true) ∧
      (covers a p = true → covers b p = true → covers a b = true ∨ covers b a = true) := by
  refine ⟨covers_iff_mem_ancestry, ?_, getLast?_ancestry p, fun _ _ _ => ancestry_of_append,
    covers_root p, covers_refl p, ⟨fun h => covers_antisymm h.1 h.2, ?_⟩, covers_trans,
    covers_or_covers⟩
  · exact (pairwise_ancestry p).imp fun h => size_lt_of_covers h.1 h.2
  · rintro rfl
    exact ⟨covers_refl a, covers_refl a⟩

/-- Separators at the start, at the end and in a row make paths of their own. -/
theorem covers_chain_above_bar :
    let bar := "/Café//Bar/"
    let before := ["", "/Café", "/Café/"]
    "/Café/" ≠ "" ∧ "/Café/" ∈ ancestry bar ∧ covers "/Café/" bar = true ∧
      ancestry bar = before ++ "/Café//Bar" :: [bar] ∧
      ancestry "/Café//Bar" = before ++ ["/Café//Bar"] ∧
      covers "/Café" "/Café/" = true ∧ covers "/Café" bar = true ∧
      (covers "/Café/" "/Café" = true ∨ covers "/Café" "/Café/" = true) := by
  intro bar before
  have hmem : "/Café/" ∈ ancestry bar := by decide +kernel
  have hlist : ancestry bar = before ++ "/Café//Bar" :: [bar] := by decide +kernel
  have habove : covers "/Café" "/Café/" = true := by decide +kernel
  have hne : "/Café/" ≠ "" := by decide
  obtain ⟨hiff, -, -, hinitial, -, -, -, -, hchain⟩ := covers_chain_above bar "/Café/" "/Café"
  obtain ⟨-, -, -, -, -, -, -, htrans, -⟩ := covers_chain_above bar "/Café" "/Café/"
  have hcovers := (hiff hne).2 hmem
  have hcovers' := htrans habove hcovers
  exact ⟨hne, hmem, hcovers, hlist, hinitial _ _ _ hlist, habove, hcovers',
    hchain hcovers hcovers'⟩

end ResourceRouting.GroupPath
