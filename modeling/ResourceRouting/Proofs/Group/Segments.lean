import ResourceRouting.Proofs.Group.Path

/-!
# Paths and their segments

A path is **well-formed** (`GroupPath.WellFormed`) when it is made of segments, joined by
separators: none is empty and none has a separator in it. Such a path and the list of its segments
are two views of the same thing. The segments are got back from the path (`segments_ofSegments`). A
path lies in another when its segments go on from those of the other, and they go on by the segments
below it (`WellFormed.segments_eq_append_iff`). What lies above a well-formed path is well-formed,
too (`WellFormed.of_mem_ancestry`).

Underneath is a law of all paths. The segments of a covered path are those of the covering one and
those below it (`segments_of_covers`), because a cut at a separator is a cut between segments.
-/

namespace ResourceRouting.GroupPath

variable {above path : String} {names below : List String}

/-- What can stand between separators: something without a separator in it. -/
def IsSegment (name : String) : Prop := name ≠ "" ∧ separator ∉ name.toList

instance (name : String) : Decidable (IsSegment name) := inferInstanceAs (Decidable (_ ∧ _))

/-- The path that leads through some segments. -/
def ofSegments (names : List String) : String :=
  String.intercalate (String.singleton separator) names

/-- Whether a path is made of segments. The root is, of none. -/
def WellFormed (path : String) : Prop :=
  ∃ names, (∀ name ∈ names, IsSegment name) ∧ ofSegments names = path

/-! ## Cuts at separators -/

theorem segments_nil : segments [] = [] := rfl

theorem splitOn_append_separator (text rest : List Char) :
    (text ++ separator :: rest).splitOn separator =
      text.splitOn separator ++ rest.splitOn separator :=
  List.splitOnP_append_cons text rest (beq_self_eq_true separator)

theorem segments_append_separator (text rest : List Char) :
    segments (text ++ separator :: rest) = segments text ++ segments rest := by
  rw [segments, splitOn_append_separator, List.filter_append, List.map_append]
  rfl

theorem segmentsBelow_root (path : String) : segmentsBelow "" path = segments path.toList := by
  rw [segmentsBelow, String.length_empty, List.drop_zero]

/-- **The segments of a covered path are those of the covering one and those below it.** -/
theorem segments_of_covers (h : covers above path = true) :
    segments path.toList = segments above.toList ++ segmentsBelow above path := by
  rcases covers_iff.1 h with rfl | rfl | ⟨rest, hrest⟩
  · rw [segmentsBelow_root]
    rfl
  · rw [segmentsBelow, ← String.length_toList, List.drop_length, segments_nil, List.append_nil]
  · rw [segmentsBelow, hrest, ← String.length_toList, List.drop_left, segments_append_separator]
    -- What follows starts with the separator, so there is an empty part before it.
    rw [← List.nil_append (separator :: rest), segments_append_separator, segments_nil,
      List.nil_append]

/-! ## Joined segments -/

theorem toList_ofSegments (names : List String) :
    (ofSegments names).toList = [separator].intercalate (names.map String.toList) := by
  rw [ofSegments, String.toList_intercalate, String.toList_singleton]

theorem ofSegments_append (hnames : names ≠ []) (hbelow : below ≠ []) :
    (ofSegments (names ++ below)).toList =
      (ofSegments names).toList ++ separator :: (ofSegments below).toList := by
  rw [ofSegments, String.intercalate_append_of_ne_nil hnames hbelow, String.toList_append,
    String.toList_append, String.toList_singleton, List.append_assoc]
  rfl

theorem splitOn_ofSegments (hnames : names ≠ []) (h : ∀ name ∈ names, separator ∉ name.toList) :
    (ofSegments names).toList.splitOn separator = names.map String.toList := by
  rw [toList_ofSegments]
  refine List.splitOn_intercalate separator ?_ (by simpa using hnames)
  simpa using h

/-- **Segments are got back from the path through them.** -/
theorem segments_ofSegments (h : ∀ name ∈ names, IsSegment name) :
    segments (ofSegments names).toList = names := by
  by_cases hnames : names = []
  · subst hnames
    rfl
  · have hkept : ∀ part ∈ names.map String.toList, (!part.isEmpty) = true := by
      intro part hpart
      obtain ⟨name, hname, rfl⟩ := List.mem_map.1 hpart
      simpa using (h name hname).1
    rw [segments, splitOn_ofSegments hnames fun name hname => (h name hname).2,
      List.filter_eq_self.2 hkept, List.map_map]
    simp [Function.comp_def]

theorem ofSegments_ne_root (h : ∀ name ∈ names, IsSegment name) (hnames : names ≠ []) :
    ofSegments names ≠ "" := by
  intro hroot
  have hsegments := segments_ofSegments h
  rw [hroot] at hsegments
  exact hnames hsegments.symm

theorem covers_ofSegments_append (names below : List String) :
    covers (ofSegments names) (ofSegments (names ++ below)) = true := by
  rw [covers_iff]
  by_cases hnames : names = []
  · subst hnames
    exact Or.inl rfl
  · by_cases hbelow : below = []
    · subst hbelow
      rw [List.append_nil]
      exact Or.inr (Or.inl rfl)
    · exact Or.inr (Or.inr ⟨_, ofSegments_append hnames hbelow⟩)

/-! ## Well-formed paths -/

namespace WellFormed

theorem ofSegments_segments (h : WellFormed path) : ofSegments (segments path.toList) = path := by
  obtain ⟨names, hnames, rfl⟩ := h
  rw [segments_ofSegments hnames]

theorem isSegment (h : WellFormed path) : ∀ name ∈ segments path.toList, IsSegment name := by
  obtain ⟨names, hnames, rfl⟩ := h
  rwa [segments_ofSegments hnames]

theorem segments_ne_nil (h : WellFormed path) (hpath : path ≠ "") : segments path.toList ≠ [] := by
  intro hnil
  have hjoined := h.ofSegments_segments
  rw [hnil] at hjoined
  exact hpath hjoined.symm

theorem covers_iff_prefix (habove : WellFormed above) (hpath : WellFormed path) :
    covers above path = true ↔ segments above.toList <+: segments path.toList := by
  constructor
  · intro h
    exact ⟨_, (segments_of_covers h).symm⟩
  · rintro ⟨below, hbelow⟩
    rw [← habove.ofSegments_segments, ← hpath.ofSegments_segments, ← hbelow]
    exact covers_ofSegments_append _ below

/-- A well-formed path lies in another, with some segments below it, when its segments are those of
the other and these. -/
theorem segments_eq_append_iff (habove : WellFormed above) (hpath : WellFormed path) :
    segments path.toList = segments above.toList ++ below ↔
      covers above path = true ∧ segmentsBelow above path = below := by
  constructor
  · intro hsegments
    have hcovers := (habove.covers_iff_prefix hpath).2 ⟨below, hsegments.symm⟩
    rw [segments_of_covers hcovers] at hsegments
    exact ⟨hcovers, List.append_cancel_left hsegments⟩
  · rintro ⟨hcovers, rfl⟩
    exact segments_of_covers hcovers

theorem append_prefix_iff (habove : WellFormed above) (hpath : WellFormed path) :
    segments above.toList ++ below <+: segments path.toList ↔
      covers above path = true ∧ below <+: segmentsBelow above path := by
  constructor
  · rintro ⟨rest, hrest⟩
    rw [List.append_assoc] at hrest
    obtain ⟨hcovers, hbelow⟩ := (habove.segments_eq_append_iff hpath).1 hrest.symm
    exact ⟨hcovers, rest, hbelow.symm⟩
  · rintro ⟨hcovers, hbelow⟩
    rwa [segments_of_covers hcovers, List.prefix_append_right_inj]

/-- The names that a well-formed path leads through are its segments, if they have no separators. -/
theorem isSegment_of_ofSegments (h : WellFormed (ofSegments names)) (hpath : ofSegments names ≠ "")
    (hnames : ∀ name ∈ names, separator ∉ name.toList) : ∀ name ∈ names, IsSegment name := by
  obtain ⟨names', hsegments, heq⟩ := h
  have hne : names ≠ [] := by
    rintro rfl
    exact hpath rfl
  have hne' : names' ≠ [] := by
    rintro rfl
    exact hpath heq.symm
  have hparts : names'.map String.toList = names.map String.toList := by
    rw [← splitOn_ofSegments hne hnames, ← heq,
      splitOn_ofSegments hne' fun name hname => (hsegments name hname).2]
  have hsame : names' = names := by
    have hback := congrArg (List.map String.ofList) hparts
    simpa [Function.comp_def] using hback
  rwa [hsame] at hsegments

/-- What is above a well-formed path is well-formed, and not the root unless the path is. -/
theorem of_mem_ancestry (h : WellFormed path) (hpath : path ≠ "") (habove : above ∈ ancestry path) :
    WellFormed above ∧ above ≠ "" := by
  rcases mem_ancestry_iff.1 habove with rfl | ⟨rest, hrest⟩
  · exact ⟨h, hpath⟩
  · obtain ⟨names, hnames, rfl⟩ := h
    have hne : names ≠ [] := by
      rintro rfl
      exact hpath rfl
    have hparts : names.map String.toList =
        above.toList.splitOn separator ++ rest.splitOn separator := by
      rw [← splitOn_append_separator, ← hrest, splitOn_ofSegments hne fun name hname =>
        (hnames name hname).2]
    -- The first parts are those of the path above, so it leads through the first segments.
    obtain ⟨first, last, rfl, hfirst, -⟩ := List.map_eq_append_iff.1 hparts
    have habove : ofSegments first = above := by
      rw [← String.toList_inj, toList_ofSegments, hfirst, List.intercalate_splitOn]
    have hsegments : ∀ name ∈ first, IsSegment name := fun name hname =>
      hnames name (List.mem_append_left last hname)
    refine ⟨⟨first, hsegments, habove⟩, ?_⟩
    rw [← habove]
    refine ofSegments_ne_root hsegments ?_
    rintro rfl
    exact List.splitOnP_ne_nil (· == separator) _ hfirst.symm

end WellFormed

end ResourceRouting.GroupPath
