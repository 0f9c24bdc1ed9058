import ResourceRouting.Subscription.Audience

/-!
# Who is in an audience

An audience is collected subscription by subscription, and what is done with one depends on those
before it: a subscriber that is in already is not matched again. The outcome does not show this. The
candidates are the subscriptions whose pattern fits the event, and the subscribers are those with a
subscription that wants it (`candidates_among`, `mem_among`). So the order in which subscriptions
are looked at does not matter (`among_perm`).
-/

namespace ResourceRouting

/-! ## Patterns -/

namespace EventPattern

/-- Whether a pattern stands for the name of an event. -/
def Fits (p : EventPattern) (event : String) : Prop :=
  match p.kind with
  | .exact => event = p.pattern
  | .leading => ∃ rest, event = p.pattern ++ rest

theorem covers_iff_fits (p : EventPattern) (event : String) :
    p.covers event = true ↔ p.Fits event := by
  unfold covers Fits
  cases p.kind with
  | exact => exact beq_iff_eq
  | leading =>
    simp only [List.isPrefixOf_iff_prefix]
    constructor
    · intro h
      obtain ⟨rest, hrest⟩ := h
      refine ⟨String.ofList rest, ?_⟩
      rw [← String.toList_inj, String.toList_append, String.toList_ofList, hrest]
    · intro h
      obtain ⟨rest, rfl⟩ := h
      rw [String.toList_append]
      exact List.prefix_append _ _

instance (p : EventPattern) (event : String) : Decidable (p.Fits event) :=
  decidable_of_iff _ (p.covers_iff_fits event)

end EventPattern

/-! ## Collecting -/

namespace Audience

variable {resource : Profile} {event : String} {subscriptions others : List Subscription}

theorem candidates_consider (found : Audience) (s : Subscription) :
    (consider resource event found s).candidates =
      found.candidates + if s.event.covers event then 1 else 0 := by
  unfold consider
  cases hcovers : s.event.covers event with
  | false => rfl
  | true =>
    simp only [Bool.not_true, Bool.false_eq_true, if_false, if_true]
    split <;> rfl

theorem mem_consider (found : Audience) (s : Subscription) (x : String) :
    x ∈ (consider resource event found s).subscribers ↔
      x ∈ found.subscribers ∨ (s.subscriber = x ∧ s.wants resource event = true) := by
  unfold consider Subscription.wants
  cases hcovers : s.event.covers event with
  | false => simp
  | true =>
    simp only [Bool.not_true, Bool.false_eq_true, if_false, Bool.true_and]
    split
    · -- Either nothing is wanted, or the subscriber is in already.
      rename_i hskip
      rw [Bool.or_eq_true, Std.ExtTreeSet.contains_iff_mem, Bool.not_eq_true'] at hskip
      refine ⟨Or.inl, fun h => h.elim id ?_⟩
      rintro ⟨rfl, hadmits⟩
      exact hskip.resolve_right (by simp [hadmits])
    · rename_i hskip
      rw [Bool.or_eq_true, not_or, Bool.not_eq_true', Bool.not_eq_false] at hskip
      simp [hskip.2, or_comm]

theorem candidates_foldl (found : Audience) (subscriptions : List Subscription) :
    (subscriptions.foldl (consider resource event) found).candidates =
      found.candidates + subscriptions.countP (·.event.covers event) := by
  induction subscriptions generalizing found with
  | nil => rfl
  | cons s subscriptions ih =>
    rw [List.foldl_cons, ih, candidates_consider, List.countP_cons]
    omega

theorem mem_foldl (found : Audience) (subscriptions : List Subscription) (x : String) :
    x ∈ (subscriptions.foldl (consider resource event) found).subscribers ↔
      x ∈ found.subscribers ∨
        ∃ s ∈ subscriptions, s.subscriber = x ∧ s.wants resource event = true := by
  induction subscriptions generalizing found with
  | nil => simp
  | cons s subscriptions ih =>
    simp only [List.foldl_cons, ih, mem_consider, or_assoc, List.mem_cons, exists_eq_or_imp]

/-- **The candidates are the subscriptions whose pattern covers the event.** -/
theorem candidates_among (subscriptions : List Subscription) (resource : Profile) (event : String) :
    (among subscriptions resource event).candidates =
      subscriptions.countP (·.event.covers event) := by
  rw [among, candidates_foldl, empty, Nat.zero_add]

/-- **The subscribers are those with a subscription that wants the event.** -/
theorem mem_among (subscriptions : List Subscription) (resource : Profile) (event x : String) :
    x ∈ (among subscriptions resource event).subscribers ↔
      ∃ s ∈ subscriptions, s.subscriber = x ∧ s.wants resource event = true := by
  rw [among, mem_foldl]
  simp [empty]

theorem size_consider_le {found : Audience} (h : found.subscribers.size ≤ found.candidates)
    (s : Subscription) : (consider resource event found s).subscribers.size ≤
      (consider resource event found s).candidates := by
  unfold consider
  split
  · exact h
  · split
    · exact Nat.le_succ_of_le h
    · have hinsert := found.subscribers.size_insert_le (k := s.subscriber)
      show (found.subscribers.insert s.subscriber).size ≤ found.candidates + 1
      omega

/-- **There are no more subscribers than candidates.** Each is brought in by one of them. -/
theorem size_among_le (subscriptions : List Subscription) (resource : Profile) (event : String) :
    (among subscriptions resource event).subscribers.size ≤
      (among subscriptions resource event).candidates := by
  have hfold : ∀ found : Audience, found.subscribers.size ≤ found.candidates →
      (subscriptions.foldl (consider resource event) found).subscribers.size ≤
        (subscriptions.foldl (consider resource event) found).candidates := by
    induction subscriptions with
    | nil => exact fun found h => h
    | cons s subscriptions ih => exact fun found h => ih _ (size_consider_le h s)
  exact hfold empty (Nat.le_refl 0)

theorem ext_of_mem {found found' : Audience} (hcandidates : found.candidates = found'.candidates)
    (hsubscribers : ∀ x, x ∈ found.subscribers ↔ x ∈ found'.subscribers) : found = found' := by
  cases found
  cases found'
  obtain rfl := hcandidates
  obtain rfl := StringSet.ext hsubscribers
  rfl

/-- **The order in which subscriptions are looked at does not matter.** -/
theorem among_perm (h : subscriptions.Perm others) (resource : Profile) (event : String) :
    among subscriptions resource event = among others resource event := by
  refine ext_of_mem ?_ fun x => ?_
  · rw [candidates_among, candidates_among, h.countP_eq]
  · rw [mem_among, mem_among]
    exact exists_congr fun s => and_congr_left' h.mem_iff

end Audience

end ResourceRouting
