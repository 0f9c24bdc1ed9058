import ResourceRouting.Subscription.Roster
import Mathlib.Data.List.Nodup

/-!
# The two sides of a roster

A roster keeps every subscription under its handle, and every handle among those of its subscriber.
To end one subscription changes both sides at its handle. To end all subscriptions of a subscriber
drops its handles at once and then every subscription under one of them. A listing passes over a
handle without a subscription, so it would not show that the two sides have come apart.

They do not (`Paired`): the handles of a subscriber are those under which a subscription of this
subscriber is found. Every operation keeps a roster paired, provided that a subscription is entered
under a handle that is not in use. In a paired roster

- a listing shows the subscriptions of the subscriber, each once (`Paired.find?_iff_listsOnce`);
- what becomes of the listings can be read off what is found under the handles, so both ways to end
  subscriptions keep just those that pass a test (`Paired.keepsOnly`).
-/

namespace ResourceRouting

namespace Roster

variable {r r' : Roster} {x y : String} {h k : Handle} {s t : Subscription}

/-! ## Finding a subscription -/

theorem find?_empty (h : Handle) : empty.find? h = none := Std.ExtTreeMap.getElem?_empty

theorem find?_insert (r : Roster) (s : Subscription) (h : Handle) :
    (r.insert s).find? h = if s.handle = h then some s else r.find? h := by
  show (r.byHandle.insert s.handle s)[h]? = _
  simp only [Std.ExtTreeMap.getElem?_insert, Std.LawfulEqCmp.compare_eq_iff_eq]
  rfl

theorem find?_erase (r : Roster) (s : Subscription) (h : Handle) :
    (r.erase s).find? h = if s.handle = h then none else r.find? h := by
  show (r.byHandle.erase s.handle)[h]? = _
  simp only [Std.ExtTreeMap.getElem?_erase, Std.LawfulEqCmp.compare_eq_iff_eq]
  rfl

theorem getElem?_foldl_erase (handles : List Handle) (m : Std.ExtTreeMap Handle Subscription)
    (h : Handle) :
    (handles.foldl (fun m k => m.erase k) m)[h]? = if h ∈ handles then none else m[h]? := by
  induction handles generalizing m with
  | nil => simp
  | cons k handles ih =>
    simp only [List.foldl_cons, ih, Std.ExtTreeMap.getElem?_erase,
      Std.LawfulEqCmp.compare_eq_iff_eq]
    by_cases hk : k = h
    · simp [hk]
    · simp [hk, Ne.symm hk]

theorem find?_removeAll (r : Roster) (x : String) (h : Handle) :
    (r.removeAll x).2.find? h = if h ∈ r.handlesOf x then none else r.find? h := by
  show ((r.handlesOf x).toList.foldl (fun m k => m.erase k) r.byHandle)[h]? = _
  simp only [getElem?_foldl_erase, Std.ExtTreeSet.mem_toList]
  rfl

theorem remove_of_owned (hs : r.find? h = some s) :
    r.remove s.subscriber h = (some s, r.erase s) := by
  simp [remove, hs]

theorem remove_of_not_owned (hx : ∀ s, r.find? h = some s → s.subscriber ≠ x) :
    r.remove x h = (none, r) := by
  unfold remove
  cases hs : r.find? h with
  | none => rfl
  | some s => exact if_neg (hx s hs)

/-! ## The handles of a subscriber -/

theorem handlesOf_empty (x : String) : empty.handlesOf x = ∅ := by
  show (∅ : Std.ExtTreeMap String HandleSet)[x]?.getD ∅ = ∅
  rw [Std.ExtTreeMap.getElem?_empty]
  rfl

theorem mem_handlesOf_insert (r : Roster) (s : Subscription) (x : String) (h : Handle) :
    h ∈ (r.insert s).handlesOf x ↔ (s.subscriber = x ∧ s.handle = h) ∨ h ∈ r.handlesOf x := by
  show h ∈ (r.bySubscriber.insert s.subscriber _)[x]?.getD ∅ ↔ _
  simp only [Std.ExtTreeMap.getElem?_insert, Std.LawfulEqCmp.compare_eq_iff_eq]
  by_cases hx : s.subscriber = x
  · subst hx
    simp [Std.ExtTreeSet.mem_insert]
  · simp [hx, handlesOf]

theorem mem_handlesOf_erase (r : Roster) (s : Subscription) (x : String) (h : Handle) :
    h ∈ (r.erase s).handlesOf x ↔ h ∈ r.handlesOf x ∧ ¬(s.subscriber = x ∧ s.handle = h) := by
  show h ∈ (r.bySubscriber.alter s.subscriber _)[x]?.getD ∅ ↔ _
  simp only [Std.ExtTreeMap.getElem?_alter, Std.LawfulEqCmp.compare_eq_iff_eq]
  by_cases hx : s.subscriber = x
  · subst hx
    cases hkept : r.bySubscriber[s.subscriber]? with
    | none => simp [handlesOf, hkept]
    | some handles =>
      simp [handlesOf, hkept, Std.ExtTreeSet.mem_erase, and_comm]
  · simp [hx, handlesOf]

theorem handlesOf_removeAll (r : Roster) (x y : String) :
    (r.removeAll x).2.handlesOf y = if x = y then ∅ else r.handlesOf y := by
  show (r.bySubscriber.erase x)[y]?.getD ∅ = _
  simp only [Std.ExtTreeMap.getElem?_erase, Std.LawfulEqCmp.compare_eq_iff_eq]
  split <;> rfl

/-! ## Paired rosters -/

/-- Both sides of a roster say the same. -/
structure Paired (r : Roster) : Prop where
  handle_eq {h : Handle} {s : Subscription} : r.find? h = some s → s.handle = h
  mem_handlesOf {h : Handle} {x : String} :
    h ∈ r.handlesOf x ↔ ∃ s, r.find? h = some s ∧ s.subscriber = x

/-- A subscription is listed once for its subscriber, and none with its handle for another. -/
def ListsOnce (r : Roster) (s : Subscription) : Prop :=
  (r.ofSubscriber s.subscriber).count s = 1 ∧
    ∀ x, x ≠ s.subscriber → ∀ t ∈ r.ofSubscriber x, t.handle ≠ s.handle

/-- A roster has become another one by losing the subscriptions that fail a test. -/
structure KeepsOnly (r : Roster) (test : Subscription → Bool) (r' : Roster) : Prop where
  find? (h : Handle) : r'.find? h = (r.find? h).filter test
  ofSubscriber (x : String) : r'.ofSubscriber x = (r.ofSubscriber x).filter test

theorem paired_empty : empty.Paired where
  handle_eq hs := by simp [find?_empty] at hs
  mem_handlesOf := by simp [find?_empty, handlesOf_empty]

namespace Paired

theorem insert (hr : r.Paired) (hfree : r.find? s.handle = none) : (r.insert s).Paired where
  handle_eq {h t} ht := by
    rw [find?_insert] at ht
    split at ht
    · obtain rfl := Option.some.inj ht
      assumption
    · exact hr.handle_eq ht
  mem_handlesOf {h x} := by
    rw [mem_handlesOf_insert, find?_insert, hr.mem_handlesOf]
    by_cases hh : s.handle = h
    · subst hh
      simp [hfree]
    · simp [hh]

theorem erase (hr : r.Paired) (hs : r.find? s.handle = some s) : (r.erase s).Paired where
  handle_eq {h t} ht := by
    rw [find?_erase] at ht
    split at ht
    · cases ht
    · exact hr.handle_eq ht
  mem_handlesOf {h x} := by
    rw [mem_handlesOf_erase, find?_erase, hr.mem_handlesOf]
    by_cases hh : s.handle = h
    · subst hh
      simp [hs]
    · simp [hh]

theorem find?_removeAll (hr : r.Paired) (x : String) (h : Handle) :
    (r.removeAll x).2.find? h = (r.find? h).filter (·.subscriber ≠ x) := by
  simp only [Roster.find?_removeAll, hr.mem_handlesOf]
  cases r.find? h with
  | none => simp
  | some s => by_cases hx : s.subscriber = x <;> simp [hx, Option.filter_some]

theorem removeAll (hr : r.Paired) (x : String) : (r.removeAll x).2.Paired where
  handle_eq {h s} hs := by
    rw [hr.find?_removeAll, Option.filter_eq_some_iff] at hs
    exact hr.handle_eq hs.1
  mem_handlesOf {h y} := by
    rw [handlesOf_removeAll, hr.find?_removeAll]
    split
    · subst y
      simp
    · rename_i hxy
      rw [hr.mem_handlesOf]
      refine exists_congr fun s => and_congr_left fun hs => ?_
      subst hs
      simp [Ne.symm hxy]

/-! ## Listings -/

theorem mem_ofSubscriber (hr : r.Paired) :
    s ∈ r.ofSubscriber x ↔ r.find? s.handle = some s ∧ s.subscriber = x := by
  rw [ofSubscriber, List.mem_filterMap]
  simp only [Std.ExtTreeSet.mem_toList, hr.mem_handlesOf]
  constructor
  · intro hlisted
    obtain ⟨h, ⟨t, ht, hx⟩, hs⟩ := hlisted
    obtain rfl : t = s := Option.some.inj (ht.symm.trans hs)
    obtain rfl := hr.handle_eq ht
    exact ⟨ht, hx⟩
  · intro hfound
    exact ⟨s.handle, ⟨s, hfound⟩, hfound.1⟩

/-- A listing shows one subscription for every handle of the subscriber, in their order. -/
theorem map_handle_ofSubscriber (hr : r.Paired) (x : String) :
    (r.ofSubscriber x).map (·.handle) = (r.handlesOf x).toList := by
  rw [ofSubscriber, List.map_filterMap]
  refine (List.filterMap_congr fun h hh => ?_).trans List.filterMap_some
  obtain ⟨s, hs, -⟩ := hr.mem_handlesOf.1 (Std.ExtTreeSet.mem_toList.1 hh)
  rw [hs, Option.map_some, hr.handle_eq hs]

theorem nodup_ofSubscriber (hr : r.Paired) (x : String) : (r.ofSubscriber x).Nodup := by
  have hhandles : ((r.ofSubscriber x).map (·.handle)).Nodup := by
    rw [hr.map_handle_ofSubscriber]
    exact Std.ExtTreeMap.nodup_keys
  exact hhandles.of_map _

/-- **The subscription under a handle is the one with that handle that is listed once.** -/
theorem find?_iff_listsOnce (hr : r.Paired) :
    r.find? h = some s ↔ s.handle = h ∧ r.ListsOnce s := by
  constructor
  · intro hs
    obtain rfl := hr.handle_eq hs
    refine ⟨rfl, List.count_eq_one_of_mem (hr.nodup_ofSubscriber _) ?_, fun x hx t ht heq => ?_⟩
    · exact hr.mem_ofSubscriber.2 ⟨hs, rfl⟩
    · obtain ⟨htfound, rfl⟩ := hr.mem_ofSubscriber.1 ht
      rw [heq, hs] at htfound
      exact hx (congrArg Subscription.subscriber (Option.some.inj htfound)).symm
  · rintro ⟨rfl, hcount, -⟩
    have hmem : s ∈ r.ofSubscriber s.subscriber := List.count_pos_iff.1 (by omega)
    exact (hr.mem_ofSubscriber.1 hmem).1

/-! ## Ending subscriptions -/

theorem handlesOf_eq_filter (hr : r.Paired) (hr' : r'.Paired) {test : Subscription → Bool}
    (hfind : ∀ h, r'.find? h = (r.find? h).filter test) (x : String) :
    r'.handlesOf x = (r.handlesOf x).filter fun h => (r.find? h).any test := by
  refine Std.ExtTreeSet.ext_mem fun h => ?_
  rw [Std.ExtTreeSet.mem_filter, hr'.mem_handlesOf, hfind]
  simp only [Option.filter_eq_some_iff, Std.ExtTreeSet.get_eq, exists_prop, hr.mem_handlesOf]
  constructor
  · intro hkept
    obtain ⟨s, ⟨hs, htest⟩, hx⟩ := hkept
    exact ⟨⟨s, hs, hx⟩, by simp [hs, htest]⟩
  · intro hkept
    obtain ⟨⟨s, hs, hx⟩, htest⟩ := hkept
    exact ⟨s, ⟨hs, by simpa [hs] using htest⟩, hx⟩

theorem keepsOnly (hr : r.Paired) (hr' : r'.Paired) {test : Subscription → Bool}
    (hfind : ∀ h, r'.find? h = (r.find? h).filter test) : r.KeepsOnly test r' where
  find? := hfind
  ofSubscriber x := by
    rw [Roster.ofSubscriber, Roster.ofSubscriber, hr.handlesOf_eq_filter hr' hfind,
      Std.ExtTreeSet.toList_filter, List.filterMap_filter, List.filter_filterMap]
    refine List.filterMap_congr fun h _ => ?_
    rw [hfind]
    cases hs : r.find? h with
    | none => simp
    | some s => by_cases htest : test s = true <;> simp [htest, Option.filter_some]

theorem keepsOnly_erase (hr : r.Paired) (hs : r.find? s.handle = some s) :
    r.KeepsOnly (·.handle ≠ s.handle) (r.erase s) := by
  refine hr.keepsOnly (hr.erase hs) fun h => ?_
  rw [find?_erase]
  cases ht : r.find? h with
  | none => simp
  | some t =>
    obtain rfl := hr.handle_eq ht
    by_cases hts : s.handle = t.handle
    · simp [hts, Option.filter_some]
    · simp [hts, Ne.symm hts, Option.filter_some]

theorem keepsOnly_removeAll (hr : r.Paired) (x : String) :
    r.KeepsOnly (·.subscriber ≠ x) (r.removeAll x).2 :=
  hr.keepsOnly (hr.removeAll x) (hr.find?_removeAll x)

theorem ofSubscriber_removeAll (hr : r.Paired) (x y : String) :
    (r.removeAll x).2.ofSubscriber y = if y = x then [] else r.ofSubscriber y := by
  rw [(hr.keepsOnly_removeAll x).ofSubscriber]
  split
  · subst y
    refine List.filter_eq_nil_iff.2 fun s hs => ?_
    simp [(hr.mem_ofSubscriber.1 hs).2]
  · rename_i hy
    refine List.filter_eq_self.2 fun s hs => ?_
    simp [(hr.mem_ofSubscriber.1 hs).2, hy]

theorem remove (hr : r.Paired) (x : String) (h : Handle) : (r.remove x h).2.Paired := by
  by_cases howned : ∃ s, r.find? h = some s ∧ s.subscriber = x
  · obtain ⟨s, hs, rfl⟩ := howned
    obtain rfl := hr.handle_eq hs
    rw [remove_of_owned hs]
    exact hr.erase hs
  · rw [remove_of_not_owned fun s hs hx => howned ⟨s, hs, hx⟩]
    exact hr

theorem find?_remove_eq_some (hr : r.Paired) (x : String) (h : Handle) :
    (r.remove x h).2.find? k = some s ↔
      r.find? k = some s ∧ ¬(s.subscriber = x ∧ s.handle = h) := by
  by_cases howned : ∃ t, r.find? h = some t ∧ t.subscriber = x
  · obtain ⟨t, ht, rfl⟩ := howned
    obtain rfl := hr.handle_eq ht
    rw [remove_of_owned ht, (hr.keepsOnly_erase ht).find?, Option.filter_eq_some_iff]
    refine and_congr_right fun hs => ?_
    -- Under the handle of `t` there is nothing but `t`.
    obtain rfl := hr.handle_eq hs
    have hsame : s.handle = t.handle → s = t := fun heq =>
      Option.some.inj (hs.symm.trans (heq ▸ ht))
    rw [decide_eq_true_eq]
    exact not_congr ⟨fun heq => ⟨congrArg _ (hsame heq), heq⟩, And.right⟩
  · rw [remove_of_not_owned fun t ht hx => howned ⟨t, ht, hx⟩]
    refine (and_iff_left_of_imp fun hs hsame => ?_).symm
    obtain ⟨hx, rfl⟩ := hsame
    obtain rfl := hr.handle_eq hs
    exact howned ⟨s, hs, hx⟩

end Paired

end Roster

end ResourceRouting
