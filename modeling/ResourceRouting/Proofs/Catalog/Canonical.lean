import ResourceRouting.Proofs.Catalog.Attributes

/-!
# A catalog is what it says of its resources

Of all that a catalog holds, the attributes of the resources and the known groups determine the
rest. Whatever the way to get there, no trace of it is left in the postings.

**Theorem (`eq_of_attributes`).** Catalogs in which all resources have the same attributes and the
same groups are known are equal, if they are consistent and tidy, as all are that a history leads
to.

Two invariants carry this. The postings mirror the entries (`Catalog.Consistent`), so they list the
same ids under every value. And no value is kept for an empty set of ids (`Catalog.Tidy`), so there
is only one way to hold these lists (`Postings.Mirrors.unique`).
-/

namespace ResourceRouting

theorem Postings.Mirrors.unique {p q : Postings} {entries : Std.ExtTreeMap String Attributes}
    {values : Attributes → StringSet} (hp : p.Mirrors entries values)
    (hq : q.Mirrors entries values) (hptidy : p.Tidy) (hqtidy : q.Tidy) : p = q :=
  ext_of_tidy hptidy hqtidy fun value id => (hp value id).trans (hq value id).symm

namespace Catalog

variable {c : Catalog}

/-! ## Tidiness -/

/-- No postings keep a value with an empty set of ids. -/
structure Tidy (c : Catalog) : Prop where
  byType : c.byType.Tidy
  byInterface : c.byInterface.Tidy
  byGroup : c.byGroup.Tidy

theorem tidy_empty : Tidy empty :=
  ⟨Postings.tidy_empty, Postings.tidy_empty, Postings.tidy_empty⟩

theorem Tidy.setGroups (h : c.Tidy) (id : String) (groups : StringSet) :
    (c.setGroups id groups).Tidy := by
  unfold Catalog.setGroups
  split
  · exact h
  · exact ⟨h.byType, h.byInterface,
      Postings.tidy_addAll (Postings.tidy_dropAll h.byGroup _ id) _ id⟩

theorem Tidy.withKnownGroups (h : c.Tidy) (knownGroups : StringSet) :
    Tidy { c with knownGroups } :=
  ⟨h.byType, h.byInterface, h.byGroup⟩

theorem Tidy.withdraw (h : c.Tidy) (id : String) (a : Attributes) : (c.withdraw id a).Tidy :=
  ⟨Postings.tidy_drop h.byType a.type id, Postings.tidy_dropAll h.byInterface a.interfaces id,
    h.byGroup⟩

theorem Tidy.register (h : c.Tidy) (r : Resource) : (c.register r).2.Tidy := by
  -- What is entered into may have been withdrawn from before, which keeps it tidy.
  have hentered : ∀ c : Catalog, c.Tidy → ∀ entries, Tidy { c with
      entries := entries
      byType := c.byType.add r.type r.id
      byInterface := c.byInterface.addAll r.interfaces r.id } := fun c h entries =>
    ⟨Postings.tidy_add h.byType r.type r.id, Postings.tidy_addAll h.byInterface r.interfaces r.id,
      h.byGroup⟩
  unfold Catalog.register
  cases c.entries[r.id]? with
  | none => exact hentered c h _
  | some a => exact hentered _ (h.withdraw r.id a) _

theorem Tidy.unregister (h : c.Tidy) (id : String) : (c.unregister id).2.Tidy := by
  unfold Catalog.unregister
  split
  · exact h
  · rename_i a _
    have hleft := (h.setGroups id ∅).withdraw id a
    exact ⟨hleft.byType, hleft.byInterface, hleft.byGroup⟩

theorem Tidy.after (h : c.Tidy) (e : Edit) : (c.after e).Tidy :=
  after_keeps (fun _ id groups h => h.setGroups id groups)
    (fun _ known h => h.withKnownGroups known) (fun _ r h => h.register r)
    (fun _ id h => h.unregister id) h e

theorem tidy_replay (history : List Edit) : (replay history).Tidy :=
  replay_keeps tidy_empty (fun _ e h => h.after e) history

/-! ## Extensionality -/

/-- **Consistent and tidy catalogs with the same attributes and known groups are equal.** -/
theorem eq_of_attributes {c c' : Catalog} (hc : c.Consistent) (hc' : c'.Consistent) (ht : c.Tidy)
    (ht' : c'.Tidy) (hattributes : ∀ x, c.attributes? x = c'.attributes? x)
    (hknown : c.knownGroups = c'.knownGroups) : c = c' := by
  have hentries : c.entries = c'.entries := Std.ExtTreeMap.ext_getElem? fun x => hattributes x
  have htype : c.byType = c'.byType :=
    hc.byType.unique (hentries ▸ hc'.byType) ht.byType ht'.byType
  have hinterface : c.byInterface = c'.byInterface :=
    hc.byInterface.unique (hentries ▸ hc'.byInterface) ht.byInterface ht'.byInterface
  have hgroup : c.byGroup = c'.byGroup :=
    hc.byGroup.unique (hentries ▸ hc'.byGroup) ht.byGroup ht'.byGroup
  cases c
  cases c'
  simp_all

end Catalog

end ResourceRouting
