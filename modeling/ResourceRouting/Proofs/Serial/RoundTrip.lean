import ResourceRouting.Proofs.Router.Subscriptions
import ResourceRouting.Proofs.Selection.Swapping
import ResourceRouting.Serial.Codec

/-!
# Serialized subscriptions are read back

A subscription is serialized field by field, and only the field of the selection does not come back
as it was: a selection is exchanged as its text (`Subscription.decode_encode`).

**Theorem (`serialized_fixed_point`).** What a text spells is rendered to a fixed point, and all
subscriptions in a roster have selections that were spelled by some text (`exists_text_of_find?`).
So a subscription comes back with the same handle, subscriber and event pattern and an equivalent
selection, and serialized again it is what it was.
-/

namespace ResourceRouting

open Serial

/-! ## Fields -/

theorem Serial.bind_ok {α β : Type} (a : α) (f : α → Decoded β) : (Except.ok a >>= f) = f a := rfl

namespace Handle

theorem ofString?_render (h : Handle) : ofString? h.render = some h := by
  have hlength : (Text.Hex.digits 32 h.bits.toNat).length = 32 := Text.Hex.length_digits ..
  have hdigits : digits? (Text.Hex.digits 32 h.bits.toNat) =
      some (Text.Hex.digits 32 h.bits.toNat) := by
    simp only [digits?, hlength]
  have hmod : h.bits.toNat % 16 ^ 32 = h.bits.toNat := Nat.mod_eq_of_lt h.bits.isLt
  rw [ofString?, render, String.toList_ofList, hdigits, Option.bind_some,
    Text.Hex.ofDigits?_digits, hmod, Option.map_some, BitVec.ofNat_toNat, BitVec.setWidth_eq]

theorem decode_encode (h : Handle) : decode h.encode = .ok h := by
  rw [decode, encode, text?, require, Serial.bind_ok, ofString, ofString?_render]
  rfl

end Handle

theorem EventPattern.decode_encode (p : EventPattern) : decode p.encode = .ok p := by
  obtain ⟨pattern, kind⟩ := p
  cases kind <;> rfl

theorem Selection.decode_encode (s : Selection) : decode s.encode = .ok s.reread := by
  rw [decode, encode, text?, require, Serial.bind_ok, ofString_render_eq_reread]
  rfl

/-- **A subscription comes back as it was, but for its selection, which is reread.** -/
theorem Subscription.decode_encode (s : Subscription) :
    decode s.encode = .ok { s with selection := s.selection.reread } := by
  simp [decode, encode, record?, require, field?, textField, text?, Serial.bind_ok,
    Handle.decode_encode, Selection.decode_encode, EventPattern.decode_encode]

/-! ## Where selections come from -/

namespace Router

variable {σ : Type} {r : Router σ} {q : Request} {k : Handle} {s : Subscription}

/-- What is found after a request was entered by the request or found before. -/
theorem entered_or_found_of_serve (h : (r.serve q).roster.find? k = some s) :
    q.entered? = some s ∨ r.roster.find? k = some s := by
  cases q with
  | subscribe k' x text event =>
    cases htext : Selection.ofString text with
    | error e =>
      rw [serve, run_subscribe_of_error htext] at h
      exact Or.inr h
    | ok read =>
      rw [serve, run_subscribe_of_ok htext] at h
      rw [Roster.find?_insert] at h
      split at h
      · exact Or.inl (Request.entered?_of_ok htext ▸ h)
      · exact Or.inr h
  | unsubscribe x k' =>
    refine Or.inr ?_
    have hremoved : (r.roster.remove x k').2.find? k = some s := h
    unfold Roster.remove at hremoved
    split at hremoved
    · exact hremoved
    · split at hremoved
      · rw [Roster.find?_erase] at hremoved
        exact (Option.ite_none_left_eq_some.1 hremoved).2
      · exact hremoved
  | unsubscribeAll x =>
    refine Or.inr ?_
    have hremoved : (r.roster.removeAll x).2.find? k = some s := h
    rw [Roster.find?_removeAll] at hremoved
    exact (Option.ite_none_left_eq_some.1 hremoved).2

/-- What is found after some requests was entered by one of them. -/
theorem exists_entered_of_serveAll {source : σ} {requests : List Request}
    (h : ((ofSource source).serveAll requests).roster.find? k = some s) :
    ∃ q ∈ requests, q.entered? = some s := by
  induction requests using List.reverseRecOn with
  | nil =>
    have hempty : Roster.empty.find? k = some s := h
    rw [Roster.find?_empty] at hempty
    cases hempty
  | append_singleton requests q ih =>
    rw [serveAll_concat] at h
    rcases entered_or_found_of_serve h with hentered | hfound
    · exact ⟨q, by simp, hentered⟩
    · obtain ⟨q', hq', hentered⟩ := ih hfound
      exact ⟨q', List.mem_append_left _ hq', hentered⟩

theorem exists_text_of_find? {source : σ} {requests : List Request}
    (h : ((ofSource source).serveAll requests).roster.find? k = some s) :
    ∃ text, Selection.ofString text = .ok s.selection := by
  obtain ⟨q, -, hentered⟩ := exists_entered_of_serveAll h
  cases q with
  | subscribe k' x text event =>
    cases htext : Selection.ofString text with
    | error e =>
      rw [Request.entered?_of_error htext] at hentered
      cases hentered
    | ok read =>
      rw [Request.entered?_of_ok htext] at hentered
      obtain rfl := Option.some.inj hentered
      exact ⟨text, htext⟩
  | unsubscribe x k' => cases hentered
  | unsubscribeAll x => cases hentered

/-- **Serialized selections are a fixed point.** What a text spells is rendered to a text that is
read back, up to swapped operands, as an equivalent selection with the same rendering. So after any
requests every subscription that is found is read back from its serialized form with its handle, its
subscriber, its event pattern and an equivalent selection, and is serialized as before. -/
theorem serialized_fixed_point :
    (∀ text s, Selection.ofString text = .ok s → ∃ t, Selection.ofString s.render = .ok t ∧
        t.render = s.render ∧ Selection.Swapped s t ∧ t.isEquivalent s = true) ∧
      ∀ (source : σ) (requests : List Request) k s,
        ((ofSource source).serveAll requests).roster.find? k = some s →
        ∃ back, Subscription.decode s.encode = .ok back ∧ back.handle = s.handle ∧
          back.subscriber = s.subscriber ∧ back.event = s.event ∧
          back.selection.isEquivalent s.selection = true ∧ back.encode = s.encode := by
  refine ⟨fun text s h => ?_, fun source requests k s h => ?_⟩
  · exact ⟨s.reread, Selection.ofString_render_of_binary (Selection.binary_of_ofString h)⟩
  · obtain ⟨text, htext⟩ := exists_text_of_find? h
    obtain ⟨-, hrender, -, hequivalent⟩ :=
      Selection.ofString_render_of_binary (Selection.binary_of_ofString htext)
    refine ⟨_, s.decode_encode, rfl, rfl, rfl, hequivalent, ?_⟩
    simp only [Subscription.encode, Selection.encode, hrender]

/-- Operands that are not in the order of their texts are swapped by the first round trip, and only
by the first. -/
theorem serialized_fixed_point_of_anna :
    let text := "type=\"b\"or not(type=\"a\" and id=*)"
    let requests : List Request := [.subscribe ⟨1⟩ "anna" text ⟨"state-", .leading⟩]
    let typeA : Selection := .check (.equals .type "a")
    let typeB : Selection := .check (.equals .type "b")
    let anyId : Selection := .check (.present .id)
    let s : Selection := .or [typeB, .not (.and [typeA, anyId])]
    let t : Selection := .or [.not (.and [anyId, typeA]), typeB]
    let annas : Subscription := ⟨⟨1⟩, "anna", s, ⟨"state-", .leading⟩⟩
    Selection.ofString text = .ok s ∧
      Selection.ofString s.render = .ok t ∧ t.render = s.render ∧ Selection.Swapped s t ∧
      ((ofSource Catalog.empty).serveAll requests).roster.find? ⟨1⟩ = some annas ∧
      ∃ back, Subscription.decode annas.encode = .ok back ∧ back.subscriber = "anna" ∧
        back.selection.isEquivalent s = true ∧ back.encode = annas.encode := by
  intro text requests typeA typeB anyId s t annas
  have htext : Selection.ofString text = .ok s := by decide +kernel
  have hinner : Text.sortedBy Selection.render [typeA, anyId] = [anyId, typeA] := by
    rw [Text.sortedBy_pair]
    decide +kernel
  have hnegation : (Selection.not (.and [typeA, anyId])).render =
      "( not ( id=* and type=\"a\" ) )" := by
    simp only [Selection.render_not, Selection.render_join, List.map_cons, List.map_nil,
      Selection.renderJoin, Text.sorted, Text.sortedBy_pair]
    decide +kernel
  have houter : Text.sortedBy Selection.render [typeB, .not (.and [typeA, anyId])] =
      [.not (.and [typeA, anyId]), typeB] := by
    rw [Text.sortedBy_pair, hnegation]
    decide +kernel
  have hreread : Selection.ofString s.render = .ok t := by
    rw [Selection.ofString_render_eq_reread, Selection.reread_join, houter, List.map_cons,
      Selection.reread_not, Selection.reread_join, hinner]
    rfl
  have hfound : ((ofSource Catalog.empty).serveAll requests).roster.find? ⟨1⟩ = some annas := by
    decide +kernel
  obtain ⟨hselection, hsubscription⟩ := serialized_fixed_point (σ := Catalog)
  obtain ⟨t', hread, hrender, hswapped, -⟩ := hselection text s htext
  obtain rfl : t = t' := Except.ok.inj (hreread.symm.trans hread)
  obtain ⟨back, hback, -, hsubscriber, -, hequivalent, hencode⟩ := hsubscription _ _ _ _ hfound
  exact ⟨htext, hread, hrender, hswapped, hfound, back, hback, hsubscriber, hequivalent, hencode⟩

end Router

end ResourceRouting
