import Mathlib.Algebra.Group.Nat.Defs
import ResourceRouting.Text.Quoted

/-!
# The items of a literal

What stands between the quotes of a literal, described without a reader.

**Items** (`Item`). Each item stands for one character of the value: a character that stands for
itself, an escape of one letter, an escape of four digits, or two of these for the halves of a
surrogate pair. The letters in four digits are of one case (`FourDigits`). Items one after the other
spell a value (`Spelled`).

The decoder takes each item in one step (`readItem?_of_item`), so it reads what is spelled
(`readItems?_of_spelled`). What is written in place of a character is an item of it (`item_escape`):
an escape of one letter, an escape of four digits for the other control characters, or the character
itself.
-/

namespace ResourceRouting.Text

/-! ## Digits -/

namespace Hex

theorem value?_digit (n : Nat) : value? (digit n) = some (n % 16) := by
  have hall : ∀ m, m < 16 → value? (lowerDigits.getD m '0') = some m := by decide
  exact hall (n % 16) (Nat.mod_lt n (by decide))

theorem digit_mem (n : Nat) : digit n ∈ lowerDigits := by
  have hall : ∀ m, m < 16 → lowerDigits.getD m '0' ∈ lowerDigits := by decide
  exact hall (n % 16) (Nat.mod_lt n (by decide))

theorem ofDigits?_digits (width n : Nat) : ofDigits? (digits width n) = some (n % 16 ^ width) := by
  induction width generalizing n with
  | zero => rw [Nat.pow_zero, Nat.mod_one]; rfl
  | succ width ih =>
    have hlast := ih (n / 16)
    unfold ofDigits? at hlast
    rw [digits, ofDigits?, List.foldlM_append, hlast]
    have hsplit : n % 16 ^ (width + 1) = 16 * (n / 16 % 16 ^ width) + n % 16 := by
      rw [Nat.pow_succ', Nat.mod_mul, Nat.add_comm]
    simp [value?_digit, hsplit]

end Hex

namespace Quoted

/-- Four digits, with letters of one case only, and the code unit that they spell. -/
inductive FourDigits : List Char → Nat → Prop
  | mk {table : List Char} {a b c d : Char} {w x y z : Nat}
      (htable : table = Hex.lowerDigits ∨ table = Hex.upperDigits) (ha : table[w]? = some a)
      (hb : table[x]? = some b) (hc : table[y]? = some c) (hd : table[z]? = some d) :
      FourDigits [a, b, c, d] (16 * (16 * (16 * w + x) + y) + z)

theorem value?_of_getElem? {table : List Char}
    (htable : table = Hex.lowerDigits ∨ table = Hex.upperDigits) {w : Nat} {a : Char}
    (h : table[w]? = some a) : w < 16 ∧ Hex.value? a = some w := by
  have hlower : ∀ w < 16, Hex.lowerDigits[w]?.bind Hex.value? = some w := by decide
  have hupper : ∀ w < 16, Hex.upperDigits[w]?.bind Hex.value? = some w := by decide
  obtain ⟨hlength, -⟩ := List.getElem?_eq_some_iff.1 h
  rcases htable with rfl | rfl
  · refine ⟨hlength, ?_⟩
    rw [← hlower w hlength, h]
    rfl
  · refine ⟨hlength, ?_⟩
    rw [← hupper w hlength, h]
    rfl

namespace FourDigits

variable {digits : List Char} {n : Nat}

theorem lt (h : FourDigits digits n) : n < 0x10000 := by
  cases h with
  | mk htable ha hb hc hd =>
    have hw := (value?_of_getElem? htable ha).1
    have hx := (value?_of_getElem? htable hb).1
    have hy := (value?_of_getElem? htable hc).1
    have hz := (value?_of_getElem? htable hd).1
    omega

theorem ofDigits? (h : FourDigits digits n) : Hex.ofDigits? digits = some n := by
  cases h with
  | mk htable ha hb hc hd =>
    simp [Hex.ofDigits?, (value?_of_getElem? htable ha).2, (value?_of_getElem? htable hb).2,
      (value?_of_getElem? htable hc).2, (value?_of_getElem? htable hd).2]

/-- **Any four digits of one case spell a code unit.** -/
theorem exists_iff : (∃ n, FourDigits digits n) ↔ digits.length = 4 ∧
    ((∀ d ∈ digits, d ∈ Hex.upperDigits) ∨ ∀ d ∈ digits, d ∈ Hex.lowerDigits) := by
  constructor
  · rintro ⟨n, h⟩
    cases h with
    | @mk table a b c d _ _ _ _ htable ha hb hc hd =>
      have hall : ∀ digit ∈ [a, b, c, d], digit ∈ table := by
        simp [List.mem_of_getElem? ha, List.mem_of_getElem? hb, List.mem_of_getElem? hc,
          List.mem_of_getElem? hd]
      rcases htable with rfl | rfl
      · exact ⟨rfl, .inr hall⟩
      · exact ⟨rfl, .inl hall⟩
  · rintro ⟨hlength, hcase⟩
    obtain ⟨table, htable, hall⟩ : ∃ table,
        (table = Hex.lowerDigits ∨ table = Hex.upperDigits) ∧ ∀ d ∈ digits, d ∈ table := by
      rcases hcase with hall | hall
      · exact ⟨_, .inr rfl, hall⟩
      · exact ⟨_, .inl rfl, hall⟩
    match digits, hlength with
    | [a, b, c, d], _ =>
      simp only [List.forall_mem_cons] at hall
      obtain ⟨ha, hb, hc, hd, -⟩ := hall
      obtain ⟨w, ha⟩ := List.getElem?_of_mem ha
      obtain ⟨x, hb⟩ := List.getElem?_of_mem hb
      obtain ⟨y, hc⟩ := List.getElem?_of_mem hc
      obtain ⟨z, hd⟩ := List.getElem?_of_mem hd
      exact ⟨_, .mk htable ha hb hc hd⟩

theorem of_lt (h : n < 0x10000) : FourDigits (Hex.digits 4 n) n := by
  have hlower : ∀ d ∈ Hex.digits 4 n, d ∈ Hex.lowerDigits := by
    simp [Hex.digits, Hex.digit_mem]
  have hn := Hex.ofDigits?_digits 4 n
  rw [Nat.mod_eq_of_lt (by omega)] at hn
  obtain ⟨n', h'⟩ := exists_iff.2 ⟨Hex.length_digits 4 n, .inr hlower⟩
  obtain rfl : n' = n := Option.some.inj (h'.ofDigits?.symm.trans hn)
  exact h'

end FourDigits

/-! ## Items -/

/-- The letters that may follow a backslash, each with the character that it stands for. -/
def letters : List (Char × Char) :=
  [('"', '"'), ('\\', '\\'), ('/', '/'), ('b', '\x08'), ('f', '\x0c'), ('n', '\n'), ('r', '\r'),
    ('t', '\t')]

/-- An item, and the character that it stands for. The code point of a character is no surrogate
(`not_surrogate`), so there is no item that is half a pair. -/
inductive Item : List Char → Char → Prop
  | plain {c : Char} (hquote : c ≠ '"') (hslash : c ≠ '\\') (hcontrol : 0x20 ≤ c.toNat) : Item [c] c
  | letter {l c : Char} (h : (l, c) ∈ letters) : Item ['\\', l] c
  | unit {digits : List Char} {c : Char} (h : FourDigits digits c.toNat) :
      Item ('\\' :: 'u' :: digits) c
  | pair {digits digits' : List Char} {high low : Nat} {c : Char}
      (hdigits : FourDigits digits high) (hdigits' : FourDigits digits' low)
      (hhigh : 0xD800 ≤ high ∧ high < 0xDC00) (hlow : 0xDC00 ≤ low ∧ low < 0xE000)
      (hc : c.toNat = 0x10000 + (high - 0xD800) * 0x400 + (low - 0xDC00)) :
      Item ('\\' :: 'u' :: digits ++ '\\' :: 'u' :: digits') c

/-- Items one after the other, and the value that they stand for. -/
inductive Spelled : List Char → List Char → Prop
  | nil : Spelled [] []
  | cons {item body value : List Char} {c : Char} (first : Item item c)
      (others : Spelled body value) : Spelled (item ++ body) (c :: value)

theorem not_surrogate (c : Char) : c.toNat < 0xD800 ∨ 0xE000 ≤ c.toNat := by
  have hvalid : c.toNat.isValidChar := c.valid
  omega

theorem toNat_charOfNat {n : Nat} (h : n.isValidChar) : (Char.ofNat n).toNat = n := by
  rw [Char.ofNat, dif_pos h]
  rfl

theorem isHighSurrogate_iff {n : Nat} : isHighSurrogate n = true ↔ 0xD800 ≤ n ∧ n < 0xDC00 := by
  simp [isHighSurrogate]

theorem isLowSurrogate_iff {n : Nat} : isLowSurrogate n = true ↔ 0xDC00 ≤ n ∧ n < 0xE000 := by
  simp [isLowSurrogate]

/-! ## Written items -/

theorem item_escape (c : Char) : Item (escape c) c := by
  unfold escape
  cases hfind : shortEscapes.find? (·.2 == c) with
  | some found =>
    obtain ⟨letter, d⟩ := found
    obtain rfl : d = c := by simpa using List.find?_some hfind
    have hshort : ∀ found ∈ shortEscapes, found ∈ letters := by decide
    exact .letter (hshort _ (List.mem_of_find?_eq_some hfind))
  | none =>
    rw [List.find?_eq_none] at hfind
    by_cases hcontrol : isControl c = true
    · have hsmall : c.toNat < 0x20 := by simpa [isControl] using hcontrol
      simp only [hcontrol, if_true]
      exact .unit (.of_lt (by omega))
    · -- Neither the backslash nor the quote is left, both have an escape of one letter.
      have hslash : c ≠ '\\' := by
        rintro rfl
        exact absurd (hfind ('\\', '\\') (by decide)) (by decide)
      have hquote : c ≠ '"' := by
        rintro rfl
        exact absurd (hfind ('"', '"') (by decide)) (by decide)
      simp only [hcontrol]
      exact .plain hquote hslash (by simpa [isControl] using hcontrol)

theorem spelled_flatMap_escape (value : List Char) : Spelled (value.flatMap escape) value := by
  induction value with
  | nil => exact .nil
  | cons c value ih => exact .cons (item_escape c) ih

/-! ## Decoded items -/

variable {digits text value rest behind : List Char} {n : Nat} {c : Char}

theorem readUnit?_of_fourDigits (h : FourDigits digits n) (rest : List Char) :
    readUnit? ('u' :: (digits ++ rest)) = some (n, rest) := by
  have hn := h.ofDigits?
  cases h with
  | mk =>
    show (Hex.ofDigits? _).map _ = _
    rw [hn]
    rfl

theorem readLowSurrogate?_of_fourDigits (h : FourDigits digits n)
    (hlow : 0xDC00 ≤ n ∧ n < 0xE000) (rest : List Char) :
    readLowSurrogate? ('\\' :: 'u' :: (digits ++ rest)) = some (n, rest) := by
  rw [readLowSurrogate?, readUnit?_of_fourDigits h]
  exact Option.filter_eq_some_iff.2 ⟨rfl, isLowSurrogate_iff.2 hlow⟩

/-- An escape of four digits, by the code unit that they spell. -/
theorem readItem?_of_readUnit? (h : readUnit? ('u' :: text) = some (n, rest)) :
    readItem? ('\\' :: 'u' :: text) =
      if isHighSurrogate n then
        (readLowSurrogate? rest).map fun (low, rest) => (ofSurrogates n low, rest)
      else if isLowSurrogate n then none
      else some (Char.ofNat n, rest) := by
  rw [readItem?, if_pos rfl, readEscape?, if_pos rfl, h]

/-- **Every item is taken in one step.** -/
theorem readItem?_of_item {item : List Char} (h : Item item c) (rest : List Char) :
    readItem? (item ++ rest) = some (c, rest) := by
  cases h with
  | plain hquote hslash hcontrol => simp [readItem?, isControl, hquote, hslash, hcontrol]
  | letter h =>
    simp only [letters, List.mem_cons, Prod.mk.injEq, List.not_mem_nil, or_false] at h
    rcases h with ⟨rfl, rfl⟩ | ⟨rfl, rfl⟩ | ⟨rfl, rfl⟩ | ⟨rfl, rfl⟩ | ⟨rfl, rfl⟩ | ⟨rfl, rfl⟩ |
      ⟨rfl, rfl⟩ | ⟨rfl, rfl⟩ <;> rfl
  | unit h =>
    -- The digits spell the code point of a character, so they are no half of a pair.
    have hc := not_surrogate c
    have hhigh : ¬isHighSurrogate c.toNat = true := by
      rw [isHighSurrogate_iff]
      omega
    have hlow : ¬isLowSurrogate c.toNat = true := by
      rw [isLowSurrogate_iff]
      omega
    rw [List.cons_append, List.cons_append,
      readItem?_of_readUnit? (readUnit?_of_fourDigits h rest), if_neg hhigh, if_neg hlow,
      Char.ofNat_toNat]
  | @pair digits digits' high low c hdigits hdigits' hhigh hlow hc =>
    have htext : '\\' :: 'u' :: digits ++ '\\' :: 'u' :: digits' ++ rest =
        '\\' :: 'u' :: (digits ++ '\\' :: 'u' :: (digits' ++ rest)) := by simp
    rw [htext, readItem?_of_readUnit? (readUnit?_of_fourDigits hdigits _),
      if_pos (isHighSurrogate_iff.2 hhigh), readLowSurrogate?_of_fourDigits hdigits' hlow]
    show some (ofSurrogates high low, rest) = _
    rw [ofSurrogates, ← hc, Char.ofNat_toNat]

theorem readItems?_quote (rest : List Char) : readItems? ('"' :: rest) = some ([], rest) := by
  rw [readItems?]

/-- An item that is read is not the closing quote, so it is part of the value. -/
theorem readItems?_of_readItem? (h : readItem? text = some (c, rest)) :
    readItems? text = (readItems? rest).map fun (value, rest) => (c :: value, rest) := by
  have hquote : ∀ others, text ≠ '"' :: others := by
    rintro others rfl
    simp [readItem?] at h
  rw [readItems?]
  · split <;> simp_all
  · exact hquote

/-- **What is spelled is decoded up to the quote behind it.** -/
theorem readItems?_of_spelled {body : List Char} (h : Spelled body value) (rest : List Char) :
    readItems? (body ++ '"' :: rest) = some (value, rest) := by
  induction h with
  | nil => exact readItems?_quote rest
  | cons first others ih =>
    rw [List.append_assoc, readItems?_of_readItem? (readItem?_of_item first _), ih]
    rfl

end Quoted

end ResourceRouting.Text
