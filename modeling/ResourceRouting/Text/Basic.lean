/-!
# Texts

Lists of characters: their starts, their size in bytes, the white space before them and the numbers
that they spell; and lists of anything in the order of a text of each member.

Offsets into a selection string count the bytes of its UTF-8 encoding. Texts are ordered by their
code points, which is also the order of their UTF-8 bytes.
-/

namespace ResourceRouting.Text

/-! ## Starts -/

/-- What follows `start` in a text that starts with it. -/
def afterStart? : (start text : List Char) → Option (List Char)
  | [], text => some text
  | _ :: _, [] => none
  | c :: start, d :: text => if c = d then afterStart? start text else none

theorem afterStart?_eq_some_iff {start text rest : List Char} :
    afterStart? start text = some rest ↔ text = start ++ rest := by
  fun_induction afterStart? start text with
  | case1 text => simp
  | case2 => simp
  | case3 c start text ih => simp [ih]
  | case4 c start d text h => simp [Ne.symm h]

/-- What stands before `rest` in a text that ends in `rest`. -/
def before (text rest : List Char) : List Char := text.take (text.length - rest.length)

theorem before_append (s t : List Char) : before (s ++ t) t = s := by
  simp [before]

/-! ## Bytes -/

/-- The number of bytes that a text takes in UTF-8. -/
def byteCount : List Char → Nat
  | [] => 0
  | c :: text => c.utf8Size + byteCount text

@[simp] theorem byteCount_nil : byteCount [] = 0 := rfl

@[simp] theorem byteCount_cons (c : Char) (text : List Char) :
    byteCount (c :: text) = c.utf8Size + byteCount text := rfl

@[simp] theorem byteCount_append (s t : List Char) :
    byteCount (s ++ t) = byteCount s + byteCount t := by
  induction s with
  | nil => simp
  | cons c s ih => simp [ih, Nat.add_assoc]

/-! ## White space -/

/-- The code points with the property `White_Space`, as closed intervals. -/
def blankRanges : List (Nat × Nat) :=
  [(0x9, 0xD), (0x20, 0x20), (0x85, 0x85), (0xA0, 0xA0), (0x1680, 0x1680), (0x2000, 0x200A),
    (0x2028, 0x2029), (0x202F, 0x202F), (0x205F, 0x205F), (0x3000, 0x3000)]

def isBlank (c : Char) : Bool :=
  blankRanges.any fun (lo, hi) => lo ≤ c.toNat && c.toNat ≤ hi

/-- A text without the white space at its start. -/
def dropBlank (text : List Char) : List Char := text.dropWhile isBlank

theorem length_dropBlank_le (text : List Char) : (dropBlank text).length ≤ text.length :=
  (List.dropWhile_sublist _).length_le

theorem dropBlank_dropBlank (text : List Char) : dropBlank (dropBlank text) = dropBlank text := by
  induction text with
  | nil => rfl
  | cons c rest ih =>
    by_cases h : isBlank c
    · simpa [dropBlank, h] using ih
    · simp [dropBlank, h]

/-! ## Hexadecimal digits -/

namespace Hex

/-- The digits in order of value, in lower case. -/
def lowerDigits : List Char :=
  ['0', '1', '2', '3', '4', '5', '6', '7', '8', '9', 'a', 'b', 'c', 'd', 'e', 'f']

/-- The digits in order of value, in upper case. -/
def upperDigits : List Char :=
  ['0', '1', '2', '3', '4', '5', '6', '7', '8', '9', 'A', 'B', 'C', 'D', 'E', 'F']

/-- The value of a digit of either case. -/
def value? (c : Char) : Option Nat :=
  (lowerDigits.idxOf? c).or (upperDigits.idxOf? c)

/-- The lower-case digit of the value modulo sixteen. -/
def digit (n : Nat) : Char := lowerDigits.getD (n % 16) '0'

/-- The number spelled by digits of either case, the most significant first; no digits spell
zero. -/
def ofDigits? (digits : List Char) : Option Nat :=
  digits.foldlM (fun n c => (value? c).map (16 * n + ·)) 0

/-- The last `width` lower-case digits of a number. -/
def digits : Nat → Nat → List Char
  | 0, _ => []
  | width + 1, n => digits width (n / 16) ++ [digit n]

@[simp] theorem length_digits (width n : Nat) : (digits width n).length = width := by
  induction width generalizing n with
  | zero => rfl
  | succ width ih => simp [digits, ih]

end Hex

/-! ## Order -/

section Order

variable {α : Type}

/-- The members of a list in the order of their texts. Repetitions are kept. -/
def sortedBy (key : α → String) (xs : List α) : List α := xs.mergeSort fun x y => key x ≤ key y

def sorted (texts : List String) : List String := sortedBy (fun text => text) texts

@[simp] theorem sortedBy_nil (key : α → String) : sortedBy key [] = [] := List.mergeSort_nil

@[simp] theorem sortedBy_singleton (key : α → String) (x : α) : sortedBy key [x] = [x] :=
  List.mergeSort_singleton x

theorem sortedBy_pair (key : α → String) (x y : α) :
    sortedBy key [x, y] = if key x ≤ key y then [x, y] else [y, x] := by
  split <;> rename_i h <;> simp [sortedBy, List.mergeSort, h]

theorem sortedBy_perm (key : α → String) (xs : List α) : (sortedBy key xs).Perm xs :=
  List.mergeSort_perm xs _

theorem pairwise_sortedBy (key : α → String) (xs : List α) :
    (sortedBy key xs).Pairwise fun x y => key x ≤ key y := by
  have htrans : ∀ x y z, decide (key x ≤ key y) → decide (key y ≤ key z) →
      decide (key x ≤ key z) := fun x y z hxy hyz =>
    decide_eq_true (String.le_trans (of_decide_eq_true hxy) (of_decide_eq_true hyz))
  have htotal : ∀ x y, decide (key x ≤ key y) || decide (key y ≤ key x) := fun x y => by
    simpa using String.le_total (key x) (key y)
  exact (List.pairwise_mergeSort htrans htotal xs).imp of_decide_eq_true

theorem sorted_perm (texts : List String) : (sorted texts).Perm texts := sortedBy_perm _ texts

/-- **Two lists have the same sorted texts exactly when one is a reordering of the other.** -/
theorem sorted_eq_sorted_iff {s t : List String} : sorted s = sorted t ↔ s.Perm t := by
  constructor
  · intro h
    exact (sorted_perm s).symm.trans (h ▸ sorted_perm t)
  · intro h
    exact ((sorted_perm s).trans (h.trans (sorted_perm t).symm)).eq_of_pairwise
      (fun _ _ _ _ => String.le_antisymm) (pairwise_sortedBy _ s) (pairwise_sortedBy _ t)

/-- Members that are made from others are in the order of these. -/
theorem sortedBy_map {β : Type} (key : α → String) (f : β → α) (xs : List β) :
    sortedBy key (xs.map f) = (sortedBy (fun x => key (f x)) xs).map f := by
  rw [sortedBy, sortedBy, List.map_mergeSort]
  exact fun _ _ _ _ => rfl

end Order

end ResourceRouting.Text
