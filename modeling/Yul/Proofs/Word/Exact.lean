import Yul.Proofs.Word.Bytes
import Yul.Proofs.Word.Spelling

/-!
# Words as numbers

The spelling of a word, the order of words and the words of strings are those of the numbers that
the words stand for.
-/

namespace Yul

namespace Word

/-! ## Order -/

theorem compare_limb (a b : UInt64) : Ord.compare a b = Ord.compare a.toNat b.toNat := by
  show compareOfLessAndEq a b = compareOfLessAndEq a.toNat b.toNat
  simp only [compareOfLessAndEq, UInt64.lt_iff_toNat_lt, ← UInt64.toNat_inj]

theorem compare_add {l l' h h' : Nat} (hl : l < limbBase) (hl' : l' < limbBase) :
    Ord.compare (l + limbBase * h) (l' + limbBase * h') =
      (Ord.compare h h').then (Ord.compare l l') := by
  have hbase : limbBase = 2 ^ 64 := rfl
  rw [hbase] at hl hl' ⊢
  rcases Nat.lt_trichotomy h h' with hlt | rfl | hgt
  · rw [Nat.compare_eq_lt.mpr hlt]
    exact Nat.compare_eq_lt.mpr (by omega)
  · rw [Nat.compare_eq_eq.mpr rfl]
    simp only [Ordering.then, Nat.compare_eq_ite_lt, Nat.add_lt_add_iff_right]
  · rw [Nat.compare_eq_gt.mpr hgt]
    exact Nat.compare_eq_gt.mpr (by omega)

theorem compare_eq (a b : Word) : compare a b = Ord.compare a.toNat b.toNat := by
  rw [toNat, toNat, compare_add a.limb0.toNat_lt b.limb0.toNat_lt,
    compare_add a.limb1.toNat_lt b.limb1.toNat_lt, compare_add a.limb2.toNat_lt b.limb2.toNat_lt,
    Ordering.then_assoc, Ordering.then_assoc]
  simp only [compare, compare_limb]

/-! ## Main result -/

open Text in
/-- A word is written as `0x` and the shortest lower-case spelling of its number, which is read as
the same word. Words are ordered as their numbers, and are equal in this order only if they are the
same. A string has a word unless it is too long, and this stands for the sum of the bytes at their
places from the left. Two strings have the same word if and only if they agree up to zeros at their
ends. -/
theorem word_exact (a b : Word) (xs ys : List UInt8) :
    (∃ ds, a.text.toList = '0' :: 'x' :: ds ∧ ds ≠ [] ∧ (∀ c ∈ ds, c ∈ hexDigitChars) ∧
      (ds.head? = some '0' → ds = ['0']) ∧ Denotes 16 ds a.toNat) ∧
    literal? a.text.toList = some a ∧
    compare a b = Ord.compare a.toNat b.toNat ∧
    (compare a b = .eq ↔ a.limb0 = b.limb0 ∧ a.limb1 = b.limb1 ∧ a.limb2 = b.limb2 ∧
      a.limb3 = b.limb3) ∧
    (leftAligned? xs = none ↔ 32 < xs.length) ∧
    (leftAligned? xs = some a ↔ xs.length ≤ 32 ∧
      a.toNat = ∑ i : Fin xs.length, (xs.get i).toNat * 256 ^ (31 - i.val)) ∧
    ((∃ w, leftAligned? xs = some w ∧ leftAligned? ys = some w) ↔
      xs.length ≤ 32 ∧ ys.length ≤ 32 ∧
        xs.rdropWhile (· == 0) = ys.rdropWhile (· == 0)) := by
  refine ⟨⟨_, toList_text a, hexDigits_ne_nil _, mem_hexDigits, fun h => ?_, denotes_hexDigits _⟩,
    literal?_text a, compare_eq a b, ?_, leftAligned?_eq_none_iff, leftAligned?_eq_some_iff,
    leftAligned?_eq_iff⟩
  · rw [eq_zero_of_head?_hexDigits h]
    rfl
  · rw [compare_eq, Nat.compare_eq_eq, toNat_inj]
    cases a
    cases b
    rw [mk.injEq]

/-- A limb of zeros inside a number is written in full. -/
example : text ⟨7, 0, 1, 0⟩ = "0x100000000000000000000000000000007" := by decide +kernel

end Word

end Yul
