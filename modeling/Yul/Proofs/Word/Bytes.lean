import Mathlib.Algebra.BigOperators.Fin
import Mathlib.Data.List.DropRight
import Mathlib.Data.Nat.Digits.Lemmas
import Yul.Proofs.Word.Digits

/-!
# Words of bytes

A string of bytes stands in the most significant end of a word, so a byte counts by its place from
the left (`Word.leftAligned?_eq_some_iff`), and zeros at the end of a string are not seen
(`Word.leftAligned?_eq_iff`).
-/

namespace Yul

namespace Word

/-! ## Numbers of bytes -/

theorem bigEndian_append_singleton (bytes : List UInt8) (b : UInt8) :
    bigEndian (bytes ++ [b]) = bigEndian bytes * 256 + b.toNat := by
  rw [bigEndian, List.foldl_append]
  rfl

theorem bigEndian_eq_ofDigits (bytes : List UInt8) :
    bigEndian bytes = Nat.ofDigits 256 (bytes.map UInt8.toNat).reverse := by
  induction bytes using List.reverseRecOn with
  | nil => rfl
  | append_singleton bytes b ih =>
    rw [bigEndian_append_singleton, ih, List.map_append, List.reverse_append, List.map_singleton,
      List.reverse_singleton, List.singleton_append, Nat.ofDigits_cons]
    ring

theorem bigEndian_append (xs ys : List UInt8) :
    bigEndian (xs ++ ys) = bigEndian xs * 256 ^ ys.length + bigEndian ys := by
  simp only [bigEndian_eq_ofDigits, List.map_append, List.reverse_append, Nat.ofDigits_append,
    List.length_reverse, List.length_map]
  ring

theorem bigEndian_zeros (k : Nat) : bigEndian (List.replicate k 0) = 0 := by
  rw [bigEndian_eq_ofDigits, List.map_replicate, List.reverse_replicate]
  exact Nat.ofDigits_replicate_zero

theorem lt_of_mem_digits {bytes : List UInt8} :
    ∀ d ∈ (bytes.map UInt8.toNat).reverse, d < 256 := by
  intro d hd
  obtain ⟨b, -, rfl⟩ := List.mem_map.mp (List.mem_reverse.mp hd)
  exact b.toNat_lt

theorem bigEndian_lt (bytes : List UInt8) : bigEndian bytes < 256 ^ bytes.length := by
  rw [bigEndian_eq_ofDigits]
  simpa using Nat.ofDigits_lt_base_pow_length (by decide) lt_of_mem_digits

theorem bigEndian_inj {xs ys : List UInt8} (hlength : xs.length = ys.length) :
    bigEndian xs = bigEndian ys ↔ xs = ys := by
  refine ⟨fun h => ?_, fun h => congrArg bigEndian h⟩
  rw [bigEndian_eq_ofDigits, bigEndian_eq_ofDigits] at h
  have hdigits := Nat.ofDigits_inj_of_len_eq (by decide) (by simpa using hlength)
    lt_of_mem_digits lt_of_mem_digits h
  exact List.map_injective_iff.mpr (fun _ _ => UInt8.toNat_inj.mp) (List.reverse_injective hdigits)

theorem bigEndian_mul_pow {bytes : List UInt8} {width : Nat} (h : bytes.length ≤ width) :
    bigEndian bytes * 256 ^ (width - bytes.length) =
      ∑ i : Fin bytes.length, (bytes.get i).toNat * 256 ^ (width - 1 - i) := by
  induction bytes generalizing width with
  | nil => simp [bigEndian]
  | cons b bytes ih =>
    obtain ⟨width, rfl⟩ : ∃ k, width = k + 1 := ⟨width - 1, by simp at h; omega⟩
    have hle : bytes.length ≤ width := by simpa using h
    have hplace : 256 ^ width = 256 ^ bytes.length * 256 ^ (width - bytes.length) := by
      rw [← Nat.pow_add, Nat.add_sub_cancel' hle]
    have hfirst : bigEndian (b :: bytes) = b.toNat * 256 ^ bytes.length + bigEndian bytes := by
      rw [← List.singleton_append, bigEndian_append]
      simp [bigEndian]
    have hrest : width + 1 - (b :: bytes).length = width - bytes.length := Nat.add_sub_add_right ..
    rw [hrest, hfirst, Nat.add_mul, ih hle, Nat.mul_assoc, ← hplace]
    symm
    refine (Fin.sum_univ_succ (n := bytes.length) _).trans ?_
    refine congrArg₂ (· + ·) rfl (Finset.sum_congr rfl fun i _ => ?_)
    have hplace' : width + 1 - 1 - (i.succ : Nat) = width - 1 - i := by
      rw [Fin.val_succ]
      omega
    rw [hplace']
    rfl

/-! ## Words -/

/-- Bytes with zeros behind them, as many as a word has. -/
def padBytes (bytes : List UInt8) : List UInt8 :=
  bytes ++ List.replicate (maxBytes - bytes.length) 0

theorem length_padBytes {bytes : List UInt8} (h : bytes.length ≤ maxBytes) :
    (padBytes bytes).length = maxBytes := by
  rw [padBytes, List.length_append, List.length_replicate, Nat.add_sub_cancel' h]

theorem bigEndian_padBytes (bytes : List UInt8) :
    bigEndian (padBytes bytes) = bigEndian bytes * 256 ^ (maxBytes - bytes.length) := by
  rw [padBytes, bigEndian_append, bigEndian_zeros, List.length_replicate, Nat.add_zero]

theorem leftAligned?_eq_none_iff {bytes : List UInt8} :
    leftAligned? bytes = none ↔ maxBytes < bytes.length := by
  rw [leftAligned?]
  split
  · next h => simpa using h
  · next h => simpa using h

/-- The bytes of a limb. -/
def limbBytes (bytes : List UInt8) (k : Nat) : List UInt8 :=
  (bytes.drop (8 * k)).take 8

theorem toNat_limb (bytes : List UInt8) (k : Nat) :
    (UInt64.ofNat (bigEndian (limbBytes bytes k))).toNat = bigEndian (limbBytes bytes k) := by
  have hlt := bigEndian_lt (limbBytes bytes k)
  have hpow : 256 ^ (limbBytes bytes k).length ≤ 256 ^ 8 :=
    Nat.pow_le_pow_right (by decide) (List.length_take_le 8 _)
  rw [UInt64.toNat_ofNat']
  exact Nat.mod_eq_of_lt (by omega)

theorem bigEndian_drop {bytes : List UInt8} {k n : Nat} (h : bytes.length = 8 * (k + 1) + n) :
    bigEndian (bytes.drop (8 * k)) =
      bigEndian (limbBytes bytes k) * 256 ^ n + bigEndian (bytes.drop (8 * (k + 1))) := by
  have hcut : bytes.drop (8 * k) = limbBytes bytes k ++ bytes.drop (8 * (k + 1)) := by
    rw [Nat.mul_succ, ← List.drop_drop, limbBytes, List.take_append_drop]
  have hrest : (bytes.drop (8 * (k + 1))).length = n := by
    rw [List.length_drop]
    omega
  rw [hcut, bigEndian_append, hrest]

/-- Limb by limb the bytes of a word are read as a whole. -/
theorem toNat_leftAligned {bytes : List UInt8} {w : Word} (h : leftAligned? bytes = some w) :
    w.toNat = bigEndian (padBytes bytes) := by
  rw [leftAligned?] at h
  split at h
  · cases h
  · next hle =>
    have hlength : (padBytes bytes).length = 32 := length_padBytes (Nat.le_of_not_lt hle)
    have hend : (padBytes bytes).drop (8 * (3 + 1)) = [] :=
      List.drop_eq_nil_of_le (Nat.le_of_eq hlength)
    have h₀ := bigEndian_drop (k := 0) (n := 24) hlength
    have h₁ := bigEndian_drop (k := 1) (n := 16) hlength
    have h₂ := bigEndian_drop (k := 2) (n := 8) hlength
    have h₃ := bigEndian_drop (k := 3) (n := 0) hlength
    obtain rfl := Option.some.inj h
    show (UInt64.ofNat (bigEndian (limbBytes (padBytes bytes) 3))).toNat + limbBase *
      ((UInt64.ofNat (bigEndian (limbBytes (padBytes bytes) 2))).toNat + limbBase *
        ((UInt64.ofNat (bigEndian (limbBytes (padBytes bytes) 1))).toNat + limbBase *
          (UInt64.ofNat (bigEndian (limbBytes (padBytes bytes) 0))).toNat)) =
      bigEndian ((padBytes bytes).drop (8 * 0))
    have hbase : limbBase = 256 ^ 8 := by decide
    rw [toNat_limb, toNat_limb, toNat_limb, toNat_limb, h₀, h₁, h₂, h₃, hend, hbase]
    have hnil : bigEndian [] = 0 := rfl
    rw [hnil]
    ring

theorem exists_leftAligned {bytes : List UInt8} (h : bytes.length ≤ maxBytes) :
    ∃ w, leftAligned? bytes = some w := by
  rw [← Option.isSome_iff_exists, Option.isSome_iff_ne_none, ne_eq, leftAligned?_eq_none_iff]
  omega

theorem leftAligned?_eq_some_iff {bytes : List UInt8} {w : Word} : leftAligned? bytes = some w ↔
    bytes.length ≤ maxBytes ∧
      w.toNat = ∑ i : Fin bytes.length, (bytes.get i).toNat * 256 ^ (maxBytes - 1 - i) := by
  have hword (v : Word) (hv : leftAligned? bytes = some v) (hle : bytes.length ≤ maxBytes) :
      v.toNat = ∑ i : Fin bytes.length, (bytes.get i).toNat * 256 ^ (maxBytes - 1 - i) := by
    rw [toNat_leftAligned hv, bigEndian_padBytes, bigEndian_mul_pow hle]
  constructor
  · intro h
    have hle : bytes.length ≤ maxBytes := by
      rw [← Nat.not_lt, ← leftAligned?_eq_none_iff, h]
      exact Option.some_ne_none w
    exact ⟨hle, hword w h hle⟩
  · rintro ⟨hle, hw⟩
    obtain ⟨v, hv⟩ := exists_leftAligned hle
    rw [hv, Option.some.injEq, ← toNat_inj, hw, hword v hv hle]

/-! ## Zeros at the end -/

theorem rdropWhile_append_zeros (bytes : List UInt8) (k : Nat) :
    (bytes ++ List.replicate k 0).rdropWhile (· == 0) = bytes.rdropWhile (· == 0) := by
  induction k with
  | zero => rw [List.replicate_zero, List.append_nil]
  | succ k ih =>
    rw [List.replicate_succ', ← List.append_assoc, List.rdropWhile_concat_pos _ _ _ rfl, ih]

theorem exists_zeros (bytes : List UInt8) :
    ∃ k, bytes = bytes.rdropWhile (· == 0) ++ List.replicate k 0 := by
  refine ⟨(bytes.rtakeWhile (· == 0)).length, ?_⟩
  have hzeros : bytes.rtakeWhile (· == 0) =
      List.replicate (bytes.rtakeWhile (· == 0)).length 0 :=
    List.eq_replicate_iff.mpr ⟨rfl, fun b hb => by simpa using List.mem_rtakeWhile_imp hb⟩
  rw [← hzeros, List.rdropWhile_append_rtakeWhile]

theorem padBytes_eq_iff {xs ys : List UInt8} (hx : xs.length ≤ maxBytes)
    (hy : ys.length ≤ maxBytes) :
    padBytes xs = padBytes ys ↔ xs.rdropWhile (· == 0) = ys.rdropWhile (· == 0) := by
  have hpad (bytes : List UInt8) :
      (padBytes bytes).rdropWhile (· == 0) = bytes.rdropWhile (· == 0) :=
    rdropWhile_append_zeros bytes _
  refine ⟨fun h => by rw [← hpad xs, ← hpad ys, h], fun h => ?_⟩
  obtain ⟨j, hj⟩ := exists_zeros (padBytes xs)
  obtain ⟨k, hk⟩ := exists_zeros (padBytes ys)
  have hlength : (padBytes xs).length = (padBytes ys).length :=
    (length_padBytes hx).trans (length_padBytes hy).symm
  rw [hpad] at hj hk
  rw [hj, hk, h, List.length_append, List.length_append, List.length_replicate,
    List.length_replicate, Nat.add_left_cancel_iff] at hlength
  rw [hj, hk, h, hlength]

/-- Two strings have the same word if and only if they agree up to zeros at their ends. -/
theorem leftAligned?_eq_iff {xs ys : List UInt8} :
    (∃ w, leftAligned? xs = some w ∧ leftAligned? ys = some w) ↔
      xs.length ≤ maxBytes ∧ ys.length ≤ maxBytes ∧
        xs.rdropWhile (· == 0) = ys.rdropWhile (· == 0) := by
  have hle {bytes : List UInt8} {w : Word} (h : leftAligned? bytes = some w) :
      bytes.length ≤ maxBytes := (leftAligned?_eq_some_iff.mp h).1
  constructor
  · rintro ⟨w, hx, hy⟩
    have hnumber := (toNat_leftAligned hx).symm.trans (toNat_leftAligned hy)
    refine ⟨hle hx, hle hy, (padBytes_eq_iff (hle hx) (hle hy)).mp ?_⟩
    exact (bigEndian_inj ((length_padBytes (hle hx)).trans (length_padBytes (hle hy)).symm)).mp
      hnumber
  · rintro ⟨hx, hy, h⟩
    obtain ⟨v, hv⟩ := exists_leftAligned hx
    obtain ⟨w, hw⟩ := exists_leftAligned hy
    have hpad := (padBytes_eq_iff hx hy).mpr h
    have hnumber : v.toNat = w.toNat := by rw [toNat_leftAligned hv, toNat_leftAligned hw, hpad]
    obtain rfl := toNat_inj.mp hnumber
    exact ⟨v, hv, hw⟩

end Word

end Yul
