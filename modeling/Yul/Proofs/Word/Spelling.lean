import Yul.Proofs.Word.Numerals

/-!
# The hexadecimal spelling of words

`Word.text` writes a word limb by limb, each limb behind the first in full width, and the outcome is
the hexadecimal spelling of the number as a whole (`Word.limbDigits_eq`). The spelling has no leading
zeros and denotes the number, so that reading it gives the word back (`Word.literal?_text`).
-/

namespace Yul

namespace Text

/-! ## Hexadecimal spellings -/

/-- The digits of a hexadecimal spelling. -/
def hexDigitChars : List Char := "0123456789abcdef".toList

theorem hexDigits_of_lt {n : Nat} (h : n < 16) : hexDigits n = [n.digitChar] :=
  Nat.toDigits_of_lt_base h

theorem hexDigits_of_le {n : Nat} (h : 16 ≤ n) :
    hexDigits n = hexDigits (n / 16) ++ hexDigits (n % 16) := by
  rw [hexDigits_of_lt (Nat.mod_lt n (by decide))]
  exact Nat.toDigits_of_base_le (by decide) h

/-- A digit behind the spelling of any other number but zero gives a spelling again. -/
theorem hexDigits_append {n m : Nat} (hn : 0 < n) (hm : m < 16) :
    hexDigits n ++ hexDigits m = hexDigits (16 * n + m) :=
  Nat.toDigits_append_toDigits (by decide) hn hm

theorem hexDigits_ne_nil (n : Nat) : hexDigits n ≠ [] :=
  Nat.toDigits_ne_nil

theorem mem_hexDigits {n : Nat} : ∀ c ∈ hexDigits n, c ∈ hexDigitChars := by
  induction n using Nat.strongRecOn with
  | ind n ih =>
    rcases Nat.lt_or_ge n 16 with hn | hn
    · have hdigit : ∀ n : Fin 16, n.val.digitChar ∈ hexDigitChars := by decide
      rw [hexDigits_of_lt hn]
      exact List.forall_mem_singleton.mpr (hdigit ⟨n, hn⟩)
    · rw [hexDigits_of_le hn, List.forall_mem_append]
      exact ⟨ih (n / 16) (by omega), ih (n % 16) (by omega)⟩

theorem eq_zero_of_head?_hexDigits {n : Nat} (h : (hexDigits n).head? = some '0') : n = 0 := by
  induction n using Nat.strongRecOn with
  | ind n ih =>
    rcases Nat.lt_or_ge n 16 with hn | hn
    · have hdigit : ∀ n : Fin 16, n.val.digitChar = '0' → n.val = 0 := by decide
      rw [hexDigits_of_lt hn] at h
      exact hdigit ⟨n, hn⟩ (Option.some.inj h)
    · rw [hexDigits_of_le hn, List.head?_append_of_ne_nil _ (hexDigits_ne_nil _)] at h
      have := ih (n / 16) (by omega) h
      omega

theorem Denotes.concat {radix n d : Nat} {cs : List Char} {c : Char} (h : Denotes radix cs n)
    (hd : IsDigit radix c d) : Denotes radix (cs ++ [c]) (n * radix + d) := by
  rw [denotes_iff] at h ⊢
  rw [List.foldlM_append, h, Option.bind_eq_bind, Option.bind_some, List.foldlM_cons,
    digit?_eq_some_iff.mpr hd]
  rfl

theorem denotes_hexDigits (n : Nat) : Denotes 16 (hexDigits n) n := by
  have hdigit : ∀ n : Fin 16, digit? 16 n.val.digitChar = some n.val := by decide
  induction n using Nat.strongRecOn with
  | ind n ih =>
    rcases Nat.lt_or_ge n 16 with hn | hn
    · rw [hexDigits_of_lt hn]
      exact ⟨[n], .cons (digit?_eq_some_iff.mp (hdigit ⟨n, hn⟩)) .nil, by simp⟩
    · have hmod : n % 16 < 16 := Nat.mod_lt n (by decide)
      rw [hexDigits_of_le hn, hexDigits_of_lt hmod]
      have hlast := (ih (n / 16) (by omega)).concat (digit?_eq_some_iff.mp (hdigit ⟨n % 16, hmod⟩))
      rwa [Nat.div_add_mod'] at hlast

/-! ## Spellings in full width -/

theorem padZeros_hexDigits {k : Nat} (hk : 0 < k) (n : Nat) :
    padZeros (k + 1) (hexDigits n) = padZeros k (hexDigits (n / 16)) ++ hexDigits (n % 16) := by
  have hlast : (hexDigits (n % 16)).length = 1 := by
    rw [hexDigits_of_lt (Nat.mod_lt n (by decide))]
    rfl
  rcases Nat.lt_or_ge n 16 with hn | hn
  · have hzeros : k + 1 - 1 = (k - 1) + 1 := by omega
    have hzero : hexDigits (n / 16) = ['0'] := by
      rw [Nat.div_eq_of_lt hn]
      rfl
    rw [hzero, Nat.mod_eq_of_lt hn, padZeros, padZeros, hexDigits_of_lt hn, List.length_singleton,
      List.length_singleton, hzeros, List.replicate_succ']
  · have hwidth (m : Nat) : k + 1 - (m + 1) = k - m := by omega
    rw [hexDigits_of_le hn, padZeros, padZeros, List.length_append, hlast, hwidth,
      List.append_assoc]

theorem hexDigits_append_padZeros {n k m : Nat} (hn : 0 < n) (hm : m < 16 ^ (k + 1)) :
    hexDigits n ++ padZeros (k + 1) (hexDigits m) = hexDigits (n * 16 ^ (k + 1) + m) := by
  induction k generalizing m with
  | zero =>
    have hlt : m < 16 := by simpa using hm
    have hpad : padZeros 1 (hexDigits m) = hexDigits m := by
      rw [hexDigits_of_lt hlt]
      rfl
    rw [hpad, hexDigits_append hn hlt]
    exact congrArg hexDigits (by omega)
  | succ k ih =>
    have hpow : 16 ^ (k + 1 + 1) = 16 * 16 ^ (k + 1) := by ring
    have hpos : 0 < n * 16 ^ (k + 1) := Nat.mul_pos hn (Nat.pow_pos (by decide))
    rw [padZeros_hexDigits k.succ_pos, ← List.append_assoc, ih (m := m / 16) (by omega),
      hexDigits_append (by omega) (Nat.mod_lt m (by decide))]
    refine congrArg hexDigits ?_
    calc 16 * (n * 16 ^ (k + 1) + m / 16) + m % 16
        = n * (16 * 16 ^ (k + 1)) + (16 * (m / 16) + m % 16) := by ring
      _ = n * 16 ^ (k + 1 + 1) + m := by rw [Nat.div_add_mod, hpow]

end Text

namespace Word

open Text

/-- The number of limbs, the most significant first, behind the number `n`. -/
def limbsNat (n : Nat) (limbs : List UInt64) : Nat :=
  limbs.foldl (fun n l => n * limbBase + l.toNat) n

theorem toNat_eq_limbsNat (w : Word) :
    w.toNat = limbsNat 0 [w.limb3, w.limb2, w.limb1, w.limb0] := by
  simp only [toNat, limbsNat, List.foldl_cons, List.foldl_nil]
  ring

theorem hexDigits_append_limbs {n : Nat} (hn : 0 < n) (limbs : List UInt64) :
    hexDigits n ++ limbs.flatMap (fun l => padZeros 16 (hexDigits l.toNat)) =
      hexDigits (limbsNat n limbs) := by
  induction limbs generalizing n with
  | nil => rw [List.flatMap_nil, List.append_nil, limbsNat, List.foldl_nil]
  | cons l limbs ih =>
    have hbase : limbBase = 16 ^ (15 + 1) := by decide
    have hpos : 0 < n * limbBase := Nat.mul_pos hn (by decide)
    rw [List.flatMap_cons, ← List.append_assoc, hexDigits_append_padZeros hn l.toNat_lt, ← hbase,
      ih (by omega)]
    rfl

/-- Limb by limb the number as a whole is spelled. -/
theorem limbDigits_eq (limbs : List UInt64) : limbDigits limbs = hexDigits (limbsNat 0 limbs) := by
  induction limbs with
  | nil => rfl
  | cons l limbs ih =>
    have hfirst : limbsNat 0 (l :: limbs) = limbsNat l.toNat limbs := by
      rw [limbsNat, List.foldl_cons, Nat.zero_mul, Nat.zero_add]
      rfl
    rw [limbDigits, hfirst]
    by_cases hl : l = 0
    · subst hl
      exact ih
    · have hpos : 0 < l.toNat := Nat.pos_of_ne_zero fun h => hl (UInt64.toNat_inj.mp h)
      rw [if_neg (by simpa using hl), hexDigits_append_limbs hpos]

theorem toList_text (w : Word) : w.text.toList = '0' :: 'x' :: hexDigits w.toNat := by
  rw [text, String.toList_ofList, limbDigits_eq, toNat_eq_limbsNat]

theorem literal?_text (w : Word) : literal? w.text.toList = some w := by
  rw [toList_text, literal?]
  exact (ofDigits?_eq_some_iff (by decide)).mpr ⟨hexDigits_ne_nil _, denotes_hexDigits _⟩

end Word

end Yul
