import Mathlib.Data.List.Forall2
import Mathlib.Data.Nat.Digits.Defs
import Mathlib.Tactic.Ring
import Yul.Text.Numeral

/-!
# Numbers that digits denote

`Denotes` says in positional notation which number a row of digits denotes, with the digits looked
up in the alphabet of digits. The readers of numerals give exactly these numbers
(`numeral?_eq_some_iff`), one of them also behind a plus sign (`signedNumeral?_eq_some_iff`).
-/

namespace Yul.Text

/-- The digits in the order of their values. -/
def digitChars : List Char := "0123456789abcdefghijklmnopqrstuvwxyz".toList

/-- As `digitChars`, with letters in upper case. -/
def upperDigitChars : List Char := "0123456789ABCDEFGHIJKLMNOPQRSTUVWXYZ".toList

/-- Whether a character is the digit of `radix` with the value `d`. -/
def IsDigit (radix : Nat) (c : Char) (d : Nat) : Prop :=
  d < radix ∧ (digitChars[d]? = some c ∨ upperDigitChars[d]? = some c)

/-- Whether the digits `cs` of `radix` denote the number `n`, the most significant first. -/
def Denotes (radix : Nat) (cs : List Char) (n : Nat) : Prop :=
  ∃ ds, List.Forall₂ (IsDigit radix) cs ds ∧ n = Nat.ofDigits radix ds.reverse

/-! ## Digits -/

theorem getElem?_of_run {row : List Char} {base : Char} (first count : Nat)
    (hrow : ∀ k < count, row[first + k]? = some (Char.ofNat (base.toNat + k))) {c : Char}
    (hlow : base.toNat ≤ c.toNat) (hhigh : c.toNat < base.toNat + count) :
    row[c.toNat - base.toNat + first]? = some c := by
  have hk := hrow (c.toNat - base.toNat) (by omega)
  rw [Nat.add_sub_cancel' hlow, Char.ofNat_toNat] at hk
  rwa [Nat.add_comm]

theorem digitValue?_eq_some_iff {c : Char} {d : Nat} :
    digitValue? c = some d ↔ digitChars[d]? = some c ∨ upperDigitChars[d]? = some c := by
  constructor
  · intro h
    unfold digitValue? at h
    split at h
    · next hc =>
      obtain rfl := Option.some.inj h
      exact .inl (getElem?_of_run 0 10 (by decide) hc.1
        (Nat.lt_succ_of_le hc.2))
    · split at h
      · next hc =>
        obtain rfl := Option.some.inj h
        exact .inl (getElem?_of_run _ 26 (by decide) hc.1 (Nat.lt_succ_of_le hc.2))
      · split at h
        · next hc =>
          obtain rfl := Option.some.inj h
          exact .inr (getElem?_of_run _ 26 (by decide) hc.1 (Nat.lt_succ_of_le hc.2))
        · cases h
  · have hlower : ∀ k : Fin digitChars.length, digitValue? digitChars[k] = some k.val := by decide
    have hupper : ∀ k : Fin upperDigitChars.length,
        digitValue? upperDigitChars[k] = some k.val := by decide
    rintro (h | h)
    · obtain ⟨hd, rfl⟩ := List.getElem?_eq_some_iff.mp h
      exact hlower ⟨d, hd⟩
    · obtain ⟨hd, rfl⟩ := List.getElem?_eq_some_iff.mp h
      exact hupper ⟨d, hd⟩

theorem digit?_eq_some_iff {radix d : Nat} {c : Char} :
    digit? radix c = some d ↔ IsDigit radix c d := by
  rw [digit?, Option.filter_eq_some_iff, digitValue?_eq_some_iff, decide_eq_true_eq, and_comm]
  rfl

theorem IsDigit.utf8Size {radix d : Nat} {c : Char} (h : IsDigit radix c d) : c.utf8Size = 1 := by
  have hall : (digitChars ++ upperDigitChars).all (·.utf8Size == 1) := by decide
  have hmem : c ∈ digitChars ++ upperDigitChars :=
    List.mem_append.mpr (h.2.imp List.mem_of_getElem? List.mem_of_getElem?)
  exact beq_iff_eq.mp (List.all_eq_true.mp hall c hmem)

theorem IsDigit.unique {radix d d' : Nat} {c : Char} (h : IsDigit radix c d)
    (h' : IsDigit radix c d') : d = d' :=
  Option.some.inj ((digit?_eq_some_iff.mpr h).symm.trans (digit?_eq_some_iff.mpr h'))

/-! ## Numbers -/

/-- Reading digits behind the number `n` moves it to the left and adds what they denote. -/
theorem foldlM_digits {radix n m : Nat} {cs : List Char} :
    cs.foldlM (fun n c => (digit? radix c).map (n * radix + ·)) n = some m ↔
      ∃ ds, List.Forall₂ (IsDigit radix) cs ds ∧
        m = n * radix ^ ds.length + Nat.ofDigits radix ds.reverse := by
  induction cs generalizing n with
  | nil => simp [eq_comm]
  | cons c cs ih =>
    rw [List.foldlM_cons]
    simp only [Option.bind_eq_bind, Option.bind_eq_some_iff, Option.map_eq_some_iff,
      digit?_eq_some_iff]
    constructor
    · rintro ⟨_, ⟨d, hd, rfl⟩, hrest⟩
      obtain ⟨ds, hds, rfl⟩ := ih.mp hrest
      refine ⟨d :: ds, .cons hd hds, ?_⟩
      rw [List.reverse_cons, Nat.ofDigits_append, Nat.ofDigits_singleton, List.length_reverse,
        List.length_cons]
      ring
    · rintro ⟨_ | ⟨d, ds⟩, hds, rfl⟩
      · cases hds
      · obtain ⟨hd, hds⟩ := List.forall₂_cons.mp hds
        refine ⟨_, ⟨d, hd, rfl⟩, ih.mpr ⟨ds, hds, ?_⟩⟩
        rw [List.reverse_cons, Nat.ofDigits_append, Nat.ofDigits_singleton, List.length_reverse,
          List.length_cons]
        ring

theorem denotes_iff {radix n : Nat} {cs : List Char} : Denotes radix cs n ↔
    cs.foldlM (fun n c => (digit? radix c).map (n * radix + ·)) 0 = some n := by
  simp [foldlM_digits, Denotes]

theorem numeral?_eq_some_iff {radix n : Nat} {cs : List Char} :
    numeral? radix cs = some n ↔ cs ≠ [] ∧ Denotes radix cs n := by
  cases cs with
  | nil => simp [numeral?]
  | cons c cs =>
    rw [numeral?, denotes_iff]
    · simp
    · exact List.cons_ne_nil c cs

namespace Denotes

variable {radix n m : Nat} {cs : List Char}

theorem unique (h : Denotes radix cs n) (h' : Denotes radix cs m) : n = m :=
  Option.some.inj ((denotes_iff.mp h).symm.trans (denotes_iff.mp h'))

theorem digits (h : Denotes radix cs n) : ∀ c ∈ cs, ∃ d, IsDigit radix c d := by
  obtain ⟨ds, hds, -⟩ := h
  induction hds with
  | nil => exact List.forall_mem_nil _
  | cons hd _ ih => exact List.forall_mem_cons.mpr ⟨⟨_, hd⟩, ih⟩

theorem lt (hradix : 1 < radix) (h : Denotes radix cs n) : n < radix ^ cs.length := by
  obtain ⟨ds, hds, rfl⟩ := h
  have hlt : ∀ d ∈ ds, d < radix := by
    induction hds with
    | nil => exact List.forall_mem_nil _
    | cons hd _ ih => exact List.forall_mem_cons.mpr ⟨hd.1, ih⟩
  rw [hds.length_eq, ← List.length_reverse]
  exact Nat.ofDigits_lt_base_pow_length hradix fun d hd => hlt d (List.mem_reverse.mp hd)

theorem ne_plus (h : Denotes radix cs n) (digits : List Char) : cs ≠ '+' :: digits := by
  rintro rfl
  obtain ⟨d, hd⟩ := h.digits '+' (by simp)
  have hnone : digit? radix '+' = none := rfl
  exact nomatch hnone.symm.trans (digit?_eq_some_iff.mpr hd)

theorem ne_hexadecimal (h : Denotes 10 cs n) (digits : List Char) : cs ≠ '0' :: 'x' :: digits := by
  rintro rfl
  obtain ⟨d, hd⟩ := h.digits 'x' (by simp)
  have hnone : digit? 10 'x' = none := rfl
  exact nomatch hnone.symm.trans (digit?_eq_some_iff.mpr hd)

end Denotes

theorem exists_denotes {radix : Nat} {cs : List Char} (h : ∀ c ∈ cs, ∃ d, IsDigit radix c d) :
    ∃ n, Denotes radix cs n := by
  suffices hds : ∃ ds, List.Forall₂ (IsDigit radix) cs ds by
    obtain ⟨ds, hds⟩ := hds
    exact ⟨_, ds, hds, rfl⟩
  induction cs with
  | nil => exact ⟨[], .nil⟩
  | cons c cs ih =>
    obtain ⟨⟨d, hd⟩, hcs⟩ := List.forall_mem_cons.mp h
    obtain ⟨ds, hds⟩ := ih hcs
    exact ⟨d :: ds, .cons hd hds⟩

theorem denotes_zeros {radix n : Nat} (hradix : 0 < radix) {cs : List Char} (k : Nat) :
    Denotes radix (List.replicate k '0' ++ cs) n ↔ Denotes radix cs n := by
  have hzero : digit? radix '0' = some 0 := digit?_eq_some_iff.mpr ⟨hradix, .inl rfl⟩
  have hzeros : (List.replicate k '0').foldlM
      (fun n c => (digit? radix c).map (n * radix + ·)) 0 = some 0 := by
    induction k with
    | zero => rfl
    | succ k ih =>
      rw [List.replicate_succ, List.foldlM_cons, hzero, Option.map_some, Nat.zero_mul]
      exact ih
  rw [denotes_iff, denotes_iff, List.foldlM_append, hzeros, Option.bind_eq_bind, Option.bind_some]

/-! ## Signs -/

theorem signedNumeral?_eq_some_iff {radix n : Nat} {cs : List Char} :
    signedNumeral? radix cs = some n ↔
      ∃ digits, digits ≠ [] ∧ (cs = digits ∨ cs = '+' :: digits) ∧ Denotes radix digits n := by
  unfold signedNumeral?
  split
  · next cs =>
    rw [numeral?_eq_some_iff]
    constructor
    · intro ⟨hne, h⟩
      exact ⟨cs, hne, .inr rfl, h⟩
    · intro ⟨digits, hne, hcs, h⟩
      rcases hcs with hcs | hcs
      · exact absurd hcs.symm (h.ne_plus cs)
      · obtain rfl := (List.cons.inj hcs).2
        exact ⟨hne, h⟩
  · next hplus =>
    rw [numeral?_eq_some_iff]
    constructor
    · intro ⟨hne, h⟩
      exact ⟨cs, hne, .inl rfl, h⟩
    · intro ⟨digits, hne, hcs, h⟩
      rcases hcs with rfl | hcs
      · exact ⟨hne, h⟩
      · exact absurd hcs (hplus digits)

end Yul.Text
