import Mathlib.Tactic.Ring
import Yul.Word

/-!
# Words that digits denote

`Word.ofDigits?` reads digits limb by limb and agrees with the number that they denote: it gives the
word of this number if there is one, and nothing if the number does not fit (`ofDigits?_eq`).
-/

namespace Yul

namespace Word

theorem mulAddLimb_eq (limb : UInt64) (factor carry : Nat) :
    (mulAddLimb limb factor carry).1.toNat + limbBase * (mulAddLimb limb factor carry).2 =
      limb.toNat * factor + carry := by
  have hmod : (limb.toNat * factor + carry) % limbBase % 2 ^ 64 =
      (limb.toNat * factor + carry) % limbBase :=
    Nat.mod_mod _ _
  rw [mulAddLimb, UInt64.toNat_ofNat', hmod]
  exact Nat.mod_add_div _ _

theorem toNat_lt (w : Word) : w.toNat < 2 ^ 256 := by
  have h₀ := w.limb0.toNat_lt
  have h₁ := w.limb1.toNat_lt
  have h₂ := w.limb2.toNat_lt
  have h₃ := w.limb3.toNat_lt
  have hbase : limbBase = 2 ^ 64 := rfl
  rw [toNat, hbase]
  omega

theorem toNat_inj {a b : Word} : a.toNat = b.toNat ↔ a = b := by
  refine ⟨fun h => ?_, fun h => congrArg toNat h⟩
  obtain ⟨a₀, a₁, a₂, a₃⟩ := a
  obtain ⟨b₀, b₁, b₂, b₃⟩ := b
  have hbase : limbBase = 2 ^ 64 := rfl
  have ha₀ := a₀.toNat_lt
  have ha₁ := a₁.toNat_lt
  have ha₂ := a₂.toNat_lt
  have hb₀ := b₀.toNat_lt
  have hb₁ := b₁.toNat_lt
  have hb₂ := b₂.toNat_lt
  simp only [toNat, hbase] at h
  rw [mk.injEq, ← UInt64.toNat_inj, ← UInt64.toNat_inj, ← UInt64.toNat_inj, ← UInt64.toNat_inj]
  omega

/-- A product and a summand give a word if and only if the number fits. -/
theorem mulAdd?_eq (w : Word) (factor summand : Nat) :
    (w.mulAdd? factor summand).map toNat =
      if w.toNat * factor + summand < 2 ^ 256 then some (w.toNat * factor + summand)
      else none := by
  have hbase : limbBase = 2 ^ 64 := rfl
  have hw : w.toNat * factor = w.limb0.toNat * factor + limbBase * (w.limb1.toNat * factor
      + limbBase * (w.limb2.toNat * factor + limbBase * (w.limb3.toNat * factor))) := by
    rw [toNat]
    ring
  rw [mulAdd?]
  obtain ⟨limb0, carry0, h₀⟩ : ∃ l c, mulAddLimb w.limb0 factor summand = (l, c) := ⟨_, _, rfl⟩
  obtain ⟨limb1, carry1, h₁⟩ : ∃ l c, mulAddLimb w.limb1 factor carry0 = (l, c) := ⟨_, _, rfl⟩
  obtain ⟨limb2, carry2, h₂⟩ : ∃ l c, mulAddLimb w.limb2 factor carry1 = (l, c) := ⟨_, _, rfl⟩
  obtain ⟨limb3, carry3, h₃⟩ : ∃ l c, mulAddLimb w.limb3 factor carry2 = (l, c) := ⟨_, _, rfl⟩
  have e₀ := mulAddLimb_eq w.limb0 factor summand
  have e₁ := mulAddLimb_eq w.limb1 factor carry0
  have e₂ := mulAddLimb_eq w.limb2 factor carry1
  have e₃ := mulAddLimb_eq w.limb3 factor carry2
  rw [h₀] at e₀
  rw [h₁] at e₁
  rw [h₂] at e₂
  rw [h₃] at e₃
  simp only [h₀, h₁, h₂, h₃]
  have hlt₀ := limb0.toNat_lt
  have hlt₁ := limb1.toNat_lt
  have hlt₂ := limb2.toNat_lt
  have hlt₃ := limb3.toNat_lt
  rw [hbase] at hw e₀ e₁ e₂ e₃
  have htotal : w.toNat * factor + summand = limb0.toNat + 2 ^ 64 * (limb1.toNat
      + 2 ^ 64 * (limb2.toNat + 2 ^ 64 * (limb3.toNat + 2 ^ 64 * carry3))) := by
    dsimp only at e₀ e₁ e₂ e₃
    omega
  by_cases hcarry : carry3 = 0
  · subst hcarry
    rw [if_pos rfl, Option.map_some, toNat, if_pos (by omega), htotal, hbase]
    rfl
  · rw [if_neg hcarry, Option.map_none, if_neg (by omega)]

theorem le_of_digits {radix : Nat} (hradix : 0 < radix) {n m : Nat} {cs : List Char}
    (h : cs.foldlM (fun n c => (Text.digit? radix c).map (n * radix + ·)) n = some m) : n ≤ m := by
  induction cs generalizing n with
  | nil => exact Nat.le_of_eq (Option.some.inj h)
  | cons c cs ih =>
    rw [List.foldlM_cons] at h
    cases hd : Text.digit? radix c with
    | none => simp [hd] at h
    | some d =>
      have hle := ih (by simpa [hd] using h)
      have hmul := Nat.le_mul_of_pos_right n hradix
      omega

/-- Digits read behind a word give the word of the number that they give behind its number, if this
fits. -/
theorem foldlM_mulAdd?_eq {radix : Nat} (hradix : 0 < radix) (w : Word) (cs : List Char) :
    (cs.foldlM (fun w c => (Text.digit? radix c).bind (w.mulAdd? radix ·)) w).map toNat =
      (cs.foldlM (fun n c => (Text.digit? radix c).map (n * radix + ·)) w.toNat).filter
        (· < 2 ^ 256) := by
  induction cs generalizing w with
  | nil => exact (Option.filter_some_pos (by simpa using w.toNat_lt)).symm
  | cons c cs ih =>
    rw [List.foldlM_cons, List.foldlM_cons]
    cases hd : Text.digit? radix c with
    | none => rfl
    | some d =>
      have hstep := w.mulAdd?_eq radix d
      simp only [Option.bind_some, Option.map_some, Option.bind_eq_bind] at hstep ⊢
      by_cases hfits : w.toNat * radix + d < 2 ^ 256
      · rw [if_pos hfits] at hstep
        obtain ⟨w', hw', hnumber⟩ := Option.map_eq_some_iff.mp hstep
        rw [hw', Option.bind_some, ← hnumber]
        exact ih w'
      · -- what follows only makes the number larger
        rw [if_neg hfits] at hstep
        rw [Option.map_eq_none_iff.mp hstep, Option.bind_none, Option.map_none]
        refine (Option.filter_eq_none_iff.mpr fun m hm => ?_).symm
        have hle := le_of_digits hradix hm
        simp only [decide_eq_true_eq]
        omega

theorem ofDigits?_eq {radix : Nat} (hradix : 0 < radix) (cs : List Char) :
    (ofDigits? radix cs).map toNat = (Text.numeral? radix cs).filter (· < 2 ^ 256) := by
  cases cs with
  | nil => rfl
  | cons c cs => exact foldlM_mulAdd?_eq hradix zero (c :: cs)

end Word

end Yul
