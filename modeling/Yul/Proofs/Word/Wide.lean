import Yul.Proofs.Word.Digits

/-!
# Words in arithmetic of 128 bits

`Word.mulAddLimb` multiplies and adds natural numbers. On a machine a limb is widened to 128 bits
first, and a product or a sum that does not fit would lose its upper bits. `Word.wideDigits?` reads
digits in this arithmetic and stops at the first operation that overflows. None ever does, and the
outcome is that of `Word.ofDigits?` (`wideDigits?_eq`).
-/

namespace Yul

namespace Word

/-- A limb in 128 bits. -/
def widen (limb : UInt64) : BitVec 128 := limb.toBitVec.setWidth 128

/-- One limb of a product in 128 bits, as `mulAddLimb`; none if the product or the sum overflows. -/
def wideLimb? (limb factor : UInt64) (carry : BitVec 128) : Option (UInt64 × BitVec 128) :=
  if (widen limb).umulOverflow (widen factor) then none
  else if (widen limb * widen factor).uaddOverflow carry then none
  else
    let wide := widen limb * widen factor + carry
    some (⟨wide.setWidth 64⟩, wide >>> 64)

/-- `w * factor + summand` in 128 bits, as `mulAdd?`; none if an operation overflows. -/
def wideMulAdd? (w : Word) (factor summand : UInt64) : Option (Option Word) := do
  let (limb0, carry0) ← wideLimb? w.limb0 factor (widen summand)
  let (limb1, carry1) ← wideLimb? w.limb1 factor carry0
  let (limb2, carry2) ← wideLimb? w.limb2 factor carry1
  let (limb3, carry3) ← wideLimb? w.limb3 factor carry2
  return if carry3 = 0 then some ⟨limb0, limb1, limb2, limb3⟩ else none

/-- Digits read behind `w` in 128 bits; none if an operation overflows. -/
def wideFold? (radix : Nat) (w : Word) : List Char → Option (Option Word)
  | [] => some (some w)
  | c :: cs =>
    match Text.digit? radix c with
    | none => some none
    | some d => do
      match ← wideMulAdd? w (UInt64.ofNat radix) (UInt64.ofNat d) with
      | none => return none
      | some w => wideFold? radix w cs

/-- Digits read in 128 bits, as `ofDigits?`; none if an operation overflows. -/
def wideDigits? (radix : Nat) : List Char → Option (Option Word)
  | [] => some none
  | cs => wideFold? radix zero cs

theorem toNat_widen (limb : UInt64) : (widen limb).toNat = limb.toNat := by
  have hlt := limb.toNat_lt
  rw [widen, BitVec.toNat_setWidth, UInt64.toNat_toBitVec]
  exact Nat.mod_eq_of_lt (by omega)

theorem mul_add_lt {limb factor carry : Nat} (hlimb : limb < 2 ^ 64) (hfactor : factor < 2 ^ 64)
    (hcarry : carry < 2 ^ 64) : limb * factor + carry < 2 ^ 128 := by
  have hmul : limb * factor ≤ (2 ^ 64 - 1) * (2 ^ 64 - 1) :=
    Nat.mul_le_mul (by omega) (by omega)
  omega

theorem wideLimb?_eq (limb factor : UInt64) {carry : BitVec 128} (hcarry : carry.toNat < 2 ^ 64) :
    ∃ carry' : BitVec 128, carry'.toNat < 2 ^ 64 ∧
      wideLimb? limb factor carry =
        some ((mulAddLimb limb factor.toNat carry.toNat).1, carry') ∧
      carry'.toNat = (mulAddLimb limb factor.toNat carry.toNat).2 := by
  have hlt := mul_add_lt limb.toNat_lt factor.toNat_lt hcarry
  have hmul : (widen limb * widen factor).toNat = limb.toNat * factor.toNat := by
    rw [BitVec.toNat_mul, toNat_widen, toNat_widen]
    exact Nat.mod_eq_of_lt (by omega)
  have hsum : (widen limb * widen factor + carry).toNat =
      limb.toNat * factor.toNat + carry.toNat := by
    rw [BitVec.toNat_add, hmul]
    exact Nat.mod_eq_of_lt hlt
  have hproduct : ¬(widen limb).umulOverflow (widen factor) = true := by
    rw [BitVec.umulOverflow, toNat_widen, toNat_widen, decide_eq_true_eq]
    omega
  have htotal : ¬(widen limb * widen factor).uaddOverflow carry = true := by
    rw [BitVec.uaddOverflow, hmul, decide_eq_true_eq]
    omega
  refine ⟨(widen limb * widen factor + carry) >>> 64, ?_, ?_, ?_⟩
  · rw [BitVec.toNat_ushiftRight, hsum, Nat.shiftRight_eq_div_pow]
    omega
  · rw [wideLimb?, if_neg hproduct, if_neg htotal, mulAddLimb]
    refine congrArg (fun l => some (l, _)) (UInt64.toNat_inj.mp ?_)
    show ((widen limb * widen factor + carry).setWidth 64).toNat = _
    rw [BitVec.toNat_setWidth, hsum, UInt64.toNat_ofNat']
    exact (Nat.mod_mod _ _).symm
  · rw [BitVec.toNat_ushiftRight, hsum, Nat.shiftRight_eq_div_pow]
    rfl

theorem wideMulAdd?_eq (w : Word) (factor summand : UInt64) :
    wideMulAdd? w factor summand = some (w.mulAdd? factor.toNat summand.toNat) := by
  have hsummand : (widen summand).toNat < 2 ^ 64 := by
    rw [toNat_widen]
    exact summand.toNat_lt
  obtain ⟨carry0, hlt₀, hlimb₀, hcarry₀⟩ := wideLimb?_eq w.limb0 factor hsummand
  obtain ⟨carry1, hlt₁, hlimb₁, hcarry₁⟩ := wideLimb?_eq w.limb1 factor hlt₀
  obtain ⟨carry2, hlt₂, hlimb₂, hcarry₂⟩ := wideLimb?_eq w.limb2 factor hlt₁
  obtain ⟨carry3, hlt₃, hlimb₃, hcarry₃⟩ := wideLimb?_eq w.limb3 factor hlt₂
  have hzero : carry3 = 0 ↔ carry3.toNat = 0 := BitVec.toNat_inj.symm
  simp only [wideMulAdd?, hlimb₀, hlimb₁, hlimb₂, hlimb₃, Option.bind_eq_bind, Option.bind_some,
    Option.pure_def, mulAdd?, hzero, hcarry₃, hcarry₂, hcarry₁, hcarry₀, toNat_widen]

theorem wideFold?_eq {radix : Nat} (hradix : radix < 2 ^ 64) (w : Word) (cs : List Char) :
    wideFold? radix w cs =
      some (cs.foldlM (fun w c => (Text.digit? radix c).bind (w.mulAdd? radix ·)) w) := by
  have hword {n : Nat} (hn : n < 2 ^ 64) : (UInt64.ofNat n).toNat = n := by
    rw [UInt64.toNat_ofNat']
    exact Nat.mod_eq_of_lt hn
  induction cs generalizing w with
  | nil => rfl
  | cons c cs ih =>
    rw [wideFold?, List.foldlM_cons]
    cases hd : Text.digit? radix c with
    | none => rfl
    | some d =>
      have hlt : d < radix := by
        simpa using (Option.filter_eq_some_iff.mp hd).2
      dsimp only
      rw [wideMulAdd?_eq, hword hradix, hword (Nat.lt_trans hlt hradix), Option.bind_some]
      cases hw : w.mulAdd? radix d with
      | none => rfl
      | some w' => exact ih w'

/-- Reading digits never overflows 128 bits and gives what `ofDigits?` gives. -/
theorem wideDigits?_eq {radix : Nat} (hradix : radix < 2 ^ 64) (cs : List Char) :
    wideDigits? radix cs = some (ofDigits? radix cs) := by
  cases cs with
  | nil => rfl
  | cons c cs => exact wideFold?_eq hradix zero (c :: cs)

end Word

end Yul
