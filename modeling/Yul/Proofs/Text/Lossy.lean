import Mathlib.Tactic.Ring
import Yul.Text.Utf8

/-!
# Bytes that are UTF-8

`IsUtf8` says that bytes are those of a text. Reading such bytes gives the text back
(`decodeFrom_flatMap`), so they are told apart by the texts they are read as. Other bytes are read
with a replacement character in them (`isUtf8_of_replacement_notMem`), and different ones may be read
as one text. Bytes are read piece by piece if an ASCII byte stands between the pieces.
-/

namespace Yul.Text

/-- The bytes of a text. -/
def IsUtf8 (bytes : List UInt8) : Prop :=
  ∃ cs : List Char, bytes = cs.flatMap encodeChar

/-! ## One character -/

section Lead

variable {b : UInt8}

theorem lead_one (h : b.toNat < 0x80) : lead b = .whole (Char.ofNat b.toNat) :=
  if_pos h

theorem lead_two (h : 0xC2 ≤ b.toNat ∧ b.toNat < 0xE0) :
    lead b = .begun ⟨1, 0x80, 0xBF, b.toNat - 0xC0⟩ := by
  unfold lead
  rw [if_neg (by omega), if_neg (by omega), if_pos h.2]

theorem lead_three (h : 0xE0 ≤ b.toNat ∧ b.toNat < 0xF0) :
    lead b = .begun ⟨2, if b.toNat = 0xE0 then 0xA0 else 0x80,
      if b.toNat = 0xED then 0x9F else 0xBF, b.toNat - 0xE0⟩ := by
  unfold lead
  rw [if_neg (by omega), if_neg (by omega), if_neg (by omega), if_pos h.2]

theorem lead_four (h : 0xF0 ≤ b.toNat ∧ b.toNat < 0xF5) :
    lead b = .begun ⟨3, if b.toNat = 0xF0 then 0x90 else 0x80,
      if b.toNat = 0xF4 then 0x8F else 0xBF, b.toNat - 0xF0⟩ := by
  unfold lead
  rw [if_neg (by omega), if_neg (by omega), if_neg (by omega), if_neg (by omega), if_pos h.2]

theorem lead_bad (h : 0x80 ≤ b.toNat ∧ b.toNat < 0xC2 ∨ 0xF5 ≤ b.toNat) : lead b = .bad := by
  unfold lead
  by_cases hlow : b.toNat < 0xC2
  · rw [if_neg (by omega), if_pos hlow]
  · rw [if_neg (by omega), if_neg hlow, if_neg (by omega), if_neg (by omega), if_neg (by omega)]

end Lead

section Steps

variable {owed least greatest bits : Nat} {b : UInt8} (bs : List UInt8)

theorem decodeFrom_begun {p : Partial} (h : lead b = .begun p) :
    decodeFrom none (b :: bs) = decodeFrom (some p) bs := by
  rw [decodeFrom, decodeFrom.restart, h]

theorem decodeFrom_last (hb : least ≤ b.toNat ∧ b.toNat ≤ greatest) :
    decodeFrom (some ⟨1, least, greatest, bits⟩) (b :: bs) =
      Char.ofNat (bits * 64 + (b.toNat - 0x80)) :: decodeFrom none bs := by
  rw [decodeFrom, if_pos hb]
  exact if_pos (Nat.le_refl 1)

theorem decodeFrom_next (hb : least ≤ b.toNat ∧ b.toNat ≤ greatest) :
    decodeFrom (some ⟨owed + 2, least, greatest, bits⟩) (b :: bs) =
      decodeFrom (some ⟨owed + 1, 0x80, 0xBF, bits * 64 + (b.toNat - 0x80)⟩) bs := by
  rw [decodeFrom, if_pos hb]
  exact if_neg (by show ¬owed + 2 ≤ 1; omega)

theorem decodeFrom_broken (hb : ¬(least ≤ b.toNat ∧ b.toNat ≤ greatest)) :
    decodeFrom (some ⟨owed, least, greatest, bits⟩) (b :: bs) =
      replacement :: decodeFrom none (b :: bs) := by
  have hrestart : decodeFrom none (b :: bs) = decodeFrom.restart b bs := by rw [decodeFrom]
  rw [hrestart, decodeFrom, if_neg hb]

end Steps

/-! ## Characters of several bytes -/

/-- A byte that goes on with a character. -/
def IsTail (b : UInt8) : Prop :=
  0x80 ≤ b.toNat ∧ b.toNat ≤ 0xBF

/-- The second byte of a character of three bytes. -/
def IsSecondOfThree (b₁ b₂ : UInt8) : Prop :=
  (if b₁.toNat = 0xE0 then 0xA0 else 0x80) ≤ b₂.toNat ∧
    b₂.toNat ≤ if b₁.toNat = 0xED then 0x9F else 0xBF

/-- The second byte of a character of four bytes. -/
def IsSecondOfFour (b₁ b₂ : UInt8) : Prop :=
  (if b₁.toNat = 0xF0 then 0x90 else 0x80) ≤ b₂.toNat ∧
    b₂.toNat ≤ if b₁.toNat = 0xF4 then 0x8F else 0xBF

section Several

variable {b₁ b₂ b₃ b₄ : UInt8} (bs : List UInt8)

theorem decodeFrom_two (h₁ : 0xC2 ≤ b₁.toNat ∧ b₁.toNat < 0xE0) (h₂ : IsTail b₂) :
    decodeFrom none (b₁ :: b₂ :: bs) =
      Char.ofNat ((b₁.toNat - 0xC0) * 64 + (b₂.toNat - 0x80)) :: decodeFrom none bs := by
  rw [decodeFrom_begun _ (lead_two h₁)]
  exact decodeFrom_last bs h₂

theorem decodeFrom_three (h₁ : 0xE0 ≤ b₁.toNat ∧ b₁.toNat < 0xF0) (h₂ : IsSecondOfThree b₁ b₂)
    (h₃ : IsTail b₃) :
    decodeFrom none (b₁ :: b₂ :: b₃ :: bs) =
      Char.ofNat (((b₁.toNat - 0xE0) * 64 + (b₂.toNat - 0x80)) * 64 + (b₃.toNat - 0x80)) ::
        decodeFrom none bs := by
  rw [decodeFrom_begun _ (lead_three h₁)]
  exact (decodeFrom_next _ h₂).trans (decodeFrom_last bs h₃)

theorem decodeFrom_four (h₁ : 0xF0 ≤ b₁.toNat ∧ b₁.toNat < 0xF5) (h₂ : IsSecondOfFour b₁ b₂)
    (h₃ : IsTail b₃) (h₄ : IsTail b₄) :
    decodeFrom none (b₁ :: b₂ :: b₃ :: b₄ :: bs) =
      Char.ofNat ((((b₁.toNat - 0xF0) * 64 + (b₂.toNat - 0x80)) * 64 + (b₃.toNat - 0x80)) * 64 +
        (b₄.toNat - 0x80)) :: decodeFrom none bs := by
  rw [decodeFrom_begun _ (lead_four h₁)]
  exact (decodeFrom_next _ h₂).trans ((decodeFrom_next _ h₃).trans (decodeFrom_last bs h₄))

end Several

/-! ## Bytes of a text -/

section Encode

variable {c : Char}

theorem encodeChar_one (h : c.toNat ≤ 127) : encodeChar c = [UInt8.ofNat c.toNat] :=
  if_pos h

theorem encodeChar_two (h : 127 < c.toNat ∧ c.toNat ≤ 2047) :
    encodeChar c = [UInt8.ofNat (c.toNat / 64 % 32 + 192), UInt8.ofNat (c.toNat % 64 + 128)] :=
  (if_neg (Nat.not_le.mpr h.1)).trans (if_pos h.2)

theorem encodeChar_three (h : 2047 < c.toNat ∧ c.toNat ≤ 65535) :
    encodeChar c = [UInt8.ofNat (c.toNat / 4096 % 16 + 224), UInt8.ofNat (c.toNat / 64 % 64 + 128),
      UInt8.ofNat (c.toNat % 64 + 128)] := by
  have hlow : ¬c.toNat ≤ 127 := by omega
  exact (if_neg hlow).trans ((if_neg (Nat.not_le.mpr h.1)).trans (if_pos h.2))

theorem encodeChar_four (h : 65535 < c.toNat) :
    encodeChar c = [UInt8.ofNat (c.toNat / 262144 % 8 + 240),
      UInt8.ofNat (c.toNat / 4096 % 64 + 128), UInt8.ofNat (c.toNat / 64 % 64 + 128),
      UInt8.ofNat (c.toNat % 64 + 128)] := by
  have hlow : ¬c.toNat ≤ 127 := by omega
  have hmiddle : ¬c.toNat ≤ 2047 := by omega
  exact (if_neg hlow).trans ((if_neg hmiddle).trans (if_neg (Nat.not_le.mpr h)))

end Encode

theorem toNat_byte {n : Nat} (h : n < 256) : (UInt8.ofNat n).toNat = n :=
  UInt8.toNat_ofNat_of_lt h

theorem decodeFrom_encodeChar (c : Char) (bs : List UInt8) :
    decodeFrom none (encodeChar c ++ bs) = c :: decodeFrom none bs := by
  have hvalid : c.toNat < 0xD800 ∨ 0xDFFF < c.toNat ∧ c.toNat < 0x110000 := c.valid
  -- the last byte, and where they stand the one and the two before it
  have hlast := toNat_byte (n := c.toNat % 64 + 128) (by omega)
  have hmiddle := toNat_byte (n := c.toNat / 64 % 64 + 128) (by omega)
  have hsecond := toNat_byte (n := c.toNat / 4096 % 64 + 128) (by omega)
  by_cases hone : c.toNat ≤ 127
  · have hbyte := toNat_byte (n := c.toNat) (by omega)
    rw [encodeChar_one hone, List.singleton_append, decodeFrom, decodeFrom.restart,
      lead_one (by omega), hbyte, Char.ofNat_toNat]
  by_cases htwo : c.toNat ≤ 2047
  · have hfirst := toNat_byte (n := c.toNat / 64 % 32 + 192) (by omega)
    rw [encodeChar_two ⟨by omega, htwo⟩]
    have hbits : (c.toNat / 64 % 32 + 192 - 0xC0) * 64 + (c.toNat % 64 + 128 - 0x80) = c.toNat := by
      omega
    refine (decodeFrom_two bs (by omega) ⟨by omega, by omega⟩).trans ?_
    rw [hfirst, hlast, hbits, Char.ofNat_toNat]
  by_cases hthree : c.toNat ≤ 65535
  · have hfirst := toNat_byte (n := c.toNat / 4096 % 16 + 224) (by omega)
    rw [encodeChar_three ⟨by omega, hthree⟩]
    have hrange : IsSecondOfThree (.ofNat (c.toNat / 4096 % 16 + 224))
        (.ofNat (c.toNat / 64 % 64 + 128)) := by
      unfold IsSecondOfThree
      rw [hfirst, hmiddle]
      constructor <;> split <;> omega
    have hbits : ((c.toNat / 4096 % 16 + 224 - 0xE0) * 64 + (c.toNat / 64 % 64 + 128 - 0x80)) * 64 +
        (c.toNat % 64 + 128 - 0x80) = c.toNat := by
      omega
    refine (decodeFrom_three bs (by omega) hrange ⟨by omega, by omega⟩).trans ?_
    rw [hfirst, hmiddle, hlast, hbits, Char.ofNat_toNat]
  · have hfirst := toNat_byte (n := c.toNat / 262144 % 8 + 240) (by omega)
    rw [encodeChar_four (by omega)]
    have hrange : IsSecondOfFour (.ofNat (c.toNat / 262144 % 8 + 240))
        (.ofNat (c.toNat / 4096 % 64 + 128)) := by
      unfold IsSecondOfFour
      rw [hfirst, hsecond]
      constructor <;> split <;> omega
    have hbits : (((c.toNat / 262144 % 8 + 240 - 0xF0) * 64 + (c.toNat / 4096 % 64 + 128 - 0x80)) *
        64 + (c.toNat / 64 % 64 + 128 - 0x80)) * 64 + (c.toNat % 64 + 128 - 0x80) = c.toNat := by
      omega
    refine (decodeFrom_four bs (by omega) hrange ⟨by omega, by omega⟩ ⟨by omega, by omega⟩).trans ?_
    rw [hfirst, hsecond, hmiddle, hlast, hbits, Char.ofNat_toNat]

theorem decodeFrom_flatMap (cs : List Char) : decodeFrom none (cs.flatMap encodeChar) = cs := by
  induction cs with
  | nil => rw [List.flatMap_nil, decodeFrom]
  | cons c cs ih => rw [List.flatMap_cons, decodeFrom_encodeChar, ih]

/-- Bytes that are UTF-8 are told apart by the texts that they are read as. -/
theorem IsUtf8.eq_of_decodeLossy_eq {as bs : List UInt8} (ha : IsUtf8 as) (hb : IsUtf8 bs)
    (h : decodeLossy as = decodeLossy bs) : as = bs := by
  obtain ⟨cs, rfl⟩ := ha
  obtain ⟨ds, rfl⟩ := hb
  have hchars := String.ofList_injective h
  rw [decodeFrom_flatMap, decodeFrom_flatMap] at hchars
  rw [hchars]

/-! ## Bytes that are read without a replacement -/

theorem toNat_ofNat {n : Nat} (h : n.isValidChar) : (Char.ofNat n).toNat = n := by
  rw [Char.ofNat, dif_pos h]
  rfl

theorem IsUtf8.nil : IsUtf8 [] :=
  ⟨[], rfl⟩

theorem IsUtf8.behind {c : Char} {front bs : List UInt8} (h : IsUtf8 bs)
    (hfront : encodeChar c = front) : IsUtf8 (front ++ bs) := by
  obtain ⟨cs, rfl⟩ := h
  exact ⟨c :: cs, by rw [List.flatMap_cons, hfront]⟩

theorem ofNat_byte {n : Nat} {b : UInt8} (h : n = b.toNat) : UInt8.ofNat n = b := by
  rw [h, UInt8.ofNat_toNat]

section Several

variable {b₁ b₂ b₃ b₄ : UInt8}

theorem encodeChar_bits_two (h₁ : 0xC2 ≤ b₁.toNat ∧ b₁.toNat < 0xE0) (h₂ : IsTail b₂) :
    encodeChar (Char.ofNat ((b₁.toNat - 0xC0) * 64 + (b₂.toNat - 0x80))) = [b₁, b₂] := by
  unfold IsTail at h₂
  have hn := toNat_ofNat (n := (b₁.toNat - 0xC0) * 64 + (b₂.toNat - 0x80)) (.inl (by omega))
  rw [encodeChar_two (by omega), hn, ofNat_byte (b := b₁) (by omega),
    ofNat_byte (b := b₂) (by omega)]

theorem encodeChar_bits_three (h₁ : 0xE0 ≤ b₁.toNat ∧ b₁.toNat < 0xF0)
    (h₂ : IsSecondOfThree b₁ b₂) (h₃ : IsTail b₃) :
    encodeChar (Char.ofNat (((b₁.toNat - 0xE0) * 64 + (b₂.toNat - 0x80)) * 64 +
      (b₃.toNat - 0x80))) = [b₁, b₂, b₃] := by
  unfold IsTail at h₃
  have hsecond : 0x80 ≤ b₂.toNat ∧ b₂.toNat ≤ 0xBF ∧ (b₁.toNat = 0xE0 → 0xA0 ≤ b₂.toNat) ∧
      (b₁.toNat = 0xED → b₂.toNat ≤ 0x9F) := by
    unfold IsSecondOfThree at h₂
    split at h₂ <;> split at h₂ <;> omega
  have hn := toNat_ofNat
    (n := ((b₁.toNat - 0xE0) * 64 + (b₂.toNat - 0x80)) * 64 + (b₃.toNat - 0x80))
    (by unfold Nat.isValidChar; omega)
  rw [encodeChar_three (by omega), hn, ofNat_byte (b := b₁) (by omega),
    ofNat_byte (b := b₂) (by omega), ofNat_byte (b := b₃) (by omega)]

theorem encodeChar_bits_four (h₁ : 0xF0 ≤ b₁.toNat ∧ b₁.toNat < 0xF5)
    (h₂ : IsSecondOfFour b₁ b₂) (h₃ : IsTail b₃) (h₄ : IsTail b₄) :
    encodeChar (Char.ofNat ((((b₁.toNat - 0xF0) * 64 + (b₂.toNat - 0x80)) * 64 +
      (b₃.toNat - 0x80)) * 64 + (b₄.toNat - 0x80))) = [b₁, b₂, b₃, b₄] := by
  unfold IsTail at h₃ h₄
  have hsecond : 0x80 ≤ b₂.toNat ∧ b₂.toNat ≤ 0xBF ∧ (b₁.toNat = 0xF0 → 0x90 ≤ b₂.toNat) ∧
      (b₁.toNat = 0xF4 → b₂.toNat ≤ 0x8F) := by
    unfold IsSecondOfFour at h₂
    split at h₂ <;> split at h₂ <;> omega
  have hn := toNat_ofNat
    (n := (((b₁.toNat - 0xF0) * 64 + (b₂.toNat - 0x80)) * 64 + (b₃.toNat - 0x80)) * 64 +
      (b₄.toNat - 0x80)) (by unfold Nat.isValidChar; omega)
  rw [encodeChar_four (by omega), hn, ofNat_byte (b := b₁) (by omega),
    ofNat_byte (b := b₂) (by omega), ofNat_byte (b := b₃) (by omega),
    ofNat_byte (b := b₄) (by omega)]

end Several

/-- A character that is begun without leaving a replacement goes on with a byte in its range. -/
theorem exists_of_replacement_notMem {owed least greatest bits : Nat} {bs : List UInt8}
    (h : replacement ∉ decodeFrom (some ⟨owed, least, greatest, bits⟩) bs) :
    ∃ b rest, bs = b :: rest ∧ least ≤ b.toNat ∧ b.toNat ≤ greatest := by
  cases bs with
  | nil =>
    rw [decodeFrom] at h
    exact absurd List.mem_cons_self h
  | cons b rest =>
    by_cases hb : least ≤ b.toNat ∧ b.toNat ≤ greatest
    · exact ⟨b, rest, rfl, hb⟩
    · rw [decodeFrom_broken _ hb] at h
      exact absurd List.mem_cons_self h

theorem isUtf8_of_replacement_notMem {bytes : List UInt8}
    (h : replacement ∉ decodeFrom none bytes) : IsUtf8 bytes := by
  match bytes with
  | [] => exact .nil
  | b₁ :: bs =>
    by_cases hone : b₁.toNat < 0x80
    · rw [decodeFrom, decodeFrom.restart, lead_one hone, List.mem_cons, not_or] at h
      have hn := toNat_ofNat (n := b₁.toNat) (.inl (by omega))
      have hchar := encodeChar_one (c := Char.ofNat b₁.toNat) (by omega)
      rw [hn, UInt8.ofNat_toNat] at hchar
      exact (isUtf8_of_replacement_notMem h.2).behind hchar
    by_cases htwo : 0xC2 ≤ b₁.toNat ∧ b₁.toNat < 0xE0
    · rw [decodeFrom_begun _ (lead_two htwo)] at h
      obtain ⟨b₂, bs, rfl, h₂⟩ := exists_of_replacement_notMem h
      rw [decodeFrom_last _ h₂, List.mem_cons, not_or] at h
      exact (isUtf8_of_replacement_notMem h.2).behind (encodeChar_bits_two htwo h₂)
    by_cases hthree : 0xE0 ≤ b₁.toNat ∧ b₁.toNat < 0xF0
    · rw [decodeFrom_begun _ (lead_three hthree)] at h
      obtain ⟨b₂, bs, rfl, h₂⟩ := exists_of_replacement_notMem h
      rw [decodeFrom_next _ h₂] at h
      obtain ⟨b₃, bs, rfl, h₃⟩ := exists_of_replacement_notMem h
      rw [decodeFrom_last _ h₃, List.mem_cons, not_or] at h
      exact (isUtf8_of_replacement_notMem h.2).behind (encodeChar_bits_three hthree h₂ h₃)
    by_cases hfour : 0xF0 ≤ b₁.toNat ∧ b₁.toNat < 0xF5
    · rw [decodeFrom_begun _ (lead_four hfour)] at h
      obtain ⟨b₂, bs, rfl, h₂⟩ := exists_of_replacement_notMem h
      rw [decodeFrom_next _ h₂] at h
      obtain ⟨b₃, bs, rfl, h₃⟩ := exists_of_replacement_notMem h
      rw [decodeFrom_next _ h₃] at h
      obtain ⟨b₄, bs, rfl, h₄⟩ := exists_of_replacement_notMem h
      rw [decodeFrom_last _ h₄, List.mem_cons, not_or] at h
      exact (isUtf8_of_replacement_notMem h.2).behind (encodeChar_bits_four hfour h₂ h₃ h₄)
    · rw [decodeFrom, decodeFrom.restart, lead_bad (by omega)] at h
      exact absurd List.mem_cons_self h
termination_by bytes.length

/-! ## Pieces -/

/-- A character that is begun cannot go on with an ASCII byte. -/
def Proper (state : Option Partial) : Prop :=
  ∀ p, state = some p → 0x80 ≤ p.least

theorem proper_none : Proper none :=
  fun _ h => nomatch h

theorem proper_some {p : Partial} (h : 0x80 ≤ p.least) : Proper (some p) := by
  intro q hq
  obtain rfl := Option.some.inj hq
  exact h

theorem proper_of_begun {b : UInt8} {p : Partial} (h : lead b = .begun p) : Proper (some p) := by
  refine proper_some ?_
  by_cases hone : b.toNat < 0x80
  · rw [lead_one hone] at h
    cases h
  by_cases htwo : 0xC2 ≤ b.toNat ∧ b.toNat < 0xE0
  · obtain rfl := Lead.begun.inj ((lead_two htwo).symm.trans h)
    exact Nat.le_refl 0x80
  by_cases hthree : 0xE0 ≤ b.toNat ∧ b.toNat < 0xF0
  · obtain rfl := Lead.begun.inj ((lead_three hthree).symm.trans h)
    dsimp only
    split <;> decide
  by_cases hfour : 0xF0 ≤ b.toNat ∧ b.toNat < 0xF5
  · obtain rfl := Lead.begun.inj ((lead_four hfour).symm.trans h)
    dsimp only
    split <;> decide
  · rw [lead_bad (by omega)] at h
    cases h

/-- An ASCII byte and what stands behind it are read on their own. -/
theorem decodeFrom_split {b : UInt8} (hb : b.toNat < 0x80) (bs : List UInt8) {state : Option Partial}
    (hstate : Proper state) (as : List UInt8) :
    decodeFrom state (as ++ b :: bs) =
      decodeFrom state as ++ Char.ofNat b.toNat :: decodeFrom none bs := by
  induction as generalizing state with
  | nil =>
    have hstart : decodeFrom none (b :: bs) = Char.ofNat b.toNat :: decodeFrom none bs := by
      rw [decodeFrom, decodeFrom.restart, lead_one hb]
    cases state with
    | none => rw [List.nil_append, hstart, decodeFrom, List.nil_append]
    | some p =>
      have hleast := hstate p rfl
      rw [List.nil_append, decodeFrom_broken _ (by omega), hstart, decodeFrom]
      rfl
  | cons a as ih =>
    have hrestart : decodeFrom.restart a (as ++ b :: bs) =
        decodeFrom.restart a as ++ Char.ofNat b.toNat :: decodeFrom none bs := by
      unfold decodeFrom.restart
      cases hlead : lead a with
      | whole c => exact congrArg (c :: ·) (ih proper_none)
      | begun p => exact ih (proper_of_begun hlead)
      | bad => exact congrArg (replacement :: ·) (ih proper_none)
    cases state with
    | none => rw [List.cons_append, decodeFrom, decodeFrom, hrestart]
    | some p =>
      rw [List.cons_append, decodeFrom, decodeFrom]
      by_cases ha : p.least ≤ a.toNat ∧ a.toNat ≤ p.greatest
      · rw [if_pos ha, if_pos ha]
        dsimp only
        by_cases howed : p.owed ≤ 1
        · rw [if_pos howed, if_pos howed, ih proper_none, List.cons_append]
        · rw [if_neg howed, if_neg howed]
          have hproper : Proper (some ⟨p.owed - 1, 0x80, 0xBF, p.bits * 64 + (a.toNat - 0x80)⟩) :=
            proper_some (Nat.le_refl 0x80)
          exact ih hproper
      · rw [if_neg ha, if_neg ha, hrestart]
        rfl

end Yul.Text
