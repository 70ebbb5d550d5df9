import Yul.Proofs.Text.Digits
import Yul.Proofs.Text.Lossy
import Yul.Text.Escape

/-!
# Escapes in strings

`DenotesBytes Digits cs bytes` says by rules which bytes the characters `cs` between two quotes
denote, and `DenotesPairs` does so for pairs of digits. The rules do not say which rows of digits an
escape may have; `Digits` does. The digits that are read are `LooseDigits`: the end of the string may
cut them short, and a plus sign may stand in place of the first of them. So all strings with
`FullDigits` are read as they should be, and some others are read besides.
-/

namespace Yul

theorem eq_ok_of_bind {ε α β : Type} {x : Except ε α} {f : α → Except ε β} {b : β}
    (h : x >>= f = .ok b) : ∃ a, x = .ok a ∧ f a = .ok b := by
  cases x with
  | ok a => exact ⟨a, rfl, h⟩
  | error => exact nomatch h

namespace Text

/-! ## The rules -/

/-- The marks that stand for one byte behind a backslash. -/
def escapeMarks : List (Char × UInt8) :=
  [('n', 10), ('r', 13), ('t', 9), ('\\', 92), ('"', 34), ('\'', 39)]

/-- As many hexadecimal digits as the escape asks for, and the number that they denote. -/
def FullDigits (width : Nat) (ds _rest : List Char) (n : Nat) : Prop :=
  ds.length = width ∧ Denotes 16 ds n

/-- As many characters as the escape asks for, or all that are left: hexadecimal digits, maybe
behind a plus sign. -/
def LooseDigits (width : Nat) (ds rest : List Char) (n : Nat) : Prop :=
  (ds.length = width ∨ ds.length < width ∧ rest = []) ∧
    ∃ digits, digits ≠ [] ∧ (ds = digits ∨ ds = '+' :: digits) ∧ Denotes 16 digits n

section Rules

-- `Digits width ds rest n`: in front of `rest`, `ds` are the digits of an escape that asks for
-- `width` of them, and they denote `n`
variable (Digits : Nat → List Char → List Char → Nat → Prop)

/-- An escape behind its backslash, its bytes, and what stands behind it. -/
inductive DenotesEscape : List Char → List UInt8 → List Char → Prop where
  | mark {c : Char} {b : UInt8} {rest : List Char} (h : (c, b) ∈ escapeMarks) :
      DenotesEscape (c :: rest) [b] rest
  | byte {ds rest : List Char} {b : UInt8} (h : Digits 2 ds rest b.toNat) :
      DenotesEscape ('x' :: (ds ++ rest)) [b] rest
  | char {ds rest : List Char} {c : Char} (h : Digits 4 ds rest c.toNat) :
      DenotesEscape ('u' :: (ds ++ rest)) (encodeChar c) rest

/-- The characters between two quotes, and the bytes that they denote. -/
inductive DenotesBytes : List Char → List UInt8 → Prop where
  | nil : DenotesBytes [] []
  | plain {c : Char} {cs : List Char} {bytes : List UInt8} (hc : c ≠ '\\')
      (h : DenotesBytes cs bytes) : DenotesBytes (c :: cs) (encodeChar c ++ bytes)
  | escape {cs rest : List Char} {bytes more : List UInt8} (h : DenotesEscape Digits cs bytes rest)
      (hrest : DenotesBytes rest more) : DenotesBytes ('\\' :: cs) (bytes ++ more)

/-- Pairs of digits, and the bytes that they denote. -/
inductive DenotesPairs : List Char → List UInt8 → Prop where
  | nil : DenotesPairs [] []
  | cons {x y : Char} {cs : List Char} {b : UInt8} {bytes : List UInt8}
      (h : Digits 2 [x, y] cs b.toNat) (hrest : DenotesPairs cs bytes) :
      DenotesPairs (x :: y :: cs) (b :: bytes)

end Rules

section Mono

variable {Digits Digits' : Nat → List Char → List Char → Nat → Prop}
  (hdigits : ∀ width ds rest n, width ≠ 0 → Digits width ds rest n → Digits' width ds rest n)

include hdigits

theorem DenotesEscape.mono {cs rest : List Char} {bytes : List UInt8}
    (h : DenotesEscape Digits cs bytes rest) : DenotesEscape Digits' cs bytes rest := by
  cases h with
  | mark h => exact .mark h
  | byte h => exact .byte (hdigits _ _ _ _ (by decide) h)
  | char h => exact .char (hdigits _ _ _ _ (by decide) h)

theorem DenotesBytes.mono {cs : List Char} {bytes : List UInt8} (h : DenotesBytes Digits cs bytes) :
    DenotesBytes Digits' cs bytes := by
  induction h with
  | nil => exact .nil
  | plain hc _ ih => exact .plain hc ih
  | escape h _ ih => exact .escape (h.mono hdigits) ih

theorem DenotesPairs.mono {cs : List Char} {bytes : List UInt8} (h : DenotesPairs Digits cs bytes) :
    DenotesPairs Digits' cs bytes := by
  induction h with
  | nil => exact .nil
  | cons h _ ih => exact .cons (hdigits _ _ _ _ (by decide) h) ih

end Mono

/-! ## Digits of an escape -/

theorem take_drop_iff {width : Nat} {cs ds rest : List Char} :
    cs = ds ++ rest ∧ (ds.length = width ∨ ds.length < width ∧ rest = []) ↔
      ds = cs.take width ∧ rest = cs.drop width := by
  constructor
  · rintro ⟨rfl, hlength | ⟨hlength, rfl⟩⟩
    · rw [← hlength, List.take_left, List.drop_left]
      exact ⟨rfl, rfl⟩
    · rw [List.append_nil, List.take_of_length_le (by omega), List.drop_eq_nil_of_le (by omega)]
      exact ⟨rfl, rfl⟩
  · rintro ⟨rfl, rfl⟩
    refine ⟨(List.take_append_drop width cs).symm, ?_⟩
    rw [List.length_take, List.drop_eq_nil_iff]
    omega

theorem looseDigits_iff {width n : Nat} {cs rest : List Char} :
    (∃ ds, cs = ds ++ rest ∧ LooseDigits width ds rest n) ↔
      rest = cs.drop width ∧ signedNumeral? 16 (cs.take width) = some n := by
  unfold LooseDigits
  constructor
  · intro ⟨ds, hcs, hlength, hnumeral⟩
    obtain ⟨rfl, hrest⟩ := take_drop_iff.mp ⟨hcs, hlength⟩
    exact ⟨hrest, signedNumeral?_eq_some_iff.mpr hnumeral⟩
  · intro ⟨hrest, hnumeral⟩
    obtain ⟨hcs, hlength⟩ := take_drop_iff.mpr ⟨rfl, hrest⟩
    exact ⟨cs.take width, hcs, hlength, signedNumeral?_eq_some_iff.mp hnumeral⟩

theorem FullDigits.loose {width n : Nat} {ds rest : List Char} (hwidth : width ≠ 0)
    (h : FullDigits width ds rest n) : LooseDigits width ds rest n := by
  refine ⟨.inl h.1, ds, fun hds => hwidth ?_, .inl rfl, h.2⟩
  exact h.1.symm.trans (congrArg List.length hds)

/-- Digits that are loose are full if none is missing and there is no sign. -/
theorem fullDigits_iff {width n : Nat} {ds rest : List Char} (hwidth : width ≠ 0) :
    FullDigits width ds rest n ↔
      LooseDigits width ds rest n ∧ ds.length = width ∧ ds.head? ≠ some '+' := by
  constructor
  · intro h
    refine ⟨h.loose hwidth, h.1, fun hhead => ?_⟩
    obtain ⟨digits, hds⟩ := List.head?_eq_some_iff.mp hhead
    exact h.2.ne_plus digits hds
  · rintro ⟨⟨-, digits, -, rfl | rfl, h⟩, hlength, hhead⟩
    · exact ⟨hlength, h⟩
    · exact absurd rfl hhead

theorem LooseDigits.lt {width n : Nat} {ds rest : List Char} (h : LooseDigits width ds rest n) :
    n < 16 ^ width := by
  obtain ⟨hlength, digits, -, hds, hn⟩ := h
  have hle : digits.length ≤ ds.length := by
    rcases hds with rfl | rfl
    · exact Nat.le_refl _
    · exact Nat.le_succ _
  exact Nat.lt_of_lt_of_le (hn.lt (by decide)) (Nat.pow_le_pow_right (by decide) (by omega))

theorem LooseDigits.digits {width n : Nat} {ds rest : List Char} (h : LooseDigits width ds rest n) :
    ∀ d ∈ ds, d = '+' ∨ ∃ v, IsDigit 16 d v := by
  obtain ⟨-, digits, -, hds, hdenotes⟩ := h
  rcases hds with rfl | rfl
  · exact fun d hd => .inr (hdenotes.digits d hd)
  · exact List.forall_mem_cons.mpr ⟨.inl rfl, fun d hd => .inr (hdenotes.digits d hd)⟩

theorem charOfCode?_eq_some_iff {n : Nat} {c : Char} : charOfCode? n = some c ↔ c.toNat = n := by
  unfold charOfCode?
  split
  · next hvalid =>
    constructor
    · intro h
      obtain rfl := Option.some.inj h
      exact toNat_ofNat hvalid
    · rintro rfl
      rw [Char.ofNat_toNat]
  · next hvalid =>
    refine iff_of_false nofun ?_
    rintro rfl
    exact hvalid c.valid

/-! ## Reading escapes -/

theorem escape_mark {c : Char} {b : UInt8} (h : (c, b) ∈ escapeMarks) (rest : List Char) :
    escape (c :: rest) = .ok ([b], 1) := by
  simp only [escapeMarks, List.mem_cons, Prod.mk.injEq, List.not_mem_nil, or_false] at h
  rcases h with ⟨rfl, rfl⟩ | ⟨rfl, rfl⟩ | ⟨rfl, rfl⟩ | ⟨rfl, rfl⟩ | ⟨rfl, rfl⟩ | ⟨rfl, rfl⟩ <;> rfl

theorem DenotesEscape.of_byteDigits {cs : List Char} {n : Nat}
    (h : signedNumeral? 16 (cs.take 2) = some n) :
    DenotesEscape LooseDigits ('x' :: cs) [UInt8.ofNat n] (cs.drop 2) := by
  obtain ⟨ds, hcs, hds⟩ := looseDigits_iff.mpr ⟨rfl, h⟩
  have hbyte : (UInt8.ofNat n).toNat = n := UInt8.toNat_ofNat_of_lt hds.lt
  nth_rewrite 1 [hcs]
  exact .byte (hbyte.symm ▸ hds)

theorem DenotesEscape.of_charDigits {cs : List Char} {c : Char}
    (h : signedNumeral? 16 (cs.take 4) = some c.toNat) :
    DenotesEscape LooseDigits ('u' :: cs) (encodeChar c) (cs.drop 4) := by
  obtain ⟨ds, hcs, hds⟩ := looseDigits_iff.mpr ⟨rfl, h⟩
  nth_rewrite 1 [hcs]
  exact .char hds

theorem escape_eq_ok_iff {cs rest : List Char} {bytes : List UInt8} :
    (∃ length, escape cs = .ok (bytes, length) ∧ cs.drop length = rest) ↔
      DenotesEscape LooseDigits cs bytes rest := by
  constructor
  · intro ⟨length, h, hrest⟩
    subst hrest
    unfold escape at h
    split at h
    iterate 6
      · cases h
        exact .mark (by decide)
    · split at h
      · next n hn =>
        cases h
        exact .of_byteDigits hn
      · cases h
    · split at h
      · next c hc =>
        cases h
        obtain ⟨n, hn, hchar⟩ := Option.bind_eq_some_iff.mp hc
        obtain rfl := charOfCode?_eq_some_iff.mp hchar
        exact .of_charDigits hn
      · cases h
    · cases h
  · intro h
    cases h with
    | mark h => exact ⟨1, escape_mark h rest, rfl⟩
    | @byte ds _ b h =>
      obtain ⟨hrest, hnumeral⟩ := looseDigits_iff.mp ⟨ds, rfl, h⟩
      refine ⟨3, ?_, hrest.symm⟩
      rw [escape, hnumeral]
      simp
    | @char ds _ c h =>
      obtain ⟨hrest, hnumeral⟩ := looseDigits_iff.mp ⟨ds, rfl, h⟩
      refine ⟨5, ?_, hrest.symm⟩
      rw [escape, hnumeral, Option.bind_some, charOfCode?_eq_some_iff.mpr rfl]

theorem unescape_eq_ok_iff {cs : List Char} {bytes : List UInt8} :
    unescape cs = .ok bytes ↔ DenotesBytes LooseDigits cs bytes := by
  constructor
  · intro h
    fun_induction unescape cs generalizing bytes with
    | case1 =>
      cases h
      exact .nil
    | case2 cs ih =>
      obtain ⟨⟨denoted, length⟩, hescape, h⟩ := eq_ok_of_bind h
      obtain ⟨more, hmore, h⟩ := eq_ok_of_bind h
      cases h
      exact .escape (escape_eq_ok_iff.mp ⟨length, hescape, rfl⟩) (ih length hmore)
    | case3 c cs hc ih =>
      obtain ⟨more, hmore, h⟩ := eq_ok_of_bind h
      cases h
      exact .plain hc (ih hmore)
  · intro h
    induction h with
    | nil => rw [unescape]
    | plain hc _ ih => rw [unescape, if_neg hc, ih]; rfl
    | escape h _ ih =>
      obtain ⟨length, hescape, rfl⟩ := escape_eq_ok_iff.mpr h
      rw [unescape, if_pos rfl, hescape]
      show (do return _ ++ (← unescape _)) = _
      rw [ih]
      rfl

/-! ## Reading pairs of digits -/

theorem looseDigits_pair_iff {x y : Char} {cs : List Char} {n : Nat} :
    LooseDigits 2 [x, y] cs n ↔ signedNumeral? 16 [x, y] = some n := by
  rw [signedNumeral?_eq_some_iff]
  exact and_iff_right (.inl rfl)

theorem hexBytes_eq_ok_iff {cs : List Char} {bytes : List UInt8} :
    hexBytes cs = .ok bytes ↔ DenotesPairs LooseDigits cs bytes := by
  constructor
  · intro h
    fun_induction hexBytes cs generalizing bytes with
    | case1 =>
      cases h
      exact .nil
    | case2 | case4 => cases h
    | case3 x y cs n hn ih =>
      obtain ⟨more, hmore, h⟩ := eq_ok_of_bind h
      cases h
      have hpair : LooseDigits 2 [x, y] cs n := looseDigits_pair_iff.mpr hn
      have hbyte : (UInt8.ofNat n).toNat = n := UInt8.toNat_ofNat_of_lt hpair.lt
      exact .cons (hbyte.symm ▸ hpair) (ih hmore)
  · intro h
    induction h with
    | nil => rfl
    | cons h _ ih =>
      rw [hexBytes, looseDigits_pair_iff.mp h, ih]
      simp

theorem DenotesPairs.byteLength_eq {cs : List Char} {bytes : List UInt8}
    (h : DenotesPairs LooseDigits cs bytes) : byteLength cs = 2 * bytes.length := by
  induction h with
  | nil => rfl
  | @cons x y cs b bytes hpair _ ih =>
    have hsize : ∀ d ∈ [x, y], d.utf8Size = 1 := by
      intro d hd
      rcases hpair.digits d hd with rfl | ⟨v, hv⟩
      · rfl
      · exact hv.utf8Size
    simp only [List.forall_mem_cons] at hsize
    rw [byteLength_cons, byteLength_cons, hsize.1, hsize.2.1, List.length_cons]
    omega

/-! ## Quotes -/

theorem unquote?_eq_some_iff {opening raw inner : List Char} :
    unquote? opening raw = some inner ↔ raw = opening ++ (inner ++ ['"']) := by
  unfold unquote?
  constructor
  · intro h
    split at h
    · next hprefix =>
      obtain ⟨quoted, rfl⟩ := List.isPrefixOf_iff_prefix.mp hprefix
      simp only [List.drop_left, Option.bind_eq_bind, Option.bind_some] at h
      split at h
      · next hlast =>
        obtain rfl := Option.some.inj h
        rw [List.dropLast_append_getLast? _ hlast]
      · cases h
    · cases h
  · rintro rfl
    simp

theorem decodeString_quoted (cs : List Char) : decodeString ('"' :: (cs ++ ['"'])) = unescape cs := by
  have hinner : unquote? ['"'] ('"' :: (cs ++ ['"'])) = some cs := unquote?_eq_some_iff.mpr rfl
  rw [decodeString, hinner]

/-- The bytes of a string literal are those that its characters denote between quotes. -/
theorem decodeString_eq_ok_iff {raw : List Char} {bytes : List UInt8} :
    decodeString raw = .ok bytes ↔
      ∃ inner, raw = '"' :: (inner ++ ['"']) ∧ DenotesBytes LooseDigits inner bytes := by
  constructor
  · intro h
    unfold decodeString at h
    split at h
    · next inner hinner =>
      exact ⟨inner, unquote?_eq_some_iff.mp hinner, unescape_eq_ok_iff.mp h⟩
    · cases h
  · rintro ⟨inner, rfl, h⟩
    rw [decodeString_quoted]
    exact unescape_eq_ok_iff.mpr h

theorem decodeHexString_eq_ok_iff {raw : List Char} {bytes : List UInt8} :
    decodeHexString raw = .ok bytes ↔
      ∃ inner, raw = 'h' :: 'e' :: 'x' :: '"' :: (inner ++ ['"']) ∧
        DenotesPairs LooseDigits inner bytes := by
  constructor
  · intro h
    unfold decodeHexString at h
    split at h
    · next inner hinner =>
      split at h
      · exact ⟨inner, unquote?_eq_some_iff.mp hinner, hexBytes_eq_ok_iff.mp h⟩
      · cases h
    · cases h
  · rintro ⟨inner, hraw, h⟩
    have heven : byteLength inner % 2 = 0 := by
      rw [h.byteLength_eq, Nat.mul_mod_right]
    rw [decodeHexString, unquote?_eq_some_iff.mpr hraw]
    exact (if_pos heven).trans (hexBytes_eq_ok_iff.mpr h)

end Text

end Yul
