import Yul.Check.Labels
import Yul.Proofs.Text.Digits
import Yul.Proofs.Token.Tiles
import Yul.Proofs.Word.Wide

/-!
# Numerals that words take

`Word.ofDigits?` gives exactly the words of the numbers that rows of digits denote and that fit
(`ofDigits?_eq_some_iff`), so what a number in a source text is refused for is its value alone.
-/

namespace Yul

namespace Text

/-! ## Digits of tokens -/

theorem digit?_of_isDigit {c : Char} (h : isDigit c = true) : ∃ d, digit? 10 c = some d := by
  simp only [isDigit, Bool.and_eq_true, decide_eq_true_eq] at h
  have hhigh : c.toNat ≤ '9'.toNat := h.2
  refine ⟨c.toNat - '0'.toNat, ?_⟩
  rw [digit?, digitValue?, if_pos h]
  refine Option.filter_some_pos (decide_eq_true ?_)
  simp only [Char.reduceToNat] at hhigh ⊢
  omega

theorem isHexDigit_iff {c : Char} : isHexDigit c = true ↔
    (48 ≤ c.toNat ∧ c.toNat ≤ 57) ∨ (97 ≤ c.toNat ∧ c.toNat ≤ 102) ∨
      (65 ≤ c.toNat ∧ c.toNat ≤ 70) := by
  simp [isHexDigit, isDigit, Char.le_def, UInt32.le_iff_toNat_le, or_assoc]

theorem digit?_of_isHexDigit {c : Char} (h : isHexDigit c = true) :
    ∃ n, digit? 16 c = some n := by
  have hle {a : Char} : (a ≤ c ↔ a.toNat ≤ c.toNat) ∧ (c ≤ a ↔ c.toNat ≤ a.toNat) :=
    ⟨UInt32.le_iff_toNat_le, UInt32.le_iff_toNat_le⟩
  have hc := isHexDigit_iff.mp h
  simp only [digit?, digitValue?, hle.1, hle.2, Char.reduceToNat]
  rcases hc with hc | hc | hc
  · rw [if_pos hc]
    exact ⟨_, Option.filter_eq_some_iff.mpr ⟨rfl, by simp; omega⟩⟩
  · rw [if_neg (by omega), if_pos (by omega)]
    exact ⟨_, Option.filter_eq_some_iff.mpr ⟨rfl, by simp; omega⟩⟩
  · rw [if_neg (by omega), if_neg (by omega), if_pos (by omega)]
    exact ⟨_, Option.filter_eq_some_iff.mpr ⟨rfl, by simp; omega⟩⟩

end Text

namespace Token

open Text

theorem Reads.decimalNumber_denotes {text : String} {cs rest : List Char}
    (h : (decimalNumber text).Reads cs rest) :
    text.toList ≠ [] ∧ ∃ n, Denotes 10 text.toList n := by
  obtain ⟨hne, hdigits⟩ := Pattern.mem_plus_one.mp h.pattern
  obtain rfl := h.payload text rfl
  refine ⟨hne, exists_denotes fun c hc => ?_⟩
  obtain ⟨d, hd⟩ := digit?_of_isDigit (hdigits c hc)
  exact ⟨d, digit?_eq_some_iff.mp hd⟩

theorem Reads.hexNumber_denotes {text : String} {cs rest : List Char}
    (h : (hexNumber text).Reads cs rest) :
    ∃ digits, text.toList = '0' :: 'x' :: digits ∧ digits ≠ [] ∧ ∃ n, Denotes 16 digits n := by
  obtain ⟨digits, hdigits, hcs⟩ := Pattern.mem_lit_mul.mp h.pattern
  obtain ⟨hne, hdigits⟩ := Pattern.mem_plus_one.mp hdigits
  refine ⟨digits, (h.payload text rfl).trans hcs, hne, exists_denotes fun c hc => ?_⟩
  obtain ⟨d, hd⟩ := digit?_of_isHexDigit (hdigits c hc)
  exact ⟨d, digit?_eq_some_iff.mp hd⟩

end Token

theorem reads_of_mem_items {source : String} {l : Lexeme} (h : .lexeme l ∈ items source)
    (hend : l.token ≠ .endOfInput) : ∃ text rest, l.token.Reads text rest := by
  obtain ⟨is, hlocate, htiles⟩ := locate_tile [] source.toList
  have hitems : items source = is ++ [.lexeme ⟨.endOfInput, _⟩] := hlocate
  rw [hitems, List.mem_append, List.mem_singleton] at h
  rcases h with h | h
  · obtain ⟨_, text, rest, -, hstands⟩ := htiles.stands _ h
    exact ⟨text, rest, hstands.reads⟩
  · obtain rfl := Item.lexeme.inj h
    exact absurd rfl hend

namespace Word

open Text

theorem ofDigits?_eq_some_iff {radix : Nat} (hradix : 0 < radix) {cs : List Char} {w : Word} :
    ofDigits? radix cs = some w ↔ cs ≠ [] ∧ Denotes radix cs w.toNat := by
  have hmap : ofDigits? radix cs = some w ↔ (ofDigits? radix cs).map toNat = some w.toNat := by
    cases ofDigits? radix cs <;> simp [toNat_inj]
  rw [hmap, ofDigits?_eq hradix, Option.filter_eq_some_iff, numeral?_eq_some_iff,
    decide_eq_true_eq, and_iff_left w.toNat_lt]

theorem isSome_ofDigits? {radix : Nat} (hradix : 0 < radix) {cs : List Char} :
    (ofDigits? radix cs).isSome ↔ cs ≠ [] ∧ ∃ n < 2 ^ 256, Denotes radix cs n := by
  rw [← Option.isSome_map, ofDigits?_eq hradix, Option.isSome_filter, Option.any_eq_true]
  simp only [numeral?_eq_some_iff, decide_eq_true_eq, and_assoc, exists_and_left]
  exact and_congr_right fun _ => exists_congr fun n => and_comm

theorem ofDigits?_zeros {radix : Nat} (hradix : 0 < radix) {cs : List Char} (hne : cs ≠ [])
    (k : Nat) : ofDigits? radix (List.replicate k '0' ++ cs) = ofDigits? radix cs := by
  refine Option.ext fun w => ?_
  rw [ofDigits?_eq_some_iff hradix, ofDigits?_eq_some_iff hradix, denotes_zeros hradix]
  simp [hne]

theorem ofDigits?_eq_none_iff {radix n : Nat} (hradix : 0 < radix) {cs : List Char} (hne : cs ≠ [])
    (hn : Denotes radix cs n) : ofDigits? radix cs = none ↔ 2 ^ 256 ≤ n := by
  rw [← Option.not_isSome_iff_eq_none, isSome_ofDigits? hradix, ← Nat.not_lt]
  refine not_congr ⟨fun ⟨_, m, hm, hdenotes⟩ => ?_, fun hlt => ⟨hne, n, hlt, hn⟩⟩
  rwa [hn.unique hdenotes]

end Word

namespace Dialect

/-- What is reported of a literal, other than of its label, is reported of its value. -/
theorem mem_literalProblems_iff (d : Dialect) (l : Literal) {p : Problem}
    (htype : ∀ label, p ≠ .notAType label) (hlabel : ∀ label text, p ≠ .literalType label text) :
    p ∈ d.literalProblems l ↔ p ∈ sizeProblems l := by
  have hwritten : p ∉ d.writtenProblems l.type := by
    cases l.type with
    | none => exact List.not_mem_nil
    | some label => cases h : d.isType label <;> simp [writtenProblems, labelProblems, h, htype]
  rw [literalProblems, List.mem_append, List.mem_append, or_iff_right hwritten]
  refine or_iff_left fun h => ?_
  split at h
  · exact List.not_mem_nil h
  · exact hlabel _ _ (List.mem_singleton.mp h)

theorem numberTooLarge_mem_iff (d : Dialect) {text : String} {type : Option Label} {span : Span} :
    .numberTooLarge ∈ d.literalProblems ⟨.number text, type, span⟩ ↔
      Word.literal? text.toList = none := by
  rw [d.mem_literalProblems_iff _ (fun _ => Problem.noConfusion) (fun _ _ => Problem.noConfusion),
    sizeProblems]
  cases h : Word.literal? text.toList <;> simp [h]

end Dialect

namespace Token

open Text

theorem Reads.decimalNumber_tooLarge {text : String} {cs rest : List Char}
    (h : (decimalNumber text).Reads cs rest) : ∃ n, Denotes 10 text.toList n ∧
      ∀ (d : Dialect) type span,
        .numberTooLarge ∈ d.literalProblems ⟨.number text, type, span⟩ ↔ 2 ^ 256 ≤ n := by
  obtain ⟨hne, n, hn⟩ := h.decimalNumber_denotes
  refine ⟨n, hn, fun d type span => ?_⟩
  rw [d.numberTooLarge_mem_iff, Word.literal?.eq_2 _ hn.ne_hexadecimal,
    Word.ofDigits?_eq_none_iff (by decide) hne hn]

theorem Reads.hexNumber_tooLarge {text : String} {cs rest : List Char}
    (h : (hexNumber text).Reads cs rest) : ∃ digits n, text.toList = '0' :: 'x' :: digits ∧
      Denotes 16 digits n ∧ ∀ (d : Dialect) type span,
        .numberTooLarge ∈ d.literalProblems ⟨.number text, type, span⟩ ↔ 2 ^ 256 ≤ n := by
  obtain ⟨digits, htext, hne, n, hn⟩ := h.hexNumber_denotes
  refine ⟨digits, n, htext, hn, fun d type span => ?_⟩
  rw [d.numberTooLarge_mem_iff, htext, Word.literal?,
    Word.ofDigits?_eq_none_iff (by decide) hne hn]

end Token

/-! ## Main result -/

namespace Word

open Text

/-- Digits of a radix give the word of the number that they denote, and nothing if there are none,
if a character is no digit or if the number does not fit. Zeros in front change nothing, and in
arithmetic of 128 bits no operation overflows. A number token of a source text is therefore reported
as too large if and only if the number that it denotes has no word. -/
theorem ofDigits?_exact {radix : Nat} (hlow : 2 ≤ radix) (hhigh : radix ≤ 36) (cs : List Char)
    (source : String) :
    ((∀ c ∈ cs, ∃ d, IsDigit radix c d) ↔ ∃! n, Denotes radix cs n) ∧
    (∀ w, ofDigits? radix cs = some w ↔ cs ≠ [] ∧ Denotes radix cs w.toNat) ∧
    ((ofDigits? radix cs).isSome ↔ cs ≠ [] ∧ ∃ n < 2 ^ 256, Denotes radix cs n) ∧
    (cs ≠ [] → ∀ k, ofDigits? radix (List.replicate k '0' ++ cs) = ofDigits? radix cs) ∧
    wideDigits? radix cs = some (ofDigits? radix cs) ∧
    (∀ text span, .lexeme ⟨.decimalNumber text, span⟩ ∈ items source →
      ∃ n, Denotes 10 text.toList n ∧ ∀ (d : Dialect) type at_,
        .numberTooLarge ∈ d.literalProblems ⟨.number text, type, at_⟩ ↔ 2 ^ 256 ≤ n) ∧
    ∀ text span, .lexeme ⟨.hexNumber text, span⟩ ∈ items source →
      ∃ digits n, text.toList = '0' :: 'x' :: digits ∧ Denotes 16 digits n ∧
        ∀ (d : Dialect) type at_,
          .numberTooLarge ∈ d.literalProblems ⟨.number text, type, at_⟩ ↔ 2 ^ 256 ≤ n := by
  have hpos : 0 < radix := by omega
  refine ⟨⟨fun h => ?_, fun ⟨_, h, _⟩ => h.digits⟩, fun w => ofDigits?_eq_some_iff hpos,
    isSome_ofDigits? hpos, ofDigits?_zeros hpos, wideDigits?_eq (by omega) cs, ?_, ?_⟩
  · obtain ⟨n, hn⟩ := exists_denotes h
    exact ⟨n, hn, fun m hm => hm.unique hn⟩
  · intro text span h
    obtain ⟨cs, rest, hreads⟩ := reads_of_mem_items h Token.noConfusion
    exact hreads.decimalNumber_tooLarge
  · intro text span h
    obtain ⟨cs, rest, hreads⟩ := reads_of_mem_items h Token.noConfusion
    exact hreads.hexNumber_tooLarge

/-- The least number without a word is read to its end without an overflow, and is then refused. -/
theorem word_boundary :
    ofDigits? 16 ('1' :: List.replicate 64 '0') = none ∧
      (¬∃ n < 2 ^ 256, Denotes 16 ('1' :: List.replicate 64 '0') n) ∧
      wideDigits? 16 ('1' :: List.replicate 64 '0') = some none ∧
      ∃ n, Denotes 10 "12".toList n ∧ ∀ (d : Dialect) type at_,
        .numberTooLarge ∈ d.literalProblems ⟨.number "12", type, at_⟩ ↔ 2 ^ 256 ≤ n := by
  have hnone : ofDigits? 16 ('1' :: List.replicate 64 '0') = none := by decide +kernel
  have htoken : .lexeme ⟨.decimalNumber "12", ⟨1, 3⟩⟩ ∈ items " 12" := by decide +kernel
  obtain ⟨-, -, hsome, -, hwide, hdecimal, -⟩ :=
    @ofDigits?_exact 16 (by decide) (by decide) ('1' :: List.replicate 64 '0') " 12"
  refine ⟨hnone, fun h => ?_, hwide.trans (congrArg some hnone), hdecimal _ _ htoken⟩
  exact absurd (hsome.mpr ⟨List.cons_ne_nil _ _, h⟩) (by rw [hnone]; decide)

end Word

end Yul
