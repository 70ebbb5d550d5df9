import Mathlib.Computability.Language
import Yul.Token.Tiling

/-!
# Patterns of tokens

The patterns of the tokens, and of what stands between them, as languages: they are regular
expressions, put together with `+`, `*` and `∗`. What follows the opening mark of a string or of a
comment can be read in one pass; `StringTail` and `CommentTail` are these passes, and
`Language.self_eq_mul_add_iff` shows that they read the same texts.
-/

namespace Yul

open Computability

namespace Pattern

/-- One character that satisfies `p`. -/
def one (p : Char → Bool) : Language Char :=
  {w | ∃ c, p c = true ∧ w = [c]}

/-- A text itself. -/
def lit (text : String) : Language Char :=
  {w | w = text.toList}

/-- One or more times the same. -/
def plus (l : Language Char) : Language Char :=
  l * l∗

/-! ## Between tokens -/

def blanks : Language Char :=
  plus (one isBlank)

/-- A comment up to the end of its line. -/
def lineComment : Language Char :=
  lit "//" * (one (· ≠ '\n'))∗

/-- A comment up to its closing mark. -/
def blockComment : Language Char :=
  lit "/*" * ((one (· ≠ '*'))∗ * plus (lit "*")
    * (one (fun c => c ≠ '/' && c ≠ '*') * ((one (· ≠ '*'))∗ * plus (lit "*")))∗ * lit "/")

/-- What may stand between tokens. -/
def skipped : Language Char :=
  blanks + lineComment + blockComment

/-! ## Tokens -/

def hexNumber : Language Char :=
  lit "0x" * plus (one isHexDigit)

def decimalNumber : Language Char :=
  plus (one isDigit)

/-- What may stand in a string: characters other than its quote, and a backslash with any character
behind it, all on one line. -/
def stringBody : Language Char :=
  (one (fun c => c ≠ '"' && c ≠ '\\' && c ≠ '\n') + lit "\\" * one (· ≠ '\n'))∗

def string : Language Char :=
  lit "\"" * (stringBody * lit "\"")

/-- What may stand in a hexadecimal string. -/
def digitPairs : Language Char :=
  (one isHexDigit * one isHexDigit)∗

def hexString : Language Char :=
  lit "hex\"" * (digitPairs * lit "\"")

def identifier : Language Char :=
  one isNameStart * (one isNamePart)∗

/-! ## Membership -/

section Membership

variable {p : Char → Bool} {l : Language Char} {w : List Char}

theorem mem_lit {text : String} : w ∈ lit text ↔ w = text.toList :=
  Iff.rfl

theorem mem_one_mul : w ∈ one p * l ↔ ∃ c r, p c = true ∧ r ∈ l ∧ w = c :: r := by
  rw [Language.mem_mul]
  constructor
  · rintro ⟨_, ⟨c, hc, rfl⟩, r, hr, rfl⟩
    exact ⟨c, r, hc, hr, rfl⟩
  · rintro ⟨c, r, hc, hr, rfl⟩
    exact ⟨[c], ⟨c, hc, rfl⟩, r, hr, rfl⟩

theorem mem_lit_mul {text : String} : w ∈ lit text * l ↔ ∃ r ∈ l, w = text.toList ++ r := by
  rw [Language.mem_mul]
  constructor
  · rintro ⟨_, rfl, r, hr, rfl⟩
    exact ⟨r, hr, rfl⟩
  · rintro ⟨r, hr, rfl⟩
    exact ⟨_, rfl, r, hr, rfl⟩

theorem mem_kstar_one : w ∈ (one p)∗ ↔ ∀ c ∈ w, p c = true := by
  rw [Language.mem_kstar]
  constructor
  · rintro ⟨parts, rfl, hparts⟩ c hc
    obtain ⟨part, hpart, hc⟩ := List.mem_flatten.mp hc
    obtain ⟨d, hd, rfl⟩ := hparts part hpart
    rw [List.mem_singleton.mp hc]
    exact hd
  · intro h
    refine ⟨w.map ([·]), ?_, List.forall_mem_map.mpr fun c hc => ⟨c, h c hc, rfl⟩⟩
    exact (List.flatMap_singleton' w).symm

theorem mem_plus_one : w ∈ plus (one p) ↔ w ≠ [] ∧ ∀ c ∈ w, p c = true := by
  rw [plus, mem_one_mul]
  constructor
  · rintro ⟨c, r, hc, hr, rfl⟩
    exact ⟨List.cons_ne_nil c r, List.forall_mem_cons.mpr ⟨hc, mem_kstar_one.mp hr⟩⟩
  · rintro ⟨hne, h⟩
    obtain ⟨c, r, rfl⟩ := List.exists_cons_of_ne_nil hne
    rw [List.forall_mem_cons] at h
    exact ⟨c, r, h.1, mem_kstar_one.mpr h.2, rfl⟩

theorem mem_identifier :
    w ∈ identifier ↔ ∃ c v, isNameStart c = true ∧ (∀ d ∈ v, isNamePart d = true) ∧ w = c :: v := by
  simp only [identifier, mem_one_mul, mem_kstar_one]

end Membership

/-! ## Strings -/

/-- What follows the opening quote of a string, the closing one included. -/
inductive StringTail : List Char → Prop where
  | close : StringTail ['"']
  | plain {c : Char} {w : List Char} (hquote : c ≠ '"') (hslash : c ≠ '\\') (hline : c ≠ '\n')
      (h : StringTail w) : StringTail (c :: w)
  | escape {c : Char} {w : List Char} (hline : c ≠ '\n') (h : StringTail w) :
      StringTail ('\\' :: c :: w)

def stringTails : Language Char :=
  {r | StringTail r}

theorem nil_notMem_one_mul (p : Char → Bool) (l : Language Char) : [] ∉ one p * l := by
  intro h
  obtain ⟨_, _, _, _, h⟩ := mem_one_mul.mp h
  cases h

theorem stringTails_eq : stringTails = stringBody * lit "\"" := by
  refine (Language.self_eq_mul_add_iff ?_).mp (Language.ext fun r => ?_)
  · rintro (⟨_, _, h⟩ | h)
    · cases h
    · obtain ⟨_, _, h⟩ := mem_lit_mul.mp h
      cases h
  · rw [Language.mem_add, add_mul, Language.mem_add, mul_assoc, mem_one_mul, mem_lit_mul, mem_lit]
    constructor
    · intro h
      cases h with
      | close => exact .inr rfl
      | @plain c w hquote hslash hline h =>
        exact .inl (.inl ⟨c, w, by simp [hquote, hslash, hline], h, rfl⟩)
      | @escape c w hline h =>
        exact .inl (.inr ⟨c :: w, mem_one_mul.mpr ⟨c, w, decide_eq_true hline, h, rfl⟩, rfl⟩)
    · rintro ((⟨c, w, hc, h, rfl⟩ | ⟨_, h, rfl⟩) | rfl)
      · simp only [Bool.and_eq_true, decide_eq_true_eq] at hc
        exact .plain hc.1.1 hc.1.2 hc.2 h
      · obtain ⟨c, w, hc, hw, rfl⟩ := mem_one_mul.mp h
        exact .escape (of_decide_eq_true hc) hw
      · exact .close

theorem mem_string {w : List Char} : w ∈ string ↔ ∃ r, StringTail r ∧ w = '"' :: r := by
  rw [string, ← stringTails_eq, mem_lit_mul]
  rfl

/-! ## Hexadecimal strings -/

/-- What may stand in a hexadecimal string, pair by pair. -/
inductive HexPairs : List Char → Prop where
  | nil : HexPairs []
  | cons {a b : Char} {cs : List Char} (ha : isHexDigit a = true) (hb : isHexDigit b = true)
      (h : HexPairs cs) : HexPairs (a :: b :: cs)

def hexPairs : Language Char :=
  {ds | HexPairs ds}

theorem hexPairs_eq : hexPairs = digitPairs := by
  rw [← mul_one digitPairs]
  refine (Language.self_eq_mul_add_iff (nil_notMem_one_mul _ _)).mp (Language.ext fun ds => ?_)
  rw [Language.mem_add, mul_assoc, mem_one_mul, Language.mem_one]
  constructor
  · intro h
    cases h with
    | nil => exact .inr rfl
    | @cons a b cs ha hb h => exact .inl ⟨a, b :: cs, ha, mem_one_mul.mpr ⟨b, cs, hb, h, rfl⟩, rfl⟩
  · rintro (⟨a, _, ha, h, rfl⟩ | rfl)
    · obtain ⟨b, cs, hb, hcs, rfl⟩ := mem_one_mul.mp h
      exact .cons ha hb hcs
    · exact .nil

theorem mem_hexString {w : List Char} :
    w ∈ hexString ↔ ∃ ds, HexPairs ds ∧ w = 'h' :: 'e' :: 'x' :: '"' :: (ds ++ ['"']) := by
  rw [hexString, ← hexPairs_eq, mem_lit_mul]
  constructor
  · rintro ⟨r, ⟨ds, hds, _, rfl, rfl⟩, rfl⟩
    exact ⟨ds, hds, rfl⟩
  · rintro ⟨ds, hds, rfl⟩
    exact ⟨ds ++ ['"'], Language.append_mem_mul hds rfl, rfl⟩

/-! ## Comments -/

/-- What follows the opening mark of a comment, the closing one included; `star` tells whether an
asterisk stands in front. -/
inductive CommentTail : Bool → List Char → Prop where
  | plain {c : Char} {w : List Char} (hstar : c ≠ '*') (h : CommentTail false w) :
      CommentTail false (c :: w)
  | star {star : Bool} {w : List Char} (h : CommentTail true w) : CommentTail star ('*' :: w)
  | other {c : Char} {w : List Char} (hslash : c ≠ '/') (hstar : c ≠ '*')
      (h : CommentTail false w) : CommentTail true (c :: w)
  | close : CommentTail true ['/']

def commentTails (star : Bool) : Language Char :=
  {r | CommentTail star r}

theorem commentTails_false : commentTails false =
    (one (· ≠ '*'))∗ * (lit "*" * commentTails true) := by
  refine (Language.self_eq_mul_add_iff ?_).mp (Language.ext fun r => ?_)
  · rintro ⟨_, _, h⟩
    cases h
  · rw [Language.mem_add, mem_one_mul, mem_lit_mul]
    constructor
    · intro h
      cases h with
      | @plain c w hstar h => exact .inl ⟨c, w, decide_eq_true hstar, h, rfl⟩
      | @star _ w h => exact .inr ⟨w, h, rfl⟩
    · rintro (⟨c, w, hc, h, rfl⟩ | ⟨w, h, rfl⟩)
      · exact .plain (of_decide_eq_true hc) h
      · exact .star h

theorem commentTails_true : commentTails true =
    (lit "*")∗ * (one (fun c => c ≠ '/' && c ≠ '*') * commentTails false + lit "/") := by
  refine (Language.self_eq_mul_add_iff ?_).mp (Language.ext fun r => ?_)
  · intro h
    cases h
  · rw [Language.mem_add, Language.mem_add, mem_one_mul, mem_lit_mul, mem_lit]
    constructor
    · intro h
      cases h with
      | @star _ w h => exact .inl ⟨w, h, rfl⟩
      | @other c w hslash hstar h => exact .inr (.inl ⟨c, w, by simp [hslash, hstar], h, rfl⟩)
      | close => exact .inr (.inr rfl)
    · rintro (⟨w, h, rfl⟩ | ⟨c, w, hc, h, rfl⟩ | rfl)
      · exact .star h
      · simp only [Bool.and_eq_true, decide_eq_true_eq] at hc
        exact .other hc.1 hc.2 h
      · exact .close

/-- What follows the opening mark of a comment, as an expression. -/
theorem commentTails_eq : commentTails false =
    (one (· ≠ '*'))∗ * plus (lit "*")
      * (one (fun c => c ≠ '/' && c ≠ '*') * ((one (· ≠ '*'))∗ * plus (lit "*")))∗ * lit "/" := by
  -- behind its first asterisks a tail goes on with another character, or ends
  have htail : one (fun c => c ≠ '/' && c ≠ '*') * commentTails false + lit "/" =
      (one (fun c => c ≠ '/' && c ≠ '*') * ((one (· ≠ '*'))∗ * plus (lit "*")))∗ * lit "/" := by
    refine (Language.self_eq_mul_add_iff (nil_notMem_one_mul _ _)).mp ?_
    conv_lhs => rw [commentTails_false, commentTails_true]
    simp only [plus, mul_assoc]
  rw [commentTails_false, commentTails_true, htail]
  simp only [plus, mul_assoc]

theorem mem_blockComment {w : List Char} :
    w ∈ blockComment ↔ ∃ r, CommentTail false r ∧ w = '/' :: '*' :: r := by
  rw [blockComment, ← commentTails_eq, mem_lit_mul]
  rfl

end Pattern

end Yul
