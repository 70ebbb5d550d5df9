import Yul.Proofs.Check.Labels
import Yul.Proofs.Word.Exact

/-!
# Arms of switches

A case must not have the value of a case before it in the same switch, and there must be no default
behind another one. `Block.arms` lists the arms of all switches of a piece of code in the order in
which they are visited, each with the arms before it, and `Arm.finding?` says what is wrong with an
arm. Values are the same if they stand for the same number, however they are written
(`Literal.word?_eq_some_iff`).
-/

namespace Yul

/-! ## Values -/

open Text in
/-- The number that a value stands for. Strings stand at the most significant end of a word. -/
inductive LiteralValue.StandsFor : LiteralValue → Nat → Prop where
  | hexadecimal {text : String} {digits : List Char} {n : Nat}
      (htext : text.toList = '0' :: 'x' :: digits) (hne : digits ≠ [])
      (hdigits : Denotes 16 digits n) : StandsFor (.number text) n
  | decimal {text : String} {n : Nat} (hne : text.toList ≠ [])
      (hdigits : Denotes 10 text.toList n) : StandsFor (.number text) n
  | bytes {bs : List UInt8} (hlength : bs.length ≤ 32) :
      StandsFor (.bytes bs) (∑ i : Fin bs.length, (bs.get i).toNat * 256 ^ (31 - i.val))
  | yes : StandsFor (.truth true) 1
  | no : StandsFor (.truth false) 0

namespace LiteralValue

theorem standsFor_bytes {bs : List UInt8} {n : Nat} : StandsFor (.bytes bs) n ↔
    bs.length ≤ 32 ∧ n = ∑ i : Fin bs.length, (bs.get i).toNat * 256 ^ (31 - i.val) := by
  refine ⟨fun h => ?_, fun ⟨hlength, hn⟩ => hn ▸ .bytes hlength⟩
  cases h with
  | bytes hlength => exact ⟨hlength, rfl⟩

theorem standsFor_truth {value : Bool} {n : Nat} :
    StandsFor (.truth value) n ↔ n = value.toNat := by
  constructor
  · intro h
    cases h <;> rfl
  · rintro rfl
    cases value
    · exact .no
    · exact .yes

end LiteralValue

theorem Word.literal?_eq_some_iff {text : String} {w : Word} :
    Word.literal? text.toList = some w ↔ LiteralValue.StandsFor (.number text) w.toNat := by
  by_cases hhex : ∃ digits, text.toList = '0' :: 'x' :: digits
  · obtain ⟨digits, htext⟩ := hhex
    rw [htext, Word.literal?, Word.ofDigits?_eq_some_iff (by decide)]
    refine ⟨fun h => .hexadecimal htext h.1 h.2, fun h => ?_⟩
    cases h with
    | hexadecimal htext' hne hdigits =>
      obtain rfl : digits = _ := (List.cons.inj (List.cons.inj (htext.symm.trans htext')).2).2
      exact ⟨hne, hdigits⟩
    | decimal _ hdigits => exact absurd htext (hdigits.ne_hexadecimal digits)
  · have hdecimal (digits : List Char) (heq : text.toList = '0' :: 'x' :: digits) : False :=
      hhex ⟨digits, heq⟩
    rw [Word.literal?.eq_2 _ hdecimal, Word.ofDigits?_eq_some_iff (by decide)]
    refine ⟨fun h => .decimal h.1 h.2, fun h => ?_⟩
    cases h with
    | hexadecimal htext => exact (hdecimal _ htext).elim
    | decimal hne hdigits => exact ⟨hne, hdigits⟩

namespace Literal

theorem word?_eq_some_iff {l : Literal} {w : Word} :
    l.word? = some w ↔ l.value.StandsFor w.toNat := by
  obtain ⟨value, type, span⟩ := l
  cases value with
  | number text => exact Word.literal?_eq_some_iff
  | bytes bs => exact Word.leftAligned?_eq_some_iff.trans LiteralValue.standsFor_bytes.symm
  | truth value =>
    rw [LiteralValue.standsFor_truth, word?]
    cases value with
    | true => exact Option.some_inj.trans (Word.toNat_inj.symm.trans eq_comm)
    | false => exact Option.some_inj.trans (Word.toNat_inj.symm.trans eq_comm)

theorem word?_eq_none_iff (d : Dialect) {l : Literal} : l.word? = none ↔
    .numberTooLarge ∈ d.literalProblems l ∨
      ∃ length greatest, .stringTooLong length greatest ∈ d.literalProblems l := by
  have hlarge := d.mem_literalProblems_iff l (p := .numberTooLarge) nofun nofun
  have hlong (length greatest : Nat) :=
    d.mem_literalProblems_iff l (p := .stringTooLong length greatest) nofun nofun
  simp only [hlarge, hlong, Dialect.sizeProblems]
  obtain ⟨value, type, span⟩ := l
  cases value with
  | number text => cases h : Word.literal? text.toList <;> simp [word?, h]
  | bytes bs =>
    rw [word?, Word.leftAligned?_eq_none_iff]
    by_cases h : Word.maxBytes < bs.length <;> simp [h]
  | truth value => cases value <;> simp [word?]

end Literal

/-! ## Arms -/

/-- An arm of a switch, which has no value if it is a default. -/
structure Arm where
  /-- the arms before it in the same switch -/
  before : List Case
  value : Option Literal
  span : Span

/-- The value of an arm before stands for the same word, with the same label. -/
def Arm.Repeats (d : Dialect) (before : List Case) (l : Literal) : Prop :=
  l.word?.isSome ∧ ∃ l' ∈ before.filterMap Case.value,
    l'.label d = l.label d ∧ l'.word? = l.word?

instance (d : Dialect) (before : List Case) (l : Literal) : Decidable (Arm.Repeats d before l) :=
  inferInstanceAs (Decidable (_ ∧ _))

/-- What is wrong with an arm, its value as such aside. -/
def Arm.finding? (d : Dialect) (a : Arm) : Option Finding :=
  match a.value with
  | none => if ∃ c ∈ a.before, c.isDefault = true then some ⟨.secondDefault, a.span⟩ else none
  | some l => if Arm.Repeats d a.before l then some ⟨.repeatedCase l.text, l.span⟩ else none

mutual

/-- The arms of the switches in a statement, in the order in which they are visited. -/
def Stmt.arms : Stmt → List Arm
  | .function f _ => f.arms
  | .ifThen _ body _ => body.arms
  | .switch _ cases _ => armsOfCases [] cases
  | .forLoop init _ post body _ => init.arms ++ body.arms ++ post.arms
  | .block b => b.arms
  | .expression _ | .assignment _ _ _ | .declaration _ _ _ | .breakLoop _ | .continueLoop _
  | .leave _ => []

def FunctionDef.arms : FunctionDef → List Arm
  | ⟨_, _, _, body⟩ => body.arms

def armsOfStmts : List Stmt → List Arm
  | [] => []
  | s :: rest => s.arms ++ armsOfStmts rest

def armsOfCases (before : List Case) : List Case → List Arm
  | [] => []
  | ⟨value, body, span⟩ :: rest =>
    ⟨before, value, span⟩ :: body.arms ++ armsOfCases (before ++ [⟨value, body, span⟩]) rest

def Block.arms : Block → List Arm
  | ⟨_, statements, _⟩ => armsOfStmts statements

end

/-- The arms of a statement that is a switch. -/
def Stmt.cases? : Stmt → Option (List Case)
  | .switch _ cases _ => some cases
  | _ => none

/-- The switches of a piece of code, each by its arms. -/
def Block.switches (b : Block) : List (List Case) :=
  b.blocks.flatMap fun inner => inner.statements.filterMap Stmt.cases?

end Yul
