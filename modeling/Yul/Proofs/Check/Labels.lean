import Yul.Proofs.WellFormed.Judgement
import Yul.Proofs.Word.Digits

/-!
# Problems that are errors

What has to hold of a literal, an annotation, a declared name or a builtin so that none of its
problems is an error.
-/

namespace Yul

/-- Whether none of the problems is an error. -/
def Harmless (ps : List Problem) : Prop :=
  ∀ p ∈ ps, p.severity ≠ .error

@[simp] theorem harmless_nil : Harmless [] := fun _ h => absurd h List.not_mem_nil

@[simp] theorem harmless_cons (p : Problem) (ps : List Problem) :
    Harmless (p :: ps) ↔ p.severity ≠ .error ∧ Harmless ps :=
  List.forall_mem_cons

@[simp] theorem harmless_append (ps ps' : List Problem) :
    Harmless (ps ++ ps') ↔ Harmless ps ∧ Harmless ps' :=
  List.forall_mem_append

namespace Dialect

variable (d : Dialect)

theorem harmless_writtenProblems (written : Option Label) :
    Harmless (d.writtenProblems written) ↔ d.Annotates written := by
  cases written with
  | none => simp [writtenProblems, Annotates]
  | some label => cases h : d.isType label <;>
      simp [writtenProblems, labelProblems, Annotates, h, Problem.severity]

theorem literal?_isSome (cs : List Char) :
    (Word.literal? cs).isSome ↔ ∃ n, numberValue? cs = some n ∧ n < 2 ^ 256 := by
  have hradix (radix : Nat) (hradix : 0 < radix) (digits : List Char) :
      (Word.ofDigits? radix digits).isSome ↔
        ∃ n, Text.numeral? radix digits = some n ∧ n < 2 ^ 256 := by
    rw [← Option.isSome_map, Word.ofDigits?_eq hradix, Option.isSome_filter]
    cases Text.numeral? radix digits <;> simp
  by_cases hhex : ∃ digits, cs = '0' :: 'x' :: digits
  · obtain ⟨digits, rfl⟩ := hhex
    exact hradix 16 (by decide) digits
  · have hdecimal (digits : List Char) (heq : cs = '0' :: 'x' :: digits) : False :=
      hhex ⟨digits, heq⟩
    rw [Word.literal?.eq_2 cs hdecimal, numberValue?.eq_2 cs hdecimal]
    exact hradix 10 (by decide) cs

theorem harmless_sizeProblems (l : Literal) : Harmless (sizeProblems l) ↔ l.value.FitsWord := by
  unfold sizeProblems LiteralValue.FitsWord
  cases l.value with
  | number digits =>
    dsimp only
    rw [← literal?_isSome]
    cases h : Word.literal? digits.toList <;> simp [Problem.severity]
  | bytes bytes =>
    dsimp only
    split
    · next h => simpa [Problem.severity, Word.maxBytes] using h
    · next h => simpa [Word.maxBytes] using h
  | truth value => simp

theorem literalType_eq (l : Literal) : d.literalType l = l.label d := by
  obtain ⟨value, type, span⟩ := l
  cases type <;> cases value <;> rfl

theorem canCarry_iff (l : Literal) :
    d.canCarry l (l.label d) = true ↔
      (∀ value, l.value = .truth value → l.label d = d.boolType) ∧
        ((∀ value, l.value ≠ .truth value) → d.flavour = .typed → l.label d ≠ d.boolType) := by
  unfold canCarry
  cases l.value <;> cases hflavour : d.flavour <;>
    simp [boolType, defaultType, hflavour]

theorem harmless_literalProblems (l : Literal) :
    Harmless (d.literalProblems l) ↔ l.WellFormed d := by
  have hcarry : Harmless (if d.canCarry l (l.label d) then []
      else [.literalType (l.label d) l.text]) ↔ d.canCarry l (l.label d) = true := by
    split
    · next h => simpa using h
    · next h => simpa [Problem.severity] using h
  rw [literalProblems, literalType_eq, harmless_append, harmless_append, harmless_writtenProblems,
    harmless_sizeProblems, hcarry, canCarry_iff]
  exact ⟨fun ⟨⟨h₁, h₂⟩, h₃, h₄⟩ => ⟨h₁, h₂, h₃, h₄⟩, fun ⟨h₁, h₂, h₃, h₄⟩ => ⟨⟨h₁, h₂⟩, h₃, h₄⟩⟩

theorem harmless_valueProblems (expected given : Label) :
    Harmless (valueProblems expected given) ↔ expected = given := by
  unfold valueProblems
  split <;> simp_all [Problem.severity]

/-- A builtin can be used in the versions that have it; deprecated ones are no error. -/
theorem harmless_builtinProblems (b : Builtin) :
    Harmless (d.builtinProblems b) ↔
      b.tooNewFor d.version = false ∧ b.tooOldFor d.version = false := by
  have hdeprecated : Harmless ((b.deprecatedFrom.filter (· ≤ d.version)).toList.map
      (.deprecated b.name)) := by
    intro p hp
    obtain ⟨v, -, rfl⟩ := List.mem_map.mp hp
    simp [Problem.severity]
  have hnew : b.tooNewFor d.version = (b.since.filter (d.version < ·)).isSome := by
    rw [Builtin.tooNewFor, Option.isSome_filter]
  have hold : b.tooOldFor d.version = (b.lastIn.filter (· < d.version)).isSome := by
    rw [Builtin.tooOldFor, Option.isSome_filter]
  rw [builtinProblems, harmless_append, and_iff_left hdeprecated, hnew, hold]
  cases b.since.filter (d.version < ·) <;> cases b.lastIn.filter (· < d.version) <;>
    simp [Problem.severity]

theorem harmless_namingProblems (name : Name) : Harmless (namingProblems name) ↔ Allowed name := by
  unfold namingProblems Allowed
  split
  · next h => simp [Problem.severity, Option.isSome_iff_ne_none.mp h]
  · next h =>
    rw [Option.not_isSome_iff_eq_none] at h
    split <;> simp_all [Problem.severity, List.isPrefixOf_iff_prefix]

theorem harmless_caseProblems (subject : Option Label) (seen : List (Label × Word)) (l : Literal) :
    Harmless (d.caseProblems subject seen l) ↔
      l.WellFormed d ∧ (∀ expected, subject = some expected → expected = l.label d) ∧
        ∀ w, l.word? = some w → (l.label d, w) ∉ seen := by
  rw [caseProblems, literalType_eq, harmless_append, harmless_append, harmless_literalProblems,
    and_assoc]
  refine and_congr_right fun _ => and_congr ?_ ?_
  · cases subject with
    | none => simp
    | some expected => simp [harmless_valueProblems]
  · cases l.word? with
    | none => simp
    | some w =>
      simp only [List.contains_iff_mem, Option.some.injEq, forall_eq']
      split <;> simp_all [Problem.severity]

end Dialect

theorem Check.seenWith_of_word (cfg : Setting) (seen : List (Label × Word)) {l : Literal} {w : Word}
    (h : l.word? = some w) : seenWith cfg seen (some l) = (l.label cfg.dialect, w) :: seen := by
  rw [seenWith, h, Dialect.literalType_eq]

end Yul
