import Yul.Problem
import Yul.Check.Labels

/-!
# Problems that are told on their own

What is wrong with an annotation, a literal, the value of a case, a declared name or the use of a
builtin says nothing about the code around it: none of these problems is about which names can be
seen or used, or about where a statement stands.
-/

namespace Yul

/-- Whether a problem is told from an annotation, a literal, a name or a builtin alone. -/
def Problem.isLocal : Problem → Bool
  | .builtinName _ | .reservedName _ | .valueType _ _ | .notAType _ | .repeatedCase _
  | .tooNew _ _ _ | .tooOld _ _ _ | .deprecated _ _ | .numberTooLarge | .stringTooLong _ _
  | .literalType _ _ => true
  | _ => false

/-- Whether all of the problems are told without the code around. -/
def Local (ps : List Problem) : Prop :=
  ∀ p ∈ ps, p.isLocal = true

theorem local_nil : Local [] := List.forall_mem_nil _

theorem local_cons {p : Problem} {ps : List Problem} :
    Local (p :: ps) ↔ p.isLocal = true ∧ Local ps :=
  List.forall_mem_cons

theorem local_append {ps ps' : List Problem} :
    Local (ps ++ ps') ↔ Local ps ∧ Local ps' :=
  List.forall_mem_append

theorem local_singleton {p : Problem} (h : p.isLocal = true) : Local [p] :=
  List.forall_mem_singleton.mpr h

theorem local_ite {c : Prop} [Decidable c] {ps ps' : List Problem} (h : Local ps)
    (h' : Local ps') : Local (if c then ps else ps') := by
  split
  · exact h
  · exact h'

namespace Dialect

variable (d : Dialect)

theorem local_writtenProblems (written : Option Label) :
    Local (d.writtenProblems written) := by
  cases written with
  | none => exact local_nil
  | some label => exact local_ite local_nil (local_singleton rfl)

theorem local_literalProblems (l : Literal) : Local (d.literalProblems l) := by
  have hsize : Local (sizeProblems l) := by
    obtain ⟨value, type, span⟩ := l
    cases value with
    | number digits => exact local_ite (local_singleton rfl) local_nil
    | bytes bytes => exact local_ite (local_singleton rfl) local_nil
    | truth value => exact local_nil
  have hlabel := local_append.mpr ⟨d.local_writtenProblems l.type, hsize⟩
  exact local_append.mpr ⟨hlabel, local_ite local_nil (local_singleton rfl)⟩

theorem local_valueProblems (expected given : Label) :
    Local (valueProblems expected given) :=
  local_ite local_nil (local_singleton rfl)

theorem local_builtinProblems (b : Builtin) : Local (d.builtinProblems b) := by
  refine local_append.mpr ⟨?_, ?_⟩
  · cases b.since.filter (d.version < ·) with
    | some first => exact local_singleton rfl
    | none =>
      cases b.lastIn.filter (· < d.version) with
      | some last => exact local_singleton rfl
      | none => exact local_nil
  · cases b.deprecatedFrom.filter (· ≤ d.version) with
    | none => exact local_nil
    | some first => exact local_singleton rfl

theorem local_namingProblems (name : Name) : Local (namingProblems name) :=
  local_ite (local_singleton rfl) (local_ite (local_singleton rfl) local_nil)

theorem local_caseProblems (subject : Option Label) (seen : List (Label × Word)) (l : Literal) :
    Local (d.caseProblems subject seen l) := by
  refine local_append.mpr ⟨local_append.mpr ⟨d.local_literalProblems l, ?_⟩, ?_⟩
  · cases subject with
    | none => exact local_nil
    | some expected => exact local_valueProblems expected _
  · cases l.word? with
    | none => exact local_nil
    | some w => exact local_ite (local_singleton rfl) local_nil

end Dialect

end Yul
