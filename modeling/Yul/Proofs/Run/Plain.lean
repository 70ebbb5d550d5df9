import Yul.Check.Stmt
import Yul.Proofs.Run.Local
import Yul.Proofs.Run.Noted

/-!
# Plain parts of an analysis

Many parts of an analysis neither look for names nor ask for them outside, and report neither that a
name is not declared nor that a statement stands where it must not. They take plain events only. What
is left are the names that are used and declared, and the statements and definitions that need a loop
or a function around them.
-/

namespace Yul

namespace Problem

/-- Whether a problem is about where a statement or a definition stands. -/
def isPlacement : Problem → Bool
  | .jumpOutsideLoop _ | .leaveOutsideFunction | .functionInInit => true
  | _ => false

/-- Whether a problem is about a name that is not declared. -/
def isUndeclared (p : Problem) : Bool :=
  p.category == .undeclaredIdentifier

/-- Whether a problem is neither about a place nor about a name that is not declared. -/
def isPlain (p : Problem) : Bool :=
  !p.isPlacement && !p.isUndeclared

theorem plain_of_isLocal {p : Problem} (h : p.isLocal = true) : p.isPlain = true := by
  cases p <;> first | rfl | exact nomatch h

end Problem

/-- Whether an event neither looks for a name nor asks for one outside, nor reports a problem that is
about a name that is not declared or about a place. -/
def Event.IsPlain : Event → Prop
  | .look _ _ | .ask _ => False
  | .report f => f.problem.isPlain = true
  | .enterBlock _ _ | .exitBlock _ _ | .openParameters _ _ | .enterFunction _ | .exitFunction _
  | .declare _ _ _ | .effects _ | .call _ => True

namespace Check

/-- Whether a part of an analysis takes plain events only. -/
abbrev Plain {α : Type} (m : Check α) : Prop :=
  TakesOnly Event.IsPlain m

theorem report_plain {p : Problem} (h : p.isPlain = true) (span : Span) : Plain (report p span) :=
  .emit h

theorem reportAll_plain {ps : List Problem} (h : Local ps) (span : Span) :
    Plain (reportAll ps span) :=
  .forM fun p hp => report_plain (Problem.plain_of_isLocal (h p hp)) span

theorem enterBlock_plain (id : BlockId) (parent : Option ScopeId) : Plain (enterBlock id parent) :=
  .bind .get fun _ => .bind (.emit trivial) fun _ => .pure _

theorem openParameters_plain (body : BlockId) (parent : ScopeId) :
    Plain (openParameters body parent) :=
  .bind .get fun _ => .bind (.emit trivial) fun _ => .pure _

theorem oneValue_plain (values : Option (List Label)) (span : Span) :
    Plain (oneValue values span) := by
  rcases oneValue_cases values span with ⟨given, h⟩ | ⟨count, h⟩ <;> rw [h]
  · exact .pure given
  · exact .bind (report_plain rfl span) fun _ => .pure none

theorem checkValue_plain (expected given : Option Label) (span : Span) :
    Plain (checkValue expected given span) := by
  rcases checkValue_cases expected given span with h | ⟨type, type', h⟩ <;> rw [h]
  · exact .pure ()
  · exact reportAll_plain (Dialect.local_valueProblems type type') span

theorem checkCount_plain (f : Identifier) (signature : Option Signature) (given : Nat) :
    Plain (checkCount f signature given) := by
  cases signature with
  | none => exact .pure ()
  | some s => exact .ite (.pure ()) (report_plain rfl _)

theorem checkTargets_plain (seen : List Name) (xs : List Identifier) :
    Plain (checkTargets seen xs) := by
  induction xs generalizing seen with
  | nil => exact .pure ()
  | cons x xs ih => exact .ite (.bind (report_plain rfl _) fun _ => ih _) (ih _)

theorem valueAt_plain (given : Option (List Label)) (index : Nat) : Plain (valueAt given index) := by
  cases given with
  | none => exact .pure none
  | some types => exact .ite (.bind (.stop _) fun _ => .pure _) (.pure _)

theorem checkInitial_plain (xs : List TypedName) (declared given : List Label) :
    Plain (checkInitial xs declared given) := by
  induction xs generalizing declared given with
  | nil => exact .pure ()
  | cons x xs ih =>
    cases declared with
    | nil => exact .pure ()
    | cons d declared =>
      cases given with
      | nil => exact .pure ()
      | cons g given => exact .ite (ih _ _) (.bind (report_plain rfl _) fun _ => ih _ _)

section Setting

variable (cfg : Setting)

theorem declaredTypes_plain (xs : List TypedName) : Plain (declaredTypes cfg xs) :=
  .mapM fun _ _ => .bind (reportAll_plain (cfg.dialect.local_writtenProblems _) _) fun _ => .pure _

theorem caseValue_plain (subject : Option Label) (seen : List (Label × Word)) (hasDefault : Bool)
    (value : Option Literal) (span : Span) :
    Plain (caseValue cfg subject seen hasDefault value span) := by
  cases value with
  | none => exact .ite (report_plain rfl _) (.pure ())
  | some l => exact reportAll_plain (cfg.dialect.local_caseProblems _ _ l) _

end Setting

end Check

end Yul
