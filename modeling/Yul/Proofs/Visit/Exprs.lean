import Yul.Proofs.Run.Noted
import Yul.Proofs.Visit.Marks

/-!
# Visits of expressions

`Check.Marks m xs` says that a part `m` of an analysis leaves exactly the marks `xs` behind. An
expression leaves its marks whatever its names stand for: a name that stands for nothing, a call of
what is no function or a wrong number of arguments changes nothing about which parts are visited
(`Check.expression_marks`).
-/

namespace Yul

/-! ## Problems that are told -/

/-- Whether all of the problems are told from a piece of code that is no arm of a switch. -/
def Told (ps : List Problem) : Prop :=
  ∀ p ∈ ps, p.isTold = true ∧ p.isDoubled = false

theorem told_append {ps ps' : List Problem} : Told (ps ++ ps') ↔ Told ps ∧ Told ps' :=
  List.forall_mem_append

theorem Told.filter {ps : List Problem} (h : Told ps) : ps.filter Problem.isTold = ps :=
  List.filter_eq_self.mpr fun p hp => (h p hp).1

namespace Dialect

variable (d : Dialect)

theorem told_writtenProblems (written : Option Label) : Told (d.writtenProblems written) := by
  cases written with
  | none => exact List.forall_mem_nil _
  | some label => cases h : d.isType label <;>
      simp [writtenProblems, labelProblems, h, Told, Problem.isTold, Problem.isDoubled]

theorem told_literalProblems (l : Literal) : Told (d.literalProblems l) := by
  have hsize : Told (sizeProblems l) := by
    unfold sizeProblems
    cases l.value with
    | number digits =>
      cases Word.literal? digits.toList <;> simp [Told, Problem.isTold, Problem.isDoubled]
    | bytes bytes => split <;> simp [Told, Problem.isTold, Problem.isDoubled]
    | truth value => exact List.forall_mem_nil _
  refine told_append.mpr ⟨told_append.mpr ⟨d.told_writtenProblems l.type, hsize⟩, ?_⟩
  split <;> simp [Told, Problem.isTold, Problem.isDoubled]

theorem told_builtinProblems (b : Builtin) : Told (d.builtinProblems b) := by
  refine told_append.mpr ⟨?_, ?_⟩
  · split <;> simp [Told, Problem.isTold, Problem.isDoubled]
  · cases b.deprecatedFrom.filter (· ≤ d.version) <;> simp [Told, Problem.isTold, Problem.isDoubled]

theorem told_namingProblems (name : Name) : Told (namingProblems name) := by
  unfold namingProblems
  split
  · simp [Told, Problem.isTold, Problem.isDoubled]
  · split <;> simp [Told, Problem.isTold, Problem.isDoubled]

theorem filter_caseProblems (subject : Option Label) (seen : List (Label × Word)) (l : Literal) :
    (d.caseProblems subject seen l).filter Problem.isTold = d.literalProblems l ++
      if ∃ w, l.word? = some w ∧ (l.label d, w) ∈ seen then [.repeatedCase l.text] else [] := by
  have hlabel : ((subject.map fun expected => valueProblems expected (l.label d)).getD []).filter
      Problem.isTold = [] := by
    cases subject with
    | none => rfl
    | some expected =>
      simp only [Option.map_some, Option.getD_some, valueProblems]
      split <;> rfl
  rw [caseProblems, literalType_eq, List.filter_append, List.filter_append,
    (d.told_literalProblems l).filter, hlabel, List.append_nil]
  cases l.word? with
  | none => simp
  | some w => by_cases hw : (l.label d, w) ∈ seen <;> simp [hw, Problem.isTold]

end Dialect

/-! ## Parts that leave marks -/

namespace Check

variable {α β : Type}

/-- Whether a part of an analysis leaves exactly `xs` behind. -/
abbrev Marks (m : Check α) (xs : List Mark) : Prop :=
  Notes (fun _ => Event.mark?) (fun _ => True) (fun _ => True) m xs

variable {xs ys : List Mark}

theorem pure_marks (a : α) : Marks (pure a) [] :=
  .pure a fun _ => id

theorem emit_marks (e : Event) : Marks (emit e) e.mark?.toList :=
  .emit (fun _ _ => rfl) fun _ _ _ => trivial

theorem get_marks : Marks (get : Check Run) [] :=
  TakesOnly.get.notes (E := fun _ => False) (fun _ _ => False.elim) fun _ _ _ => trivial

theorem stop_marks (f : Fault) : Marks (stop f) [] :=
  (TakesOnly.stop f).notes (E := fun _ => False) (fun _ _ => False.elim) fun _ _ _ => trivial

theorem Marks.bind_unmarked {m : Check α} {f : α → Check β} (hm : Marks m xs)
    (hf : ∀ a, Marks (f a) []) : Marks (m >>= f) xs :=
  .bind hm hf (List.append_nil xs).symm

theorem Marks.unmarked_bind {m : Check α} {f : α → Check β} (hm : Marks m [])
    (hf : ∀ a, Marks (f a) xs) : Marks (m >>= f) xs :=
  .bind hm hf rfl

theorem report_marks {p : Problem} (h : p.isTold = true) (span : Span) :
    Marks (report p span) [.problem ⟨p, span⟩] := by
  have hmark : Event.mark? (.report ⟨p, span⟩) = some (.problem ⟨p, span⟩) := if_pos h
  exact .emit (fun _ _ => congrArg Option.toList hmark) fun _ _ _ => trivial

theorem report_unmarked {p : Problem} (h : p.isTold = false) (span : Span) :
    Marks (report p span) [] := by
  have hmark : Event.mark? (.report ⟨p, span⟩) = none := if_neg (by simp [h])
  exact .emit (fun _ _ => congrArg Option.toList hmark) fun _ _ _ => trivial

theorem forM_marks {as : List α} {f : α → Check PUnit} {g : α → List Mark}
    (hf : ∀ a, Marks (f a) (g a)) : Marks (as.forM f) (as.flatMap g) := by
  induction as with
  | nil => exact pure_marks _
  | cons a as ih => exact .bind (hf a) (fun _ => ih) List.flatMap_cons

theorem mapM_marks {as : List α} {f : α → Check β} {g : α → List Mark}
    (hf : ∀ a, Marks (f a) (g a)) : Marks (as.mapM f) (as.flatMap g) := by
  induction as with
  | nil => exact pure_marks _
  | cons a as ih =>
    rw [List.mapM_cons]
    exact .bind (hf a) (fun _ => ih.bind_unmarked fun _ => pure_marks _) List.flatMap_cons

theorem reportAll_marks (ps : List Problem) (span : Span) :
    Marks (reportAll ps span) (marksOf (ps.filter Problem.isTold) span) := by
  induction ps with
  | nil => exact pure_marks _
  | cons p ps ih =>
    cases h : p.isTold with
    | true =>
      rw [List.filter_cons_of_pos h]
      exact .bind (report_marks h span) (fun _ => ih) rfl
    | false =>
      rw [List.filter_cons_of_neg (by simp [h])]
      exact (report_unmarked h span).unmarked_bind fun _ => ih

theorem told_marks {ps : List Problem} (h : Told ps) (span : Span) :
    Marks (reportAll ps span) (marksOf ps span) := by
  have hmarks := reportAll_marks ps span
  rwa [h.filter] at hmarks

/-! ## Expressions -/

theorem findMeaning_marks (scope : ScopeId) (name : Name) :
    Marks (findMeaning scope name) [.name name] :=
  (emit_marks _).bind_unmarked fun _ => get_marks.unmarked_bind fun _ => pure_marks _

theorem checkActive_unmarked (home : ScopeId) (x : Identifier) : Marks (checkActive home x) [] :=
  get_marks.unmarked_bind fun _ => .ite (fun _ => pure_marks _) fun _ => report_unmarked rfl _

theorem oneValue_unmarked (values : Option (List Label)) (span : Span) :
    Marks (oneValue values span) [] := by
  rcases oneValue_cases values span with ⟨given, h⟩ | ⟨count, h⟩ <;> rw [h]
  · exact pure_marks given
  · exact (report_unmarked rfl span).bind_unmarked fun _ => pure_marks none

theorem checkValue_unmarked (expected given : Option Label) (span : Span) :
    Marks (checkValue expected given span) [] := by
  rcases checkValue_cases expected given span with h | ⟨type, type', h⟩ <;> rw [h]
  · exact pure_marks ()
  · rw [Dialect.valueProblems]
    split
    · exact pure_marks ()
    · exact (report_unmarked rfl span).bind_unmarked fun _ => pure_marks ()

theorem checkCount_unmarked (f : Identifier) (signature : Option Signature) (given : Nat) :
    Marks (checkCount f signature given) [] := by
  cases signature with
  | none => exact pure_marks _
  | some s => exact .ite (fun _ => pure_marks _) fun _ => report_unmarked rfl _

section Setting

variable (cfg : Setting) (scope : ScopeId)

theorem askOutside_unmarked (access : Access) : Marks (askOutside cfg access) [] := by
  obtain ⟨dialect, dataNames, resolver⟩ := cfg
  cases resolver with
  | none => exact pure_marks _
  | some resolve => exact (emit_marks (.ask access)).bind_unmarked fun _ => pure_marks _

theorem outside_unmarked (access : Access) {p : Problem} (hp : p.isTold = false) (span : Span) :
    Marks (do
      let type ← askOutside cfg access
      if type.isNone then report p span
      return type) [] := by
  refine (askOutside_unmarked cfg access).unmarked_bind fun type => ?_
  exact .ite (fun _ => (report_unmarked hp span).bind_unmarked fun _ => pure_marks _)
    fun _ => pure_marks _

theorem typeOfUse_marks (x : Identifier) (kind : AccessKind) {p q unknown : Problem}
    (hp : p.isTold = false) (hq : q.isTold = false) (hunknown : unknown.isTold = false) :
    Marks (typeOfUse cfg scope x kind p q unknown) [.name x.name] := by
  refine (findMeaning_marks scope x.name).bind_unmarked fun m => ?_
  cases m with
  | «variable» home type => exact (checkActive_unmarked home x).bind_unmarked fun _ => pure_marks _
  | function => exact (report_unmarked hp _).bind_unmarked fun _ => pure_marks _
  | missing =>
    exact .ite (fun _ => (report_unmarked hq _).bind_unmarked fun _ => pure_marks _)
      fun _ => outside_unmarked cfg _ hunknown _

theorem identifier_marks (x : Identifier) : Marks (identifier cfg scope x) [.name x.name] :=
  typeOfUse_marks cfg scope x _ rfl rfl rfl

theorem callee_marks (f : Identifier) :
    Marks (callee cfg scope f (Builtin.find? f.name)) (headMarks cfg f) := by
  rw [headMarks]
  cases Builtin.find? f.name with
  | some b =>
    have hproblems := told_marks (cfg.dialect.told_builtinProblems b) f.span
    exact .bind hproblems (fun _ => (emit_marks _).bind_unmarked fun _ => pure_marks _) rfl
  | none =>
    refine (findMeaning_marks scope f.name).bind_unmarked fun m => ?_
    cases m with
    | function id => exact (emit_marks (.call id)).bind_unmarked fun _ => pure_marks _
    | «variable» => exact (report_unmarked rfl _).bind_unmarked fun _ => pure_marks _
    | missing => exact (report_unmarked rfl _).bind_unmarked fun _ => pure_marks _

theorem stringArgument_marks (kind : LiteralArgument) (argument : Expr) :
    Marks (stringArgument cfg kind argument) (stringMarks cfg kind argument) := by
  unfold stringArgument stringMarks
  cases argument.string? with
  | none => exact report_marks rfl _
  | some found =>
    obtain ⟨l, bytes⟩ := found
    refine .bind (told_marks (cfg.dialect.told_writtenProblems l.type) l.span) (fun _ => ?_) rfl
    by_cases hkind : kind = .dataName
    · by_cases hknown : Text.decodeLossy bytes ∈ cfg.dataNames
      · simp only [hkind, hknown, not_true, and_false, if_false, if_true, List.contains_eq_mem,
          decide_true]
        exact pure_marks _
      · simp only [hkind, hknown, not_false_eq_true, and_self, if_true, List.contains_eq_mem,
          decide_false, Bool.false_eq_true, if_false]
        exact report_marks rfl _
    · simp only [hkind, false_and, if_false]
      exact pure_marks _

mutual

/-- Whatever its names stand for, every part of an expression is visited. -/
theorem expression_marks (e : Expr) : Marks (expression cfg scope e) (e.marks cfg) := by
  match e with
  | .literal l =>
    have hproblems := told_marks (cfg.dialect.told_literalProblems l) l.span
    exact hproblems.bind_unmarked fun _ => pure_marks _
  | .identifier x => exact (identifier_marks cfg scope x).bind_unmarked fun _ => pure_marks _
  | .call f args _ =>
    rw [expression, Expr.marks]
    refine .bind (callee_marks cfg scope f) (fun signature => ?_) rfl
    refine (checkCount_unmarked f signature _).unmarked_bind fun _ => ?_
    exact (arguments_marks _ _ 0 args).bind_unmarked fun _ => pure_marks _

theorem arguments_marks (builtin : Option Builtin) (expected : List Label) (index : Nat)
    (args : List Expr) : Marks (arguments cfg scope builtin expected index args)
      (marksOfArguments cfg builtin index args) := by
  match args with
  | [] => exact pure_marks _
  | a :: rest =>
    have hrest := arguments_marks builtin expected.tail (index + 1) rest
    rw [arguments, marksOfArguments]
    cases builtin.bind (·.literalArgument? index) with
    | some kind => exact .bind (stringArgument_marks cfg kind a) (fun _ => hrest) rfl
    | none =>
      refine .bind (expression_marks a) (fun values => ?_) rfl
      refine (oneValue_unmarked values _).unmarked_bind fun given => ?_
      exact (checkValue_unmarked _ given _).unmarked_bind fun _ => hrest

end

theorem valueOf_marks (e : Expr) : Marks (valueOf cfg scope e) (e.marks cfg) :=
  (expression_marks cfg scope e).bind_unmarked fun values => oneValue_unmarked values _

theorem condition_marks (e : Expr) : Marks (condition cfg scope e) (e.marks cfg) := by
  refine (valueOf_marks cfg scope e).bind_unmarked fun type => ?_
  cases type with
  | some type => exact .ite (fun _ => pure_marks _) fun _ => report_unmarked rfl _
  | none => exact pure_marks _

end Setting

end Check

end Yul
