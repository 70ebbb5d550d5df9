import Mathlib.Data.List.Forall2
import Yul.Proofs.Parallel.Objects

/-!
# Versions of the machine

The version of the machine tells which builtins are there, and nothing else: analyses of the same
code for two versions differ in what they say of using builtins (`versions_agree`). Where no builtin
has a last version, code is correct for all versions from some version on.
-/

namespace Yul

/-! ## What is said of a builtin -/

/-- Whether a diagnostic is about the version. -/
def Diagnostic.isOfVersion (d : Diagnostic) : Bool :=
  d.category == .unsupportedInstruction

/-- The places where builtins are called that are not there. -/
def lacking (ds : List Diagnostic) : List Span :=
  (ds.filter fun d => d.isError && d.isOfVersion).map Diagnostic.span

theorem lacking_append (ds es : List Diagnostic) :
    lacking (ds ++ es) = lacking ds ++ lacking es := by
  rw [lacking, List.filter_append, List.map_append]
  rfl

theorem noError_iff (ds : List Diagnostic) :
    (∀ d ∈ ds, d.isError = false) ↔
      (∀ d ∈ ds.filter (!·.isOfVersion), d.isError = false) ∧ lacking ds = [] := by
  rw [lacking, List.map_eq_nil_iff, List.filter_eq_nil_iff]
  simp only [List.mem_filter, Bool.and_eq_true, Bool.not_eq_true', not_and, Bool.not_eq_true]
  constructor
  · intro h
    exact ⟨fun d hd => h d hd.1, fun d hd herror => absurd (h d hd) (ne_false_of_eq_true herror)⟩
  · rintro ⟨hothers, hversion⟩ d hd
    by_contra herror
    exact herror (hothers d ⟨hd, hversion d hd (eq_true_of_ne_false herror)⟩)

namespace Dialect

theorem category_of_mem_builtinProblems {d : Dialect} {b : Builtin} {p : Problem}
    (hp : p ∈ d.builtinProblems b) : p.category = .unsupportedInstruction := by
  rw [builtinProblems, List.mem_append, List.mem_map] at hp
  rcases hp with hp | ⟨_, _, rfl⟩
  · split at hp
    · rw [List.mem_singleton.mp hp]
      rfl
    · rw [List.mem_singleton.mp hp]
      rfl
    · exact absurd hp List.not_mem_nil
  · rfl

theorem lacking_builtinProblems (d : Dialect) {b : Builtin} (hb : b.lastIn = none) (span : Span) :
    lacking ((d.builtinProblems b).map fun p => Finding.diagnostic ⟨p, span⟩) =
      if b.tooNewFor d.version then [span] else [] := by
  have hdeprecated (o : Option EvmVersion) :
      lacking ((o.toList.map (Problem.deprecated b.name)).map fun p =>
        Finding.diagnostic ⟨p, span⟩) = [] := by
    cases o <;> rfl
  rw [builtinProblems, hb, List.map_append, lacking_append, hdeprecated, List.append_nil,
    Builtin.tooNewFor]
  cases b.since with
  | none => rfl
  | some first =>
    rw [Option.filter_some, Option.any_some]
    cases decide (d.version < first) <;> rfl

end Dialect

theorem Builtin.tooNewFor_of_le {b : Builtin} {v v' : EvmVersion} (hv : v ≤ v')
    (h : b.tooNewFor v' = true) : b.tooNewFor v = true := by
  obtain ⟨first, hfirst, hlt⟩ := (Option.any_eq_true _ _).mp h
  have hlt : v < first := Nat.lt_of_le_of_lt hv (of_decide_eq_true hlt)
  exact (Option.any_eq_true _ _).mpr ⟨first, hfirst, decide_eq_true hlt⟩

/-! ## Journals for two versions -/

def Event.diagnostic? (e : Event) : Option Diagnostic :=
  e.finding?.map Finding.diagnostic

theorem diagnostics_ofRun (r : Run) :
    (Analysis.ofRun r).diagnostics = r.journal.reverse.filterMap Event.diagnostic? := by
  rw [Analysis.diagnostics, ofRun_findings]
  exact List.map_filterMap

/-- Journals that differ in what two dialects say of using builtins with `P`. -/
inductive Revised (d d' : Dialect) (P : Builtin → Prop) : List Event → List Event → Prop where
  | nil : Revised d d' P [] []
  | event (e : Event) {j j' : List Event} (h : Revised d d' P j j') :
      Revised d d' P (e :: j) (e :: j')
  | use (b : Builtin) (span : Span) {j j' : List Event} (hb : P b) (h : Revised d d' P j j') :
      Revised d d' P (d.usage b span ++ j) (d'.usage b span ++ j')

def Journals.revised (d d' : Dialect) (P : Builtin → Prop) : Journals id d d' P where
  rel := Revised d d' P
  cons e _ _ _ h := by
    rw [e.mapSpans_id]
    exact .event e h
  use b span _ _ hb h := .use b span hb h

namespace Revised

variable {d d' : Dialect} {P : Builtin → Prop} {j j' : List Event}

theorem filterMap_usage {α : Type} {g : Event → Option α}
    (hg : ∀ x : Finding, x.diagnostic.isOfVersion = true → g (.report x) = none) (d : Dialect)
    (b : Builtin) (span : Span) : (d.usage b span).filterMap g = [] := by
  rw [List.filterMap_eq_nil_iff]
  intro e he
  rw [Dialect.usage, List.mem_reverse, List.mem_map] at he
  obtain ⟨p, hp, rfl⟩ := he
  exact hg ⟨p, span⟩ (beq_iff_eq.mpr (Dialect.category_of_mem_builtinProblems hp))

theorem filterMap_eq (h : Revised d d' P j j') {α : Type} {g : Event → Option α}
    (hg : ∀ x : Finding, x.diagnostic.isOfVersion = true → g (.report x) = none) :
    j'.reverse.filterMap g = j.reverse.filterMap g := by
  rw [List.filterMap_reverse, List.filterMap_reverse]
  congr 1
  induction h with
  | nil => rfl
  | event e h ih => rw [List.filterMap_cons, List.filterMap_cons, ih]
  | use b span hb h ih =>
    rw [List.filterMap_append, List.filterMap_append, filterMap_usage hg, filterMap_usage hg, ih]

/-- Where no builtin has a last version, fewer of them are lacking in a later version. -/
theorem lacking_sublist (h : Revised d d' (·.lastIn = none) j j') (hv : d.version ≤ d'.version) :
    (lacking (j'.reverse.filterMap Event.diagnostic?)).Sublist
      (lacking (j.reverse.filterMap Event.diagnostic?)) := by
  induction h with
  | nil => exact .refl _
  | event e h ih =>
    rw [List.reverse_cons, List.reverse_cons, List.filterMap_append, List.filterMap_append,
      lacking_append, lacking_append]
    exact ih.append (.refl _)
  | use b span hb h ih =>
    have husage (d : Dialect) : (d.usage b span).reverse.filterMap Event.diagnostic? =
        (d.builtinProblems b).map fun p => Finding.diagnostic ⟨p, span⟩ := by
      rw [Dialect.usage, List.reverse_reverse, List.filterMap_map]
      exact congrFun List.filterMap_eq_map _
    rw [List.reverse_append, List.reverse_append, List.filterMap_append, List.filterMap_append,
      lacking_append, lacking_append, husage, husage, Dialect.lacking_builtinProblems _ hb,
      Dialect.lacking_builtinProblems _ hb]
    refine ih.append ?_
    by_cases hnew : b.tooNewFor d'.version = true
    · rw [if_pos hnew, if_pos (Builtin.tooNewFor_of_le hv hnew)]
    · rw [if_neg hnew]
      exact List.nil_sublist _

end Revised

/-! ## One block -/

/-- Two analyses differ in nothing but what they say about the version. -/
structure Analysis.Agrees (a a' : Analysis) : Prop where
  same : a' = { a with findings := a'.findings }
  others : a'.diagnostics.filter (!·.isOfVersion) = a.diagnostics.filter (!·.isOfVersion)

section Block

variable (cfg : Setting) (v : EvmVersion) (record : Record) (b : Block)

theorem runBlock_revised {P : Builtin → Prop} (hb : BuiltinsAmong P b.heads) :
    ∃ j, runBlock (cfg.atVersion v) record b = { runBlock cfg record b with journal := j } ∧
      Revised cfg.dialect (cfg.dialect.atVersion v) P (runBlock cfg record b).journal j := by
  have htwins := Check.runBlock_twins (v := v) (.revised cfg.dialect _ P) cfg.overlooks_id
    (Eq.refl record) .nil b hb
  rw [b.mapSpans_id] at htwins
  obtain ⟨_, j, hafter, rfl, hj⟩ := htwins
  exact ⟨j, hafter, hj⟩

/-- The version makes no difference but in what is said about it. -/
theorem analyze_agrees : (analyze cfg record b).Agrees (analyze (cfg.atVersion v) record b) := by
  obtain ⟨j, hrun, hj⟩ :=
    runBlock_revised cfg v record b (P := fun _ => True) fun _ _ _ _ => trivial
  unfold analyze
  constructor
  · rw [hrun, ofRun_findings]
    exact ofRun_congr rfl rfl (hj.filterMap_eq fun _ _ => rfl) (hj.filterMap_eq fun _ _ => rfl)
  · rw [diagnostics_ofRun, diagnostics_ofRun, hrun, List.filter_filterMap, List.filter_filterMap]
    refine hj.filterMap_eq fun x hx => ?_
    rw [Event.diagnostic?, Event.finding?, Option.map_some, Option.filter_some, hx]
    rfl

theorem analyze_lacking (hv : cfg.dialect.version ≤ v)
    (hb : BuiltinsAmong (·.lastIn = none) b.heads) :
    (lacking (analyze (cfg.atVersion v) record b).diagnostics).Sublist
      (lacking (analyze cfg record b).diagnostics) := by
  obtain ⟨j, hrun, hj⟩ := runBlock_revised cfg v record b hb
  rw [analyze, analyze, diagnostics_ofRun, diagnostics_ofRun, hrun]
  exact hj.lacking_sublist hv

end Block

/-! ## Main result -/

/-- The same settings for another version of the machine. -/
def Settings.atVersion (s : Settings) (v : EvmVersion) : Settings :=
  { s with dialect := s.dialect.atVersion v }

theorem lacking_flatMap_sublist {α : Type} {g g' : α → List Diagnostic} {xs : List α}
    (h : ∀ x ∈ xs, (lacking (g' x)).Sublist (lacking (g x))) :
    (lacking (xs.flatMap g')).Sublist (lacking (xs.flatMap g)) := by
  induction xs with
  | nil => exact .refl _
  | cons x xs ih =>
    rw [List.forall_mem_cons] at h
    rw [List.flatMap_cons, List.flatMap_cons, lacking_append, lacking_append]
    exact h.1.append (ih h.2)

/-- The version of the machine makes no difference to what is known about a source but in what is
said about it. Where no builtin that is called has a last version, fewer of them are lacking in a
later version, and what is correct stays correct. -/
theorem versions_agree (s : Settings) {source : String} {o : Object} {names : NameTable}
    (h : parseSource (.ofDialect s.dialect) source = .ok (o, names)) (v v' : EvmVersion) :
    ∃ outcome outcome', (s.atVersion v).analyzeSource source = .ok outcome ∧
      (s.atVersion v').analyzeSource source = .ok outcome' ∧
      outcome'.object = outcome.object ∧ outcome'.names = outcome.names ∧
      outcome'.containsMsize = outcome.containsMsize ∧
      List.Forall₂ (fun a a' => a'.path = a.path ∧ a.analysis.Agrees a'.analysis) outcome.objects
        outcome'.objects ∧
      outcome'.diagnostics.filter (!·.isOfVersion) = outcome.diagnostics.filter (!·.isOfVersion) ∧
      (v ≤ v' → (∀ part ∈ o.located "", BuiltinsAmong (·.lastIn = none) part.2.code.heads) →
        (lacking outcome'.diagnostics).Sublist (lacking outcome.diagnostics) ∧
        (outcome.succeeded = true → outcome'.succeeded = true)) := by
  have hagrees (part : String × Object) : ((s.atVersion v).alone part).analysis.Agrees
      ((s.atVersion v').alone part).analysis :=
    analyze_agrees ((s.atVersion v).forObject part.2) v' {} part.2.code
  have hothers : (((s.atVersion v').objectwise o names).diagnostics.filter (!·.isOfVersion)) =
      ((s.atVersion v).objectwise o names).diagnostics.filter (!·.isOfVersion) := by
    rw [Settings.objectwise_diagnostics, Settings.objectwise_diagnostics, List.filter_flatMap,
      List.filter_flatMap]
    show ((o.located "").map (s.atVersion v').alone).flatMap _ =
      ((o.located "").map (s.atVersion v).alone).flatMap _
    rw [List.flatMap_map, List.flatMap_map]
    exact congrArg (List.flatMap · (o.located "")) (funext fun part => (hagrees part).others)
  refine ⟨_, _, (s.atVersion v).analyzeSource_eq h, (s.atVersion v').analyzeSource_eq h, rfl, rfl,
    rfl, ?_, hothers, fun hv hb => ?_⟩
  · refine List.forall₂_map_left_iff.mpr (List.forall₂_map_right_iff.mpr ?_)
    exact List.forall₂_same.mpr fun part _ => ⟨rfl, hagrees part⟩
  · have hlacking : (lacking ((s.atVersion v').objectwise o names).diagnostics).Sublist
        (lacking ((s.atVersion v).objectwise o names).diagnostics) := by
      rw [Settings.objectwise_diagnostics, Settings.objectwise_diagnostics]
      show (lacking (((o.located "").map (s.atVersion v').alone).flatMap _)).Sublist
        (lacking (((o.located "").map (s.atVersion v).alone).flatMap _))
      rw [List.flatMap_map, List.flatMap_map]
      exact lacking_flatMap_sublist fun part hpart =>
        analyze_lacking ((s.atVersion v).forObject part.2) v' {} part.2.code hv (hb part hpart)
    refine ⟨hlacking, fun hsucceeded => ?_⟩
    rw [Settings.objectwise_succeeded, Outcome.errorCount_eq_zero_iff, noError_iff] at hsucceeded ⊢
    rw [hothers]
    refine ⟨hsucceeded.1, List.sublist_nil.mp ?_⟩
    rw [← hsucceeded.2]
    exact hlacking

/-- The inner object of `nested` lacks the base fee up to the version before its first one. -/
theorem nested_versions :
    ∃ outcome outcome',
      Settings.analyzeSource { dialect := { version := .berlin } } nestedSource = .ok outcome ∧
      Settings.analyzeSource { dialect := { version := .london } } nestedSource = .ok outcome' ∧
      outcome'.diagnostics.filter (!·.isOfVersion) = outcome.diagnostics.filter (!·.isOfVersion) ∧
      (lacking outcome'.diagnostics).Sublist (lacking outcome.diagnostics) := by
  obtain ⟨names, hparse⟩ := nested_parses (.ofDialect {})
  obtain ⟨outcome, outcome', h, h', -, -, -, -, hothers, hmore⟩ :=
    versions_agree {} hparse .berlin .london
  have hheads : ∀ part ∈ nested.located "", ∀ x ∈ part.2.code.heads, ∀ b ∈ Builtin.find? x,
      b.lastIn = none := by
    decide +kernel
  exact ⟨outcome, outcome', h, h', hothers, (hmore (by decide) hheads).1⟩

end Yul
