import Yul.Proofs.Layout.Lexing
import Yul.Proofs.Places.Fit

/-!
# Layout does not matter

What stands between the tokens of a source, and where they stand, has no influence on what is found
out about it (`layout_irrelevant`): the same tokens give the same tree or the same error, and an
analysis of code at other places is the same but for places (`analyze_mapSpans`).
-/

namespace Yul

/-! ## Analyses of moved code -/

def Analysis.mapSpans (f : Span → Span) (a : Analysis) : Analysis :=
  { a with
    findings := a.findings.map (Finding.mapSpans f)
    accesses := a.accesses.map (Access.mapSpans f) }

def ObjectAnalysis.mapSpans (f : Span → Span) (a : ObjectAnalysis) : ObjectAnalysis :=
  { a with analysis := a.analysis.mapSpans f }

/-- All that is known about a source, with everything at other places. -/
def Outcome.mapSpans (f : Span → Span) (o : Outcome) : Outcome :=
  { o with
    object := o.object.mapSpans f
    objects := o.objects.map (ObjectAnalysis.mapSpans f)
    findings := o.findings.map (Finding.mapSpans f) }

section MapSpans

variable {f : Span → Span}

theorem Dialect.usage_mapSpans (d : Dialect) (b : Builtin) (span : Span) :
    (d.usage b span).map (Event.mapSpans f) = d.usage b (f span) := by
  rw [usage, usage, List.map_reverse, List.map_map]
  rfl

/-- Journals with the same events at other places. -/
def Journals.moved (f : Span → Span) (d : Dialect) :
    Journals f d (d.atVersion d.version) fun _ => True where
  rel j j' := j' = j.map (Event.mapSpans f)
  cons e j j' _ h := by rw [h, List.map_cons]
  use b span j j' _ h := by
    rw [h, List.map_append, d.usage_mapSpans]
    rfl

theorem runBlock_mapSpans {cfg : Setting} (hf : cfg.Overlooks f) (record : Record) (b : Block) :
    runBlock cfg record (b.mapSpans f) =
      { runBlock cfg record b with
        journal := (runBlock cfg record b).journal.map (Event.mapSpans f) } := by
  have hempty : (Journals.moved f cfg.dialect).rel [] [] := rfl
  obtain ⟨_, j, hafter, rfl, hj⟩ := Check.runBlock_twins (.moved f cfg.dialect) hf (Eq.refl record)
    hempty b fun _ _ _ _ => trivial
  exact hafter.trans (congrArg ({ runBlock cfg record b with journal := · }) hj)

theorem filterMap_moved {α : Type} {g g' : Event → Option α}
    (h : ∀ e, g (e.mapSpans f) = g' e) (journal : List Event) :
    (journal.map (Event.mapSpans f)).reverse.filterMap g = journal.reverse.filterMap g' := by
  rw [← List.map_reverse, List.filterMap_map]
  exact congrArg (List.filterMap · journal.reverse) (funext h)

theorem ofRun_moved (r : Run) :
    Analysis.ofRun { r with journal := r.journal.map (Event.mapSpans f) } =
      (Analysis.ofRun r).mapSpans f := by
  have hsteps : Run.collectorSteps { r with journal := r.journal.map (Event.mapSpans f) } =
      r.collectorSteps :=
    filterMap_moved (fun e => by cases e <;> rfl) r.journal
  have hfindings : Run.findings { r with journal := r.journal.map (Event.mapSpans f) } =
      r.findings.map (Finding.mapSpans f) := by
    rw [Run.findings, Run.findings, List.map_filterMap]
    exact filterMap_moved (fun e => by cases e <;> rfl) r.journal
  have haccesses : Run.accesses { r with journal := r.journal.map (Event.mapSpans f) } =
      r.accesses.map (Access.mapSpans f) := by
    rw [Run.accesses, Run.accesses, List.map_filterMap]
    exact filterMap_moved (fun e => by cases e <;> rfl) r.journal
  unfold Analysis.ofRun Analysis.mapSpans
  dsimp only
  rw [hsteps, hfindings, haccesses]
  split
  · rfl
  · split <;> rfl

/-- The analysis of moved code is the same but for places. -/
theorem analyze_mapSpans {cfg : Setting} (hf : cfg.Overlooks f) (record : Record) (b : Block) :
    analyze cfg record (b.mapSpans f) = (analyze cfg record b).mapSpans f := by
  rw [analyze, runBlock_mapSpans hf, ofRun_moved, analyze]

theorem Analysis.succeeded_mapSpans (a : Analysis) : (a.mapSpans f).succeeded = a.succeeded := by
  rw [succeeded, succeeded, mapSpans, List.any_map]
  rfl

end MapSpans

/-! ## Results without places -/

/-- The beginning of a source, in place of any span. -/
def Span.nowhere (_ : Span) : Span :=
  ⟨0, 0⟩

/-- What becomes of a source, places aside. -/
def unplaced : Except SourceError Outcome → Except SourceError.Cause Outcome
  | .error e => .error e.cause
  | .ok o => .ok (o.mapSpans Span.nowhere)

section Moved

variable {R : Span → Span → Prop} (s : Settings)

theorem undo_nowhere : Undo R Span.nowhere Span.nowhere :=
  fun _ _ _ => rfl

theorem Settings.alone_moved {x x' : String × Object} (h : x.1 = x'.1 ∧ x.2.Moved R x'.2) :
    (s.alone x).mapSpans Span.nowhere = (s.alone x').mapSpans Span.nowhere := by
  obtain ⟨path, o⟩ := x
  obtain ⟨_, o'⟩ := x'
  obtain ⟨rfl, ho⟩ := h
  have hsetting : s.forObject o = s.forObject o' := by
    rw [forObject, forObject, ho.dataNames_eq]
  have hoverlooks : (s.forObject o').Overlooks Span.nowhere :=
    fun _ hresolve => absurd hresolve (by simp [forObject])
  have hanalysis : (analyze (s.forObject o) {} o.code).mapSpans Span.nowhere =
      (analyze (s.forObject o') {} o'.code).mapSpans Span.nowhere := by
    rw [hsetting, ← analyze_mapSpans hoverlooks, ← analyze_mapSpans hoverlooks,
      ho.code.mapSpans_eq undo_nowhere]
  have hsucceeded := congrArg Analysis.succeeded hanalysis
  rw [Analysis.succeeded_mapSpans, Analysis.succeeded_mapSpans] at hsucceeded
  exact congrArg₂ (ObjectAnalysis.mk path) hanalysis hsucceeded

theorem Settings.objectwise_moved {o o' : Object} (h : o.Moved R o') (names : NameTable) :
    (s.objectwise o names).mapSpans Span.nowhere =
      (s.objectwise o' names).mapSpans Span.nowhere := by
  have hobjects : ((o.located "").map s.alone).map (ObjectAnalysis.mapSpans Span.nowhere) =
      ((o'.located "").map s.alone).map (ObjectAnalysis.mapSpans Span.nowhere) := by
    rw [List.map_map, List.map_map]
    exact map_eq_of_forall₂ (fun _ _ hpart => s.alone_moved (R := R) hpart) (h.located "")
  have hfindings := congrArg (List.flatMap (·.analysis.findings)) hobjects
  simp only [List.flatMap_map] at hfindings
  simp only [objectwise, Outcome.mapSpans, h.mapSpans_eq undo_nowhere, hobjects,
    h.containsMsize_eq, List.map_flatMap, List.flatMap_map]
  exact congrArg (Outcome.mk _ _ _ · _) hfindings

end Moved

/-! ## Main result -/

/-- Sources of the same tokens are parsed alike. -/
theorem parseSource_moved {source source' : String}
    (h : List.Forall₂ (Item.Moved fun _ _ => True) (items source) (items source'))
    (names : NameTable) :
    ReadAlike (fun _ _ => True)
      (fun found found' => found.1.Moved (fun _ _ => True) found'.1 ∧ found.2 = found'.2)
      (parseSource names source) (parseSource names source') :=
  have hplaces : Mergeable fun _ _ => True := ⟨trivial, fun _ _ => trivial⟩
  (Parser.wholeObject_tracks hplaces).parse hplaces names h

/-- Two sources of the same tokens with any gaps between them are rows of the same tokens, and the
same is found out about them, places aside: the same objects, with the same numbers of blocks, and
the same problems in the same order, or else the same error. -/
theorem layout_irrelevant (s : Settings) {source source' : String} {ts : List Lexeme}
    {texts : List String} (hlexes : Lexes source ts)
    (htexts : List.Forall₂ (fun l text => l.span.Cuts source text) ts texts)
    (hspaced : source'.toList ∈ Pattern.spaced texts) :
    (∃ ts', Lexes source' ts' ∧ ts'.map Lexeme.token = ts.map Lexeme.token) ∧
      unplaced (s.analyzeSource source') = unplaced (s.analyzeSource source) := by
  obtain ⟨ts', hlexes', htokens⟩ := hlexes.spaced htexts hspaced
  refine ⟨⟨ts', hlexes', htokens⟩, ?_⟩
  have hread := parseSource_moved (hlexes.items_moved hlexes' htokens) (.ofDialect s.dialect)
  generalize hparse : parseSource (.ofDialect s.dialect) source = parsed at hread
  generalize hparse' : parseSource (.ofDialect s.dialect) source' = parsed' at hread
  cases hread with
  | error same =>
    rw [s.analyzeSource_eq_error hparse, s.analyzeSource_eq_error hparse']
    exact congrArg Except.error same.cause.symm
  | @ok found found' value =>
    obtain ⟨o, names⟩ := found
    obtain ⟨o', _⟩ := found'
    obtain ⟨ho, rfl⟩ := value
    rw [s.analyzeSource_eq hparse, s.analyzeSource_eq hparse']
    exact congrArg Except.ok (s.objectwise_moved ho names).symm

theorem widened_spaced :
    "\x7b let/**/x//\n\x7d".toList ∈ Pattern.spaced ["\x7b", "let", "x", "\x7d"] := by
  have hcomment : Pattern.Gaps ['/', '*', '*', '/'] :=
    .comment (v := ['*', '/']) (.star .close) .nil
  have hline : Pattern.Gaps ['/', '/', '\n'] := .line (v := []) (List.forall_mem_nil _) .nil
  have hend : [] ∈ Pattern.behind [] := Pattern.mem_kstar_gap.mpr .nil
  have hclose := Pattern.mem_behind_cons (t := "\x7d").mpr
    ⟨_, _, hline, List.cons_ne_nil _ _, hend, rfl⟩
  have hname := Pattern.mem_behind_cons (t := "x").mpr
    ⟨_, _, hcomment, List.cons_ne_nil _ _, hclose, rfl⟩
  have hlet := Pattern.mem_behind_cons (t := "let").mpr
    ⟨_, _, .blank (c := ' ') rfl .nil, List.cons_ne_nil _ _, hname, rfl⟩
  exact Pattern.mem_spaced_cons.mpr ⟨[], _, .nil, hlet, rfl⟩

theorem widened_same :
    unplaced (Settings.analyzeSource {} "\x7b let/**/x//\n\x7d") =
      unplaced (Settings.analyzeSource {} "\x7blet x\x7d") := by
  have hlexes : Lexes "\x7blet x\x7d" [⟨.punct .lbrace, ⟨0, 1⟩⟩, ⟨.keyword .letVar, ⟨1, 4⟩⟩,
      ⟨.identifier "x", ⟨5, 6⟩⟩, ⟨.punct .rbrace, ⟨6, 7⟩⟩] := ⟨⟨7, 7⟩, by decide +kernel⟩
  have hopen : Span.Cuts ⟨0, 1⟩ "\x7blet x\x7d" "\x7b" := ⟨"", "let x\x7d", by decide +kernel⟩
  have hlet : Span.Cuts ⟨1, 4⟩ "\x7blet x\x7d" "let" := ⟨"\x7b", " x\x7d", by decide +kernel⟩
  have hname : Span.Cuts ⟨5, 6⟩ "\x7blet x\x7d" "x" := ⟨"\x7blet ", "\x7d", by decide +kernel⟩
  have hclose : Span.Cuts ⟨6, 7⟩ "\x7blet x\x7d" "\x7d" := ⟨"\x7blet x", "", by decide +kernel⟩
  exact (layout_irrelevant {} hlexes (.cons hopen (.cons hlet (.cons hname (.cons hclose .nil))))
    widened_spaced).2

end Yul
