import Yul.Program
import Yul.Proofs.Parallel.Parts
import Yul.Proofs.Parse.Exact

/-!
# Objects one by one

The analyses of the objects of a source share what they report. Each of them adds to it what it
would find alone and otherwise takes no notice of it (`runBlockAfter_eq`), so a source is analyzed
object by object (`analyzeSource_objectwise`).
-/

namespace Yul

/-! ## Blocks side by side -/

theorem Check.runBlock_twins {f : Span → Span} {cfg : Setting} {v : EvmVersion}
    {P : Builtin → Prop} (R : Journals f cfg.dialect (cfg.dialect.atVersion v) P)
    (hf : cfg.Overlooks f) {record record' : Record} (hrecord : R.outlook.rel record record')
    {j j' : List Event} (hj : R.rel j j') (b : Block) (hb : BuiltinsAmong P b.heads) :
    Twins R ((rootBlock cfg b).after { record, journal := j })
      ((rootBlock (cfg.atVersion v) (b.mapSpans f)).after { record := record', journal := j' }) :=
  (rootBlock_parallel R (asksAlike_of_overlooks R hf) b hb _ _ ⟨record', j', rfl, hrecord, hj⟩).2

/-! ## What was reported before -/

/-- Journals of which one has the events of the other and before them those of `earlier`. -/
def Journals.after (d : Dialect) (earlier : List Event) :
    Journals id d (d.atVersion d.version) fun _ => True where
  rel j j' := j' = j ++ earlier
  cons e j j' _ h := by rw [Event.mapSpans_id, h, List.cons_append]
  use b span j j' _ h := by
    rw [h, List.append_assoc]
    rfl

theorem runBlockAfter_eq (cfg : Setting) (record : Record) (reported : List Finding) (b : Block) :
    runBlockAfter cfg record reported b =
      { runBlock cfg record b with
        journal := (runBlock cfg record b).journal ++ (reported.map Event.report).reverse } := by
  have htwins := Check.runBlock_twins (.after cfg.dialect (reported.map Event.report).reverse)
    cfg.overlooks_id (Eq.refl record) (List.nil_append _).symm b fun _ _ _ _ => trivial
  rw [b.mapSpans_id] at htwins
  obtain ⟨_, j, hafter, rfl, hj⟩ := htwins
  exact hafter.trans (congrArg ({ runBlock cfg record b with journal := · }) hj)

/-- What was reported before a run stands before what is found in it, and changes nothing else. -/
theorem ofRun_after {r r' : Run} {reported : List Finding}
    (h : r' = { r with journal := r.journal ++ (reported.map Event.report).reverse }) :
    Analysis.ofRun r' =
      { Analysis.ofRun r with findings := reported ++ (Analysis.ofRun r).findings } := by
  have hevents : r'.events = reported.map Event.report ++ r.events := by
    rw [h, Run.events, List.reverse_append, List.reverse_reverse]
    rfl
  have hnothing {α : Type} {g : Event → Option α} (hg : ∀ x, g (.report x) = none) :
      r'.events.filterMap g = r.events.filterMap g := by
    rw [hevents, List.filterMap_append, List.filterMap_eq_nil_iff.mpr, List.nil_append]
    exact List.forall_mem_map.mpr fun x _ => hg x
  have hfindings : r'.findings = reported ++ r.findings := by
    rw [Run.findings, hevents, List.filterMap_append, List.filterMap_map]
    exact congrArg (· ++ r.findings) List.filterMap_some
  have hrecord : r'.record = r.record := by rw [h]
  have hfault : r'.fault = r.fault := by rw [h]
  rw [ofRun_congr hrecord hfault (hnothing fun _ => rfl) (hnothing fun _ => rfl), hfindings,
    ofRun_findings]

/-! ## One object after the other -/

mutual

/-- The object at `path` and the objects inside it with their paths, an object before those inside
it. -/
def Object.located (path : String) : Object → List (String × Object)
  | ⟨name, code, objects, data, span⟩ =>
    (path, ⟨name, code, objects, data, span⟩) :: locatedOfObjects path objects

def locatedOfObjects (path : String) : List Object → List (String × Object)
  | [] => []
  | o :: rest => o.located (innerPath path o.name) ++ locatedOfObjects path rest

end

mutual

theorem Object.containsMsize_eq (path : String) (o : Object) :
    o.containsMsize = (o.located path).any (·.2.code.containsMsize) := by
  match o with
  | ⟨name, code, objects, data, span⟩ =>
    rw [Object.containsMsize, Object.located, List.any_cons,
      containsMsizeOfObjects_eq path objects]

theorem containsMsizeOfObjects_eq (path : String) (objects : List Object) :
    containsMsizeOfObjects objects =
      (locatedOfObjects path objects).any (·.2.code.containsMsize) := by
  match objects with
  | [] => rfl
  | o :: rest =>
    rw [containsMsizeOfObjects, locatedOfObjects, List.any_append,
      o.containsMsize_eq (innerPath path o.name), containsMsizeOfObjects_eq path rest]

end

namespace Settings

variable (s : Settings)

/-- The analysis of an object's code on its own. It may refer to the data that the object can see and
to the names that every object may refer to. -/
def alone (located : String × Object) : ObjectAnalysis :=
  let (path, o) := located
  let a := analyze { dialect := s.dialect, dataNames := o.dataNames ++ s.dataNames } {} o.code
  ⟨path, a, a.succeeded⟩

end Settings

/-- What is known after further objects that are analyzed on their own. -/
def Progress.append (p : Progress) (analyses : List ObjectAnalysis) : Progress :=
  ⟨p.findings ++ analyses.flatMap (·.analysis.findings), p.objects ++ analyses⟩

theorem Progress.append_append (p : Progress) (xs ys : List ObjectAnalysis) :
    (p.append xs).append ys = p.append (xs ++ ys) := by
  simp only [append, List.flatMap_append, List.append_assoc]

theorem countP_isError_append (reported found : List Finding) :
    ((reported ++ found).countP Finding.isError == reported.countP Finding.isError) =
      !found.any Finding.isError := by
  rw [List.countP_append, Bool.eq_iff_iff, beq_iff_eq, Nat.add_eq_left, List.countP_eq_zero,
    Bool.not_eq_true', List.any_eq_false]

theorem Analysis.succeeded_iff (a : Analysis) :
    a.succeeded = true ↔ ∀ d ∈ a.diagnostics, d.isError = false := by
  rw [Analysis.succeeded, Bool.not_eq_true', List.any_eq_false, Analysis.diagnostics,
    List.forall_mem_map]
  exact forall₂_congr fun f _ => Bool.not_eq_true f.isError ▸ Iff.rfl

theorem Outcome.errorCount_eq_zero_iff (outcome : Outcome) :
    outcome.errorCount = 0 ↔ ∀ d ∈ outcome.diagnostics, d.isError = false := by
  rw [errorCount, List.length_eq_zero_iff, Diagnostic.errors, List.filter_eq_nil_iff]
  exact forall₂_congr fun d _ => Bool.not_eq_true d.isError ▸ Iff.rfl

namespace Settings

variable (s : Settings)

theorem analyzeCode_eq (path : String) (o : Object) (p : Progress) :
    s.analyzeCode path o p = p.append [s.alone (path, o)] := by
  unfold analyzeCode
  rw [ofRun_after (runBlockAfter_eq _ _ _ _)]
  dsimp only
  rw [countP_isError_append, List.drop_left]
  exact congrArg (Progress.mk · _) (congrArg (p.findings ++ ·) (List.append_nil _).symm)

mutual

theorem analyzeObject_eq (path : String) (o : Object) (p : Progress) :
    s.analyzeObject path o p = p.append ((o.located path).map s.alone) := by
  match o with
  | ⟨name, code, objects, data, span⟩ =>
    rw [analyzeObject, analyzeCode_eq, analyzeObjects_eq path objects, Progress.append_append]
    rfl

theorem analyzeObjects_eq (path : String) (objects : List Object) (p : Progress) :
    s.analyzeObjects path objects p = p.append ((locatedOfObjects path objects).map s.alone) := by
  match objects with
  | [] =>
    rw [analyzeObjects, locatedOfObjects, Progress.append, List.map_nil, List.flatMap_nil,
      List.append_nil, List.append_nil]
  | o :: rest =>
    rw [analyzeObjects, analyzeObject_eq _ o, analyzeObjects_eq path rest, Progress.append_append,
      locatedOfObjects, List.map_append]

end

/-- What is known about a source once all its objects are analyzed on their own. -/
def objectwise (o : Object) (names : NameTable) : Outcome :=
  let analyses := (o.located "").map s.alone
  ⟨o, names, analyses, analyses.flatMap (·.analysis.findings), o.containsMsize⟩

theorem analyzeSource_eq {source : String} {o : Object} {names : NameTable}
    (h : parseSource (.ofDialect s.dialect) source = .ok (o, names)) :
    s.analyzeSource source = .ok (s.objectwise o names) := by
  have hprogress : s.analyzeObject "" o {} = Progress.append {} ((o.located "").map s.alone) :=
    s.analyzeObject_eq "" o {}
  unfold analyzeSource
  rw [h]
  show Except.ok (Outcome.mk o names (s.analyzeObject "" o {}).objects
    (s.analyzeObject "" o {}).findings o.containsMsize) = .ok (s.objectwise o names)
  rw [hprogress]
  rfl

theorem analyzeSource_eq_error {source : String} {e : SourceError}
    (h : parseSource (.ofDialect s.dialect) source = .error e) :
    s.analyzeSource source = .error e := by
  unfold analyzeSource
  rw [h]
  rfl

theorem eq_objectwise_of_analyzeSource {source : String} {outcome : Outcome}
    (h : s.analyzeSource source = .ok outcome) :
    ∃ o names, parseSource (.ofDialect s.dialect) source = .ok (o, names) ∧
      outcome = s.objectwise o names := by
  cases hparse : parseSource (.ofDialect s.dialect) source with
  | error e =>
    rw [s.analyzeSource_eq_error hparse] at h
    exact nomatch h
  | ok parsed =>
    obtain ⟨o, names⟩ := parsed
    rw [s.analyzeSource_eq hparse] at h
    exact ⟨o, names, rfl, (Except.ok.inj h).symm⟩

theorem analyzeSource_eq_ok {names names' : NameTable} {source : String} {o : Object}
    (h : parseSource names source = .ok (o, names')) :
    ∃ outcome, s.analyzeSource source = .ok outcome ∧ outcome.object = o ∧
      outcome.objects = (o.located "").map s.alone := by
  have hderives := (Parser.parseSource_iff names source o).mp ⟨names', h⟩
  obtain ⟨known, hknown⟩ := (Parser.parseSource_iff (.ofDialect s.dialect) source o).mpr hderives
  exact ⟨s.objectwise o known, s.analyzeSource_eq hknown, rfl, rfl⟩

theorem objectwise_diagnostics (o : Object) (names : NameTable) :
    (s.objectwise o names).diagnostics =
      (s.objectwise o names).objects.flatMap (·.analysis.diagnostics) :=
  List.map_flatMap

/-- All objects succeed if and only if no error is reported. -/
theorem objectwise_succeeded (o : Object) (names : NameTable) :
    (s.objectwise o names).succeeded = true ↔ (s.objectwise o names).errorCount = 0 := by
  have hall : (s.objectwise o names).succeeded = true ↔
      ∀ a ∈ (s.objectwise o names).objects, ∀ d ∈ a.analysis.diagnostics, d.isError = false := by
    rw [Outcome.succeeded, List.all_eq_true, objectwise, List.forall_mem_map, List.forall_mem_map]
    exact forall₂_congr fun _ _ => Analysis.succeeded_iff _
  rw [hall, Outcome.errorCount_eq_zero_iff, objectwise_diagnostics]
  simp only [List.mem_flatMap]
  exact ⟨fun h d ⟨a, ha, hd⟩ => h a ha d hd, fun h a ha d hd => h d ⟨a, ha, hd⟩⟩

end Settings

/-! ## A source with two objects -/

/-- An object without code of its own around one that asks for the base fee. -/
def nestedSource : String :=
  "object \"A\" \x7b code \x7b \x7d object \"B\" \x7b code \x7b pop(basefee()) \x7d \x7d \x7d"

/-- The object of `nestedSource`. -/
def nested : Object :=
  let fee : Expr := .call ⟨"basefee", ⟨46, 53⟩⟩ [] ⟨46, 55⟩
  let code : Block := ⟨1, [.expression (.call ⟨"pop", ⟨42, 45⟩⟩ [fee] ⟨42, 56⟩)], ⟨40, 58⟩⟩
  ⟨"A", ⟨0, [], ⟨18, 21⟩⟩, [⟨"B", code, [], [], ⟨22, 60⟩⟩], [], ⟨0, 62⟩⟩

theorem eq_ok_of_toOption {ε α : Type} {x : Except ε α} {a : α} (h : x.toOption = some a) :
    x = .ok a := by
  cases x with
  | ok => exact congrArg Except.ok (Option.some.inj h)
  | error => exact nomatch h

theorem derivesName_of_decodes (raw name : String) (span : Span) {bytes : List UInt8}
    (hraw : Text.decodeString raw.toList = .ok bytes) (hname : Text.decodeLossy bytes = name) :
    DerivesName [⟨.string raw, span⟩] name :=
  hname ▸ .mk span (Text.decodeString_eq_ok_iff.mp hraw)

theorem nested_parses (names : NameTable) :
    ∃ names', parseSource names nestedSource = .ok (nested, names') := by
  have houterRaw : Text.decodeString "\"A\"".toList = .ok [65] :=
    eq_ok_of_toOption (by decide +kernel)
  have hinnerRaw : Text.decodeString "\"B\"".toList = .ok [66] :=
    eq_ok_of_toOption (by decide +kernel)
  have houterName : Text.decodeLossy [65] = "A" := by
    simp [Text.decodeLossy, Text.decodeFrom, Text.decodeFrom.restart, Text.lead]
  have hinnerName : Text.decodeLossy [66] = "B" := by
    simp [Text.decodeLossy, Text.decodeFrom, Text.decodeFrom.restart, Text.lead]
  have hfee : DerivesExpr _ _ := .call ⟨"basefee", ⟨46, 53⟩⟩ ⟨53, 54⟩ ⟨54, 55⟩ .none rfl
  have hpop : DerivesExpr _ _ :=
    .call ⟨"pop", ⟨42, 45⟩⟩ ⟨45, 46⟩ ⟨55, 56⟩ (.some (.mk hfee .nil)) rfl
  have hinner : DerivesObject 1 _ _ :=
    .mk ⟨22, 28⟩ ⟨33, 34⟩ ⟨35, 39⟩ ⟨59, 60⟩
      (derivesName_of_decodes "\"B\"" "B" ⟨29, 32⟩ hinnerRaw hinnerName)
      (.mk ⟨40, 41⟩ ⟨57, 58⟩ (.cons (.expression hpop) .nil) rfl) .nil rfl
  have houter : DerivesObject 0 _ nested :=
    .mk ⟨0, 6⟩ ⟨11, 12⟩ ⟨13, 17⟩ ⟨61, 62⟩
      (derivesName_of_decodes "\"A\"" "A" ⟨7, 10⟩ houterRaw houterName)
      (.mk ⟨18, 19⟩ ⟨20, 21⟩ .nil rfl) (.object hinner .nil) rfl
  refine (Parser.parseSource_iff names _ _).mpr ⟨_, ⟨⟨62, 62⟩, ?_⟩, ?_, .object houter⟩
  · decide +kernel
  · simp [validStrings_iff, Punct.lexeme, wordLexeme, Identifier.lexeme]
    exact ⟨⟨_, houterRaw⟩, ⟨_, hinnerRaw⟩⟩

/-! ## Main result -/

/-- Every object of a source that can be read is analyzed as if its code stood alone, an object
before those inside it: whatever is reported before, its analysis is the same, and succeeds if and
only if it finds no error. What is reported for the source is what these analyses report, one after
the other. -/
theorem analyzeSource_objectwise (s : Settings) {source : String} {o : Object} {names : NameTable}
    (h : parseSource (.ofDialect s.dialect) source = .ok (o, names)) :
    ∃ outcome, s.analyzeSource source = .ok outcome ∧ outcome.object = o ∧ outcome.names = names ∧
      outcome.objects = (o.located "").map s.alone ∧
      outcome.diagnostics = outcome.objects.flatMap (·.analysis.diagnostics) ∧
      (∀ a ∈ outcome.objects,
        a.succeeded = true ↔ ∀ d ∈ a.analysis.diagnostics, d.isError = false) ∧
      (outcome.succeeded = true ↔ outcome.errorCount = 0) ∧
      outcome.containsMsize = (o.located "").any (·.2.code.containsMsize) ∧
      ∀ path part p, s.analyzeCode path part p = p.append [s.alone (path, part)] :=
  ⟨s.objectwise o names, s.analyzeSource_eq h, rfl, rfl, rfl, s.objectwise_diagnostics o names,
    List.forall_mem_map.mpr fun _ _ => Analysis.succeeded_iff _, s.objectwise_succeeded o names,
    o.containsMsize_eq "", s.analyzeCode_eq⟩

/-- The base fee is too new for the inner object, and the outer one succeeds all the same. -/
theorem nested_objectwise :
    ∃ outcome,
      Settings.analyzeSource { dialect := { version := .istanbul } } nestedSource = .ok outcome ∧
      outcome.objects.map (fun a => (a.path, a.succeeded)) = [("", true), ("B", false)] ∧
      outcome.errorCount = 1 := by
  obtain ⟨names, hparse⟩ := nested_parses (.ofDialect { version := .istanbul })
  obtain ⟨outcome, hanalyze, -, -, hobjects, hdiagnostics, -⟩ :=
    analyzeSource_objectwise { dialect := { version := .istanbul } } hparse
  refine ⟨outcome, hanalyze, ?_, ?_⟩
  · rw [hobjects]
    decide +kernel
  · rw [Outcome.errorCount, hdiagnostics, hobjects]
    decide +kernel

end Yul
