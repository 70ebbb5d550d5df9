import Yul.Proofs.Effects.Bounded
import Yul.Proofs.Outside.Notes
import Yul.Proofs.Parallel.Parts

/-!
# Names from outside are asked for exactly

An analysis asks outside for the free names that are read or assigned to, in the order in which they
are visited, whatever the answers are; each refusal is reported once, at the name that is refused. An
outside that refuses every name is as good as none (`analyze_refusing`). The main result is
`free_names_asked`.
-/

namespace Yul

/-! ## Notes of one sort -/

namespace Note

def sought? : Note → Option (Name × Bool)
  | look name found => some (name, found)
  | ask _ | undeclared _ => none

def asked? : Note → Option Access
  | ask a => some a
  | look _ _ | undeclared _ => none

def undeclared? : Note → Option Finding
  | undeclared f => some f
  | look _ _ | ask _ => none

end Note

section Mentions

variable (cfg : Setting) (ms : List Mention)

theorem filterMap_notesOfMentions {β : Type} (g : Note → Option β) (h : Mention → Option β)
    (hgh : ∀ m, (m.notes cfg).filterMap g = (h m).toList) :
    (notesOfMentions cfg ms).filterMap g = ms.filterMap h := by
  induction ms with
  | nil => rfl
  | cons m ms ih =>
    rw [notesOfMentions_cons, List.filterMap_append, hgh, ih]
    cases hm : h m <;> simp [hm]

theorem sought_notesOfMentions :
    (notesOfMentions cfg ms).filterMap Note.sought? = ms.filterMap Mention.sought? := by
  refine filterMap_notesOfMentions cfg ms _ _ fun m => ?_
  cases m with
  | use x kind seen =>
    rw [Mention.notes, Access.notes]
    split
    · rfl
    · split <;> split <;> rfl
  | head f seen => cases seen <;> rfl
  | declaration => rfl
  | data name span =>
    rw [Mention.notes]
    split <;> rfl

theorem asked_notesOfMentions : (notesOfMentions cfg ms).filterMap Note.asked? =
    if cfg.resolver.isSome then ms.filterMap Mention.access? else [] := by
  have hasked := filterMap_notesOfMentions cfg ms Note.asked?
    (fun m => if cfg.resolver.isSome then m.access? else none) fun m => ?_
  · rw [hasked]
    split
    · rfl
    · exact List.filterMap_eq_nil_iff.mpr fun _ _ => rfl
  · cases m with
    | use x kind seen =>
      rw [Mention.notes, Access.notes, Mention.access?]
      split
      · simp [Note.asked?]
      · split <;> split <;> rfl
    | head f seen => cases seen <;> simp [Mention.notes, Mention.access?, Note.asked?]
    | declaration => simp [Mention.notes, Mention.access?, Note.asked?]
    | data name span =>
      rw [Mention.notes]
      split <;> simp [Mention.access?, Note.asked?]

theorem undeclared_notesOfMentions : (notesOfMentions cfg ms).filterMap Note.undeclared? =
    ms.filterMap (Mention.undeclared? cfg) := by
  refine filterMap_notesOfMentions cfg ms _ _ fun m => ?_
  cases m with
  | use x kind seen =>
    rw [Mention.notes, Access.notes, Mention.undeclared?, Mention.access?]
    split
    · rfl
    · rw [Option.bind_some]
      split <;> split <;> rfl
  | head f seen => cases seen <;> rfl
  | declaration => rfl
  | data name span =>
    rw [Mention.notes, Mention.undeclared?]
    split <;> rfl

end Mentions

/-! ## What an analysis asks and reports -/

namespace Run

/-- The name that an event looks for, and whether something is found under it. -/
def sought? (r : Run) : Event → Option (Name × Bool)
  | .look scope name => some (name, (r.record.scopes.lookup scope name).isSome)
  | _ => none

theorem sought?_eq (r : Run) (e : Event) : r.sought? e = (r.note? e).bind Note.sought? := by
  cases e with
  | report f =>
    rw [note?]
    split <;> rfl
  | _ => rfl

/-- The names that are looked for in a run that starts with `record`, and whether something is found
under them when they are. -/
def lookups (record : Record) (es : List Event) : List (Name × Bool) :=
  (Run.mk record [] [] [] none).notesOf sought? es

theorem lookups_eq (record : Record) (es : List Event) :
    lookups record es = ((Run.mk record [] [] [] none).notesOf note? es).filterMap Note.sought? := by
  rw [lookups, notesOf_filterMap]
  exact congrArg (notesOf · _ es) (funext fun r => funext fun e => r.sought?_eq e)

theorem accesses_eq (record : Record) (r : Run) :
    r.accesses = ((Run.mk record [] [] [] none).notesOf note? r.events).filterMap Note.asked? := by
  rw [notesOf_filterMap, accesses, ← notesOf_eq_filterMap _ (Run.mk record [] [] [] none)]
  refine congrArg (notesOf · _ r.events) (funext fun r => funext fun e => ?_)
  cases e with
  | report f =>
    rw [note?]
    cases f.problem.isUndeclared <;> rfl
  | _ => rfl

theorem undeclared_eq (record : Record) (r : Run) :
    r.findings.filter (·.problem.isUndeclared) =
      ((Run.mk record [] [] [] none).notesOf note? r.events).filterMap Note.undeclared? := by
  rw [notesOf_filterMap, findings, List.filter_filterMap,
    ← notesOf_eq_filterMap _ (Run.mk record [] [] [] none)]
  refine congrArg (notesOf · _ r.events) (funext fun r => funext fun e => ?_)
  cases e with
  | report f =>
    rw [note?, Event.finding?, Option.filter_some]
    split <;> rfl
  | _ => rfl

end Run

/-! ## An outside that refuses every name -/

/-- Whether an event asks for a name outside. -/
def Event.isAsk : Event → Bool
  | .ask _ => true
  | _ => false

/-- Journals that are the same but for names that are asked for outside. -/
def Journals.unasked (d : Dialect) : Journals id d (d.atVersion d.version) fun _ => True where
  rel j j' := j'.filter (!·.isAsk) = j.filter (!·.isAsk)
  cons e j j' _ h := by rw [e.mapSpans_id, List.filter_cons, List.filter_cons, h]
  use b span j j' _ h := by
    rw [List.filter_append, List.filter_append, h]
    rfl

/-- The same setting with another outside. -/
def Setting.asking (cfg : Setting) (resolver : Option Resolver) : Setting :=
  { cfg with resolver }

/-- An outside that refuses every name. -/
def Resolver.refusing : Resolver := fun _ => none

section Setting

variable (cfg : Setting)

theorem Check.asksAlike_refusing :
    @Check.AsksAlike id (cfg.asking (some .refusing)) _ _ (.unasked cfg.dialect) none := by
  intro a r r' h
  refine ⟨rfl, ?_⟩
  show Twins _ (r.take (.ask a)) r'
  obtain ⟨record, j, rfl, hrecord, hj⟩ := h
  by_cases hr : r.fault = none
  · rw [Run.take_of_fits hr rfl]
    exact ⟨record, j, rfl, hrecord, hj⟩
  · rw [Run.take_of_fault hr]
    exact ⟨record, j, rfl, hrecord, hj⟩

/-- A run without an outside differs from one whose outside refuses every name in that it does not
ask. -/
theorem runBlock_unasked (record : Record) (b : Block) :
    ∃ j, runBlock (cfg.asking none) record b =
        { runBlock (cfg.asking (some .refusing)) record b with journal := j } ∧
      j.filter (!·.isAsk) =
        (runBlock (cfg.asking (some .refusing)) record b).journal.filter (!·.isAsk) := by
  have htwins := Check.rootBlock_parallel _ (Check.asksAlike_refusing cfg) b (fun _ _ _ _ => trivial)
    { record } { record } ⟨record, [], rfl, rfl, rfl⟩
  rw [b.mapSpans_id] at htwins
  obtain ⟨-, _, j, hafter, rfl, hj⟩ := htwins
  exact ⟨j, hafter, hj⟩

theorem filterMap_unasked {β : Type} {j j' : List Event}
    (h : j.filter (!·.isAsk) = j'.filter (!·.isAsk)) {g : Event → Option β}
    (hg : ∀ a, g (.ask a) = none) : j.reverse.filterMap g = j'.reverse.filterMap g := by
  have hfilter (j : List Event) : (j.filter (!·.isAsk)).filterMap g = j.filterMap g := by
    rw [List.filterMap_filter]
    refine List.filterMap_congr fun e _ => ?_
    cases e <;> first | rfl | exact (hg _).symm
  rw [List.filterMap_reverse, List.filterMap_reverse, ← hfilter j, h, hfilter j']

theorem ofRun_unasked {r r' : Run} {j : List Event} (hr : r' = { r with journal := j })
    (hj : j.filter (!·.isAsk) = r.journal.filter (!·.isAsk)) :
    Analysis.ofRun r' = { Analysis.ofRun r with accesses := r'.accesses } := by
  have hfindings : r'.findings = r.findings := by
    rw [hr]
    exact filterMap_unasked hj fun _ => rfl
  have hsteps : r'.collectorSteps = r.collectorSteps := by
    rw [hr]
    exact filterMap_unasked hj fun _ => rfl
  have hrecord : r'.record = r.record := by rw [hr]
  have hfault : r'.fault = r.fault := by rw [hr]
  rw [ofRun_eq hrecord hfault hsteps, hfindings, ← ofRun_findings]

variable {record : Record}

/-- The names that are asked for are the free names that the code uses, or a beginning of them if
there is a fault. Without an outside none is asked for. -/
theorem accesses_begin (hrecord : record.Served) (b : Block) : (analyze cfg record b).accesses <+:
    if cfg.resolver.isSome then (b.mentions .none).filterMap Mention.access? else [] := by
  have hbegins := (runBlock_notes cfg hrecord.regular b).1.filterMap Note.asked?
  rwa [asked_notesOfMentions, ← Run.accesses_eq, ← ofRun_accesses] at hbegins

theorem analyze_refusing (hrecord : record.Served) (b : Block) : analyze (cfg.asking none) record b =
    { analyze (cfg.asking (some .refusing)) record b with accesses := [] } := by
  have hnone : (analyze (cfg.asking none) record b).accesses = [] :=
    List.prefix_nil.mp (accesses_begin (cfg.asking none) hrecord b)
  obtain ⟨j, hrun, hj⟩ := runBlock_unasked cfg record b
  rw [analyze, ofRun_accesses] at hnone
  rw [analyze, ofRun_unasked hrun hj, hnone]
  rfl

end Setting

/-! ## Main result -/

/-- Whether a problem is that a name is not known outside. -/
def Problem.isRefusal : Problem → Bool
  | .identifierNotFound _ | .notAssignable => true
  | _ => false

/-- The diagnostics about names that are declared nowhere. -/
def Analysis.aboutUndeclared (a : Analysis) : List Diagnostic :=
  a.diagnostics.filter (·.category = .undeclaredIdentifier)

theorem refusals_of_mentions (cfg : Setting) (ms : List Mention) :
    (ms.filterMap (Mention.undeclared? cfg)).filter (·.problem.isRefusal) =
      ((ms.filterMap Mention.access?).filter fun a => (cfg.outsideType? a).isNone).map
        Access.refusal := by
  have hrefusal (a : Access) : a.refusal.problem.isRefusal = true := by
    obtain ⟨name, kind, span⟩ := a
    cases kind <;> rfl
  rw [List.filter_filterMap, List.filter_filterMap, List.map_filterMap]
  refine List.filterMap_congr fun m _ => ?_
  cases m with
  | use x kind seen =>
    rw [Mention.undeclared?]
    cases Mention.access? (.use x kind seen) with
    | none => rfl
    | some a =>
      rw [Option.bind_some, Option.filter_some]
      split
      · exact Option.filter_some_pos (hrefusal a)
      · rfl
  | head f seen => cases seen <;> rfl
  | declaration => rfl
  | data name span =>
    rw [Mention.undeclared?]
    split <;> rfl

/-- The names that are asked for outside are exactly the free names that the code uses, in the order
in which they are visited. A name is looked for where it is mentioned, and is free if nothing can be
seen under it from there and no builtin has it; heads of calls and names that are declared are never
asked for. Other answers change nothing about what is asked. Each refusal is reported once, where the
name stands, and an outside that refuses every name is as good as none. An analysis comes to a fault
only if blocks share a number. -/
theorem free_names_asked (cfg : Setting) {record : Record} (hrecord : record.Served) (b : Block)
    (resolve : Resolver) :
    let asking := cfg.asking (some resolve)
    let a := analyze asking record b
    let free := (b.mentions .none).filterMap Mention.access?
    (a.fault = none ↔ (b.blocks.map Block.id).Nodup ∧
      ∀ id ∈ b.blocks.map Block.id, id ∉ record.blockScopes) ∧
    a.accesses <+: free ∧
    (a.fault = none →
      Run.lookups record (runBlock asking record b).events =
        (b.mentions .none).filterMap Mention.sought? ∧
      a.accesses = free ∧
      (∀ other, (analyze (cfg.asking (some other)) record b).accesses = a.accesses) ∧
      a.aboutUndeclared =
        ((b.mentions .none).filterMap (Mention.undeclared? asking)).map Finding.diagnostic ∧
      a.findings.filter (·.problem.isRefusal) =
        (free.filter fun x => (resolve x).isNone).map Access.refusal) ∧
    analyze (cfg.asking none) record b =
      { analyze (cfg.asking (some .refusing)) record b with accesses := [] } := by
  intro asking a free
  have hregular := hrecord.regular
  have hfault (other : Resolver) := analyze_fault_from_eq_none_iff (cfg.asking (some other)) hregular b
  have hexact {other : Resolver} (h : (analyze (cfg.asking (some other)) record b).fault = none) :=
    (runBlock_notes (cfg.asking (some other)) hregular b).2 (fault_of_ofRun h)
  have haccesses {other : Resolver} (h : (analyze (cfg.asking (some other)) record b).fault = none) :
      (analyze (cfg.asking (some other)) record b).accesses = free := by
    rw [analyze, ofRun_accesses, Run.accesses_eq record, hexact h, asked_notesOfMentions]
    rfl
  refine ⟨hfault resolve, accesses_begin asking hrecord b, fun h => ?_, analyze_refusing cfg hrecord b⟩
  have hundeclared : a.findings.filter (·.problem.isUndeclared) =
      (b.mentions .none).filterMap (Mention.undeclared? asking) := by
    rw [← undeclared_notesOfMentions, ← hexact h, ← Run.undeclared_eq]
    exact congrArg _ (ofRun_findings _)
  refine ⟨?_, haccesses h, fun other => ?_, ?_, ?_⟩
  · rw [Run.lookups_eq, hexact h, sought_notesOfMentions]
  · rw [haccesses h, haccesses ((hfault other).mpr ((hfault resolve).mp h))]
  · rw [← hundeclared, Analysis.aboutUndeclared, Analysis.diagnostics, List.filter_map]
    rfl
  · have hsome : a.findings.filter (·.problem.isRefusal) =
        (a.findings.filter (·.problem.isUndeclared)).filter (·.problem.isRefusal) := by
      rw [List.filter_filter]
      refine List.filter_congr fun f _ => ?_
      cases f.problem <;> rfl
    rw [hsome, hundeclared, refusals_of_mentions]
    rfl

/-- The code `{ let a := b function f(x) -> y { y := a } if c.slot { d, e := f(b) } g(add) }`. -/
def outsideNames : Block where
  id := 0
  statements := [
    .declaration [⟨"a", none, default⟩] (some (.identifier ⟨"b", ⟨11, 12⟩⟩)) default,
    .function ⟨⟨"f", default⟩, [⟨"x", none, default⟩], [⟨"y", none, default⟩],
      ⟨1, [.assignment [⟨"y", default⟩] (.identifier ⟨"a", ⟨41, 42⟩⟩) default], default⟩⟩ default,
    .ifThen (.identifier ⟨"c.slot", ⟨48, 54⟩⟩)
      ⟨2, [.assignment [⟨"d", ⟨57, 58⟩⟩, ⟨"e", ⟨60, 61⟩⟩]
        (.call ⟨"f", default⟩ [.identifier ⟨"b", ⟨67, 68⟩⟩] default) default], default⟩ default,
    .expression (.call ⟨"g", ⟨72, 73⟩⟩ [.identifier ⟨"add", ⟨74, 77⟩⟩] default)]
  span := default

/-- An outside that knows `b` and `d` only. -/
def knowsSome : Resolver := fun a => if a.name ∈ ["b", "d"] then some "u256" else none

/-- The variable `a` cannot be seen in the function; `add` is a builtin and `g` the head of a call. -/
theorem outsideNames_asked :
    Record.Served {} ∧
      (analyze (({} : Setting).asking (some knowsSome)) {} outsideNames).accesses =
        [⟨"b", .read, ⟨11, 12⟩⟩, ⟨"a", .read, ⟨41, 42⟩⟩, ⟨"c.slot", .addressOf, ⟨48, 54⟩⟩,
          ⟨"b", .read, ⟨67, 68⟩⟩, ⟨"d", .write, ⟨57, 58⟩⟩, ⟨"e", .write, ⟨60, 61⟩⟩] ∧
      (analyze (({} : Setting).asking (some knowsSome)) {} outsideNames).aboutUndeclared =
        [Finding.diagnostic ⟨.identifierNotFound "a", ⟨41, 42⟩⟩,
          Finding.diagnostic ⟨.identifierNotFound "c.slot", ⟨48, 54⟩⟩,
          Finding.diagnostic ⟨.notAssignable, ⟨60, 61⟩⟩,
          Finding.diagnostic ⟨.functionNotFound "g", ⟨72, 73⟩⟩] := by
  have hdistinct : (outsideNames.blocks.map Block.id).Nodup := by decide
  obtain ⟨hfault, -, hexact, -⟩ := free_names_asked {} .new outsideNames knowsSome
  obtain ⟨-, haccesses, -, hundeclared, -⟩ := hexact (hfault.mpr ⟨hdistinct, fun id _ => by simp⟩)
  refine ⟨.new, haccesses.trans ?_, hundeclared.trans ?_⟩
  · decide +kernel
  · decide +kernel

end Yul
