import Yul.Proofs.Effects.Bounded
import Yul.Proofs.Session.Entries

/-!
# Sessions

A session is a row of analyses with one record, each with a setting and code of its own. As long as no
two blocks of all the code have the same number, no analysis has a fault, and what has been recorded
stays as it is (`session_keeps`): at every step of the session the record stays the same or a single
write adds to it. No analysis has anything to do with the scopes that earlier ones have opened.

`Record.LeftBy record ids` is what a record is like behind analyses of the blocks `ids`. It holds of a
new record, and every analysis of further blocks keeps it.
-/

namespace Yul

/-! ## Rows of analyses -/

/-- One analysis of a session: what it is told, and the code. -/
structure Job where
  cfg : Setting
  block : Block

namespace Job

/-- The numbers of the blocks. -/
def ids (job : Job) : List BlockId :=
  job.block.blocks.map Block.id

/-- The analysis, with the given record. -/
def analysis (job : Job) (record : Record) : Analysis :=
  analyze job.cfg record job.block

/-- The records that an analysis goes through: the one that it starts with, one behind each event of
its run, and one behind each entry that it writes then. -/
def trail (job : Job) (record : Record) : List Record :=
  let run := runBlock job.cfg record job.block
  (run.events.scanl Point.take (.start record)).map (·.run.record) ++
    run.entries.scanl Record.enter run.record

end Job

/-- The record behind a session that starts with the given one. -/
def Record.behind (record : Record) (jobs : List Job) : Record :=
  jobs.foldl (fun record job => (job.analysis record).record) record

/-- The records that a session goes through. -/
def Record.trail (record : Record) : List Job → List Record
  | [] => [record]
  | job :: jobs => job.trail record ++ (job.analysis record).record.trail jobs

theorem Job.head?_trail (job : Job) (record : Record) : (job.trail record).head? = some record := by
  rw [trail, List.head?_append, List.head?_map, List.head?_scanl]
  rfl

theorem Job.getLast?_trail (job : Job) (record : Record) :
    (job.trail record).getLast? = some (job.analysis record).record := by
  rw [trail, List.getLast?_append, List.getLast?_scanl, analysis, analyze, ofRun_record_eq]
  rfl

theorem Record.head?_trail (record : Record) (jobs : List Job) :
    (record.trail jobs).head? = some record := by
  cases jobs with
  | nil => rfl
  | cons job jobs => rw [trail, List.head?_append, job.head?_trail, Option.some_or]

theorem Record.getLast?_trail (record : Record) (jobs : List Job) :
    (record.trail jobs).getLast? = some (record.behind jobs) := by
  induction jobs generalizing record with
  | nil => rfl
  | cons job jobs ih =>
    rw [trail, List.getLast?_append, ih, Option.some_or]
    rfl

/-! ## Records behind analyses -/

/-- What a record is like behind analyses of the blocks `ids`. -/
structure Record.LeftBy (record : Record) (ids : List BlockId) : Prop where
  regular : (Run.mk record [] [] [] none).Regular
  /-- scopes belong to these blocks and to functions with such bodies -/
  places : ∀ h : Holder, record.place? h ≠ none → h.id ∈ ids
  blocks : ∀ id : BlockId, record.blockEffects[id]? ≠ none → id ∈ ids
  /-- functions are declared in scopes that are there -/
  functions : ∀ f : FunctionId, record.functionEffects[f]? ≠ none → f.scope < record.scopes.size

theorem Record.leftBy_new : LeftBy {} [] where
  regular := Run.regular_empty
  places h hplace := by
    refine absurd ?_ hplace
    cases h <;> simp [place?]
  blocks id hentry := absurd (by simp) hentry
  functions f hentry := absurd (by simp) hentry

namespace Record.LeftBy

variable {record : Record} {ids : List BlockId} (h : record.LeftBy ids) {job : Job}
  (hdistinct : (ids ++ job.ids).Nodup)

include h hdistinct

theorem place?_eq_none {holder : Holder} (hid : holder.id ∈ job.ids) :
    record.place? holder = none := by
  by_contra hplace
  exact List.disjoint_of_nodup_append hdistinct (h.places holder hplace) hid

theorem fault_eq_none : (job.analysis record).fault = none := by
  refine (analyze_fault_from_eq_none_iff job.cfg h.regular job.block).mpr
    ⟨hdistinct.of_append_right, fun id hid => ?_⟩
  rw [Std.TreeMap.mem_iff_isSome_getElem?, Bool.not_eq_true, Option.isSome_eq_false_iff,
    Option.isNone_iff_eq_none]
  have hnone : record.place? (.block id) = none := h.place?_eq_none hdistinct hid
  exact hnone

theorem run_fault : (runBlock job.cfg record job.block).fault = none :=
  fault_of_ofRun (h.fault_eq_none hdistinct)

/-- At every step of an analysis the record stays the same or one write adds to it. -/
theorem isChain_job : (job.trail record).IsChain Step := by
  have hrun := h.run_fault hdistinct
  have hopened := runBlock_opened job.cfg hrun
  have hids := hdistinct.of_append_right
  have hgoes := (runBlock_goes job.cfg record job.block).1
  have hfresh : Fresh Event.holder? record.place? (runBlock job.cfg record job.block).events := by
    rw [Fresh, ← Run.opened, hopened]
    refine ⟨job.block.rootSites_nodup _ hids, fun holder hholder => ?_⟩
    exact h.place?_eq_none hdistinct (Block.id_mem_of_rootSites hholder)
  have hentries := runBlock_entries_fresh job.cfg hrun hids
    (fun id hid => by_contra fun hentry =>
      List.disjoint_of_nodup_append hdistinct (h.blocks id hentry) hid) h.functions
  rw [Job.trail, List.isChain_append]
  refine ⟨Point.isChain_records hgoes hfresh, isChain_enter hentries, ?_⟩
  -- behind its last event a run begins to write its entries
  intro r hr r' hr'
  rw [List.getLast?_map, List.getLast?_scanl, ← Point.after, after_runBlock_events job.cfg hrun] at hr
  rw [List.head?_scanl] at hr'
  exact .inl ((Option.some.inj hr').symm.trans (Option.some.inj hr))

theorem place?_analysis {holder : Holder}
    (hplace : (job.analysis record).record.place? holder ≠ none) :
    record.place? holder ≠ none ∨ holder.id ∈ job.ids := by
  have hrun := h.run_fault hdistinct
  obtain ⟨-, hblockScopes, hfunctionScopes⟩ := ofRun_record (runBlock job.cfg record job.block)
  by_cases hopened : holder ∈ (runBlock job.cfg record job.block).opened
  · rw [runBlock_opened job.cfg hrun] at hopened
    exact .inr (Block.id_mem_of_rootSites hopened)
  · left
    have hbehind : (job.analysis record).record.place? holder =
        (runBlock job.cfg record job.block).record.place? holder := by
      cases holder with
      | block id => exact congrArg (·[id]?) hblockScopes
      | parameters body => exact congrArg (·[body]?) hfunctionScopes
    have hsame := (runBlock_goes job.cfg record job.block).1.place?_after hopened
    rw [after_runBlock_events job.cfg hrun] at hsame
    rwa [hbehind, hsame] at hplace

theorem effectsOf?_analysis {owner : FrameOwner}
    (hentry : (job.analysis record).record.effectsOf? owner ≠ none) :
    record.effectsOf? owner ≠ none ∨ (∃ id ∈ job.ids, owner = .block id) ∨
      ∃ f, owner = .function f ∧ f.scope < (job.analysis record).record.scopes.size := by
  have hrun := h.run_fault hdistinct
  obtain ⟨fs, -, hentered, howners⟩ := runBlock_owners job.cfg hrun
  have hhomed := runBlock_homed job.cfg h.regular hrun
  by_cases howner : owner ∈ (runBlock job.cfg record job.block).entries.filterMap Entry.owner?
  · right
    rcases List.mem_append.mp (howners.mem_iff.mp howner) with hmem | hmem
    · obtain ⟨id, hid, rfl⟩ := List.mem_map.mp hmem
      exact .inl ⟨id, hid, rfl⟩
    · obtain ⟨f, hf, rfl⟩ := List.mem_map.mp hmem
      refine .inr ⟨f, rfl, ?_⟩
      rw [Job.analysis, analyze, (ofRun_record _).1]
      exact hhomed f (hentered f hf)
  · left
    rwa [Job.analysis, analyze, ofRun_record_eq, Record.effectsOf?_foldl_enter _ howner,
      runBlock_effectsOf?] at hentry

theorem analysis : (job.analysis record).record.LeftBy (ids ++ job.ids) := by
  have hrun := h.run_fault hdistinct
  obtain ⟨hscopes, hblockScopes, -⟩ := ofRun_record (runBlock job.cfg record job.block)
  constructor
  · have hready := runBlock_ready_of_regular job.cfg h.regular job.block hrun
    exact hready.regular.of_scopes hscopes hblockScopes
  · intro holder hplace
    exact List.mem_append.mpr ((h.place?_analysis hdistinct hplace).imp_left (h.places holder))
  · intro id hentry
    rw [List.mem_append]
    change (job.analysis record).record.effectsOf? (.block id) ≠ none at hentry
    rcases h.effectsOf?_analysis hdistinct hentry with hold | ⟨_, hid, heq⟩ | hf
    · exact .inl (h.blocks id hold)
    · exact .inr (FrameOwner.block.inj heq ▸ hid)
    · obtain ⟨f, hf, -⟩ := hf
      exact nomatch hf
  · intro f hentry
    change (job.analysis record).record.effectsOf? (.function f) ≠ none at hentry
    rcases h.effectsOf?_analysis hdistinct hentry with hold | hblock | hf
    · obtain ⟨row, hsince, -, -⟩ := Point.declared (runBlock_goes job.cfg record job.block).1
      have hsize := hsince.size_le
      rw [after_runBlock_events job.cfg hrun, ← hscopes] at hsize
      exact Nat.lt_of_lt_of_le (h.functions f hold) hsize
    · obtain ⟨id, -, hid⟩ := hblock
      exact nomatch hid
    · obtain ⟨g, hg, hlt⟩ := hf
      exact FrameOwner.function.inj hg ▸ hlt

end Record.LeftBy

namespace Record.LeftBy

variable {record : Record} {ids : List BlockId} {jobs : List Job}

theorem behind (h : record.LeftBy ids) (hdistinct : (ids ++ jobs.flatMap Job.ids).Nodup) :
    (record.behind jobs).LeftBy (ids ++ jobs.flatMap Job.ids) := by
  induction jobs generalizing record ids with
  | nil =>
    rw [List.flatMap_nil, List.append_nil]
    exact h
  | cons job jobs ih =>
    rw [List.flatMap_cons, ← List.append_assoc] at hdistinct ⊢
    exact ih (h.analysis hdistinct.of_append_left) hdistinct

theorem isChain (h : record.LeftBy ids) (hdistinct : (ids ++ jobs.flatMap Job.ids).Nodup) :
    (record.trail jobs).IsChain Step := by
  induction jobs generalizing record ids with
  | nil => exact .singleton record
  | cons job jobs ih =>
    rw [List.flatMap_cons, ← List.append_assoc] at hdistinct
    have hjob := hdistinct.of_append_left
    rw [Record.trail, List.isChain_append]
    refine ⟨h.isChain_job hjob, ih (h.analysis hjob) hdistinct, ?_⟩
    intro r hr r' hr'
    rw [Job.getLast?_trail] at hr
    rw [Record.head?_trail] at hr'
    exact .inl ((Option.some.inj hr').symm.trans (Option.some.inj hr))

end Record.LeftBy

/-! ## Main result -/

/-- What a session that starts with a new record does to it. -/
structure SessionKeeps (jobs : List Job) : Prop where
  /-- from one step to the next the record stays the same, or one write adds to it -/
  steps : (Record.trail {} jobs).IsChain Record.Step
  /-- what is recorded at one step is recorded at every later one -/
  grows : (Record.trail {} jobs).Pairwise Record.GrowsTo
  /-- the session goes on to the record behind its last analysis -/
  ends : (Record.trail {} jobs).getLast? = some (Record.behind {} jobs)
  /-- every analysis has a result -/
  faultless : ∀ before job after, jobs = before ++ job :: after →
    (job.analysis (Record.behind {} before)).fault = none
  /-- no analysis has to do with the scopes of an earlier one -/
  apart : ∀ before job after, jobs = before ++ job :: after →
    KeepsApart job.cfg (Record.behind {} before) job.block

/-- Analyses of different blocks with one record never change what is recorded. -/
theorem session_keeps (jobs : List Job) (hdistinct : (jobs.flatMap Job.ids).Nodup) :
    SessionKeeps jobs := by
  have hsteps := Record.leftBy_new.isChain hdistinct
  constructor
  · exact hsteps
  · exact (hsteps.imp fun _ _ => Record.Step.growsTo).pairwise
  · exact Record.getLast?_trail {} jobs
  · rintro before job after rfl
    rw [List.flatMap_append, List.flatMap_cons, ← List.append_assoc] at hdistinct
    have hbefore := hdistinct.of_append_left
    have hrecord := Record.leftBy_new.behind hbefore.of_append_left
    exact hrecord.fault_eq_none hbefore
  · exact fun before job _ _ => runBlock_keepsApart job.cfg _ job.block

/-- The code `{ let x function f() { x := 1 } function f() { } }`, in which names are misused. -/
def misnamed : Block where
  id := 5
  statements := [
    .declaration [⟨"x", none, default⟩] none default,
    .function ⟨⟨"f", default⟩, [], [], ⟨6, [.assignment [⟨"x", default⟩]
      (.literal ⟨.number "1", none, default⟩) default], default⟩⟩ default,
    .function ⟨⟨"f", default⟩, [], [], ⟨7, [], default⟩⟩ default]
  span := default

/-- Two analyses, one with labels and one without. -/
def twoJobs : List Job :=
  [⟨{}, relayed⟩, ⟨{ dialect := { flavour := .typed } }, misnamed⟩]

/-- Behind both analyses there is a scope for each block and for the parameters of each function. -/
theorem twoJobs_kept :
    (twoJobs.flatMap Job.ids).Nodup ∧ (Record.behind {} twoJobs).scopes.size = 13 ∧
      SessionKeeps twoJobs :=
  ⟨by decide, by decide +kernel, session_keeps twoJobs (by decide)⟩

end Yul
