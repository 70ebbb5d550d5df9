import Yul.Proofs.Effects.Account
import Yul.Proofs.Effects.Total

/-!
# Well bracketed traces

A trace of steps of a collector is well bracketed if each frame that is left is the innermost one
that is open, and none is open in the end. What is recorded in a trace reaches the innermost frame,
and from there the frames of the blocks around it, up to and with the first function body
(`Collector.reached`); `Collector.Records` tells of each frame what is recorded in it, of frames
with the same owner all together.

A well bracketed trace is nested (`WellBracketed.nested`), and its account holds what is recorded in
its frames (`WellBracketed.records_iff`).
-/

namespace Yul

open Collector (Step)

/-- The step that opens the frame of an owner. -/
def FrameOwner.enter : FrameOwner → Step
  | .block id => .enterBlock id
  | .function f => .enterFunction f

/-- The step that closes it. -/
def FrameOwner.exit : FrameOwner → Step
  | .block id => .exitBlock id
  | .function f => .exitFunction f

/-- The step that records an act. -/
def Act.step : Act FunctionId → Step
  | .effects e => .add e
  | .call f => .call f

namespace Collector

@[elab_as_elim] theorem Step.cases_kind {P : Step → Prop} (act : ∀ a : Act FunctionId, P a.step)
    (enter : ∀ o : FrameOwner, P o.enter) (exit : ∀ o : FrameOwner, P o.exit) (s : Step) : P s := by
  cases s with
  | enterBlock id => exact enter (.block id)
  | exitBlock id => exact exit (.block id)
  | enterFunction f => exact enter (.function f)
  | exitFunction f => exact exit (.function f)
  | add e => exact act (.effects e)
  | call f => exact act (.call f)

/-! ## Open frames -/

/-- The open frames without the innermost one, which has to be that of `owner`. -/
def leave (owner : FrameOwner) : List FrameOwner → Option (List FrameOwner)
  | [] => none
  | innermost :: outer => if innermost = owner then some outer else none

/-- The frames that are open after a step, the innermost first, or `none` if it closes another frame
than the innermost one. -/
def Step.opened (s : Step) (frames : List FrameOwner) : Option (List FrameOwner) :=
  match s with
  | .enterBlock id => some (.block id :: frames)
  | .enterFunction f => some (.function f :: frames)
  | .exitBlock id => leave (.block id) frames
  | .exitFunction f => leave (.function f) frames
  | .add _ => some frames
  | .call _ => some frames

/-- The frames that are open after a trace that starts with the open frames `frames`. -/
def openedAfter (frames : List FrameOwner) (steps : List Step) : Option (List FrameOwner) :=
  steps.foldlM (fun frames s => s.opened frames) frames

/-- Each frame that is closed is the innermost one, and in the end none is open. -/
def WellBracketed (steps : List Step) : Prop :=
  openedAfter [] steps = some []

instance (steps : List Step) : Decidable (WellBracketed steps) :=
  inferInstanceAs (Decidable (_ = _))

/-- The frames that something reaches which is recorded while `frames` are open: the innermost one
and those around it, up to and with the first one of a function. -/
def reached : List FrameOwner → List FrameOwner
  | [] => []
  | .block id :: outer => .block id :: reached outer
  | .function f :: _ => [.function f]

/-- `act` is recorded in a frame of `owner`, in a trace that starts with the open frames `frames`. -/
def RecordsFrom (frames : List FrameOwner) (steps : List Step) (owner : FrameOwner)
    (act : Act FunctionId) : Prop :=
  ∃ before after opened, steps = before ++ act.step :: after ∧
    openedAfter frames before = some opened ∧ owner ∈ reached opened

/-- `act` is recorded in a frame of `owner`. -/
def Records (steps : List Step) : FrameOwner → Act FunctionId → Prop :=
  RecordsFrom [] steps

/-- The blocks that are entered. -/
def enteredBlocks (steps : List Step) : List BlockId :=
  steps.filterMap fun
    | .enterBlock id => some id
    | _ => none

section OpenedAfter

variable {frames frames' outer : List FrameOwner} {steps steps' : List Step} {owner : FrameOwner}
  {act act' : Act FunctionId}

@[simp] theorem openedAfter_nil : openedAfter frames [] = some frames := rfl

@[simp] theorem openedAfter_cons (s : Step) :
    openedAfter frames (s :: steps) = (s.opened frames).bind (openedAfter · steps) :=
  List.foldlM_cons

theorem openedAfter_append :
    openedAfter frames (steps ++ steps') = (openedAfter frames steps).bind (openedAfter · steps') :=
  List.foldlM_append

@[simp] theorem opened_act (act : Act FunctionId) : act.step.opened frames = some frames := by
  cases act <;> rfl

@[simp] theorem opened_enter : owner.enter.opened frames = some (owner :: frames) := by
  cases owner <;> rfl

@[simp] theorem opened_exit : owner.exit.opened frames = leave owner frames := by
  cases owner <;> rfl

@[simp] theorem leave_cons : leave owner (owner :: frames) = some frames :=
  if_pos rfl

theorem eq_cons_of_leave (h : leave owner frames = some frames') : frames = owner :: frames' := by
  cases frames with
  | nil => exact nomatch h
  | cons innermost outer =>
    rw [leave] at h
    split at h
    · next heq => exact congrArg₂ List.cons heq (Option.some.inj h)
    · exact nomatch h

theorem openedAfter_append_frames (h : openedAfter frames steps = some frames') :
    openedAfter (frames ++ outer) steps = some (frames' ++ outer) := by
  induction steps generalizing frames with
  | nil => exact congrArg _ (congrArg (· ++ outer) (Option.some.inj h))
  | cons s steps ih =>
    rw [openedAfter_cons, Option.bind_eq_some_iff] at h ⊢
    obtain ⟨mid, hs, hrest⟩ := h
    refine ⟨mid ++ outer, ?_, ih hrest⟩
    cases s using Step.cases_kind with
    | act act =>
      rw [opened_act] at hs ⊢
      exact congrArg _ (congrArg (· ++ outer) (Option.some.inj hs))
    | enter o =>
      rw [opened_enter] at hs ⊢
      exact congrArg _ (congrArg (· ++ outer) (Option.some.inj hs))
    | exit o =>
      rw [opened_exit] at hs ⊢
      rw [eq_cons_of_leave hs, List.cons_append, leave_cons]

theorem WellBracketed.openedAfter (h : WellBracketed steps) (frames : List FrameOwner) :
    openedAfter frames steps = some frames :=
  openedAfter_append_frames h

/-! ## What is recorded -/

theorem recordsFrom_nil : ¬RecordsFrom frames [] owner act := by
  rintro ⟨before, after, opened, hnil, -⟩
  exact absurd hnil.symm (List.append_ne_nil_of_right_ne_nil _ (List.cons_ne_nil _ _))

theorem recordsFrom_cons {s : Step} : RecordsFrom frames (s :: steps) owner act ↔
    (s = act.step ∧ owner ∈ reached frames) ∨
      ∃ mid, s.opened frames = some mid ∧ RecordsFrom mid steps owner act := by
  constructor
  · rintro ⟨before, after, opened, hsteps, hopened, howner⟩
    cases before with
    | nil =>
      obtain ⟨rfl, rfl⟩ := List.cons.inj hsteps
      obtain rfl := Option.some.inj hopened
      exact .inl ⟨rfl, howner⟩
    | cons s' before =>
      obtain ⟨rfl, rfl⟩ := List.cons.inj hsteps
      rw [openedAfter_cons, Option.bind_eq_some_iff] at hopened
      obtain ⟨mid, hmid, hopened⟩ := hopened
      exact .inr ⟨mid, hmid, before, after, opened, rfl, hopened, howner⟩
  · rintro (⟨rfl, howner⟩ | ⟨mid, hmid, before, after, opened, rfl, hopened, howner⟩)
    · exact ⟨[], steps, frames, rfl, rfl, howner⟩
    · refine ⟨s :: before, after, opened, rfl, ?_, howner⟩
      rw [openedAfter_cons, hmid]
      exact hopened

theorem Act.step_injective : Function.Injective Act.step := by
  intro act act' h
  cases act <;> cases act' <;> cases h <;> rfl

theorem enter_ne_step (o : FrameOwner) (act : Act FunctionId) : o.enter ≠ act.step := by
  cases o <;> cases act <;> exact nofun

theorem exit_ne_step (o : FrameOwner) (act : Act FunctionId) : o.exit ≠ act.step := by
  cases o <;> cases act <;> exact nofun

@[simp] theorem recordsFrom_singleton : RecordsFrom frames [act'.step] owner act ↔
    act = act' ∧ owner ∈ reached frames := by
  simp only [recordsFrom_cons, recordsFrom_nil, and_false, exists_false, or_false,
    Act.step_injective.eq_iff, eq_comm (a := act')]

@[simp] theorem recordsFrom_enter {o : FrameOwner} :
    RecordsFrom frames (o.enter :: steps) owner act ↔ RecordsFrom (o :: frames) steps owner act := by
  simp [recordsFrom_cons, enter_ne_step]

theorem recordsFrom_exit {o : FrameOwner} : ¬RecordsFrom frames [o.exit] owner act := by
  simp [recordsFrom_cons, exit_ne_step, recordsFrom_nil]

theorem recordsFrom_append (h : openedAfter frames steps = some frames') :
    RecordsFrom frames (steps ++ steps') owner act ↔
      RecordsFrom frames steps owner act ∨ RecordsFrom frames' steps' owner act := by
  induction steps generalizing frames with
  | nil =>
    obtain rfl := Option.some.inj h
    exact (or_iff_right recordsFrom_nil).symm
  | cons s steps ih =>
    rw [openedAfter_cons, Option.bind_eq_some_iff] at h
    obtain ⟨mid, hs, hrest⟩ := h
    simp only [List.cons_append, recordsFrom_cons, hs, Option.some.injEq, exists_eq_left', ih hrest,
      or_assoc]

end OpenedAfter

/-! ## Nested steps -/

/-- The trace closes the frames of `owners`, the innermost first, with nested steps in between. -/
inductive Unwinds : List FrameOwner → List Step → Prop where
  | done {steps : List Step} {a : Account FunctionId} (last : Nested steps a) : Unwinds [] steps
  | close {owner : FrameOwner} {owners : List FrameOwner} {steps steps' : List Step}
      {a : Account FunctionId} (inside : Nested steps a) (next : Unwinds owners steps') :
      Unwinds (owner :: owners) (steps ++ owner.exit :: steps')

theorem nested_act (act : Act FunctionId) : Nested [act.step] { acts := [act] } := by
  cases act with
  | effects e => exact .add e
  | call f => exact .call f

theorem nested_frame {steps : List Step} {a : Account FunctionId} (o : FrameOwner)
    (inside : Nested steps a) : ∃ a', Nested (o.enter :: steps ++ [o.exit]) a' := by
  cases o with
  | block id => exact ⟨_, .block id inside⟩
  | function f => exact ⟨_, .function f inside⟩

theorem Unwinds.prepend {owners : List FrameOwner} {steps steps' : List Step}
    {a : Account FunctionId} (first : Nested steps a) (h : Unwinds owners steps') :
    Unwinds owners (steps ++ steps') := by
  cases h with
  | done last => exact .done (first.append last)
  | close inside next =>
    rw [← List.append_assoc]
    exact .close (first.append inside) next

theorem unwinds_of_openedAfter {frames : List FrameOwner} {steps : List Step}
    (h : openedAfter frames steps = some []) : Unwinds frames steps := by
  induction steps generalizing frames with
  | nil =>
    obtain rfl := Option.some.inj h
    exact .done .nil
  | cons s steps ih =>
    rw [openedAfter_cons, Option.bind_eq_some_iff] at h
    obtain ⟨mid, hs, hrest⟩ := h
    have hunwinds := ih hrest
    cases s using Step.cases_kind with
    | act act =>
      rw [opened_act] at hs
      obtain rfl := Option.some.inj hs
      exact hunwinds.prepend (nested_act act)
    | enter o =>
      -- the frame that is opened here is the first one that is closed later
      rw [opened_enter] at hs
      obtain rfl := Option.some.inj hs
      obtain _ | ⟨inside, next⟩ := hunwinds
      obtain ⟨_, hframe⟩ := nested_frame o inside
      have hprepend := next.prepend hframe
      rwa [List.append_assoc] at hprepend
    | exit o =>
      rw [opened_exit] at hs
      obtain rfl := eq_cons_of_leave hs
      exact .close .nil hunwinds

/-- In a well bracketed trace every frame that is opened is closed again, in the reverse order. -/
theorem WellBracketed.nested {steps : List Step} (h : WellBracketed steps) :
    ∃ a, Nested steps a := by
  obtain ⟨last⟩ := unwinds_of_openedAfter h
  exact ⟨_, last⟩

end Collector

/-- What an account holds for the frames of an owner. -/
def Account.Holds (a : Account FunctionId) (owner : FrameOwner) (act : Act FunctionId) : Prop :=
  match owner with
  | .block id => ∃ acts, (id, acts) ∈ a.blocks ∧ act ∈ acts
  | .function f => a.InBody f act

namespace Account

variable {a b : Account FunctionId} {owner : FrameOwner} {act : Act FunctionId}

theorem holds_append : (a.append b).Holds owner act ↔ a.Holds owner act ∨ b.Holds owner act := by
  cases owner with
  | block id => simp only [Holds, append_blocks, List.mem_append, or_and_right, exists_or]
  | function f => exact inBody_append

theorem holds_inBlock {id : BlockId} : (a.inBlock id).Holds owner act ↔
    a.Holds owner act ∨ owner = .block id ∧ act ∈ a.acts := by
  cases owner with
  | block id' =>
    simp only [Holds, inBlock_blocks, List.mem_append, List.mem_singleton, Prod.mk.injEq,
      or_and_right, exists_or, FrameOwner.block.injEq]
    refine or_congr_right ⟨?_, fun ⟨hid, hact⟩ => ⟨_, ⟨hid, rfl⟩, hact⟩⟩
    rintro ⟨acts, ⟨hid, rfl⟩, hact⟩
    exact ⟨hid, hact⟩
  | function f => exact (or_iff_left fun h => nomatch h.1).symm

theorem holds_inFunction {f : FunctionId} : (a.inFunction f).Holds owner act ↔
    a.Holds owner act ∨ owner = .function f ∧ act ∈ a.acts := by
  cases owner with
  | block id => exact (or_iff_left fun h => nomatch h.1).symm
  | function f' => exact inBody_inFunction.trans (by rw [FrameOwner.function.injEq]; rfl)

end Account

namespace Nested

open Collector

variable {steps : List Step} {a : Account FunctionId} {owner : FrameOwner} {act : Act FunctionId}

theorem wellBracketed (h : Nested steps a) : WellBracketed steps := by
  have hframe {steps : List Step} (o : FrameOwner) (ih : openedAfter [] steps = some []) :
      openedAfter [] (o.enter :: steps ++ [o.exit]) = some [] := by
    rw [List.cons_append, openedAfter_cons, opened_enter, Option.bind_some, openedAfter_append,
      WellBracketed.openedAfter ih, Option.bind_some, openedAfter_cons, opened_exit, leave_cons]
    rfl
  induction h with
  | nil => rfl
  | add e => rfl
  | call f => rfl
  | append _ _ ih ih' =>
    rw [WellBracketed, openedAfter_append, ih]
    exact ih'
  | block id _ ih => exact hframe (.block id) ih
  | function f _ ih => exact hframe (.function f) ih

theorem recordsFrom_frame {frames : List FrameOwner} (o : FrameOwner) (h : Nested steps a) :
    RecordsFrom frames (o.enter :: steps ++ [o.exit]) owner act ↔
      RecordsFrom (o :: frames) steps owner act := by
  rw [List.cons_append, recordsFrom_enter,
    recordsFrom_append (h.wellBracketed.openedAfter (o :: frames)), or_iff_left recordsFrom_exit]

/-- What nested steps record: their own acts in the frames around them, and what their account holds
in the frames that they open. -/
theorem recordsFrom_iff (h : Nested steps a) (frames : List FrameOwner) :
    RecordsFrom frames steps owner act ↔
      (act ∈ a.acts ∧ owner ∈ reached frames) ∨ a.Holds owner act := by
  have hempty (acts : List (Act FunctionId)) : ¬Account.Holds { acts := acts } owner act := by
    cases owner <;> simp [Account.Holds, Account.InBody]
  induction h generalizing frames with
  | nil => exact iff_of_false recordsFrom_nil (by simp [hempty])
  | add e =>
    have hstep : RecordsFrom frames [Act.step (.effects e)] owner act ↔ _ := recordsFrom_singleton
    exact hstep.trans (by simp [hempty])
  | call f =>
    have hstep : RecordsFrom frames [Act.step (.call f)] owner act ↔ _ := recordsFrom_singleton
    exact hstep.trans (by simp [hempty])
  | append first next ih ih' =>
    refine (recordsFrom_append (first.wellBracketed.openedAfter frames)).trans ?_
    refine (or_congr (ih frames) (ih' frames)).trans ?_
    rw [Account.holds_append, Account.append_acts, List.mem_append, or_and_right, or_or_or_comm]
  | block id inside ih =>
    refine (recordsFrom_frame (.block id) inside).trans ((ih _).trans ?_)
    rw [Account.holds_inBlock, Account.inBlock_acts, reached, List.mem_cons]
    tauto
  | function f inside ih =>
    refine (recordsFrom_frame (.function f) inside).trans ((ih _).trans ?_)
    rw [Account.holds_inFunction, Account.inFunction_acts, reached, List.mem_singleton]
    simp only [List.not_mem_nil, false_and, false_or]
    tauto

theorem records_iff (h : Nested steps a) : Records steps owner act ↔ a.Holds owner act := by
  rw [Records, h.recordsFrom_iff]
  exact or_iff_right fun hmem => List.not_mem_nil hmem.2

theorem blocks_perm (h : Nested steps a) : (a.blocks.map (·.1)).Perm (enteredBlocks steps) := by
  induction h with
  | nil => exact .nil
  | add e => exact .nil
  | call f => exact .nil
  | append _ _ ih ih' =>
    rw [Account.append_blocks, List.map_append, enteredBlocks, List.filterMap_append]
    exact ih.append ih'
  | @block steps a id _ ih =>
    have hsteps : enteredBlocks (.enterBlock id :: steps ++ [.exitBlock id]) =
        id :: enteredBlocks steps := by
      simp [enteredBlocks]
    rw [hsteps, Account.inBlock_blocks, List.map_append]
    exact List.perm_append_comm.trans (ih.cons id)
  | @function steps a f _ ih =>
    have hsteps : enteredBlocks (.enterFunction f :: steps ++ [.exitFunction f]) =
        enteredBlocks steps := by
      simp [enteredBlocks]
    rw [hsteps]
    exact ih

theorem mem_functions_iff (h : Nested steps a) {f : FunctionId} :
    f ∈ a.functions.map (·.1) ↔ .enterFunction f ∈ steps := by
  induction h with
  | nil => exact iff_of_false List.not_mem_nil List.not_mem_nil
  | add e => simp
  | call f => simp
  | append _ _ ih ih' =>
    rw [Account.append_functions, List.map_append, List.mem_append, ih, ih', List.mem_append]
  | block id _ ih => simpa using ih
  | function f' _ ih =>
    rw [Account.inFunction_functions, List.map_append, List.mem_append, ih]
    simp [or_comm]

end Nested

end Yul
