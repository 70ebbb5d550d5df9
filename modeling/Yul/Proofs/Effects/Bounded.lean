import Mathlib.Data.Set.Card
import Yul.Proofs.Effects.Exact
import Yul.Proofs.Effects.LoopFree

/-!
# Code that surely ends

A block of correct code that is reported not to loop comes to an end (`cannotLoop_bounded`): neither
it nor a function that it reaches by calls has a loop or calls a builtin that may run for ever, and
calls lead only from functions of higher to functions of lower rank, so that no chain of calls that
starts in the block is longer than the functions are many. The rank of a function is the number of
functions ahead of it. This holds of every analysis with a record that is new or comes from earlier
analyses (`Record.Served`).
-/

namespace Yul

open Relation (TransGen ReflTransGen)

/-! ## Graphs without circles -/

section Graph

variable {α : Type} {r : α → α → Prop} {x y : α}

/-- How many nodes are ahead of a node. -/
noncomputable def ahead (r : α → α → Prop) (x : α) : Nat :=
  {y | TransGen r x y}.ncard

theorem ahead_lt (hfinite : {y | TransGen r x y}.Finite) (hstep : r x y)
    (hcircle : ¬TransGen r y y) : ahead r y < ahead r x := by
  refine Set.ncard_lt_ncard ⟨fun z hz => .head hstep hz, fun hsubset => ?_⟩ hfinite
  exact hcircle (hsubset (.single hstep))

/-- A chain that meets no circle meets every node once. -/
theorem nodup_of_isChain {chain : List α} (hchain : chain.IsChain r)
    (hcircle : ∀ x ∈ chain, ¬TransGen r x x) : chain.Nodup := by
  have hreach : chain.Pairwise (TransGen r) := (hchain.imp fun _ _ => TransGen.single).pairwise
  refine hreach.imp_of_mem fun hx _ hxy heq => hcircle _ hx ?_
  rw [← heq] at hxy
  exact hxy

end Graph

/-! ## Functions within reach -/

namespace Account

section Reach

variable {φ : Type} (a : Account φ)

/-- Block `id` calls `f`, itself or through other functions. -/
def Reaches (id : BlockId) (f : φ) : Prop :=
  ∃ acts, (id, acts) ∈ a.blocks ∧ ∃ g ∈ calleesOf acts, ReflTransGen a.Calls g f

/-- Nested calls: block `id` calls the first function, and each one calls the next. -/
structure IsCallChain (id : BlockId) (chain : List φ) : Prop where
  head : ∀ f ∈ chain.head?, ∃ acts, (id, acts) ∈ a.blocks ∧ f ∈ calleesOf acts
  calls : chain.IsChain a.Calls

variable {a} {id : BlockId} {f g : φ}

theorem Reaches.tail (h : a.Reaches id f) (hcall : a.Calls f g) : a.Reaches id g := by
  obtain ⟨acts, hacts, k, hk, hreach⟩ := h
  exact ⟨acts, hacts, k, hk, hreach.tail hcall⟩

theorem IsCallChain.reaches {chain : List φ} (h : a.IsCallChain id chain) :
    ∀ f ∈ chain, a.Reaches id f := by
  cases chain with
  | nil => exact List.forall_mem_nil _
  | cons f chain =>
    obtain ⟨acts, hacts, hf⟩ := h.head f rfl
    have hahead := (h.calls.imp fun _ _ => TransGen.single).pairwise
    rw [List.pairwise_cons] at hahead
    exact List.forall_mem_cons.mpr ⟨⟨acts, hacts, f, hf, .refl⟩,
      fun g hg => ⟨acts, hacts, f, hf, (hahead.1 g hg).to_reflTransGen⟩⟩

end Reach

section Summary

variable {a : Account FunctionKey} {fs : List FunctionKey} {id : BlockId} {f g : FunctionKey}
  {acts : List (Act FunctionKey)} {e e' : SideEffects}

theorem CallsAmong.mem_of_calls (h : a.CallsAmong fs) (hcall : a.Calls f g) : g ∈ fs := by
  obtain ⟨acts, hbody, hg⟩ := hcall
  exact h.functions _ hbody g hg

theorem CallsAmong.mem_of_reaches (h : a.CallsAmong fs) (hreach : a.Reaches id f) : f ∈ fs := by
  obtain ⟨acts, hacts, g, hg, hreach⟩ := hreach
  cases hreach with
  | refl => exact h.blocks _ hacts f hg
  | tail _ hcall => exact h.mem_of_calls hcall

theorem CallsAmong.finite_ahead (h : a.CallsAmong fs) (f : FunctionKey) :
    {g | TransGen a.Calls f g}.Finite := by
  refine (List.finite_toSet fs).subset fun g hg => ?_
  obtain ⟨_, -, hcall⟩ := TransGen.tail'_iff.mp hg
  exact h.mem_of_calls hcall

theorem exists_isSummary (hdistinct : (a.functions.map (·.1)).Nodup) (f : FunctionKey) :
    ∃ e, a.IsSummary f e := by
  have hinjective := FunctionKey.id_injective fun _ _ (heq : (_ : BlockId) = _) => heq
  have hkeys : ((a.map (FunctionKey.id fun home => home)).functions.map (·.1)).Nodup := by
    simpa [Account.map, Function.comp_def] using hdistinct.map hinjective
  exact ⟨_, (map_isSummary_iff hinjective).mp (isSummary_summaryOf hkeys _)⟩

namespace IsSummaryOf

theorem ends (h : a.IsSummaryOf acts e) (he : e.cannotLoop = true) : Ends acts :=
  SideEffects.cannotLoop_of_le (h.1 (.inl rfl)) he

theorem cannotLoop_of_adds (hdistinct : (a.functions.map (·.1)).Nodup) (h : a.IsSummaryOf acts e)
    (he : e.cannotLoop = true) (hf : f ∈ calleesOf acts) (hadds : a.Adds f e') :
    e'.cannotLoop = true := by
  obtain ⟨summary, hsummary⟩ := exists_isSummary hdistinct f
  have hle : e' ≤ e := (hsummary.1 hadds).trans (h.1 (.inr ⟨f, hf, hsummary⟩))
  exact SideEffects.cannotLoop_of_le hle he

end IsSummaryOf

section Reported

variable (hdistinct : (a.functions.map (·.1)).Nodup)
  (hsummary : ∀ acts, (id, acts) ∈ a.blocks → a.IsSummaryOf acts e) (he : e.cannotLoop = true)

include hdistinct hsummary he

/-- No function within reach of a block that is reported not to loop is on a circle. -/
theorem Reaches.not_on_circle (h : a.Reaches id f) : ¬TransGen a.Calls f f := by
  obtain ⟨acts, hacts, g, hg, hreach⟩ := h
  intro hcycle
  have hlooping := (hsummary _ hacts).cannotLoop_of_adds hdistinct he hg (.cycle hreach hcycle)
  exact Bool.false_ne_true hlooping

theorem Reaches.ends (h : a.Reaches id f) (hbody : (f, acts) ∈ a.functions) : Ends acts := by
  obtain ⟨acts', hacts, g, hg, hreach⟩ := h
  exact (hsummary _ hacts).cannotLoop_of_adds hdistinct he hg (.own hreach hbody)

end Reported

end Summary

end Account

/-! ## Records that analyses leave behind -/

/-- A record that is new or that analyses without a fault have added to. -/
inductive Record.Served : Record → Prop where
  | new : Served {}
  | analyzed {record : Record} (cfg : Setting) (b : Block) (served : Served record)
      (hfault : (analyze cfg record b).fault = none) : Served (analyze cfg record b).record

theorem Run.Regular.of_scopes {r r' : Run} (h : r.Regular)
    (hscopes : r'.record.scopes = r.record.scopes)
    (hblocks : r'.record.blockScopes = r.record.blockScopes) : r'.Regular := by
  obtain ⟨h₁, h₂, h₃⟩ := h
  constructor
  · rwa [hscopes]
  · rwa [hscopes, hblocks]
  · rwa [hblocks]

theorem Record.Served.regular {record : Record} (h : record.Served) :
    (Run.mk record [] [] [] none).Regular := by
  induction h with
  | new => exact Run.regular_empty
  | analyzed cfg b _ hfault ih =>
    have hready := runBlock_ready_of_regular cfg ih b (fault_of_ofRun hfault)
    obtain ⟨hscopes, hblocks, -⟩ := ofRun_record (runBlock cfg _ b)
    exact hready.regular.of_scopes hscopes hblocks

/-! ## Blocks that do not loop -/

section Setting

variable (cfg : Setting) {record : Record} {b : Block}

/-- The record of correct code says what each of its blocks may do, also where the record holds what
earlier analyses have found. -/
theorem blockEffects_of_succeeded (hrecord : (Run.mk record [] [] [] none).Regular)
    (hfault : (analyze cfg record b).fault = none)
    (hsucceeded : (analyze cfg record b).succeeded = true) :
    (((b.account .none).functions.map (·.1)).Nodup) ∧
      ∀ id acts, (id, acts) ∈ (b.account .none).blocks →
        ∃ e, (analyze cfg record b).record.blockEffects[id]? = some e ∧
          (b.account .none).IsSummaryOf acts e := by
  have hrun := fault_of_ofRun hfault
  have hdistinct := runBlock_distinct cfg hrecord hrun
  obtain ⟨hiff, hdoes⟩ := runBlock_decides_of_regular cfg hrecord b hrun
  have hclean := (analyze_succeeded_iff cfg b).mp hsucceeded
  have hcovers := b.account_covers .none
  have hfunctions : ((b.account .none).functions.map (·.1)).Nodup :=
    hcovers.functions.nodup_iff.mpr ((hiff.mp hclean).definitions_nodup hdistinct)
  have hinjective := FunctionKey.id_injective
    (Run.scopeOf_injective (runBlock_ready_of_regular cfg hrecord b hrun).regular)
  have hcollected := collected_of_does (hdoes hclean) (runBlock cfg record b).places_scopeOf
  refine ⟨hfunctions, fun id acts hmem => ?_⟩
  rw [analyze, ofRun_of_collected hrun hcollected]
  exact Record.blockEffects_addEffects hinjective (hcovers.blocks.nodup_iff.mpr hdistinct)
    hfunctions hmem

/-- Calls that start in block `part` of a program come to an end. -/
structure Block.CallsEnd (b part : Block) : Prop where
  loopFree : part.LoopFree
  /-- only functions of the program are within reach -/
  defined : ∀ f, (b.account .none).Reaches part.id f → ∃ body, (f, body) ∈ b.bodies
  bodies : ∀ f body, (b.account .none).Reaches part.id f → (f, body) ∈ b.bodies → body.LoopFree
  /-- calls lead to functions of lower rank -/
  ranked : ∃ rank : FunctionKey → Nat, ∀ f g, (b.account .none).Reaches part.id f →
    (b.account .none).Calls f g → rank g < rank f
  /-- there are finitely many functions within reach, and no more nested calls than these -/
  nested : ∃ fs : Finset FunctionKey, (∀ f, f ∈ fs ↔ (b.account .none).Reaches part.id f) ∧
    ∀ chain, (b.account .none).IsCallChain part.id chain → chain.length ≤ fs.card

/-- A block that is reported not to loop comes to an end, and so does all that it calls. -/
theorem cannotLoop_bounded (hrecord : record.Served) (hfault : (analyze cfg record b).fault = none)
    (hsucceeded : (analyze cfg record b).succeeded = true) {part : Block} (hpart : part ∈ b.blocks)
    {e : SideEffects} (he : (analyze cfg record b).record.blockEffects[part.id]? = some e)
    (hloop : e.cannotLoop = true) : b.CallsEnd part := by
  obtain ⟨hdistinct, hreported⟩ := blockEffects_of_succeeded cfg hrecord.regular hfault hsucceeded
  have hamong := b.account_callsAmong
  have htells := b.account_tells .none
  have hsummary acts (hacts : (part.id, acts) ∈ (b.account .none).blocks) :
      (b.account .none).IsSummaryOf acts e := by
    obtain ⟨e', he', hsummary⟩ := hreported _ _ hacts
    obtain rfl := Option.some.inj (he.symm.trans he')
    exact hsummary
  have hcircle f (hreach : (b.account .none).Reaches part.id f) :=
    hreach.not_on_circle hdistinct hsummary hloop
  have hdefined f (hreach : (b.account .none).Reaches part.id f) : f ∈ b.bodies.map (·.1) :=
    b.map_fst_bodies ▸ hamong.mem_of_reaches hreach
  have hfinite : {f | (b.account .none).Reaches part.id f}.Finite :=
    (List.finite_toSet _).subset hdefined
  constructor
  · obtain ⟨acts, hacts, hfree⟩ := htells.blocks part hpart
    exact hfree ((hsummary _ hacts).ends hloop)
  · intro f hreach
    obtain ⟨⟨_, body⟩, hbody, rfl⟩ := List.mem_map.mp (hdefined f hreach)
    exact ⟨body, hbody⟩
  · intro f body hreach hbody
    obtain ⟨acts, hacts, hfree⟩ := htells.functions (f, body) hbody
    exact hfree (hreach.ends hdistinct hsummary hloop hacts)
  · refine ⟨ahead (b.account .none).Calls, fun f g hreach hcall => ?_⟩
    exact ahead_lt (hamong.finite_ahead f) hcall (hcircle g (hreach.tail hcall))
  · refine ⟨hfinite.toFinset, fun f => hfinite.mem_toFinset, fun chain hchain => ?_⟩
    have hnodup := nodup_of_isChain hchain.calls fun f hf => hcircle f (hchain.reaches f hf)
    rw [← List.toFinset_card_of_nodup hnodup]
    refine Finset.card_le_card fun f hf => hfinite.mem_toFinset.mpr ?_
    exact hchain.reaches f (List.mem_toFinset.mp hf)

end Setting

/-- The code `{ function f(a) -> b { b := g(a) } function g(a) -> b { b := add(a, 1) }
function h() { h() } { let x := f(2) } }`. -/
def relayed : Block where
  id := 0
  statements := [
    .function ⟨⟨"f", default⟩, [⟨"a", none, default⟩], [⟨"b", none, default⟩],
      ⟨1, [.assignment [⟨"b", default⟩] (.call ⟨"g", default⟩
        [.identifier ⟨"a", default⟩] default) default], default⟩⟩ default,
    .function ⟨⟨"g", default⟩, [⟨"a", none, default⟩], [⟨"b", none, default⟩],
      ⟨2, [.assignment [⟨"b", default⟩] (.call ⟨"add", default⟩
        [.identifier ⟨"a", default⟩, .literal ⟨.number "1", none, default⟩] default) default],
        default⟩⟩ default,
    .function ⟨⟨"h", default⟩, [], [],
      ⟨3, [.expression (.call ⟨"h", default⟩ [] default)], default⟩⟩ default,
    .block ⟨4, [.declaration [⟨"x", none, default⟩] (some (.call ⟨"f", default⟩
      [.literal ⟨.number "2", none, default⟩] default)) default], default⟩]
  span := default

theorem relayed_callsEnd :
    (analyze {} {} relayed).record.blockEffects[4]? = some .none ∧
      ∃ part ∈ relayed.blocks, part.id = 4 ∧ relayed.CallsEnd part := by
  have heffects : (analyze {} {} relayed).record.blockEffects[4]? = some .none := by decide +kernel
  have hpart : relayed.blocks[4] ∈ relayed.blocks := List.getElem_mem _
  exact ⟨heffects, _, hpart, rfl,
    cannotLoop_bounded {} .new (by decide +kernel) (by decide +kernel) hpart heffects rfl⟩

end Yul
