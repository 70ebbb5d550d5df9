import Mathlib.Tactic.Simps.Basic
import Yul.Effects.Collector
import Yul.Proofs.Effects.Lattice

/-!
# Accounts of nested steps

An account says what a piece of code does: itself, in each of its blocks, and in each of the
functions defined in it. What a function does is no part of what the code around it does.
`Nested steps account` relates the account to steps in which whatever is entered is left again, in
the reverse order. Collecting such steps always succeeds, and gives what the account says
(`Nested.run`).
-/

namespace Yul

/-- What code does itself; `φ` are the functions. -/
inductive Act (φ : Type) where
  | effects (e : SideEffects)
  | call (f : φ)
deriving DecidableEq, Repr

/-- What a piece of code does. -/
structure Account (φ : Type) where
  /-- what is done outside of functions -/
  acts : List (Act φ) := []
  /-- what is done in each block, in the order in which the blocks are left -/
  blocks : List (BlockId × List (Act φ)) := []
  /-- what is done in the body of each function -/
  functions : List (φ × List (Act φ)) := []
deriving Repr

namespace Account

variable {φ : Type}

/-- What is done one after the other. -/
@[simps] def append (a b : Account φ) : Account φ where
  acts := a.acts ++ b.acts
  blocks := a.blocks ++ b.blocks
  functions := a.functions ++ b.functions

/-- What is done in a block. -/
@[simps] def inBlock (id : BlockId) (a : Account φ) : Account φ where
  acts := a.acts
  blocks := a.blocks ++ [(id, a.acts)]
  functions := a.functions

/-- What is done in the body of a function. -/
@[simps] def inFunction (f : φ) (a : Account φ) : Account φ where
  acts := []
  blocks := a.blocks
  functions := a.functions ++ [(f, a.acts)]

end Account

/-! ## Facts of acts -/

namespace Facts

theorem withFunctions_assoc (fs gs hs : List FunctionId) :
    withFunctions (withFunctions fs gs) hs = withFunctions fs (withFunctions gs hs) := by
  induction hs with
  | nil => rfl
  | cons h hs ih =>
    change List.insert h (withFunctions (withFunctions fs gs) hs) =
      withFunctions fs (List.insert h (withFunctions gs hs))
    rw [ih]
    by_cases hmem : h ∈ withFunctions gs hs
    · rw [List.insert_of_mem hmem, List.insert_of_mem (mem_withFunctions.mpr (.inl hmem))]
    · rw [List.insert_of_not_mem hmem]
      rfl

theorem join_assoc (a b c : Facts) : (a.join b).join c = a.join (b.join c) := by
  simp only [join, SideEffects.join_assoc, withFunctions_assoc]

@[simp] theorem join_none (a : Facts) : a.join none = a :=
  congrArg (Facts.mk · a.callees) (SideEffects.join_none a.effects)

end Facts

namespace Act

variable {φ : Type}

/-- The side effects of an act itself. -/
def effects? : Act φ → Option SideEffects
  | effects e => some e
  | call _ => none

def callee? : Act φ → Option φ
  | effects _ => none
  | call f => some f

/-- What an act adds to the facts of the code around it. -/
def facts : Act FunctionId → Facts
  | effects e => ⟨e, []⟩
  | call f => ⟨.none, [f]⟩

end Act

/-- All side effects of acts, functions that are called aside. -/
def effectsOf {φ : Type} (acts : List (Act φ)) : SideEffects :=
  .all (acts.filterMap Act.effects?)

/-- The functions that are called. -/
def calleesOf {φ : Type} (acts : List (Act φ)) : List φ :=
  acts.filterMap Act.callee?

section ActsOf

variable {φ : Type}

@[simp] theorem effectsOf_nil : effectsOf ([] : List (Act φ)) = .none := rfl

@[simp] theorem effectsOf_effects (e : SideEffects) (acts : List (Act φ)) :
    effectsOf (.effects e :: acts) = e.join (effectsOf acts) := rfl

@[simp] theorem effectsOf_call (f : φ) (acts : List (Act φ)) :
    effectsOf (.call f :: acts) = effectsOf acts := rfl

theorem effectsOf_append (acts acts' : List (Act φ)) :
    effectsOf (acts ++ acts') = (effectsOf acts).join (effectsOf acts') := by
  rw [effectsOf, List.filterMap_append, SideEffects.all_append]
  rfl

@[simp] theorem calleesOf_nil : calleesOf ([] : List (Act φ)) = [] := rfl

@[simp] theorem calleesOf_effects (e : SideEffects) (acts : List (Act φ)) :
    calleesOf (.effects e :: acts) = calleesOf acts := rfl

@[simp] theorem calleesOf_call (f : φ) (acts : List (Act φ)) :
    calleesOf (.call f :: acts) = f :: calleesOf acts := rfl

theorem calleesOf_append (acts acts' : List (Act φ)) :
    calleesOf (acts ++ acts') = calleesOf acts ++ calleesOf acts' :=
  List.filterMap_append

end ActsOf

namespace Facts

/-- The facts of code that does `acts`. -/
def ofActs (acts : List (Act FunctionId)) : Facts :=
  acts.foldr (fun act facts => act.facts.join facts) none

theorem join_ofActs_append (a : Facts) (acts acts' : List (Act FunctionId)) :
    a.join (ofActs (acts ++ acts')) = (a.join (ofActs acts)).join (ofActs acts') := by
  induction acts generalizing a with
  | nil => exact congrArg (·.join (ofActs acts')) (join_none a).symm
  | cons act acts ih =>
    change a.join (act.facts.join (ofActs (acts ++ acts'))) =
      (a.join (act.facts.join (ofActs acts))).join (ofActs acts')
    rw [← join_assoc, ih, join_assoc a]

@[simp] theorem ofActs_nil : ofActs [] = none := rfl

@[simp] theorem ofActs_singleton (act : Act FunctionId) : ofActs [act] = act.facts :=
  join_none act.facts

@[simp] theorem effects_ofActs (acts : List (Act FunctionId)) :
    (ofActs acts).effects = effectsOf acts := by
  induction acts with
  | nil => rfl
  | cons act acts ih =>
    change act.facts.effects.join (ofActs acts).effects = _
    rw [ih]
    cases act with
    | effects e => rfl
    | call f => exact SideEffects.none_join _

theorem mem_callees_ofActs {acts : List (Act FunctionId)} {f : FunctionId} :
    f ∈ (ofActs acts).callees ↔ f ∈ calleesOf acts := by
  induction acts with
  | nil => rfl
  | cons act acts ih =>
    change f ∈ withFunctions act.facts.callees (ofActs acts).callees ↔ _
    rw [mem_withFunctions, ih]
    cases act with
    | effects e => simp [Act.facts]
    | call g => simp [Act.facts, or_comm]

/-! A frame starts out empty, which adds nothing to what is gathered in it. -/

theorem effects_none_join_ofActs (acts : List (Act FunctionId)) :
    (none.join (ofActs acts)).effects = effectsOf acts :=
  (SideEffects.none_join _).trans (effects_ofActs acts)

theorem mem_callees_none_join_ofActs {acts : List (Act FunctionId)} {f : FunctionId} :
    f ∈ (none.join (ofActs acts)).callees ↔ f ∈ calleesOf acts :=
  (mem_withFunctions.trans (or_iff_left List.not_mem_nil)).trans mem_callees_ofActs

end Facts

/-! ## Nested steps -/

open Collector (Step)

/-- Steps in which every block and function that is entered is left again, with their account. -/
inductive Nested : List Step → Account FunctionId → Prop where
  | nil : Nested [] {}
  | add (e : SideEffects) : Nested [.add e] { acts := [.effects e] }
  | call (f : FunctionId) : Nested [.call f] { acts := [.call f] }
  | append {steps steps' : List Step} {a a' : Account FunctionId} (first : Nested steps a)
      (next : Nested steps' a') : Nested (steps ++ steps') (a.append a')
  | block {steps : List Step} {a : Account FunctionId} (id : BlockId) (inside : Nested steps a) :
      Nested (.enterBlock id :: steps ++ [.exitBlock id]) (a.inBlock id)
  | function {steps : List Step} {a : Account FunctionId} (f : FunctionId)
      (inside : Nested steps a) :
      Nested (.enterFunction f :: steps ++ [.exitFunction f]) (a.inFunction f)

/-- The side effects of all acts, those in functions included. -/
def Account.total {φ : Type} (a : Account φ) : SideEffects :=
  (effectsOf a.acts).join (.all (a.functions.map fun (_, acts) => effectsOf acts))

theorem Account.total_append {φ : Type} (a b : Account φ) :
    (a.append b).total = a.total.join b.total := by
  simp only [total, append, effectsOf_append, List.map_append, SideEffects.all_append,
    SideEffects.join_eq_sup]
  exact sup_sup_sup_comm _ _ _ _

theorem Account.total_inFunction {φ : Type} (a : Account φ) (f : φ) :
    (a.inFunction f).total = a.total := by
  simp only [total, inFunction, List.map_append, SideEffects.all_append, List.map_cons,
    List.map_nil, SideEffects.all_cons, SideEffects.all_nil, SideEffects.join_none]
  exact (SideEffects.none_join _).trans (SideEffects.join_comm _ _)

namespace Collector

/-- A collector that has also seen what an account holds. -/
def absorb (c : Collector) (a : Account FunctionId) : Collector :=
  { c.gather (.ofActs a.acts) with
    blocks := (a.blocks.map fun (id, acts) => (id, Facts.none.join (.ofActs acts))).reverse ++ c.blocks
    functions := a.functions.foldl (fun g (f, acts) => g.record f (Facts.none.join (.ofActs acts)))
      c.functions
    total := c.total.join a.total }

/-- Blocks are gathered in the order in which they are left, the last one in front. -/
theorem reverse_blocks_absorb (a : Account FunctionId) :
    (absorb {} a).blocks.reverse =
      a.blocks.map fun block => (block.1, Facts.none.join (.ofActs block.2)) := by
  change (List.reverse _ ++ []).reverse = _
  rw [List.append_nil, List.reverse_reverse]

theorem run_append (c : Collector) (steps steps' : List Step) :
    c.run (steps ++ steps') = (c.run steps).bind (·.run steps') :=
  List.foldlM_append

@[simp] theorem run_singleton (c : Collector) (s : Step) : c.run [s] = c.step s := by
  change (c.step s).bind .ok = c.step s
  cases c.step s <;> rfl

theorem absorb_append (c : Collector) (a b : Account FunctionId) :
    c.absorb (a.append b) = (c.absorb a).absorb b := by
  obtain ⟨frames, blocks, functions, total⟩ := c
  cases frames <;>
    simp [absorb, gather, Account.total_append, Facts.join_ofActs_append, SideEffects.join_assoc]

theorem step_exitBlock (c : Collector) (id : BlockId) (a : Account FunctionId) :
    ((c.push (.block id)).absorb a).step (.exitBlock id) = .ok (c.absorb (a.inBlock id)) := by
  have hfacts (facts : Facts) :
      facts.join (Facts.none.join (.ofActs a.acts)) = facts.join (.ofActs a.acts) := by
    rw [← Facts.join_assoc, Facts.join_none]
  obtain ⟨frames, blocks, functions, total⟩ := c
  cases frames <;> simp [step, push, absorb, gather, pop, Account.total, hfacts]

theorem step_exitFunction (c : Collector) (f : FunctionId) (a : Account FunctionId) :
    ((c.push (.function f)).absorb a).step (.exitFunction f) =
      .ok (c.absorb (a.inFunction f)) := by
  obtain ⟨frames, blocks, functions, total⟩ := c
  cases frames <;> simp [step, push, absorb, gather, pop, Account.total_inFunction]

end Collector

/-- Nested steps always fit, and the collector gathers what their account says. -/
theorem Nested.run {steps : List Step} {a : Account FunctionId} (h : Nested steps a)
    (c : Collector) : c.run steps = .ok (c.absorb a) := by
  induction h generalizing c with
  | nil =>
    obtain ⟨frames, blocks, functions, total⟩ := c
    cases frames <;> simp [Collector.run, Collector.absorb, Collector.gather, Account.total, pure,
      Except.pure]
  | add e =>
    obtain ⟨frames, blocks, functions, total⟩ := c
    cases frames <;> simp [Collector.step, Collector.absorb, Collector.gather, Account.total,
      Act.facts]
  | call f =>
    obtain ⟨frames, blocks, functions, total⟩ := c
    cases frames <;> simp [Collector.step, Collector.absorb, Collector.gather, Account.total,
      Act.facts]
  | append first next ih ih' =>
    rw [Collector.run_append, ih, Except.bind, ih', Collector.absorb_append]
  | block id inside ih =>
    rw [Collector.run_append, ← Collector.step_exitBlock]
    change ((c.push (.block id)).run _).bind _ = _
    rw [ih]
    exact Collector.run_singleton _ _
  | function f inside ih =>
    rw [Collector.run_append, ← Collector.step_exitFunction]
    change ((c.push (.function f)).run _).bind _ = _
    rw [ih]
    exact Collector.run_singleton _ _

end Yul
