import Mathlib.Data.List.Nodup
import Mathlib.Logic.Relation
import Yul.Effects.CallGraph
import Yul.Proofs.Effects.Lattice

/-!
# Reach in a call graph

`CallGraph.reachable` looks for functions in rounds, and stops after as many rounds as there are
functions. These rounds suffice (`closure_closed`): every round but the last one finds a function
that has facts of its own. So the functions found are those that a row of calls leads to
(`mem_reachable_iff`), and a summary joins what all of them do (`isLUB_summary`).
-/

namespace Yul

open Relation (TransGen ReflTransGen)

/-! ## Lists of functions and of their facts -/

theorem lookup_of_mem {α β : Type} [BEq α] [LawfulBEq α] {entries : List (α × β)} {k : α} {v : β}
    (hdistinct : (entries.map (·.1)).Nodup) (hmem : (k, v) ∈ entries) :
    entries.lookup k = some v := by
  induction entries with
  | nil => exact absurd hmem List.not_mem_nil
  | cons entry entries ih =>
    obtain ⟨k', v'⟩ := entry
    rw [List.map_cons, List.nodup_cons] at hdistinct
    rcases List.mem_cons.mp hmem with heq | hrest
    · obtain ⟨rfl, rfl⟩ := Prod.mk.inj heq
      exact List.lookup_cons_self
    · have hne : k ≠ k' := by
        rintro rfl
        exact hdistinct.1 (List.mem_map.mpr ⟨(k, v), hrest, rfl⟩)
      rw [List.lookup_cons, beq_false_of_ne hne]
      exact ih hdistinct.2 hrest

theorem lookup_of_not_mem {α β : Type} [BEq α] [LawfulBEq α] {entries : List (α × β)} {k : α}
    (hmem : k ∉ entries.map (·.1)) : entries.lookup k = none := by
  rw [List.lookup_eq_none_iff]
  intro entry hentry
  exact bne_iff_ne.mpr fun heq => hmem (List.mem_map.mpr ⟨entry, hentry, heq.symm⟩)

theorem length_withFunctions_le (fs more : List FunctionId) :
    fs.length ≤ (withFunctions fs more).length := by
  induction more with
  | nil => exact le_rfl
  | cons g more ih => exact ih.trans List.length_le_length_insert

theorem length_withFunctions_eq_iff {fs more : List FunctionId} :
    (withFunctions fs more).length = fs.length ↔ ∀ f ∈ more, f ∈ fs := by
  induction more with
  | nil => simp [withFunctions]
  | cons g more ih =>
    have hle := length_withFunctions_le fs more
    rw [List.forall_mem_cons, ← ih]
    change (List.insert g (withFunctions fs more)).length = fs.length ↔ _
    by_cases hmem : g ∈ withFunctions fs more
    · rw [List.length_insert_of_mem hmem]
      refine ⟨fun h => ⟨?_, h⟩, And.right⟩
      exact (mem_withFunctions.mp hmem).elim (ih.mp h g) id
    · rw [List.length_insert_of_not_mem hmem]
      refine iff_of_false (by omega) fun h => hmem (mem_withFunctions.mpr (.inr h.1))

namespace CallGraph

variable (g : CallGraph)

/-- `f` calls `h`. -/
def Calls (f h : FunctionId) : Prop :=
  h ∈ g.callees f

variable {g} {f h : FunctionId} {fs : List FunctionId} {n : Nat}

theorem Calls.mem_functions (hcall : g.Calls f h) : f ∈ g.functions := by
  by_contra hmem
  rw [Calls, callees, factsOf, lookup_of_not_mem hmem] at hcall
  exact List.not_mem_nil hcall

/-- Functions that call none but one another. -/
def Closed (g : CallGraph) (fs : List FunctionId) : Prop :=
  ∀ f ∈ fs, ∀ h, g.Calls f h → h ∈ fs

theorem closed_iff : g.Closed fs ↔ ∀ h ∈ fs.flatMap g.callees, h ∈ fs := by
  simp only [List.mem_flatMap]
  exact ⟨fun hclosed h ⟨f, hf, hcall⟩ => hclosed f hf h hcall,
    fun hclosed f hf h hcall => hclosed h ⟨f, hf, hcall⟩⟩

theorem closure_of_closed (hclosed : g.Closed fs) : g.closure n fs = fs := by
  cases n with
  | zero => rfl
  | succ n => rw [closure, if_pos (length_withFunctions_eq_iff.mpr (closed_iff.mp hclosed))]

/-! ## What the rounds find -/

theorem subset_closure (n : Nat) (hf : f ∈ fs) : f ∈ g.closure n fs := by
  induction n generalizing fs with
  | zero => exact hf
  | succ n ih =>
    rw [closure]
    split
    · exact hf
    · exact ih (mem_withFunctions.mpr (.inr hf))

theorem closure_sound (n : Nat) (hh : h ∈ g.closure n fs) :
    ∃ f ∈ fs, ReflTransGen g.Calls f h := by
  induction n generalizing fs with
  | zero => exact ⟨h, hh, .refl⟩
  | succ n ih =>
    rw [closure] at hh
    split at hh
    · exact ⟨h, hh, .refl⟩
    · obtain ⟨f, hf, hreach⟩ := ih hh
      rcases mem_withFunctions.mp hf with hcalled | hf
      · obtain ⟨f', hf', hcall⟩ := List.mem_flatMap.mp hcalled
        exact ⟨f', hf', .head hcall hreach⟩
      · exact ⟨f, hf, hreach⟩

/-- The functions with facts that have not been found yet. -/
def unfound (g : CallGraph) (fs : List FunctionId) : List FunctionId :=
  g.functions.filter (· ∉ fs)

theorem length_unfound_le (g : CallGraph) (fs : List FunctionId) :
    (g.unfound fs).length ≤ g.facts.length :=
  (List.length_filter_le _ _).trans (List.length_map _).le

/-- A round finds a function with facts, or leads to functions that call none but one another. -/
theorem unfound_lt_or_closed (g : CallGraph) (fs : List FunctionId) :
    (g.unfound (withFunctions fs (fs.flatMap g.callees))).length < (g.unfound fs).length ∨
      g.Closed (withFunctions fs (fs.flatMap g.callees)) := by
  by_cases hnew : ∃ f ∈ fs.flatMap g.callees, f ∈ g.functions ∧ f ∉ fs
  · obtain ⟨f, hcalled, hf, hnot⟩ := hnew
    left
    have hfewer : (g.unfound (withFunctions fs (fs.flatMap g.callees))).Sublist (g.unfound fs) := by
      refine List.monotone_filter_right _ fun x hx => ?_
      simp only [decide_eq_true_eq] at hx ⊢
      exact fun hmem => hx (mem_withFunctions.mpr (.inr hmem))
    refine lt_of_le_of_ne hfewer.length_le fun heq => ?_
    have hmem : f ∈ g.unfound fs := List.mem_filter.mpr ⟨hf, by simpa using hnot⟩
    rw [← hfewer.eq_of_length heq] at hmem
    have hstill := (List.mem_filter.mp hmem).2
    exact absurd (mem_withFunctions.mpr (.inl hcalled)) (by simpa using hstill)
  · right
    intro f hf h hcall
    refine mem_withFunctions.mpr (.inl (List.mem_flatMap.mpr ⟨f, ?_, hcall⟩))
    rcases mem_withFunctions.mp hf with hcalled | hf
    · by_contra hnot
      exact hnew ⟨f, hcalled, hcall.mem_functions, hnot⟩
    · exact hf

/-- As many rounds as there are functions left to find suffice. -/
theorem closure_closed (hn : (g.unfound fs).length < n) : g.Closed (g.closure n fs) := by
  induction n generalizing fs with
  | zero => exact absurd hn (Nat.not_lt_zero _)
  | succ n ih =>
    rw [closure]
    split
    · next hsame => exact closed_iff.mpr (length_withFunctions_eq_iff.mp hsame)
    · rcases unfound_lt_or_closed g fs with hfewer | hclosed
      · exact ih (by omega)
      · rwa [closure_of_closed hclosed]

theorem mem_reachable_iff : h ∈ g.reachable f ↔ TransGen g.Calls f h := by
  constructor
  · intro hh
    obtain ⟨f', hcall, hreach⟩ := closure_sound _ hh
    exact .head' hcall hreach
  · intro hreach
    have hclosed : g.Closed (g.reachable f) :=
      closure_closed (Nat.lt_succ_of_le (length_unfound_le g _))
    induction hreach with
    | single hcall => exact subset_closure _ hcall
    | tail _ hcall ih => exact hclosed _ ih _ hcall

theorem mem_recursive_iff : f ∈ g.recursive ↔ TransGen g.Calls f f := by
  rw [recursive, List.mem_filter, List.contains_iff_mem, mem_reachable_iff]
  refine ⟨And.right, fun hreach => ⟨?_, hreach⟩⟩
  obtain ⟨h, hcall, -⟩ := TransGen.head'_iff.mp hreach
  exact hcall.mem_functions

/-! ## Summaries -/

/-- What one function adds to the summary of another one. -/
inductive Adds (g : CallGraph) (f : FunctionId) : SideEffects → Prop where
  | own {h : FunctionId} (hreach : ReflTransGen g.Calls f h) : Adds g f (g.factsOf h).effects
  | cycle {h : FunctionId} (hreach : ReflTransGen g.Calls f h) (hcycle : TransGen g.Calls h h) :
      Adds g f .looping

theorem mem_reached_iff : h ∈ f :: g.reachable f ↔ ReflTransGen g.Calls f h := by
  rw [List.mem_cons, mem_reachable_iff, Relation.reflTransGen_iff_eq_or_transGen]

/-- The summary of a function joins what the functions within its reach do, and looping if one of
them reaches itself. -/
theorem isLUB_summary (g : CallGraph) (f : FunctionId) :
    IsLUB {e | g.Adds f e} (g.summary g.recursive f) := by
  have hcycles : (f :: g.reachable f).any g.recursive.contains = true ↔
      ∃ h, ReflTransGen g.Calls f h ∧ TransGen g.Calls h h := by
    simp only [List.any_eq_true, List.contains_iff_mem, mem_reached_iff, mem_recursive_iff]
  have hown : (f :: g.reachable f).foldl (fun e h => e.join (g.factsOf h).effects)
      SideEffects.none =
      .all ((f :: g.reachable f).map fun h => (g.factsOf h).effects) := by
    rw [SideEffects.foldl_join_map, ← SideEffects.join_eq_sup, SideEffects.none_join]
  have hle (b : SideEffects) :
      SideEffects.all ((f :: g.reachable f).map fun h => (g.factsOf h).effects) ≤ b ↔
        ∀ h, ReflTransGen g.Calls f h → (g.factsOf h).effects ≤ b := by
    simp only [SideEffects.all_le_iff, List.forall_mem_map, mem_reached_iff]
  rw [summary, hown]
  split
  · next hany =>
    obtain ⟨h, hreach, hcycle⟩ := hcycles.mp hany
    constructor
    · rintro _ (hreach' | -)
      · exact ((hle _).mp le_rfl _ hreach').trans le_sup_left
      · exact le_sup_right
    · intro b hb
      exact sup_le ((hle b).mpr fun _ hreach' => hb (.own hreach')) (hb (.cycle hreach hcycle))
  · next hany =>
    constructor
    · rintro _ (hreach | ⟨hreach, hcycle⟩)
      · exact (hle _).mp le_rfl _ hreach
      · exact absurd (hcycles.mpr ⟨_, hreach, hcycle⟩) hany
    · intro b hb
      exact (hle b).mpr fun _ hreach => hb (.own hreach)

end CallGraph

end Yul
