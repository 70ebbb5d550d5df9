import Yul.Proofs.Parallel.Objects
import Yul.Proofs.Parse.Numbering
import Yul.Proofs.Run.Faults

/-!
# Sources without faults

The blocks of a source that is parsed have different numbers, so no analysis of one of its objects
has a fault. A tree that is put together in another way may use a number twice; this is the only
fault that an analysis can come to.
-/

namespace Yul

/-! ## Objects -/

mutual

theorem Object.blocks_of_located (path : String) (o : Object) :
    ∀ part ∈ o.located path, part.2.code.blocks.Sublist o.blocks := by
  match o with
  | ⟨name, code, objects, data, span⟩ =>
    rw [Object.located, List.forall_mem_cons, Object.blocks]
    exact ⟨List.sublist_append_left _ _, fun part hpart =>
      (blocks_of_locatedOfObjects path objects part hpart).trans (List.sublist_append_right _ _)⟩

theorem blocks_of_locatedOfObjects (path : String) (objects : List Object) :
    ∀ part ∈ locatedOfObjects path objects, part.2.code.blocks.Sublist (blocksOfObjects objects) := by
  match objects with
  | [] => exact List.forall_mem_nil _
  | o :: rest =>
    rw [locatedOfObjects, List.forall_mem_append, blocksOfObjects]
    exact ⟨fun part hpart => (o.blocks_of_located _ part hpart).trans (List.sublist_append_left _ _),
      fun part hpart => (blocks_of_locatedOfObjects path rest part hpart).trans
        (List.sublist_append_right _ _)⟩

end

theorem Settings.alone_faultless (s : Settings) (path : String) (o : Object)
    (h : (o.blocks.map Block.id).Nodup) :
    ∀ a ∈ (o.located path).map s.alone, a.analysis.fault = none := by
  rw [List.forall_mem_map]
  intro part hpart
  have hblocks := (o.blocks_of_located path part hpart).map Block.id
  exact (analyze_fault_eq_none_iff _ part.2.code).mpr (hblocks.nodup h)

/-- The blocks of a source are numbered in the order of their opening braces. -/
theorem parseSource_numbered {names names' : NameTable} {source : String} {o : Object}
    (h : parseSource names source = .ok (o, names')) :
    ∃ ts, Lexes source ts ∧ InOrder ts ∧ Numbered 0 ts o.blocks := by
  obtain ⟨ts, hlexes, -, hderives⟩ := (Parser.parseSource_iff names source o).mp ⟨names', h⟩
  exact ⟨ts, hlexes, hlexes.sorted, hderives.numbered hlexes.sorted⟩

/-! ## Main result -/

/-- The blocks of a source that is parsed have the numbers from 0 on in the order of their opening
braces, and the analysis of the source has no fault. The analysis of any block has a fault if and
only if two of its blocks have the same number; it names the first one that is visited again. -/
theorem faults_exact :
    (∀ names source o names', parseSource names source = .ok (o, names') →
      o.blocks.map Block.id = List.range o.blocks.length ∧
      (o.blocks.map fun b => b.span.start).Pairwise (· < ·) ∧
      (∃ ts, Lexes source ts ∧ (o.blocks.map fun b => b.span.start).Sublist (openings ts)) ∧
      ∀ s : Settings, ∃ outcome, s.analyzeSource source = .ok outcome ∧ outcome.object = o ∧
        ∀ a ∈ outcome.objects, a.analysis.fault = none) ∧
    ∀ cfg b,
      ((analyze cfg {} b).fault ≠ none ↔ ¬(b.blocks.map Block.id).Nodup) ∧
      ∀ f, (analyze cfg {} b).fault = some f ↔
        ∃ id before after, f = .enteredTwice id ∧ b.visited = before ++ id :: after ∧
          before.Nodup ∧ id ∈ before := by
  constructor
  · intro names source o names' hparse
    obtain ⟨ts, hlexes, horder, hnumbered⟩ := parseSource_numbered hparse
    have hids : o.blocks.map Block.id = List.range o.blocks.length := by
      rw [hnumbered.ids, List.range_eq_range']
    refine ⟨hids, horder.openings.sublist hnumbered.starts, ⟨ts, hlexes, hnumbered.starts⟩, ?_⟩
    intro s
    obtain ⟨outcome, hanalyze, hobject, hobjects⟩ := s.analyzeSource_eq_ok hparse
    refine ⟨outcome, hanalyze, hobject, ?_⟩
    rw [hobjects]
    exact s.alone_faultless "" o (hids ▸ List.nodup_range)
  · intro cfg b
    refine ⟨not_congr (analyze_fault_eq_none_iff cfg b), fun f => ?_⟩
    simp only [analyze_fault, Option.map_eq_some_iff, firstRepeat_eq_some_iff]
    constructor
    · rintro ⟨id, ⟨before, after, hvisited, hnodup, hid⟩, rfl⟩
      exact ⟨id, before, after, rfl, hvisited, hnodup, hid⟩
    · rintro ⟨id, before, after, rfl, hvisited, hnodup, hid⟩
      exact ⟨id, ⟨before, after, hvisited, hnodup, hid⟩, rfl⟩

/-- A loop whose blocks have one number: the body is visited before the last block of the head. -/
theorem faults_oneNumber :
    (analyze {} {} ⟨0, [.forLoop ⟨1, [], default⟩ (.identifier ⟨"x", default⟩) ⟨1, [], default⟩
      ⟨2, [.block ⟨2, [], default⟩], default⟩ default], default⟩).fault = some (.enteredTwice 2) :=
  ((faults_exact.2 {} _).2 _).mpr ⟨2, [0, 1, 2], [1], rfl, rfl, by decide, by decide⟩

end Yul
