import Mathlib.Data.List.Basic
import Yul.Object

/-!
# Paths into objects

`Object.PathTo` says which rows of names lead from an object to an object or data section inside
it. The names that code can refer to are the object's own name and the rows of plain names that lead
somewhere, joined with dots (`mem_dataNames_iff`). Rows that end with the same name twice are
missing: the own name of an object inside is taken out by its text, and with it what that object
holds under this name (`sameNamed_missing`).
-/

namespace Yul

/-! ## Names joined with dots -/

/-- A row of names as one text. -/
def joinPath (names : List String) : String :=
  ".".intercalate names

@[simp] theorem joinPath_singleton (name : String) : joinPath [name] = name :=
  String.intercalate_singleton

theorem joinPath_cons {names : List String} (hne : names ≠ []) (name : String) :
    joinPath (name :: names) = name ++ "." ++ joinPath names :=
  String.intercalate_cons_of_ne_nil hne

theorem isPlainName_iff {name : String} : isPlainName name = true ↔ '.' ∉ name.toList := by
  rw [isPlainName, Bool.not_eq_true', List.contains_eq_mem, decide_eq_false_iff_not]

theorem not_isPlainName_joined (name rest : String) : isPlainName (name ++ "." ++ rest) = false := by
  rw [← Bool.not_eq_true, isPlainName_iff]
  simp

theorem eq_singleton_of_joinPath {name : String} {names : List String}
    (hplain : isPlainName name = true) (hne : names ≠ []) (h : joinPath names = name) :
    names = [name] := by
  obtain ⟨first, rest, rfl⟩ := List.exists_cons_of_ne_nil hne
  by_cases hrest : rest = []
  · subst hrest
    rw [← h, joinPath_singleton]
  · rw [joinPath_cons hrest] at h
    rw [← h, not_isPlainName_joined] at hplain
    cases hplain

/-! ## Paths -/

/-- Whether a row of names leads from an object to an object or data section inside it. -/
inductive Object.PathTo : Object → List String → Prop where
  | object {o inner : Object} (h : inner ∈ o.objects) : PathTo o [inner.name]
  | data {o : Object} {d : DataSection} (h : d ∈ o.data) : PathTo o [d.name]
  | inside {o inner : Object} {names : List String} (h : inner ∈ o.objects)
      (hnames : PathTo inner names) : PathTo o (inner.name :: names)

/-- Whether a row of names ends with the same name twice. -/
def EndsTwice (names : List String) : Prop :=
  ∃ front name, names = front ++ [name, name]

theorem Object.PathTo.ne_nil {o : Object} {names : List String} (h : o.PathTo names) :
    names ≠ [] := by
  cases h <;> exact List.cons_ne_nil _ _

theorem not_endsTwice_singleton (name : String) : ¬EndsTwice [name] := by
  intro ⟨front, twice, h⟩
  have hlength := congrArg List.length h
  simp only [List.length_append, List.length_cons, List.length_nil] at hlength
  omega

theorem endsTwice_cons {name : String} {names : List String} :
    EndsTwice (name :: names) ↔ names = [name] ∨ EndsTwice names := by
  constructor
  · intro ⟨front, twice, h⟩
    cases front with
    | nil =>
      obtain ⟨rfl, rfl⟩ := List.cons.inj h
      exact .inl rfl
    | cons first front => exact .inr ⟨front, twice, (List.cons.inj h).2⟩
  · intro h
    rcases h with rfl | ⟨front, twice, rfl⟩
    · exact ⟨[], name, rfl⟩
    · exact ⟨name :: front, twice, rfl⟩

/-! ## Names of an object -/

namespace Object

theorem mem_dataNamesOfObjects {objects : List Object} {p : String} :
    p ∈ dataNamesOfObjects objects ↔ ∃ inner ∈ objects, isPlainName inner.name = true ∧
      (p = inner.name ∨ ∃ q ∈ inner.dataNames, q ≠ inner.name ∧ inner.name ++ "." ++ q = p) := by
  induction objects with
  | nil => simp [dataNamesOfObjects]
  | cons inner rest ih =>
    rw [dataNamesOfObjects, List.mem_append, ih, List.exists_mem_cons_iff]
    refine or_congr ?_ Iff.rfl
    by_cases hplain : isPlainName inner.name = true
    · rw [if_pos hplain, List.mem_cons, List.mem_map]
      simp only [hplain, List.mem_filter, decide_eq_true_eq, and_assoc, true_and]
    · rw [if_neg hplain]
      exact iff_of_false List.not_mem_nil fun h => hplain h.1

theorem mem_dataNames {o : Object} {p : String} :
    p ∈ o.dataNames ↔ (p = o.name ∧ p ≠ "" ∧ isPlainName p = true) ∨
      (∃ d ∈ o.data, d.name = p ∧ isPlainName p = true) ∨
      ∃ inner ∈ o.objects, isPlainName inner.name = true ∧
        (p = inner.name ∨ ∃ q ∈ inner.dataNames, q ≠ inner.name ∧ inner.name ++ "." ++ q = p) := by
  obtain ⟨name, code, objects, data, span⟩ := o
  rw [dataNames, List.mem_append, List.mem_append, mem_dataNamesOfObjects, or_assoc]
  refine or_congr ?_ (or_congr ?_ Iff.rfl)
  · by_cases hown : (name ≠ "" && isPlainName name) = true
    · rw [if_pos hown, List.mem_singleton]
      rw [Bool.and_eq_true, decide_eq_true_eq] at hown
      constructor
      · rintro rfl
        exact ⟨rfl, hown⟩
      · intro h
        exact h.1
    · rw [if_neg hown]
      refine iff_of_false List.not_mem_nil ?_
      rintro ⟨rfl, h⟩
      exact hown (by simpa using h)
  · rw [List.mem_filter, List.mem_map]
    constructor
    · intro ⟨⟨d, hd, hname⟩, hplain⟩
      exact ⟨d, hd, hname, hplain⟩
    · intro ⟨d, hd, hname, hplain⟩
      exact ⟨⟨d, hd, hname⟩, hplain⟩

/-- A row of plain names that leads into `o` and does not end with the same name twice. -/
structure Reads (o : Object) (names : List String) : Prop where
  path : o.PathTo names
  plain : ∀ name ∈ names, isPlainName name = true
  once : ¬EndsTwice names

theorem Reads.object {o inner : Object} (h : inner ∈ o.objects)
    (hplain : isPlainName inner.name = true) : o.Reads [inner.name] :=
  ⟨.object h, List.forall_mem_singleton.mpr hplain, not_endsTwice_singleton _⟩

theorem Reads.data {o : Object} {d : DataSection} (h : d ∈ o.data)
    (hplain : isPlainName d.name = true) : o.Reads [d.name] :=
  ⟨.data h, List.forall_mem_singleton.mpr hplain, not_endsTwice_singleton _⟩

theorem Reads.inside {o inner : Object} {names : List String} (h : inner ∈ o.objects)
    (hplain : isPlainName inner.name = true) (hnames : inner.Reads names)
    (hne : joinPath names ≠ inner.name) : o.Reads (inner.name :: names) := by
  refine ⟨.inside h hnames.path, List.forall_mem_cons.mpr ⟨hplain, hnames.plain⟩, fun htwice => ?_⟩
  rcases endsTwice_cons.mp htwice with rfl | htwice
  · exact hne (joinPath_singleton _)
  · exact hnames.once htwice

/-- A name that code can refer to is the own name or a path. -/
theorem reads_of_mem_dataNames (o : Object) {p : String} (h : p ∈ o.dataNames) :
    p = o.name ∧ p ≠ "" ∧ isPlainName p = true ∨ ∃ names, o.Reads names ∧ p = joinPath names := by
  rcases mem_dataNames.mp h with hown | ⟨d, hd, rfl, hplain⟩ | ⟨inner, hinner, hplain, hp⟩
  · exact .inl hown
  · exact .inr ⟨_, .data hd hplain, (joinPath_singleton _).symm⟩
  · rcases hp with rfl | ⟨q, hq, hne, rfl⟩
    · exact .inr ⟨_, .object hinner hplain, (joinPath_singleton _).symm⟩
    · rcases reads_of_mem_dataNames inner hq with ⟨hname, -⟩ | ⟨names, hnames, rfl⟩
      · exact absurd hname hne
      · exact .inr ⟨_, .inside hinner hplain hnames hne, (joinPath_cons hnames.path.ne_nil _).symm⟩
termination_by o
decreasing_by
  obtain ⟨name, code, objects, data, span⟩ := o
  have hlt := List.sizeOf_lt_of_mem hinner
  simp only [mk.sizeOf_spec] at hlt ⊢
  omega

theorem Reads.mem_dataNames {o : Object} {names : List String} (h : o.Reads names) :
    joinPath names ∈ o.dataNames := by
  obtain ⟨hpath, hplain, honce⟩ := h
  induction hpath with
  | object h =>
    have hname := List.forall_mem_singleton.mp hplain
    exact Object.mem_dataNames.mpr (.inr (.inr ⟨_, h, hname, .inl (joinPath_singleton _)⟩))
  | @data o d h =>
    have hname := List.forall_mem_singleton.mp hplain
    rw [joinPath_singleton]
    exact Object.mem_dataNames.mpr (.inr (.inl ⟨d, h, rfl, hname⟩))
  | @inside o inner names h hpath ih =>
    obtain ⟨hname, hnames⟩ := List.forall_mem_cons.mp hplain
    rw [endsTwice_cons, not_or] at honce
    rw [joinPath_cons hpath.ne_nil]
    have hne : joinPath names ≠ inner.name := fun heq =>
      honce.1 (eq_singleton_of_joinPath hname hpath.ne_nil heq)
    exact Object.mem_dataNames.mpr
      (.inr (.inr ⟨inner, h, hname, .inr ⟨_, ih hnames honce.2, hne, rfl⟩⟩))

/-- The names that code can refer to: the own name, and the plain rows of names that lead into the
object and do not end with the same name twice. -/
theorem mem_dataNames_iff (o : Object) (p : String) :
    p ∈ o.dataNames ↔ (p = o.name ∧ p ≠ "" ∧ isPlainName p = true) ∨
      ∃ names, o.PathTo names ∧ (∀ name ∈ names, isPlainName name = true) ∧ ¬EndsTwice names ∧
        p = joinPath names := by
  constructor
  · intro h
    rcases o.reads_of_mem_dataNames h with hown | ⟨names, hnames, hp⟩
    · exact .inl hown
    · exact .inr ⟨names, hnames.path, hnames.plain, hnames.once, hp⟩
  · intro h
    rcases h with hown | ⟨names, hpath, hplain, honce, rfl⟩
    · exact mem_dataNames.mpr (.inl hown)
    · exact Reads.mem_dataNames ⟨hpath, hplain, honce⟩

/-- The data `B` of an object `B` cannot be referred to from outside. -/
theorem sameNamed_missing :
    let block : Block := ⟨0, [], ⟨0, 0⟩⟩
    let held : DataSection := ⟨"B", [], ⟨0, 0⟩⟩
    let inner : Object := ⟨"B", block, [], [held], ⟨0, 0⟩⟩
    let o : Object := ⟨"A", block, [inner], [], ⟨0, 0⟩⟩
    o.PathTo ["B", "B"] ∧ (∀ name ∈ ["B", "B"], isPlainName name = true) ∧
      joinPath ["B", "B"] = "B.B" ∧ "B.B" ∉ o.dataNames := by
  intro block held inner o
  have hinner : inner ∈ o.objects := List.mem_cons_self
  have hsection : held ∈ inner.data := List.mem_cons_self
  exact ⟨.inside hinner (.data hsection), by decide, by decide, by decide⟩

end Object

end Yul
