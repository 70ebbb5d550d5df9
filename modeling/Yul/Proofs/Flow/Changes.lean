import Yul.Proofs.Flow.Calls

/-!
# Where a row of statements is left

A statement ends the whole call exactly if a call that never returns is part of the expression that
it evaluates (`Stmt.controlFlow_eq_terminate_iff`). `ChangesAt` says that a statement is the first
of a row behind which the next one does not follow. A row has at most one such place
(`ChangesAt.unique`), and `firstChange` finds it (`firstChange_eq_some_iff`). If more functions are
known never to return, it comes no later (`ChangesAt.of_marksMore`).
-/

namespace Yul

/-! ## Calls that never return -/

/-- A user function of this name, if there is one, is known never to return. -/
def Callees.Marks (callees : Callees) (name : Name) : Prop :=
  ∃ known exits, callees.known = some known ∧ known.lookup name = some exits ∧
    exits.canContinue = false

/-- A call of this name never returns. What is known of user functions counts only for names that no
builtin has. -/
inductive Callees.Ends (callees : Callees) (name : Name) : Prop where
  | builtin {b : Builtin} (hb : callees.builtin? name = some b) (h : b.exits.canContinue = false)
  | function (hb : callees.builtin? name = none) (h : callees.Marks name)

/-- The same builtins, and no fewer user functions that are known never to return. -/
structure Callees.MarksMore (callees more : Callees) : Prop where
  builtin? : more.builtin? = callees.builtin?
  marks : ∀ name, callees.Marks name → more.Marks name

section Callees

variable {callees more : Callees}

theorem Callees.ends_iff_of_builtin {name : Name} {b : Builtin}
    (hb : callees.builtin? name = some b) :
    callees.Ends name ↔ b.exits.canContinue = false := by
  constructor
  · intro h
    cases h with
    | builtin hb' h =>
      obtain rfl := Option.some.inj (hb.symm.trans hb')
      exact h
    | function hb' h => cases hb.symm.trans hb'
  · intro h
    exact .builtin hb h

theorem Callees.ends_iff_of_none {name : Name} (hb : callees.builtin? name = none) :
    callees.Ends name ↔ callees.Marks name := by
  constructor
  · intro h
    cases h with
    | builtin hb' h => cases hb.symm.trans hb'
    | function hb' h => exact h
  · intro h
    exact .function hb h

theorem Callees.Ends.of_marksMore {name : Name} (hmore : callees.MarksMore more)
    (h : callees.Ends name) : more.Ends name := by
  cases h with
  | builtin hb h => exact .builtin (hmore.builtin? ▸ hb) h
  | function hb h => exact .function (hmore.builtin? ▸ hb) (hmore.marks name h)

theorem callCanContinue_eq_false_iff {name : Name} :
    callCanContinue callees name = false ↔ callees.Ends name := by
  unfold callCanContinue
  cases hb : callees.builtin? name with
  | some b => exact (Callees.ends_iff_of_builtin hb).symm
  | none =>
    rw [Callees.ends_iff_of_none hb, Callees.Marks]
    cases hknown : callees.known with
    | none => simp
    | some known => cases hexits : known.lookup name <;> simp [hexits]

/-! ## Expressions and statements -/

theorem Expr.terminates_iff {e : Expr} : e.terminates callees = true ↔
    ∃ f args span, (Node.expression e).Within (.expression (.call f args span)) ∧
      callees.Ends f.name := by
  rw [Expr.terminates, e.anyCall_iff, Node.calls_iff_exists]
  simp only [Bool.not_eq_true', callCanContinue_eq_false_iff]

theorem Expr.terminates_of_marksMore {e : Expr} (hmore : callees.MarksMore more)
    (h : e.terminates callees = true) : e.terminates more = true := by
  obtain ⟨f, args, span, hwithin, hends⟩ := Expr.terminates_iff.mp h
  exact Expr.terminates_iff.mpr ⟨f, args, span, hwithin, hends.of_marksMore hmore⟩

/-- The statement evaluates the expression and at most keeps its values under some names. -/
inductive Stmt.Evaluates : Stmt → Expr → Prop where
  | expression (e : Expr) : Evaluates (.expression e) e
  | assignment (targets : List Identifier) (e : Expr) (span : Span) :
      Evaluates (.assignment targets e span) e
  | declaration (declared : List TypedName) (e : Expr) (span : Span) :
      Evaluates (.declaration declared (some e) span) e

theorem Stmt.Evaluates.controlFlow_eq {s : Stmt} {e : Expr} (h : s.Evaluates e)
    (callees : Callees) :
    s.controlFlow callees = if e.terminates callees then .terminate else .flowOut := by
  cases h <;> rfl

theorem Stmt.evaluates_or_fixed (s : Stmt) : (∃ e, s.Evaluates e) ∨
    ∃ kind, kind ≠ .terminate ∧ ∀ callees, s.controlFlow callees = kind := by
  match s with
  | .expression e => exact .inl ⟨e, .expression e⟩
  | .assignment targets e span => exact .inl ⟨e, .assignment targets e span⟩
  | .declaration declared (some e) span => exact .inl ⟨e, .declaration declared e span⟩
  | .breakLoop _ => exact .inr ⟨.breakLoop, nofun, fun _ => rfl⟩
  | .continueLoop _ => exact .inr ⟨.continueLoop, nofun, fun _ => rfl⟩
  | .leave _ => exact .inr ⟨.leave, nofun, fun _ => rfl⟩
  | .declaration _ none _ | .function _ _ | .ifThen _ _ _ | .switch _ _ _ | .forLoop _ _ _ _ _
  | .block _ => exact .inr ⟨.flowOut, nofun, fun _ => rfl⟩

theorem Stmt.controlFlow_eq_terminate_iff {s : Stmt} :
    s.controlFlow callees = .terminate ↔ ∃ e, s.Evaluates e ∧
      ∃ f args span, (Node.expression e).Within (.expression (.call f args span)) ∧
        callees.Ends f.name := by
  simp only [← Expr.terminates_iff]
  constructor
  · intro h
    rcases s.evaluates_or_fixed with ⟨e, he⟩ | ⟨kind, hkind, hfixed⟩
    · refine ⟨e, he, ?_⟩
      by_contra hreturns
      rw [he.controlFlow_eq, if_neg hreturns] at h
      cases h
    · exact absurd ((hfixed callees).symm.trans h) hkind
  · intro ⟨e, he, hends⟩
    rw [he.controlFlow_eq, if_pos hends]

theorem Stmt.controlFlow_of_marksMore {s : Stmt} (hmore : callees.MarksMore more)
    (h : s.controlFlow callees ≠ .flowOut) : s.controlFlow more = s.controlFlow callees := by
  rcases s.evaluates_or_fixed with ⟨e, he⟩ | ⟨kind, -, hfixed⟩
  · rw [he.controlFlow_eq] at h
    have hends : e.terminates callees = true := by
      by_contra hreturns
      exact h (if_neg hreturns)
    rw [he.controlFlow_eq, he.controlFlow_eq, if_pos hends,
      if_pos (Expr.terminates_of_marksMore hmore hends)]
  · rw [hfixed, hfixed]

/-! ## Rows of statements -/

/-- The statement at `i` is the first of a row behind which the next one does not follow. It leaves
the row by `kind`. -/
structure ChangesAt (callees : Callees) (statements : List Stmt) (kind : ControlFlow) (i : Nat) :
    Prop where
  leaves : ∃ s, statements[i]? = some s ∧ s.controlFlow callees = kind
  changes : kind ≠ .flowOut
  before : ∀ j < i, ∀ s, statements[j]? = some s → s.controlFlow callees = .flowOut

variable {statements : List Stmt} {kind : ControlFlow} {i : Nat}

theorem ChangesAt.le {kind' : ControlFlow} {i' : Nat} (h : ChangesAt callees statements kind i)
    (h' : ChangesAt callees statements kind' i') : i ≤ i' := by
  by_contra hlt
  obtain ⟨s, hs, hkind⟩ := h'.leaves
  have hflow := h.before i' (by omega) s hs
  exact h'.changes (hkind.symm.trans hflow)

theorem ChangesAt.unique {kind' : ControlFlow} {i' : Nat} (h : ChangesAt callees statements kind i)
    (h' : ChangesAt callees statements kind' i') : i = i' ∧ kind = kind' := by
  obtain rfl := Nat.le_antisymm (h.le h') (h'.le h)
  obtain ⟨s, hs, rfl⟩ := h.leaves
  obtain ⟨s', hs', rfl⟩ := h'.leaves
  rw [hs] at hs'
  exact ⟨rfl, congrArg _ (Option.some.inj hs')⟩

theorem ChangesAt.not_flowOut (h : ChangesAt callees statements kind i) :
    ¬∀ s ∈ statements, s.controlFlow callees = .flowOut := by
  intro hflow
  obtain ⟨s, hs, hkind⟩ := h.leaves
  exact h.changes (hkind.symm.trans (hflow s (List.mem_of_getElem? hs)))

/-- What is found is the first change, and nothing is found only where there is none. -/
theorem firstChange_cases (callees : Callees) (statements : List Stmt) :
    (firstChange callees statements = (.flowOut, none) ∧
      ∀ s ∈ statements, s.controlFlow callees = .flowOut) ∨
    ∃ kind i, firstChange callees statements = (kind, some i) ∧
      ChangesAt callees statements kind i := by
  unfold firstChange
  cases hfind : statements.findIdx? fun s => s.controlFlow callees ≠ .flowOut with
  | none =>
    refine .inl ⟨rfl, fun s hs => ?_⟩
    simpa using List.findIdx?_eq_none_iff.mp hfind s hs
  | some i =>
    obtain ⟨hi, hleaves, hbefore⟩ := List.findIdx?_eq_some_iff_getElem.mp hfind
    have hs : statements[i]? = some statements[i] := List.getElem?_eq_getElem hi
    refine .inr ⟨statements[i].controlFlow callees, i, by simp [hs], ⟨_, hs, rfl⟩, ?_, ?_⟩
    · simpa using hleaves
    · intro j hj s hsj
      obtain ⟨hlt, rfl⟩ := List.getElem?_eq_some_iff.mp hsj
      simpa using hbefore j hj

theorem firstChange_eq_some_iff :
    firstChange callees statements = (kind, some i) ↔ ChangesAt callees statements kind i := by
  rcases firstChange_cases callees statements with ⟨hnone, hflow⟩ | ⟨kind', i', hsome, hchanges⟩
  · rw [hnone]
    exact iff_of_false nofun fun h => h.not_flowOut hflow
  · rw [hsome]
    constructor
    · intro h
      cases h
      exact hchanges
    · intro h
      obtain ⟨rfl, rfl⟩ := h.unique hchanges
      rfl

theorem firstChange_eq_none_iff : firstChange callees statements = (.flowOut, none) ↔
    ∀ s ∈ statements, s.controlFlow callees = .flowOut := by
  rcases firstChange_cases callees statements with ⟨hnone, hflow⟩ | ⟨kind, i, hsome, hchanges⟩
  · exact iff_of_true hnone hflow
  · rw [hsome]
    exact iff_of_false nofun hchanges.not_flowOut

theorem exists_firstChange_le {s : Stmt} (hs : statements[i]? = some s)
    (hleaves : s.controlFlow callees ≠ .flowOut) :
    ∃ kind j, j ≤ i ∧ firstChange callees statements = (kind, some j) := by
  rcases firstChange_cases callees statements with ⟨-, hflow⟩ | ⟨kind, j, hsome, hchanges⟩
  · exact absurd (hflow s (List.mem_of_getElem? hs)) hleaves
  · refine ⟨kind, j, ?_, hsome⟩
    by_contra hlater
    exact hleaves (hchanges.before i (by omega) s hs)

/-- The statement that was the first to leave the row still leaves it if more is known. -/
theorem ChangesAt.of_marksMore (h : ChangesAt callees statements kind i)
    (hmore : callees.MarksMore more) :
    ∃ kind' j, j ≤ i ∧ firstChange more statements = (kind', some j) := by
  obtain ⟨s, hs, rfl⟩ := h.leaves
  have hsame := Stmt.controlFlow_of_marksMore hmore h.changes
  exact exists_firstChange_le hs (hsame ▸ h.changes)

end Callees

/-- Which statements end the call, where the first change of a row is, and that it never comes later
if more functions are known never to return, whatever the builtins of the dialect are. -/
theorem firstChange_exact (callees : Callees) :
    (∀ s : Stmt, s.controlFlow callees = .terminate ↔ ∃ e, s.Evaluates e ∧
      ∃ f args span, (Node.expression e).Within (.expression (.call f args span)) ∧
        callees.Ends f.name) ∧
    ∀ statements : List Stmt,
      (∀ kind i, firstChange callees statements = (kind, some i) ↔
        ChangesAt callees statements kind i) ∧
      (firstChange callees statements = (.flowOut, none) ↔
        ∀ s ∈ statements, s.controlFlow callees = .flowOut) ∧
      ∀ more kind i, callees.MarksMore more → firstChange callees statements = (kind, some i) →
        ∃ kind' j, j ≤ i ∧ firstChange more statements = (kind', some j) := by
  refine ⟨fun s => Stmt.controlFlow_eq_terminate_iff, fun statements =>
    ⟨fun kind i => firstChange_eq_some_iff, firstChange_eq_none_iff, ?_⟩⟩
  intro more kind i hmore hchange
  exact (firstChange_eq_some_iff.mp hchange).of_marksMore hmore

/-- What is said of a builtin changes nothing, and what is said of a user function moves the first
change from the builtin to its call. -/
theorem markedFunction_comesFirst :
    let call (name : Name) : Stmt := .expression (.call ⟨name, default⟩ [] default)
    let statements := [call "proceed", call "fail", call "stop"]
    let callees : Callees := { known := some [("stop", .continuing)] }
    let more : Callees := { known := some [("stop", .continuing), ("fail", .reverting)] }
    callees.MarksMore more ∧ firstChange callees statements = (.terminate, some 2) ∧
      (∃ kind j, j ≤ 2 ∧ firstChange more statements = (kind, some j)) ∧
      firstChange more statements = (.terminate, some 1) := by
  intro call statements callees more
  have hmore : callees.MarksMore more := by
    refine ⟨rfl, fun name hmarks => ?_⟩
    obtain ⟨known, exits, hknown, hexits, hends⟩ := hmarks
    obtain rfl := Option.some.inj hknown
    rw [List.lookup_cons, List.lookup_nil] at hexits
    split at hexits
    · obtain rfl := Option.some.inj hexits
      cases hends
    · cases hexits
  have hchange : firstChange callees statements = (.terminate, some 2) := by decide
  exact ⟨hmore, hchange, ((firstChange_exact callees).2 statements).2.2 more _ _ hmore hchange,
    by decide⟩

end Yul
