import Yul.Proofs.Names.Paths
import Yul.Proofs.Recovery.Reports
import Yul.Proofs.Visit.Exact

/-!
# References to data

`Block.RefersTo` finds the string literals by which code refers to data: the arguments of builtins
that have to be names of data, wherever in the code the call stands. A reference is found unknown
unless the text that its bytes are read as is among the names of the setting
(`Block.RefersTo.known`).
-/

namespace Yul

/-- The expressions that a statement holds itself. -/
def Stmt.ownExprs : Stmt → List Expr
  | .expression e | .assignment _ e _ | .declaration _ (some e) _ | .ifThen e _ _
  | .switch e _ _ | .forLoop _ e _ _ _ => [e]
  | .declaration _ none _ | .function _ _ | .breakLoop _ | .continueLoop _ | .leave _
  | .block _ => []

/-- Whether an expression is a call that refers to data by the literal `l` of the given bytes. -/
def Expr.RefersTo (e : Expr) (l : Literal) (bytes : List UInt8) : Prop :=
  ∃ f args span b index argument, e = .call f args span ∧ Builtin.find? f.name = some b ∧
    b.literalArgument? index = some .dataName ∧ args[index]? = some argument ∧
    argument.string? = some (l, bytes)

/-- Whether code refers to data by the literal `l` of the given bytes. -/
def Block.RefersTo (code : Block) (l : Literal) (bytes : List UInt8) : Prop :=
  ∃ b ∈ code.blocks, ∃ s ∈ b.statements, ∃ e ∈ s.ownExprs, ∃ part ∈ e.parts, part.RefersTo l bytes

section Setting

variable (cfg : Setting)

/-! ## Marks of expressions -/

theorem stringMarks_subset {builtin : Option Builtin} {first index : Nat} {args : List Expr}
    {argument : Expr} {kind : LiteralArgument} (hargument : args[index]? = some argument)
    (hkind : builtin.bind (·.literalArgument? (first + index)) = some kind) :
    stringMarks cfg kind argument ⊆ marksOfArguments cfg builtin first args := by
  induction args generalizing first index with
  | nil => cases hargument
  | cons a rest ih =>
    rw [marksOfArguments]
    cases index with
    | zero =>
      obtain rfl := Option.some.inj hargument
      rw [Nat.add_zero] at hkind
      rw [hkind]
      exact List.subset_append_left _ _
    | succ index =>
      have hrest : rest[index]? = some argument := hargument
      rw [← Nat.add_assoc, Nat.add_right_comm] at hkind
      exact List.subset_append_of_subset_right _ (ih hrest hkind)

mutual

theorem Expr.marks_subset_of_part (e : Expr) : ∀ part ∈ e.parts, part.marks cfg ⊆ e.marks cfg := by
  intro part hpart
  match e with
  | .literal l | .identifier x =>
    rw [Expr.parts, List.mem_singleton] at hpart
    rw [hpart]
    exact List.Subset.refl _
  | .call f args span =>
    rcases List.mem_cons.mp hpart with rfl | hpart
    · exact List.Subset.refl _
    · exact List.subset_append_of_subset_right _ (marks_subset_of_argumentPart _ 0 args part hpart)

theorem marks_subset_of_argumentPart (builtin : Option Builtin) (index : Nat) (args : List Expr) :
    ∀ part ∈ partsOfArguments builtin index args,
      part.marks cfg ⊆ marksOfArguments cfg builtin index args := by
  intro part hpart
  match args with
  | [] => exact absurd hpart List.not_mem_nil
  | a :: rest =>
    rw [partsOfArguments, List.mem_append] at hpart
    rw [marksOfArguments]
    rcases hpart with hpart | hpart
    · refine List.subset_append_of_subset_left _ ?_
      cases hkind : builtin.bind (·.literalArgument? index) with
      | none =>
        rw [hkind] at hpart
        exact a.marks_subset_of_part part hpart
      | some kind =>
        rw [hkind] at hpart
        exact absurd hpart List.not_mem_nil
    · exact List.subset_append_of_subset_right _ (marks_subset_of_argumentPart _ _ rest part hpart)

end

/-! ## Marks of statements -/

theorem Stmt.marks_subset_of_ownExpr {s : Stmt} {e : Expr} (he : e ∈ s.ownExprs) :
    e.marks cfg ⊆ s.marks cfg := by
  intro m hm
  match s with
  | .expression _ =>
    obtain rfl := List.mem_singleton.mp he
    exact hm
  | .assignment _ _ _ | .declaration _ (some _) _ | .ifThen _ _ _ | .switch _ _ _
  | .forLoop ⟨_, _, _⟩ _ _ _ _ =>
    obtain rfl := List.mem_singleton.mp he
    simp [Stmt.marks, hm]
  | .declaration _ none _ | .function _ _ | .breakLoop _ | .continueLoop _ | .leave _ | .block _ =>
    exact absurd he List.not_mem_nil

theorem marks_subset_marksOfStmts {s : Stmt} {ss : List Stmt} (hs : s ∈ ss) :
    s.marks cfg ⊆ marksOfStmts cfg ss := by
  induction ss with
  | nil => exact absurd hs List.not_mem_nil
  | cons first rest ih =>
    rcases List.mem_cons.mp hs with rfl | hs
    · exact List.subset_append_left _ _
    · exact List.subset_append_of_subset_right _ (ih hs)

/-- The expressions in the statements of some blocks satisfy `P`. -/
def ForOwnExprs (P : Expr → Prop) (bs : List Block) : Prop :=
  ∀ b ∈ bs, ∀ s ∈ b.statements, ∀ e ∈ s.ownExprs, P e

theorem ForOwnExprs.mono {P Q : Expr → Prop} {bs : List Block} (h : ForOwnExprs P bs)
    (hPQ : ∀ e, P e → Q e) : ForOwnExprs Q bs :=
  fun b hb s hs e he => hPQ e (h b hb s hs e he)

theorem forOwnExprs_append {P : Expr → Prop} {bs cs : List Block} (hbs : ForOwnExprs P bs)
    (hcs : ForOwnExprs P cs) : ForOwnExprs P (bs ++ cs) :=
  List.forall_mem_append.mpr ⟨hbs, hcs⟩

mutual

theorem Stmt.marks_subset (s : Stmt) : ForOwnExprs (fun e => e.marks cfg ⊆ s.marks cfg) s.blocks := by
  match s with
  | .expression _ | .assignment _ _ _ | .declaration _ _ _ | .breakLoop _ | .continueLoop _
  | .leave _ => exact List.forall_mem_nil _
  | .function f span => exact f.marks_subset
  | .ifThen e body span =>
    exact body.marks_subset.mono fun e he => List.subset_append_of_subset_right _ he
  | .switch subject cases span =>
    exact (marks_subset_of_cases [] cases).mono fun e he => List.subset_append_of_subset_right _ he
  | .forLoop init e post body span =>
    have hinit := init.marks_subset
    have hpost := post.marks_subset
    have hbody := body.marks_subset
    obtain ⟨id, statements, place⟩ := init
    refine forOwnExprs_append (forOwnExprs_append (hinit.mono ?_) (hpost.mono ?_)) (hbody.mono ?_)
    · intro e he m hm
      have hmark := he hm
      simp only [Block.marks, Stmt.marks, List.mem_append, List.mem_cons, List.not_mem_nil,
        or_false] at hmark ⊢
      rcases hmark with (hmark | hmark) | hmark <;> simp only [hmark, true_or, or_true]
    · intro e he m hm
      simp [Stmt.marks, he hm]
    · intro e he m hm
      simp [Stmt.marks, he hm]
  | .block b => exact b.marks_subset

theorem FunctionDef.marks_subset (f : FunctionDef) :
    ForOwnExprs (fun e => e.marks cfg ⊆ f.marks cfg) f.blocks := by
  match f with
  | ⟨name, parameters, returns, body⟩ =>
    refine body.marks_subset.mono fun e he m hm => ?_
    simp [FunctionDef.marks, he hm]

theorem Block.marks_subset (b : Block) :
    ForOwnExprs (fun e => e.marks cfg ⊆ b.marks cfg) b.blocks := by
  match b with
  | ⟨id, statements, span⟩ =>
    refine List.forall_mem_cons.mpr ⟨fun s hs e he m hm => ?_,
      (marks_subset_of_stmts statements).mono fun e he m hm => ?_⟩
    · simp [Block.marks, marks_subset_marksOfStmts cfg hs (Stmt.marks_subset_of_ownExpr cfg he hm)]
    · simp [Block.marks, he hm]

theorem marks_subset_of_stmts (ss : List Stmt) :
    ForOwnExprs (fun e => e.marks cfg ⊆ marksOfStmts cfg ss) (blocksOfStmts ss) := by
  match ss with
  | [] => exact List.forall_mem_nil _
  | s :: rest =>
    refine forOwnExprs_append (s.marks_subset.mono fun e he => ?_)
      ((marks_subset_of_stmts rest).mono fun e he => ?_)
    · exact List.subset_append_of_subset_left _ he
    · exact List.subset_append_of_subset_right _ he

theorem marks_subset_of_cases (before cases : List Case) :
    ForOwnExprs (fun e => e.marks cfg ⊆ marksOfCases cfg before cases) (blocksOfCases cases) := by
  match cases with
  | [] => exact List.forall_mem_nil _
  | ⟨value, body, span⟩ :: rest =>
    have hrest := marks_subset_of_cases (before ++ [⟨value, body, span⟩]) rest
    refine forOwnExprs_append (body.marks_subset.mono fun e he m hm => ?_)
      (hrest.mono fun e he m hm => ?_)
    · simp [marksOfCases, he hm]
    · simp [marksOfCases, he hm]

end

/-! ## References that are accepted -/

/-- A reference to what has no name in the setting is marked as a problem. -/
theorem Block.RefersTo.unknown_mem_marks {code : Block} {l : Literal} {bytes : List UInt8}
    (h : code.RefersTo l bytes) (hunknown : Text.decodeLossy bytes ∉ cfg.dataNames) :
    .problem ⟨.unknownData (Text.decodeLossy bytes), l.span⟩ ∈ code.marks cfg := by
  obtain ⟨b, hb, s, hs, e, he, part, hpart, f, args, span, builtin, index, argument, rfl, hfind,
    hkind, hargument, hstring⟩ := h
  refine code.marks_subset cfg b hb s hs e he (e.marks_subset_of_part cfg _ hpart ?_)
  have hbind : (Builtin.find? f.name).bind (·.literalArgument? (0 + index)) = some .dataName := by
    rw [hfind, Nat.zero_add]
    exact hkind
  refine List.mem_append_right _ (stringMarks_subset cfg hargument hbind ?_)
  rw [stringMarks, hstring]
  exact List.mem_append_right _ (by rw [if_pos ⟨rfl, hunknown⟩]; exact List.mem_singleton_self _)

end Setting

theorem Block.RefersTo.known {cfg : Setting} {record : Record} {code : Block} {l : Literal}
    {bytes : List UInt8} (h : code.RefersTo l bytes) (hfault : (analyze cfg record code).fault = none)
    (haccepted : ∀ name, ⟨.unknownData name, l.span⟩ ∉ (analyze cfg record code).findings) :
    Text.decodeLossy bytes ∈ cfg.dataNames := by
  by_contra hunknown
  exact haccepted _ (mem_findings_of_mark hfault (h.unknown_mem_marks cfg hunknown))

end Yul
