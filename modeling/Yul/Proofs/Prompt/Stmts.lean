import Yul.Proofs.Prompt.Exprs

/-!
# Prompt parsers of statements

A statement is told by its first token, so a token that starts none is refused at once. The default
arm of a switch is found not to be the last one at the next arm, and a switch without arms at the token
behind its subject.
-/

namespace Yul

namespace Parser

variable {ι : Type} {past : List Lexeme} {n : Nat} {room : ι → Nat} {T : Lexeme → Prop}
  {L M : Language Lexeme}

/-! ## Blocks -/

section Blocks

variable {S : ι → Parser Stmt}

theorem statements_prompt {bounds : ι → Nat}
    (hS : Prompt [] n room (fun _ => True) S (rows DerivesStmt)) (hbounds : ∀ i, room i ≤ bounds i) :
    Prompt past n room T (fun i => statements (S i) (bounds i)) (rows DerivesStmts) := by
  induction n generalizing past room bounds T with
  | zero => exact .zero
  | succ n ih =>
    refine .opened (f := fun i => statements (S i)) hbounds (.current fun ⟨token, span⟩ _ => ?_)
    have hmore : Prompt past (n + 1) room (· = ⟨token, span⟩) (fun i => do
        let s ← S i
        return s :: (← statements (S i) (bounds i - 1))) (rows DerivesStmts) := by
      refine ((hS.less 0).bind_next nil_notMem_stmt (.of_nil stmts_nil) fun s => ?_).mono stmts_cons
      exact (ih (hS.less 1) fun i => Nat.sub_le_sub_right (hbounds i) 1).finish fun ss => .done
    cases token with
    | punct p =>
      cases p with
      | rbrace => exact .pure stmts_nil
      | _ => exact hmore
    | endOfInput => exact .unexpected _ (.of_nil stmts_nil)
    | _ => exact hmore

theorem blockOf_prompt
    (hS : Prompt [] (n - 1) (fun i => room i - 1) (fun _ => True) S (rows DerivesStmt)) :
    Prompt past n room T (fun i => blockOf (S i)) (rows DerivesBlock) := by
  have hclose : Fillable (rows DerivesStmts * Punct.rbrace.row) :=
    (Fillable.of_nil stmts_nil).mul (.punct .rbrace)
  refine ((mark_prompt .lbrace).bind_next nil_notMem_oneOf hclose fun l => ?_).mono block_rows
  refine .silent freshBlock_silent fun id => .bound ?_
  have hmany : Prompt [] (n - 1) (fun j : ι × Nat => min (room j.1 - 1) j.2) (fun _ => True)
      (fun j => S j.1) (rows DerivesStmt) := hS.reindex Prod.fst fun _ => Nat.min_le_left _ _
  refine (statements_prompt hmany fun _ => Nat.min_le_right _ _).bind (.punct .rbrace) fun body => ?_
  exact (mark_prompt .rbrace).finish fun _ => .spanned _ _

end Blocks

/-! ## Statements -/

theorem identifierStatement_prompt :
    Prompt past n room T (fun _ => identifierStatement) (rows DerivesStmt) := by
  refine identifier_bind .stmt fun first => ?_
  have hfirst : [first.lexeme] ∈ phrases DerivesIdentifier := ⟨first, .mk first⟩
  refine .current fun l _ => ?_
  by_cases hl : (l.token = .punct .comma || l.token = .punct .assign) = true
  · simp only [if_pos hl]
    have hvalue : Fillable (Punct.assign.row * phrases DerivesExpr) :=
      (Fillable.punct .assign).mul .expr
    refine Prompt.mono (.bound ?_) fun us hus => stmt_assignment (Language.append_mem_mul hfirst hus)
    refine (afterCommas_prompt identifier_prompt fun _ => Nat.min_le_right _ _).bind hvalue
      fun others => ?_
    refine (mark_prompt .assign).bind .expr fun _ => ?_
    exact expression_prompt.finish fun value => .spanned _ _
  · simp only [if_neg hl]
    refine ((afterIdentifier_prompt expression_prompt first).finish fun e => .done).mono ?_
    exact fun us hus => stmt_expression hus

section Statements

variable {B : ι → Parser Block}

theorem functionDef_prompt (hB : Prompt [] n room (fun _ => True) B (rows DerivesBlock)) :
    Prompt past n room T (fun i => functionDef (B i)) (Keyword.function.row *
      (phrases DerivesIdentifier * (Punct.lparen.row * (phrases (DerivesOptional DerivesTypedName) *
        (Punct.rparen.row * (phrases DerivesReturns * rows DerivesBlock)))))) := by
  have hreturns : Fillable (phrases DerivesReturns * rows DerivesBlock) :=
    (Fillable.of_nil returns_nil).mul .block
  have hclose := (Fillable.punct .rparen).mul hreturns
  have hparameters : Fillable (phrases (DerivesOptional DerivesTypedName) * _) :=
    (Fillable.of_nil optional_nil).mul hclose
  have hopen := (Fillable.punct .lparen).mul hparameters
  refine (keyword_prompt .function).bind (Fillable.identifier.mul hopen) fun _ => ?_
  refine identifier_prompt.bind hopen fun name => ?_
  refine (mark_prompt .lparen).bind hparameters fun _ => ?_
  refine (optionalList_prompt typedName_prompt).bind hclose fun parameters => ?_
  refine (mark_prompt .rparen).bind hreturns fun _ => ?_
  refine returns_prompt.bind .block fun returns => ?_
  exact (hB.less 0).finish fun _ => .done

theorem armBody_prompt (hB : Prompt [] n room (fun _ => True) B (rows DerivesBlock))
    (value : Option Literal) (start : Span) :
    Prompt past n room T (fun i => armBody (B i) value start) (rows DerivesBlock) :=
  (hB.less 0).finish fun _ => .spanned _ _

/-- The arms of a switch, where there may be none unless one is at hand. -/
theorem arms_prompt {bounds : ι → Nat} (hB : Prompt [] n room (fun _ => True) B (rows DerivesBlock))
    (hbounds : ∀ i, room i ≤ bounds i) (hsome : someArms ≤ L)
    (hnone : ∀ l, T l → l.token.EndsArms → [] ∈ L) :
    Prompt past n room T (fun i => arms (B i) (bounds i)) L := by
  induction n generalizing past room bounds T L with
  | zero => exact .zero
  | succ n ih =>
    have hless : Prompt [] n (fun i => room i - 1) (fun _ => True) B (rows DerivesBlock) := hB.less 1
    refine .opened (f := fun i => arms (B i)) hbounds (.current fun l hl => ?_)
    refine accept_prompt (.keyword .caseArm) ?_ (arms_case.trans hsome) ?_
    · have harms : Fillable (rows DerivesArms) := .of_nil arms_nil
      refine literal_prompt.bind (Fillable.block.mul harms) fun value => ?_
      refine (armBody_prompt hless _ _).bind harms fun arm => ?_
      exact (ih hless (fun i => Nat.sub_le_sub_right (hbounds i) 1) arms_some
        fun _ _ _ => arms_nil).finish fun rest => .done
    · refine accept_prompt (.keyword .defaultArm) ?_ (arms_default.trans hsome) ?_
      · refine (armBody_prompt hless _ _).finish fun arm => .current fun next _ => ?_
        by_cases hnext : (next.token = .keyword .caseArm || next.token = .keyword .defaultArm) = true
        · simp only [if_pos hnext]
          exact (Prompt.fail (.of_nil Language.nil_mem_one) .defaultNotLast).finish fun _ => .done
        · simp only [if_neg hnext]
          exact .done
      · refine .of_forall fun l' hl' => .pure ?_
        obtain ⟨⟨rfl, hcase⟩, hdefault⟩ := hl'
        exact hnone l' hl ⟨hcase, hdefault⟩

theorem arms_ne_nil {block : Parser Block} {k : Nat} {c c' : Cursor} {cases : List Case}
    (hc : ¬c.current.token.EndsArms) (h : Gives (arms block (k + 1)) c cases c') : cases ≠ [] := by
  have hrefused {t : Token} {d d' : Cursor} (h : Gives (accept t) d false d') :
      d.current.token ≠ t ∧ d = d' := by
    simp only [accept, gives_bind, gives_current] at h
    obtain ⟨_, _, ⟨rfl, rfl⟩, h⟩ := h
    split at h
    · simp only [gives_bind, gives_pure] at h
      obtain ⟨_, _, _, ⟨⟩, _⟩ := h
    · next ht => exact ⟨ht, (gives_pure.mp h).2⟩
  simp only [arms, gives_bind, gives_current] at h
  obtain ⟨_, _, ⟨rfl, rfl⟩, accepted, c₁, hcase, h⟩ := h
  cases accepted with
  | true =>
    simp only [if_true, gives_bind, gives_pure] at h
    obtain ⟨_, _, _, _, _, _, _, _, _, rfl, _⟩ := h
    exact List.cons_ne_nil _ _
  | false =>
    obtain ⟨hne, rfl⟩ := hrefused hcase
    simp only [Bool.false_eq_true, if_false, gives_bind] at h
    obtain ⟨accepted, c₁, hdefault, h⟩ := h
    cases accepted with
    | true =>
      simp only [if_true, gives_bind, gives_current] at h
      obtain ⟨_, _, _, _, _, _, h⟩ := h
      split at h
      · simp at h
      · obtain ⟨rfl, -⟩ := gives_pure.mp h
        exact List.cons_ne_nil _ _
    | false => exact absurd ⟨hne, (hrefused hdefault).1⟩ hc

/-- The end of a switch, where it is found out whether there are arms. -/
def switchEnd (start : Lexeme) (subject : Expr) (cases : List Case) : Parser Stmt := do
  let span ← spanFrom start.span
  if cases.isEmpty then fail .switchWithoutCases span
  return .switch subject cases span

theorem switchEnd_nil_prompt {start : Lexeme} (hstart : start ∈ past) (subject : Expr) :
    Prompt past n room T (fun _ => switchEnd start subject []) someArms := by
  intro before c hpast _ _ _
  have hblames : SourceError.Blames ⟨.switchWithoutCases, start.span.merge c.previous⟩ c.current before
      c.previous := ⟨rfl, nofun, fun _ => ⟨start, hpast hstart, rfl⟩⟩
  have hfail : PromptAt room
      (fun _ => fail (α := Stmt) .switchWithoutCases (start.span.merge c.previous)) before c someArms :=
    .fail .someArms hblames
  exact hfail.congr fun i rest _ => rfl

theorem switchRest_prompt {bounds : ι → Nat}
    (hB : Prompt [] n room (fun _ => True) B (rows DerivesBlock)) (hbounds : ∀ i, room i ≤ bounds i)
    {start : Lexeme} (hstart : start ∈ past) (subject : Expr) :
    Prompt past n room T (fun i => arms (B i) (bounds i) >>= switchEnd start subject) someArms := by
  have hbound {i : ι} {c : Cursor} (hi : c.rest.length < room i) : ∃ k, bounds i = k + 1 :=
    Nat.exists_eq_add_one.mpr (by have := hbounds i; omega)
  refine .of_forall fun l _ => ?_
  -- the token at hand says whether there are arms: without any the end fails, with some it never does
  by_cases hl : l.token.EndsArms
  · refine (switchEnd_nil_prompt hstart subject).congr fun i c hi hc => ?_
    obtain ⟨k, hk⟩ := hbound hi
    obtain ⟨hcase, hdefault⟩ := hc ▸ hl
    have hnone : Gives (arms (B i) (bounds i)) c [] c := by
      rw [hk]
      refine .bind .current (.bind (accept_complete_of_ne hcase) ?_)
      exact .bind (accept_complete_of_ne hdefault) .pure
    exact run_bind_of_gives hnone
  · have hsome : Prompt past n room (· = l) (fun i => arms (B i) (bounds i)) someArms :=
      arms_prompt hB hbounds le_rfl fun _ hl' hends => absurd (hl' ▸ hends) hl
    refine (hsome.finish fun cases => .spanned start.span (Stmt.switch subject cases)).congr
      fun i c hi hc => ?_
    obtain ⟨k, hk⟩ := hbound hi
    cases hrun : (arms (B i) (bounds i)).run c with
    | error e c' => rw [run_bind_of_error hrun, run_bind_of_error hrun]
    | ok cases c' =>
      have hne : cases ≠ [] := arms_ne_nil (hc ▸ hl) (hk ▸ hrun)
      rw [run_bind_of_gives hrun, run_bind_of_gives hrun, switchEnd]
      simp only [List.isEmpty_iff, if_neg hne]

theorem keyword_bind {G : ι → Lexeme → Parser Stmt} {k : Keyword} {span : Span} (hrow : k.row * M ≤ L)
    (hG : Prompt (k.lexeme span :: past) (n - 1) (fun i => room i - 1) (fun _ => True)
      (fun i => G i (k.lexeme span)) M) :
    Prompt past n room (· = k.lexeme span) (fun i => advance >>= G i) L := by
  have hk : [k.lexeme span] ∈ k.row := mem_oneOf.mpr rfl
  exact .advance nofun (fun _ hus => hrow (Language.append_mem_mul hk hus)) hG

theorem statement_prompt (hB : Prompt [] n room (fun _ => True) B (rows DerivesBlock)) :
    Prompt past n room T (fun i => statement (B i)) (rows DerivesStmt) := by
  refine .current fun ⟨token, span⟩ _ => ?_
  have hexpression : Prompt past n room (· = ⟨token, span⟩)
      (fun _ => do return Stmt.expression (← expression)) (rows DerivesStmt) :=
    (expression_prompt.finish fun _ => .done).mono stmt_expression
  have hrefused : Prompt past n room (· = ⟨token, span⟩) (fun _ => unexpected (α := Stmt) .statement)
      (rows DerivesStmt) := .unexpected _ .stmt
  cases token with
  | punct p =>
    cases p with
    | lbrace => exact ((hB.less 0).finish fun _ => .done).mono stmt_block
    | _ => exact hrefused
  | keyword k =>
    cases k with
    | function => exact ((functionDef_prompt hB).finish fun f => .spanned _ _).mono stmt_function
    | letVar =>
      refine keyword_bind stmt_declaration ?_
      refine typedNames_prompt.bind (.of_nil initial_nil) fun declared => ?_
      exact initialValue_prompt.finish fun value => .spanned _ _
    | ifTest =>
      refine keyword_bind stmt_ifThen ?_
      refine expression_prompt.bind .block fun condition => ?_
      exact (hB.less 1).finish fun body => .spanned _ _
    | switch =>
      refine keyword_bind stmt_switch ?_
      refine expression_prompt.bind .someArms fun subject => .bound ?_
      have hmany : Prompt [] (n - 1) (fun j : ι × Nat => min (room j.1 - 1) j.2) (fun _ => True)
          (fun j => B j.1) (rows DerivesBlock) :=
        (hB.less 1).reindex Prod.fst fun _ => Nat.min_le_left _ _
      exact switchRest_prompt hmany (fun _ => Nat.min_le_right _ _) List.mem_cons_self subject
    | forLoop =>
      have hblocks := Fillable.block.mul Fillable.block
      refine keyword_bind stmt_forLoop ?_
      refine (hB.less 1).bind (Fillable.expr.mul hblocks) fun init => ?_
      refine expression_prompt.bind hblocks fun condition => ?_
      refine (hB.less 1).bind .block fun post => ?_
      exact (hB.less 1).finish fun body => .spanned _ _
    | breakLoop => exact keyword_bind ((mul_one _).le.trans stmt_breakLoop) (.spanned _ _)
    | continueLoop => exact keyword_bind ((mul_one _).le.trans stmt_continueLoop) (.spanned _ _)
    | leave => exact keyword_bind ((mul_one _).le.trans stmt_leave) (.spanned _ _)
    | trueValue | falseValue => exact hexpression
    | caseArm | defaultArm => exact hrefused
  | identifier name => exact identifierStatement_prompt
  | endOfInput => exact hrefused
  | _ => exact hexpression

end Statements

theorem blockWithin_prompt {depths : ι → Nat} (hdepths : ∀ i, room i ≤ depths i) :
    Prompt past n room T (fun i => blockWithin (depths i)) (rows DerivesBlock) := by
  induction n generalizing past room depths T with
  | zero => exact .zero
  | succ n ih =>
    refine .opened (f := fun _ => blockWithin) hdepths ?_
    exact blockOf_prompt (statement_prompt (ih fun i => Nat.sub_le_sub_right (hdepths i) 1))

theorem block_prompt : Prompt past n room T (fun _ => block) (rows DerivesBlock) :=
  .bound (blockWithin_prompt fun _ => Nat.min_le_right _ _)

end Parser

end Yul
