import Yul.Proofs.Parse.Complete

/-!
# All blocks and objects that are derived are read

Completeness of the parsers of statements, blocks, objects and whole sources. A statement has no
mark at its end: it is over in front of any token that may start another one.
-/

namespace Yul

/-! ## First tokens -/

/-- A statement may start with this token. -/
def Token.StartsStmt : Token → Prop
  | punct p => p = .lbrace
  | keyword k => k ≠ .caseArm ∧ k ≠ .defaultArm
  | endOfInput => False
  | _ => True

theorem Token.StartsStmt.ends {t : Token} (h : t.StartsStmt) : t.EndsStmt := by
  refine ⟨⟨?_, ?_⟩, ⟨?_, ?_⟩, ?_, ⟨?_, ?_⟩⟩ <;> rintro rfl <;> simp [Token.StartsStmt] at h

theorem Token.StartsStmt.of_startsLiteral {t : Token} (h : t.startsLiteral = true) :
    t.StartsStmt := by
  cases t with
  | keyword k =>
    have hk : k = .trueValue ∨ k = .falseValue := by simpa [Token.startsLiteral] using h
    rcases hk with rfl | rfl <;> exact ⟨by rintro ⟨⟩, by rintro ⟨⟩⟩
  | punct _ | endOfInput => cases h
  | _ => trivial

theorem Token.endsStmt_rbrace : (Token.punct .rbrace).EndsStmt :=
  ⟨⟨by rintro ⟨⟩, by rintro ⟨⟩⟩, ⟨by rintro ⟨⟩, by rintro ⟨⟩⟩, by rintro ⟨⟩,
    ⟨by rintro ⟨⟩, by rintro ⟨⟩⟩⟩

theorem DerivesBlock.starts {n : Nat} {ts : List Lexeme} {b : Block} (h : DerivesBlock n ts b) :
    ∃ opening rest, ts = Punct.lbrace.lexeme opening :: rest := by
  cases h with
  | mk opening _ _ hts => exact ⟨opening, _, hts⟩

theorem DerivesBlock.next {n : Nat} {ts : List Lexeme} {b : Block} (h : DerivesBlock n ts b)
    {P : Token → Prop} (hP : P (.punct .lbrace)) (after : List Item) :
    Next P (ts.map Item.lexeme ++ after) := by
  obtain ⟨opening, rest, rfl⟩ := h.starts
  exact .cons hP

theorem DerivesBlock.any {n : Nat} {ts : List Lexeme} {b : Block} (h : DerivesBlock n ts b)
    {after : List Item} : Next (fun _ => True) (ts.map Item.lexeme ++ after) :=
  h.next trivial after

theorem DerivesTypedName.ne_rparen {ts : List Lexeme} {x : TypedName}
    (h : DerivesTypedName ts x) : ∃ l rest, ts = l :: rest ∧ l.token ≠ .punct .rparen := by
  cases h with
  | mk x _ hts => exact ⟨x.lexeme, _, hts, by rintro ⟨⟩⟩

theorem DerivesExpr.startsStmt {ts : List Lexeme} {e : Expr} (h : DerivesExpr ts e) :
    ∃ l rest, ts = l :: rest ∧ l.token.StartsStmt := by
  rcases h.starts with ⟨l, -, hl⟩ | ⟨x, rest, rfl⟩
  · obtain ⟨t, rest, rfl, ht⟩ := hl.starts
    exact ⟨t, rest, rfl, .of_startsLiteral ht⟩
  · exact ⟨_, _, rfl, trivial⟩

theorem DerivesStmt.starts {n : Nat} {ts : List Lexeme} {s : Stmt} (h : DerivesStmt n ts s) :
    ∃ l rest, ts = l :: rest ∧ l.token.StartsStmt := by
  cases h with
  | block h =>
    obtain ⟨opening, rest, rfl⟩ := h.starts
    exact ⟨_, rest, rfl, rfl⟩
  | assignment assign htargets _ hts =>
    cases htargets with
    | mk h _ =>
      cases h with
      | mk => exact ⟨_, _, hts, trivial⟩
  | expression h => exact h.startsStmt
  | function _ _ _ _ _ _ _ hts | declaration _ _ _ hts | ifThen _ _ _ hts | switch _ _ _ _ hts
  | forLoop _ _ _ _ _ hts | breakLoop _ hts | continueLoop _ hts | leave _ hts =>
    exact ⟨_, _, hts, by rintro ⟨⟩, by rintro ⟨⟩⟩

theorem DerivesStmts.next {n : Nat} {ts : List Lexeme} {ss : List Stmt} (h : DerivesStmts n ts ss)
    {after : List Item} (hnext : Next (· = .punct .rbrace) after) :
    Next Token.EndsStmt (ts.map Item.lexeme ++ after) := by
  cases h with
  | nil => exact hnext.mono fun _ ht => ht ▸ Token.endsStmt_rbrace
  | cons h _ =>
    obtain ⟨l, rest, rfl, hl⟩ := h.starts
    exact .cons hl.ends

theorem DerivesArms.next {n : Nat} {ts : List Lexeme} {arms : List Case} (h : DerivesArms n ts arms)
    (hsome : arms ≠ []) {P : Token → Prop} (hcase : P (.keyword .caseArm))
    (hdefault : P (.keyword .defaultArm)) (after : List Item) :
    Next P (ts.map Item.lexeme ++ after) := by
  cases h with
  | nil => exact absurd rfl hsome
  | default k hbody hts =>
    subst hts
    exact .cons hdefault
  | case k hvalue hbody hrest hts =>
    subst hts
    exact .cons hcase

theorem DerivesObject.starts {n : Nat} {ts : List Lexeme} {o : Object} (h : DerivesObject n ts o) :
    ∃ k rest, ts = wordLexeme "object" k :: rest := by
  cases h with
  | mk k _ _ _ _ _ _ hts => exact ⟨k, _, hts⟩

theorem DerivesData.starts {ts : List Lexeme} {d : DataSection} (h : DerivesData ts d) :
    ∃ k rest, ts = wordLexeme "data" k :: rest := by
  cases h with
  | mk k _ _ _ hts => exact ⟨k, _, hts⟩

theorem DerivesInitial.next {ts : List Lexeme} {value : Option Expr} (h : DerivesInitial ts value)
    {after : List Item} (hnext : Next Token.EndsNames after) :
    Next Token.EndsNames (ts.map Item.lexeme ++ after) := by
  cases h with
  | none => exact hnext
  | some assign h => exact .cons ⟨by rintro ⟨⟩, by rintro ⟨⟩⟩

theorem DerivesExpr.behindIdentifier {x : Identifier} {us : List Lexeme} {e : Expr}
    {after : List Item} (h : DerivesExpr (x.lexeme :: us) e) (hnext : Next Token.EndsStmt after) :
    Next (fun t => t ≠ .punct .comma ∧ t ≠ .punct .assign) (us.map Item.lexeme ++ after) := by
  generalize hts : x.lexeme :: us = ts at h
  cases h with
  | literal h =>
    obtain ⟨t, rest, rfl, ht⟩ := h.starts
    obtain ⟨rfl, -⟩ := List.cons.inj hts
    cases ht
  | identifier h =>
    cases h with
    | mk y =>
      obtain ⟨-, rfl⟩ := List.cons.inj hts
      exact hnext.mono fun _ ht => ⟨ht.names.2, ht.assign⟩
  | call f opening closing h hts' =>
    obtain ⟨-, rfl⟩ := List.cons.inj (hts.trans hts')
    exact .cons ⟨by rintro ⟨⟩, by rintro ⟨⟩⟩

namespace Parser

variable {m : Nat}

theorem keyword_complete (k : Keyword) {c : Cursor} {span : Span} {after : List Item}
    (hahead : c.ahead = .lexeme (k.lexeme span) :: after) (hnext : Next (fun _ => True) after) :
    ∃ c', Gives (keyword k) c (k.lexeme span) c' ∧ Reads c [k.lexeme span] 0 c' :=
  expect_complete hahead hnext

/-! ## Blocks -/

/-- The specification of parsers of blocks: a block is told from what is behind it by its closing
brace. -/
abbrev CompleteBlock (m : Nat) (p : Parser Block) : Prop :=
  Complete m p DerivesBlock (fun b => b.blocks.length) fun _ => True

abbrev CompleteStmt (m : Nat) (p : Parser Stmt) : Prop :=
  Complete m p DerivesStmt (fun s => s.blocks.length) Token.EndsStmt

theorem statements_complete {statement : Parser Stmt} (hstatement : CompleteStmt m statement)
    (n : Nat) {c : Cursor} {ts : List Lexeme} {ss : List Stmt} {after : List Item}
    (hn : ts.length ≤ n) (hm : ts.length ≤ m) (hR : DerivesStmts c.nextBlock ts ss)
    (hahead : c.ahead = ts.map Item.lexeme ++ after)
    (hnext : Next (· = .punct .rbrace) after) :
    ∃ c', Gives (statements statement n) c ss c' ∧ Reads c ts (blocksOfStmts ss).length c' := by
  induction n generalizing c ts ss with
  | zero =>
    cases hR with
    | nil => exact ⟨c, .pure, .refl c⟩
    | cons h _ =>
      obtain ⟨l, rest, rfl, -⟩ := h.starts
      exact absurd hn (by simp)
  | succ n ih =>
    cases hR with
    | nil =>
      obtain ⟨l, rest, rfl, hl⟩ := hnext
      refine ⟨c, .bind .current ?_, .refl c⟩
      rw [current_of_ahead hahead, hl]
      exact .pure
    | @cons _ ts us s ss h hrest =>
      have hstart := h.starts
      have hpos : 0 < ts.length := by
        obtain ⟨l, rest, rfl, -⟩ := hstart
        exact Nat.succ_pos _
      rw [List.length_append] at hn hm
      rw [List.map_append, List.append_assoc] at hahead
      obtain ⟨c₁, hs, hreads⟩ := hstatement c ts s _ (by omega) h hahead (hrest.next hnext)
      have hrest₁ : DerivesStmts c₁.nextBlock us ss := hreads.nextBlock ▸ hrest
      obtain ⟨c₂, hss, hreads'⟩ := ih (by omega) (by omega) hrest₁ (hreads.ahead_eq hahead)
      refine ⟨c₂, .bind .current ?_,
        (hreads.trans hreads').cast (by rw [blocksOfStmts, List.length_append])⟩
      have hgives : Gives (do
          let s ← statement
          return s :: (← statements statement n)) c (s :: ss) c₂ :=
        .bind hs (.bind hss .pure)
      obtain ⟨l, rest, rfl, hl⟩ := hstart
      rw [current_of_ahead hahead]
      split
      · next heq => simp [heq, Token.StartsStmt] at hl
      · next heq => simp [heq, Token.StartsStmt] at hl
      · exact hgives

theorem blockOf_complete {statement : Parser Stmt} (hstatement : CompleteStmt m statement) :
    CompleteBlock (m + 1) (blockOf statement) := by
  intro c ts b after hlen hR hahead hnext
  cases hR with
  | @mk _ _ us ss opening closing h hts =>
    subst hts
    simp only [List.length_cons, List.length_append] at hlen
    simp only [List.map_cons, List.map_append, List.cons_append, List.append_assoc] at hahead
    obtain ⟨c₁, hopen, hreads⟩ := mark_complete .lbrace hahead (Next.first.behind us)
    -- the number of the block is taken behind its opening brace
    have hnumber : Reads c [Punct.lbrace.lexeme opening] 1
        { c₁ with nextBlock := c₁.nextBlock + 1 } :=
      ⟨hreads.ahead, hreads.previous, congrArg (· + 1) hreads.nextBlock⟩
    have hahead₁ := hnumber.ahead_eq hahead
    obtain ⟨c₂, hss, hreads₁⟩ := statements_complete hstatement _ (length_le_bound hahead₁)
      (by omega) (hnumber.nextBlock ▸ h) hahead₁ (.cons rfl)
    obtain ⟨c₃, hclose, hreads₂⟩ := mark_complete .rbrace (hreads₁.ahead_eq hahead₁) hnext.any
    have hall : Reads c (Punct.lbrace.lexeme opening :: (us ++ [Punct.rbrace.lexeme closing]))
        (1 + (blocksOfStmts ss).length) c₃ := hnumber.trans (hreads₁.trans hreads₂)
    refine ⟨c₃, .bind hopen ?_, hall.cast (by simp [Block.blocks, Nat.add_comm])⟩
    refine .bind (gives_freshBlock.mpr ⟨hreads.nextBlock_eq.symm, rfl⟩) ?_
    refine .bind .bound ?_
    refine .bind hss (.bind hclose ?_)
    exact .bind (gives_spanOf hall) .pure

/-! ## Statements that start with an identifier -/

theorem assignment_complete {first : Identifier} {others : List Identifier} {value : Expr}
    {assign : Span} {us es : List Lexeme} {c : Cursor} {after : List Item}
    (hothers : DerivesAfterCommas DerivesIdentifier us others) (hvalue : DerivesExpr es value)
    (hahead : c.ahead = .lexeme first.lexeme :: (us.map Item.lexeme ++
      .lexeme (Punct.assign.lexeme assign) :: (es.map Item.lexeme ++ after)))
    (hnext : Next Token.EndsExpr after) :
    ∃ c', Gives identifierStatement c (.assignment (first :: others) value
        (spanOf (first.lexeme :: (us ++ Punct.assign.lexeme assign :: es)))) c' ∧
      Reads c (first.lexeme :: (us ++ Punct.assign.lexeme assign :: es)) 0 c' := by
  obtain ⟨c₁, hfirst, hreads₁⟩ := identifier_complete first hahead (Next.first.behind us)
  have hahead₁ := hreads₁.ahead_eq hahead
  have hmark : c₁.current.token = .punct .comma ∨ c₁.current.token = .punct .assign := by
    cases hothers with
    | nil => exact .inr (congrArg Lexeme.token (current_of_ahead hahead₁))
    | cons => exact .inl (congrArg Lexeme.token (current_of_ahead hahead₁))
  obtain ⟨c₂, hothers, hreads₂⟩ := afterCommas_complete (m := us.length)
    (identifierPhrase_complete fun _ => True) trivial _ (length_le_bound hahead₁)
    (Nat.le_refl _) hothers hahead₁ (.cons ⟨trivial, by rintro ⟨⟩⟩)
  have hahead₂ := hreads₂.ahead_eq hahead₁
  obtain ⟨c₃, hassign, hreads₃⟩ := mark_complete .assign hahead₂ (hnext.behind es)
  obtain ⟨c₄, hvalue, hreads₄⟩ := expression_complete c₃ es value after (Nat.le_refl _) hvalue
    (hreads₃.ahead_eq hahead₂) hnext
  have hall : Reads c (first.lexeme :: (us ++ Punct.assign.lexeme assign :: es)) 0 c₄ :=
    hreads₁.trans (hreads₂.trans (hreads₃.trans hreads₄))
  refine ⟨c₄, .bind hfirst ?_, hall⟩
  refine .bind .current ?_
  rw [if_pos (by simpa using hmark)]
  refine .bind .bound (.bind hothers ?_)
  refine .bind hassign (.bind hvalue ?_)
  exact .bind (gives_spanOf hall) .pure

/-- An expression that starts with an identifier is told from an assignment by what is behind. -/
theorem identifierExpression_complete {x : Identifier} {us : List Lexeme} {e : Expr} {c : Cursor}
    {after : List Item} (hR : DerivesExpr (x.lexeme :: us) e)
    (hahead : c.ahead = .lexeme x.lexeme :: (us.map Item.lexeme ++ after))
    (hnext : Next Token.EndsStmt after) :
    ∃ c', Gives identifierStatement c (.expression e) c' ∧ Reads c (x.lexeme :: us) 0 c' := by
  obtain ⟨c₁, hx, hreads⟩ := identifier_complete x hahead (hnext.behind us)
  have hahead₁ := hreads.ahead_eq hahead
  obtain ⟨c₂, he, hall⟩ := afterIdentifier_complete expression_complete hreads (Nat.le_refl _) hR
    hahead₁ (hnext.mono fun _ ht => ht.expr)
  have hmark : c₁.current.token ≠ .punct .comma ∧ c₁.current.token ≠ .punct .assign := by
    obtain ⟨l, rest, htail, hcomma, hassign⟩ := hR.behindIdentifier hnext
    rw [current_of_ahead (hahead₁.trans htail)]
    exact ⟨hcomma, hassign⟩
  refine ⟨c₂, .bind hx ?_, hall⟩
  refine .bind .current ?_
  rw [if_neg (by simpa using hmark)]
  exact .bind he .pure

theorem statement_of_literal (block : Parser Block) {e : Expr} {c c' : Cursor}
    (hstart : c.current.token.startsLiteral = true) (h : Gives expression c e c') :
    Gives (statement block) c (.expression e) c' := by
  refine .bind .current ?_
  have hgives : Gives (do return .expression (← expression)) c (Stmt.expression e) c' :=
    .bind h .pure
  generalize c.current.token = t at hstart
  cases t with
  | keyword k =>
    have hk : k = .trueValue ∨ k = .falseValue := by simpa [Token.startsLiteral] using hstart
    rcases hk with rfl | rfl <;> exact hgives
  | punct _ | identifier _ | endOfInput => cases hstart
  | _ => exact hgives

theorem declaration_complete (block : Parser Block) {declared : List TypedName}
    {value : Option Expr} {k : Span} {xs vs : List Lexeme} {c : Cursor} {after : List Item}
    (hdeclared : DerivesCommas DerivesTypedName xs declared) (hvalue : DerivesInitial vs value)
    (hahead : c.ahead =
      .lexeme (Keyword.letVar.lexeme k) :: (xs.map Item.lexeme ++ (vs.map Item.lexeme ++ after)))
    (hnext : Next Token.EndsStmt after) :
    ∃ c', Gives (statement block) c
        (.declaration declared value (spanOf (Keyword.letVar.lexeme k :: (xs ++ vs)))) c' ∧
      Reads c (Keyword.letVar.lexeme k :: (xs ++ vs)) 0 c' := by
  obtain ⟨c₁, hk, hreads₁⟩ := advance_complete hahead ((hnext.behind vs).behind xs)
  have hahead₁ := hreads₁.ahead_eq hahead
  obtain ⟨c₂, hxs, hreads₂⟩ := typedNames_complete c₁ xs declared _ (Nat.le_refl _) hdeclared
    hahead₁ (hvalue.next (hnext.mono fun _ ht => ht.names))
  obtain ⟨c₃, hvalue, hreads₃⟩ := initialValue_complete c₂ vs value after (Nat.le_refl _) hvalue
    (hreads₂.ahead_eq hahead₁) (hnext.mono fun _ ht => ⟨ht.expr, ht.assign⟩)
  have hall : Reads c (Keyword.letVar.lexeme k :: (xs ++ vs)) 0 c₃ :=
    hreads₁.trans (hreads₂.trans hreads₃)
  refine ⟨c₃, .bind .current ?_, hall⟩
  rw [current_of_ahead hahead, token_keyword]
  refine .bind hk (.bind hxs ?_)
  refine .bind hvalue ?_
  exact .bind (gives_spanOf hall) .pure

section Statements

variable {block : Parser Block} (hblock : CompleteBlock m block)

include hblock

theorem armBody_complete {value : Option Literal} {c₀ c : Cursor} {l : Lexeme}
    {ts bs : List Lexeme} {k : Nat} {body : Block} {after : List Item}
    (hstart : Reads c₀ (l :: ts) k c) (hlen : bs.length ≤ m) (hR : DerivesBlock c.nextBlock bs body)
    (hahead : c.ahead = bs.map Item.lexeme ++ after)
    (hnext : Next (fun _ => True) after) :
    ∃ c', Gives (armBody block value l.span) c ⟨value, body, spanOf (l :: (ts ++ bs))⟩ c' ∧
      Reads c₀ (l :: (ts ++ bs)) (k + body.blocks.length) c' := by
  obtain ⟨c₁, hbody, hreads⟩ := hblock c bs body after hlen hR hahead hnext
  have hall : Reads c₀ (l :: (ts ++ bs)) (k + body.blocks.length) c₁ := hstart.trans hreads
  refine ⟨c₁, .bind hbody ?_, hall⟩
  exact .bind (gives_spanOf hall) .pure

theorem arms_complete (n : Nat) {c : Cursor} {ts : List Lexeme} {cases : List Case}
    {after : List Item} (hn : ts.length ≤ n) (hm : ts.length ≤ m)
    (hR : DerivesArms c.nextBlock ts cases)
    (hahead : c.ahead = ts.map Item.lexeme ++ after) (hnext : Next Token.EndsArms after) :
    ∃ c', Gives (arms block n) c cases c' ∧ Reads c ts (blocksOfCases cases).length c' := by
  induction n generalizing c ts cases with
  | zero =>
    cases hR with
    | nil => exact ⟨c, .pure, .refl c⟩
    | default k hbody hts => exact absurd hn (by simp [hts])
    | case k hvalue hbody hrest hts => exact absurd hn (by simp [hts])
  | succ n ih =>
    cases hR with
    | nil =>
      obtain ⟨l, rest, rfl, hcase, hdefault⟩ := hnext
      refine ⟨c, .bind .current ?_, .refl c⟩
      rw [← current_of_ahead hahead] at hcase hdefault
      refine .bind (accept_complete_of_ne hcase) ?_
      exact .bind (accept_complete_of_ne hdefault) .pure
    | @default _ _ bs body k hbody hts =>
      subst hts
      obtain ⟨c₁, haccept, hreads⟩ := accept_complete hahead (hnext.behind bs)
      have hahead₁ := hreads.ahead_eq hahead
      obtain ⟨c₂, harm, hall⟩ := armBody_complete hblock hreads (Nat.le_of_succ_le hm)
        (hreads.nextBlock_eq ▸ hbody) hahead₁ hnext.any
      have hne : c.current.token ≠ .keyword .caseArm := by
        rw [current_of_ahead hahead]
        rintro ⟨⟩
      refine ⟨c₂, .bind .current ?_,
        hall.cast (by simp [blocksOfCases, Case.blocks])⟩
      refine .bind (accept_complete_of_ne hne) ?_
      refine .bind haccept ?_
      rw [current_of_ahead hahead]
      refine .bind harm (.bind .current ?_)
      obtain ⟨l, rest, rfl, hcase, hdefault⟩ := hnext
      rw [← current_of_ahead (hall.ahead_eq hahead)] at hcase hdefault
      rw [if_neg (by simp [hcase, hdefault])]
      exact .pure
    | @case _ ts ls bs us l body cases k hvalue hbody hrest hts =>
      subst hts
      simp only [List.length_cons, List.length_append] at hn hm
      simp only [List.map_cons, List.map_append, List.cons_append, List.append_assoc] at hahead
      obtain ⟨c₁, haccept, hreads⟩ := accept_complete hahead (hbody.any.behind ls)
      have hahead₁ := hreads.ahead_eq hahead
      obtain ⟨c₂, hl, hreads₁⟩ := literal_complete c₁ ls l _ (Nat.le_refl _) hvalue
        hahead₁ (hbody.next (by rintro ⟨⟩) _)
      have hahead₂ := hreads₁.ahead_eq hahead₁
      have hstart := hreads.trans hreads₁
      obtain ⟨c₃, harm, hreads₂⟩ := armBody_complete hblock hstart (by omega)
        (hstart.nextBlock_eq ▸ hbody) hahead₂ (hnext.behind us)
      have hrest₁ : DerivesArms c₃.nextBlock us cases := by
        rw [hreads₂.nextBlock]
        simpa using hrest
      obtain ⟨c₄, hcases, hreads₃⟩ := ih (by omega) (by omega) hrest₁
        (hreads₂.ahead_eq (hahead.trans (by simp [Keyword.lexeme])))
      refine ⟨c₄, .bind .current ?_,
        (hreads₂.trans hreads₃).cast (by simp [blocksOfCases, Case.blocks])⟩
      refine .bind haccept (.bind hl ?_)
      rw [current_of_ahead hahead]
      refine .bind harm ?_
      exact .bind hcases .pure

theorem functionDef_complete {name : Identifier} {params rets : List TypedName} {body : Block}
    {k opening closing : Span} {ps rs bs : List Lexeme} {c : Cursor} {after : List Item}
    (hlen : bs.length ≤ m) (hparams : DerivesOptional DerivesTypedName ps params)
    (hreturns : DerivesReturns rs rets) (hbody : DerivesBlock c.nextBlock bs body)
    (hahead : c.ahead = .lexeme (Keyword.function.lexeme k) :: .lexeme name.lexeme ::
      .lexeme (Punct.lparen.lexeme opening) :: (ps.map Item.lexeme ++
        .lexeme (Punct.rparen.lexeme closing) :: (rs.map Item.lexeme ++
          (bs.map Item.lexeme ++ after))))
    (hnext : Next (fun _ => True) after) :
    ∃ c', Gives (functionDef block) c ⟨name, params, rets, body⟩ c' ∧
      Reads c (Keyword.function.lexeme k :: name.lexeme :: Punct.lparen.lexeme opening ::
        (ps ++ Punct.rparen.lexeme closing :: (rs ++ bs))) body.blocks.length c' := by
  obtain ⟨c₁, hk, hreads₁⟩ := keyword_complete .function hahead .first
  have hahead₁ := hreads₁.ahead_eq hahead
  obtain ⟨c₂, hname, hreads₂⟩ := identifier_complete name hahead₁ .first
  have hahead₂ := hreads₂.ahead_eq hahead₁
  obtain ⟨c₃, hopen, hreads₃⟩ := mark_complete .lparen hahead₂ (Next.first.behind ps)
  have hahead₃ := hreads₃.ahead_eq hahead₂
  obtain ⟨c₄, hparams, hreads₄⟩ := optionalList_complete typedName_complete (by rintro ⟨⟩) (by rintro ⟨⟩)
    (fun _ _ => DerivesTypedName.ne_rparen) c₃ ps params _ (Nat.le_refl _) hparams hahead₃
    (.cons rfl)
  have hahead₄ := hreads₄.ahead_eq hahead₃
  obtain ⟨c₅, hclose, hreads₅⟩ := mark_complete .rparen hahead₄ (hbody.any.behind rs)
  have hahead₅ := hreads₅.ahead_eq hahead₄
  obtain ⟨c₆, hreturns, hreads₆⟩ := returns_complete c₅ rs rets _ (Nat.le_refl _) hreturns
    hahead₅ (hbody.next (P := (· = .punct .lbrace)) rfl _)
  have hhead := hreads₁.trans (hreads₂.trans (hreads₃.trans (hreads₄.trans
    (hreads₅.trans hreads₆))))
  obtain ⟨c₇, hbody, hreads₇⟩ := hblock c₆ bs body after hlen (hhead.nextBlock_eq ▸ hbody)
    (hreads₆.ahead_eq hahead₅) hnext
  refine ⟨c₇, .bind hk (.bind hname ?_), ?_⟩
  · refine .bind hopen (.bind hparams ?_)
    refine .bind hclose (.bind hreturns ?_)
    exact .bind hbody .pure
  · simpa using hhead.trans hreads₇

theorem ifThen_complete {e : Expr} {body : Block} {k : Span} {es bs : List Lexeme} {c : Cursor}
    {after : List Item} (hlen : bs.length ≤ m) (he : DerivesExpr es e)
    (hbody : DerivesBlock c.nextBlock bs body)
    (hahead : c.ahead =
      .lexeme (Keyword.ifTest.lexeme k) :: (es.map Item.lexeme ++ (bs.map Item.lexeme ++ after)))
    (hnext : Next (fun _ => True) after) :
    ∃ c', Gives (statement block) c
        (.ifThen e body (spanOf (Keyword.ifTest.lexeme k :: (es ++ bs)))) c' ∧
      Reads c (Keyword.ifTest.lexeme k :: (es ++ bs)) body.blocks.length c' := by
  obtain ⟨c₁, hk, hreads₁⟩ := advance_complete hahead (hbody.any.behind es)
  have hahead₁ := hreads₁.ahead_eq hahead
  obtain ⟨c₂, he, hreads₂⟩ := expression_complete c₁ es e _ (Nat.le_refl _) he hahead₁
    (hbody.next ⟨by rintro ⟨⟩, by rintro ⟨⟩⟩ _)
  have hhead := hreads₁.trans hreads₂
  obtain ⟨c₃, hbody, hreads₃⟩ := hblock c₂ bs body after hlen (hhead.nextBlock_eq ▸ hbody)
    (hreads₂.ahead_eq hahead₁) hnext
  have hall : Reads c (Keyword.ifTest.lexeme k :: (es ++ bs)) body.blocks.length c₃ :=
    (hhead.trans hreads₃).cast (Nat.zero_add _)
  refine ⟨c₃, .bind .current ?_, hall⟩
  rw [current_of_ahead hahead, token_keyword]
  refine .bind hk (.bind he ?_)
  refine .bind hbody ?_
  exact .bind (gives_spanOf hall) .pure

theorem switch_complete {e : Expr} {cases : List Case} {k : Span} {es us : List Lexeme} {c : Cursor}
    {after : List Item} (hlen : us.length ≤ m) (he : DerivesExpr es e)
    (harms : DerivesArms c.nextBlock us cases) (hsome : cases ≠ [])
    (hahead : c.ahead =
      .lexeme (Keyword.switch.lexeme k) :: (es.map Item.lexeme ++ (us.map Item.lexeme ++ after)))
    (hnext : Next Token.EndsArms after) :
    ∃ c', Gives (statement block) c
        (.switch e cases (spanOf (Keyword.switch.lexeme k :: (es ++ us)))) c' ∧
      Reads c (Keyword.switch.lexeme k :: (es ++ us)) (blocksOfCases cases).length c' := by
  obtain ⟨c₁, hk, hreads₁⟩ := advance_complete hahead ((hnext.behind us).behind es)
  have hahead₁ := hreads₁.ahead_eq hahead
  obtain ⟨c₂, he, hreads₂⟩ := expression_complete c₁ es e _ (Nat.le_refl _) he hahead₁
    (harms.next hsome ⟨by rintro ⟨⟩, by rintro ⟨⟩⟩ ⟨by rintro ⟨⟩, by rintro ⟨⟩⟩ _)
  have hahead₂ := hreads₂.ahead_eq hahead₁
  have hhead := hreads₁.trans hreads₂
  obtain ⟨c₃, hcases, hreads₃⟩ := arms_complete hblock _ (length_le_bound hahead₂) hlen
    (hhead.nextBlock_eq ▸ harms) hahead₂ hnext
  have hall : Reads c (Keyword.switch.lexeme k :: (es ++ us)) (blocksOfCases cases).length c₃ :=
    (hhead.trans hreads₃).cast (Nat.zero_add _)
  refine ⟨c₃, .bind .current ?_, hall⟩
  rw [current_of_ahead hahead, token_keyword]
  refine .bind hk (.bind he ?_)
  refine .bind .bound ?_
  refine .bind hcases ?_
  refine .bind (gives_spanOf hall) ?_
  rw [if_neg (by simpa using hsome)]
  exact .pure

theorem forLoop_complete {init post body : Block} {e : Expr} {k : Span} {is es ps bs : List Lexeme}
    {c : Cursor} {after : List Item} (his : is.length ≤ m) (hps : ps.length ≤ m)
    (hbs : bs.length ≤ m) (hinit : DerivesBlock c.nextBlock is init) (he : DerivesExpr es e)
    (hpost : DerivesBlock (c.nextBlock + init.blocks.length) ps post)
    (hbody : DerivesBlock (c.nextBlock + init.blocks.length + post.blocks.length) bs body)
    (hahead : c.ahead = .lexeme (Keyword.forLoop.lexeme k) :: (is.map Item.lexeme ++
      (es.map Item.lexeme ++ (ps.map Item.lexeme ++ (bs.map Item.lexeme ++ after)))))
    (hnext : Next (fun _ => True) after) :
    ∃ c', Gives (statement block) c (.forLoop init e post body
        (spanOf (Keyword.forLoop.lexeme k :: (is ++ (es ++ (ps ++ bs)))))) c' ∧
      Reads c (Keyword.forLoop.lexeme k :: (is ++ (es ++ (ps ++ bs))))
        (init.blocks ++ post.blocks ++ body.blocks).length c' := by
  obtain ⟨c₁, hk, hreads₁⟩ := advance_complete hahead hinit.any
  have hahead₁ := hreads₁.ahead_eq hahead
  obtain ⟨c₂, hinit, hreads₂⟩ := hblock c₁ is init _ his (hreads₁.nextBlock_eq ▸ hinit)
    hahead₁ (hpost.any.behind es)
  have hahead₂ := hreads₂.ahead_eq hahead₁
  obtain ⟨c₃, he, hreads₃⟩ := expression_complete c₂ es e _ (Nat.le_refl _) he hahead₂
    (hpost.next ⟨by rintro ⟨⟩, by rintro ⟨⟩⟩ _)
  have hahead₃ := hreads₃.ahead_eq hahead₂
  have hhead : Reads c _ init.blocks.length c₃ :=
    (hreads₁.trans (hreads₂.trans hreads₃)).cast (Nat.zero_add _)
  obtain ⟨c₄, hpost, hreads₄⟩ := hblock c₃ ps post _ hps (hhead.nextBlock ▸ hpost) hahead₃ hbody.any
  have hhead₄ := hhead.trans hreads₄
  have hbody₄ : DerivesBlock c₄.nextBlock bs body := by
    rw [hhead₄.nextBlock, ← Nat.add_assoc]
    exact hbody
  obtain ⟨c₅, hbody, hreads₅⟩ := hblock c₄ bs body after hbs hbody₄ (hreads₄.ahead_eq hahead₃) hnext
  have hall : Reads c (Keyword.forLoop.lexeme k :: (is ++ (es ++ (ps ++ bs))))
      (init.blocks ++ post.blocks ++ body.blocks).length c₅ := by
    simpa [Nat.add_assoc] using hhead₄.trans hreads₅
  refine ⟨c₅, .bind .current ?_, hall⟩
  rw [current_of_ahead hahead, token_keyword]
  refine .bind hk (.bind hinit ?_)
  refine .bind he (.bind hpost ?_)
  refine .bind hbody ?_
  exact .bind (gives_spanOf hall) .pure

theorem statement_complete : CompleteStmt m (statement block) := by
  intro c ts s after hlen hR hahead hnext
  cases hR with
  | @block _ _ b h =>
    obtain ⟨c₁, hb, hreads⟩ := hblock c ts b after hlen h hahead hnext.any
    refine ⟨c₁, .bind .current ?_, hreads⟩
    obtain ⟨opening, rest, rfl⟩ := h.starts
    rw [current_of_ahead hahead, token_punct]
    exact .bind hb .pure
  | function k opening closing name hparams hreturns hbody hts =>
    subst hts
    simp only [List.length_cons, List.length_append] at hlen
    simp only [List.map_cons, List.map_append, List.cons_append, List.append_assoc] at hahead
    obtain ⟨c₁, hf, hall⟩ := functionDef_complete hblock (by omega) hparams hreturns hbody
      hahead hnext.any
    refine ⟨c₁, .bind .current ?_, hall⟩
    rw [current_of_ahead hahead, token_keyword]
    refine .bind hf ?_
    exact .bind (gives_spanOf hall) .pure
  | declaration k hdeclared hvalue hts =>
    subst hts
    simp only [List.map_cons, List.map_append, List.cons_append, List.append_assoc] at hahead
    exact declaration_complete block hdeclared hvalue hahead hnext
  | ifThen k he hbody hts =>
    subst hts
    simp only [List.length_cons, List.length_append] at hlen
    simp only [List.map_cons, List.map_append, List.cons_append, List.append_assoc] at hahead
    exact ifThen_complete hblock (by omega) he hbody hahead hnext.any
  | switch k he harms hsome hts =>
    subst hts
    simp only [List.length_cons, List.length_append] at hlen
    simp only [List.map_cons, List.map_append, List.cons_append, List.append_assoc] at hahead
    exact switch_complete hblock (by omega) he harms hsome hahead
      (hnext.mono fun _ ht => ht.arms)
  | forLoop k hinit he hpost hbody hts =>
    subst hts
    simp only [List.length_cons, List.length_append] at hlen
    simp only [List.map_cons, List.map_append, List.cons_append, List.append_assoc] at hahead
    exact forLoop_complete hblock (by omega) (by omega) (by omega) hinit he hpost hbody
      hahead hnext.any
  | breakLoop k hts | continueLoop k hts | leave k hts =>
    subst hts
    obtain ⟨c₁, hk, hreads⟩ := advance_complete hahead hnext.any
    refine ⟨c₁, .bind .current ?_, hreads⟩
    rw [current_of_ahead hahead, token_keyword]
    refine .bind hk ?_
    exact .bind (gives_spanOf hreads) .pure
  | assignment assign htargets hvalue hts =>
    cases htargets with
    | mk h hothers =>
      cases h with
      | mk =>
        subst hts
        simp only [List.map_cons, List.map_append, List.cons_append, List.append_assoc] at hahead
        obtain ⟨c₁, hs, hall⟩ := assignment_complete hothers hvalue hahead
          (hnext.mono fun _ ht => ht.expr)
        refine ⟨c₁, .bind .current ?_, hall⟩
        rw [current_of_ahead hahead, token_identifier]
        exact hs
  | expression h =>
    rcases h.starts with ⟨l, rfl, hl⟩ | ⟨x, us, rfl⟩
    · obtain ⟨c₁, he, hreads⟩ := expression_complete c ts _ after (Nat.le_refl _) h hahead
        (hnext.mono fun _ ht => ht.expr)
      obtain ⟨t, rest, rfl, ht⟩ := hl.starts
      exact ⟨c₁, statement_of_literal block (current_of_ahead hahead ▸ ht) he, hreads⟩
    · obtain ⟨c₁, hs, hall⟩ := identifierExpression_complete h hahead hnext
      refine ⟨c₁, .bind .current ?_, hall⟩
      rw [current_of_ahead hahead, token_identifier]
      exact hs

end Statements

theorem blockWithin_complete (depth : Nat) : CompleteBlock depth (blockWithin depth) := by
  induction depth with
  | zero =>
    intro c ts b after hlen hR
    obtain ⟨opening, rest, rfl⟩ := hR.starts
    exact absurd hlen (by simp)
  | succ depth ih => exact blockOf_complete (statement_complete ih)

theorem block_complete : CompleteBlock m block := by
  intro c ts b after _ hR hahead hnext
  obtain ⟨c₁, hb, hreads⟩ := blockWithin_complete _ c ts b after (length_le_bound hahead) hR
    hahead hnext
  exact ⟨c₁, .bind .bound hb, hreads⟩

/-! ## Objects -/

theorem word_complete (text : String) {c : Cursor} {span : Span} {after : List Item}
    (hahead : c.ahead = .lexeme (wordLexeme text span) :: after)
    (hnext : Next (fun _ => True) after) :
    ∃ c', Gives (word text) c (wordLexeme text span) c' ∧ Reads c [wordLexeme text span] 0 c' :=
  expect_complete hahead hnext

theorem stringName_complete : CompletePhrase m stringName DerivesName fun _ => True := by
  intro c ts name after _ hR hahead hnext
  cases hR with
  | mk span h =>
    obtain ⟨c₁, hl, hreads⟩ := advance_complete hahead hnext
    refine ⟨c₁, .bind .current ?_, hreads⟩
    rw [current_of_ahead hahead]
    exact .bind hl (.bind (decoded_complete (Text.decodeString_eq_ok_iff.mpr h)) .pure)

theorem dataSection_complete : CompletePhrase m dataSection DerivesData fun _ => True := by
  intro c ts d after _ hR hahead hnext
  cases hR with
  | @mk ns name bytes k l hname hbytes hts =>
    subst hts
    simp only [List.map_cons, List.map_append, List.cons_append, List.append_assoc] at hahead
    obtain ⟨c₁, hk, hreads₁⟩ := word_complete "data" hahead (Next.first.behind ns)
    have hahead₁ := hreads₁.ahead_eq hahead
    obtain ⟨c₂, hname, hreads₂⟩ := stringName_complete c₁ ns name _ (Nat.le_refl _) hname
      hahead₁ .first
    obtain ⟨c₃, hl, hreads₃⟩ := advance_complete (hreads₂.ahead_eq hahead₁) hnext
    have hall : Reads c (wordLexeme "data" k :: (ns ++ [l])) 0 c₃ :=
      hreads₁.trans (hreads₂.trans hreads₃)
    refine ⟨c₃, .bind hk (.bind hname ?_), hall⟩
    refine .bind hl ?_
    refine .bind (dataValue_complete hbytes) ?_
    exact .bind (gives_spanOf hall) .pure

/-- The specification of parsers of objects. -/
abbrev CompleteObject (m : Nat) (p : Parser Object) : Prop :=
  Complete m p DerivesObject (fun o => o.blocks.length) fun _ => True

theorem objectItems_complete {object : Parser Object} (hobject : CompleteObject m object) (n : Nat)
    {c : Cursor} {ts : List Lexeme} {objects : List Object} {data : List DataSection}
    {after : List Item} (hn : ts.length ≤ n) (hm : ts.length ≤ m)
    (hR : DerivesParts c.nextBlock ts objects data)
    (hahead : c.ahead = ts.map Item.lexeme ++ after) (hnext : Next (· = .punct .rbrace) after) :
    ∃ c', Gives (objectItems object n) c (objects, data) c' ∧
      Reads c ts (blocksOfObjects objects).length c' := by
  induction n generalizing c ts objects data with
  | zero =>
    cases hR with
    | nil => exact ⟨c, .pure, .refl c⟩
    | object h _ =>
      obtain ⟨k, rest, rfl⟩ := h.starts
      exact absurd hn (by simp)
    | data h _ =>
      obtain ⟨k, rest, rfl⟩ := h.starts
      exact absurd hn (by simp)
  | succ n ih =>
    cases hR with
    | nil =>
      obtain ⟨l, rest, rfl, hl⟩ := hnext
      refine ⟨c, .bind .current ?_, .refl c⟩
      rw [current_of_ahead hahead, hl]
      exact .pure
    | @object _ ts us o objects _ h hrest =>
      rw [List.length_append] at hn hm
      rw [List.map_append, List.append_assoc] at hahead
      obtain ⟨c₁, ho, hreads⟩ := hobject c ts o _ (by omega) h hahead (hnext.behind us)
      obtain ⟨k, rest, rfl⟩ := h.starts
      rw [List.length_cons] at hn hm
      obtain ⟨c₂, hparts, hreads'⟩ := ih (by omega) (by omega) (hreads.nextBlock ▸ hrest)
        (hreads.ahead_eq hahead)
      refine ⟨c₂, .bind .current ?_,
        (hreads.trans hreads').cast (by simp [blocksOfObjects])⟩
      rw [current_of_ahead hahead, token_word]
      exact .bind ho (.bind hparts .pure)
    | @data _ ts us d _ data h hrest =>
      rw [List.length_append] at hn hm
      rw [List.map_append, List.append_assoc] at hahead
      obtain ⟨c₁, hd, hreads⟩ := dataSection_complete c ts d _ (Nat.le_refl _) h hahead
        (hnext.behind us)
      obtain ⟨k, rest, rfl⟩ := h.starts
      rw [List.length_cons] at hn hm
      obtain ⟨c₂, hparts, hreads'⟩ := ih (by omega) (by omega) (hreads.nextBlock_eq ▸ hrest)
        (hreads.ahead_eq hahead)
      refine ⟨c₂, .bind .current ?_,
        (hreads.trans hreads').cast (Nat.zero_add _)⟩
      rw [current_of_ahead hahead, token_word]
      exact .bind hd (.bind hparts .pure)

theorem objectWithin_complete (depth : Nat) : CompleteObject depth (objectWithin depth) := by
  induction depth with
  | zero =>
    intro c ts o after hlen hR
    obtain ⟨k, rest, rfl⟩ := hR.starts
    exact absurd hlen (by simp)
  | succ depth ih =>
    intro c ts o after hlen hR hahead hnext
    cases hR with
    | @mk _ _ ns cs us name code objects data k opening text closing hname hcode hparts hts =>
      subst hts
      simp only [List.length_cons, List.length_append] at hlen
      simp only [List.map_cons, List.map_append, List.cons_append, List.append_assoc] at hahead
      obtain ⟨c₁, hk, hreads₁⟩ := word_complete "object" hahead (Next.first.behind ns)
      have hahead₁ := hreads₁.ahead_eq hahead
      obtain ⟨c₂, hname, hreads₂⟩ := stringName_complete c₁ ns name _ (Nat.le_refl _) hname
        hahead₁ .first
      have hahead₂ := hreads₂.ahead_eq hahead₁
      obtain ⟨c₃, hopen, hreads₃⟩ := mark_complete .lbrace hahead₂ .first
      have hahead₃ := hreads₃.ahead_eq hahead₂
      obtain ⟨c₄, htext, hreads₄⟩ := word_complete "code" hahead₃ hcode.any
      have hahead₄ := hreads₄.ahead_eq hahead₃
      have hhead := hreads₁.trans (hreads₂.trans (hreads₃.trans hreads₄))
      obtain ⟨c₅, hcode, hreads₅⟩ := block_complete c₄ cs code _ (Nat.le_refl _)
        (hhead.nextBlock_eq ▸ hcode) hahead₄ (Next.first.behind us)
      have hahead₅ := hreads₅.ahead_eq hahead₄
      have hhead₅ : Reads c _ code.blocks.length c₅ := (hhead.trans hreads₅).cast (Nat.zero_add _)
      obtain ⟨c₆, hparts, hreads₆⟩ := objectItems_complete ih _ (length_le_bound hahead₅) (by omega)
        (hhead₅.nextBlock ▸ hparts) hahead₅ (.cons rfl)
      obtain ⟨c₇, hclose, hreads₇⟩ := mark_complete .rbrace (hreads₆.ahead_eq hahead₅) hnext
      have hall : Reads c (wordLexeme "object" k :: (ns ++ Punct.lbrace.lexeme opening ::
          wordLexeme "code" text :: (cs ++ (us ++ [Punct.rbrace.lexeme closing]))))
          (code.blocks ++ blocksOfObjects objects).length c₇ := by
        simpa using hhead₅.trans (hreads₆.trans hreads₇)
      refine ⟨c₇, .bind hk (.bind hname ?_), hall⟩
      refine .bind hopen (.bind htext ?_)
      refine .bind hcode ?_
      refine .bind .bound ?_
      refine .bind hparts (.bind hclose ?_)
      exact .bind (gives_spanOf hall) .pure

theorem object_complete : CompleteObject m object := by
  intro c ts o after _ hR hahead hnext
  obtain ⟨c₁, ho, hreads⟩ := objectWithin_complete _ c ts o after (length_le_bound hahead) hR
    hahead hnext
  exact ⟨c₁, .bind .bound ho, hreads⟩

/-! ## Whole sources -/

theorem endOfInput_complete {c : Cursor} {span : Span}
    (hahead : c.ahead = [.lexeme ⟨.endOfInput, span⟩]) : ∃ c', Gives endOfInput c () c' := by
  obtain ⟨hcurrent, hrest⟩ := List.cons.inj hahead
  have hadvance : Gives advance c c.current { c with previous := c.current.span } :=
    gives_advance.mpr ⟨rfl, .inr ⟨hrest, rfl⟩⟩
  have hexpect : Gives (expect .endOfInput .endOfInput) c c.current
      { c with previous := c.current.span } := by
    refine .bind .current ?_
    rwa [if_pos (by rw [Item.lexeme.inj hcurrent])]
  exact ⟨_, .bind hexpect .pure⟩

theorem wholeBlock_complete {c : Cursor} {ts : List Lexeme} {b : Block} {span : Span}
    (hahead : c.ahead = ts.map Item.lexeme ++ [.lexeme ⟨.endOfInput, span⟩])
    (hR : DerivesBlock c.nextBlock ts b) :
    ∃ c', Gives wholeBlock c b c' := by
  obtain ⟨c₁, hb, hreads⟩ := block_complete c ts b _ (Nat.le_refl _) hR hahead .first
  obtain ⟨c₂, hend⟩ := endOfInput_complete (hreads.ahead_eq hahead)
  exact ⟨c₂, .bind hb (.bind hend .pure)⟩

theorem objectOrBlock_complete {c : Cursor} {ts : List Lexeme} {o : Object} {after : List Item}
    (hfirst : c.nextBlock = 0) (hahead : c.ahead = ts.map Item.lexeme ++ after)
    (hnext : Next (fun _ => True) after) (hR : DerivesProgram ts o) :
    ∃ c' k, Gives objectOrBlock c o c' ∧ Reads c ts k c' := by
  cases hR with
  | @block b h =>
    obtain ⟨c₁, hb, hreads⟩ := block_complete c ts b _ (Nat.le_refl _) (hfirst ▸ h) hahead hnext
    refine ⟨c₁, _, .bind .current ?_, hreads⟩
    obtain ⟨opening, rest, rfl⟩ := h.starts
    rw [current_of_ahead hahead, if_neg (by simp)]
    exact .bind hb .pure
  | object h =>
    obtain ⟨c₁, ho, hreads⟩ := object_complete c ts o _ (Nat.le_refl _) (hfirst ▸ h) hahead hnext
    refine ⟨c₁, _, .bind .current ?_, hreads⟩
    obtain ⟨k, rest, rfl⟩ := h.starts
    rwa [current_of_ahead hahead, if_pos (by simp)]

theorem wholeObject_complete {c : Cursor} {ts : List Lexeme} {o : Object} {span : Span}
    (hfirst : c.nextBlock = 0)
    (hahead : c.ahead = ts.map Item.lexeme ++ [.lexeme ⟨.endOfInput, span⟩])
    (hR : DerivesProgram ts o) : ∃ c', Gives wholeObject c o c' := by
  obtain ⟨c₁, _, ho, hreads⟩ := objectOrBlock_complete hfirst hahead .first hR
  obtain ⟨c₂, hend⟩ := endOfInput_complete (hreads.ahead_eq hahead)
  exact ⟨c₂, .bind ho (.bind hend .pure)⟩

end Parser

end Yul
