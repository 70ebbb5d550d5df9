import Yul.Proofs.Prompt.Judgement

/-!
# Prompt parsers of expressions

The parsers of single tokens, of lists, and of the parts of the grammar without blocks are prompt.
Recursions are opened one level at a time: behind the first token there is less room, and the bounds
that are left are still enough.
-/

namespace Yul

theorem Token.Occurs.ne_endOfInput {t : Token} (h : t.Occurs) : t ≠ .endOfInput := by
  rintro rfl
  obtain ⟨_, _, _, _, _, hreads⟩ := h
  exact Language.notMem_zero _ hreads.pattern

theorem Fillable.of_row {t : Token} (h : Fillable t.row) : t ≠ .endOfInput := by
  obtain ⟨_, ⟨l, rfl, rfl⟩, hspell⟩ := h
  exact (hspell l List.mem_cons_self).ne_endOfInput

namespace Parser

variable {ι : Type} {α β : Type} {past : List Lexeme} {n : Nat} {room : ι → Nat} {T : Lexeme → Prop}
  {L M : Language Lexeme}

namespace Prompt

theorem finish {P : ι → Parser α} {F : ι → α → Parser β} (h : Prompt past n room T P L)
    (hF : ∀ a, Prompt past n room (fun _ => True) (fun i => F i a) 1) :
    Prompt past n room T (fun i => P i >>= F i) L :=
  (h.bind (.of_nil Language.nil_mem_one) hF).mono (mul_one L).le

theorem done {a : α} : Prompt past n room T (fun _ => Pure.pure a) 1 :=
  .pure Language.nil_mem_one

theorem spanned (start : Span) (f : Span → α) :
    Prompt past n room T (fun _ => do return f (← spanFrom start)) 1 :=
  .silent (spanFrom_silent start) fun _ => done

end Prompt

/-! ## Single tokens -/

theorem advance_prompt {l : Lexeme} (hl : l.token ≠ .endOfInput) (hL : [l] ∈ L) :
    Prompt past n room (· = l) (fun _ => advance) L := by
  have hthen : Prompt past n room (· = l) (fun _ => advance >>= Pure.pure) L := by
    refine .advance (M := 1) hl ?_ .done
    rintro _ rfl
    exact hL
  simpa only [bind_pure] using hthen

theorem expect_prompt {t : Token} (what : Expectation) (ht : Fillable t.row) :
    Prompt past n room T (fun _ => expect t what) t.row := by
  refine .current fun l _ => ?_
  by_cases hl : l.token = t
  · simp only [if_pos hl]
    exact advance_prompt (hl ▸ ht.of_row) (mem_oneOf.mpr hl)
  · simp only [if_neg hl]
    exact .unexpected what ht

theorem mark_prompt (p : Punct) : Prompt past n room T (fun _ => mark p) p.row :=
  expect_prompt _ (.punct p)

theorem keyword_prompt (k : Keyword) : Prompt past n room T (fun _ => keyword k) k.row :=
  expect_prompt _ (.keyword k)

theorem accept_prompt {t : Token} {P Q : ι → Parser α} (ht : Fillable t.row)
    (hP : Prompt past (n - 1) (fun i => room i - 1) (fun _ => True) P M) (hrow : t.row * M ≤ L)
    (hQ : Prompt past n room (fun l => T l ∧ l.token ≠ t) Q L) :
    Prompt past n room T (fun i => do if ← accept t then P i else Q i) L := by
  refine .of_forall fun l hT => ?_
  by_cases hl : l.token = t
  · have hthen : Prompt past n room (· = l) (fun i => advance >>= fun _ => P i) L :=
      .advance (hl ▸ ht.of_row)
        (fun us hus => hrow (Language.append_mem_mul (mem_oneOf.mpr hl) hus)) hP.past_cons
    refine hthen.congr fun i c _ hc => ?_
    rw [accept, bind_assoc, run_bind_of_gives .current, hc, if_pos hl, bind_assoc]
    simp only [pure_bind, if_true]
  · have hother : Prompt past n room (· = l) Q L :=
      hQ.weaken (List.Subset.refl past) fun _ hl' => hl' ▸ ⟨hT, hl⟩
    refine hother.congr fun i c _ hc => ?_
    rw [accept, bind_assoc, run_bind_of_gives .current, hc, if_neg hl, pure_bind]
    rfl

theorem identifier_bind {F : ι → Identifier → Parser β} (hL : Fillable L)
    (hF : ∀ x : Identifier, Prompt past (n - 1) (fun i => room i - 1) (fun _ => True) (fun i => F i x)
      {us | x.lexeme :: us ∈ L}) : Prompt past n room T (fun i => identifier >>= F i) L := by
  refine .of_forall fun ⟨token, span⟩ _ => ?_
  simp only [identifier, bind_assoc]
  cases token with
  | identifier name =>
    have hrest : Prompt past (n - 1) (fun i => room i - 1) (fun _ => True)
        (fun i => (do remember name; return ⟨name, span⟩) >>= F i)
        {us | Identifier.lexeme ⟨name, span⟩ :: us ∈ L} := by
      simp only [bind_assoc, pure_bind]
      exact .silent (remember_silent name) fun _ => hF ⟨name, span⟩
    exact .advance nofun (fun us hus => hus) hrest.past_cons
  | _ => exact .refuse hL (.expected .identifier _) fun i c => run_bind_of_error rfl

theorem identifier_prompt : Prompt past n room T (fun _ => identifier) (phrases DerivesIdentifier) := by
  have hthen : Prompt past n room T (fun _ => identifier >>= Pure.pure) (phrases DerivesIdentifier) :=
    identifier_bind .identifier fun x => .pure ⟨x, .mk x⟩
  simpa only [bind_pure] using hthen

/-! ## Lists -/

section Lists

variable {P : ι → Parser α} {R : List Lexeme → α → Prop}

theorem afterCommas_prompt {bounds : ι → Nat} (hP : Prompt [] n room (fun _ => True) P (phrases R))
    (hbounds : ∀ i, room i ≤ bounds i) :
    Prompt past n room T (fun i => afterCommas (P i) (bounds i)) (phrases (DerivesAfterCommas R)) := by
  induction n generalizing past room bounds T with
  | zero => exact .zero
  | succ n ih =>
    refine .opened (f := fun i => afterCommas (P i)) hbounds ?_
    refine accept_prompt (.punct .comma) ?_ afterCommas_cons (.pure afterCommas_nil)
    refine (hP.less 1).bind (.of_nil afterCommas_nil) fun a => ?_
    exact (ih (hP.less 1) fun i => Nat.sub_le_sub_right (hbounds i) 1).finish fun as => .done

variable (hP : Prompt [] n room (fun _ => True) P (phrases R))

include hP

theorem commaList_prompt :
    Prompt past n room T (fun i => commaList (P i)) (phrases (DerivesCommas R)) := by
  refine ((hP.less 0).bind (.of_nil afterCommas_nil) fun a => .bound ?_).mono commas_rows
  have hmany : Prompt [] n (fun j : ι × Nat => min (room j.1) j.2) (fun _ => True) (fun j => P j.1)
      (phrases R) := hP.reindex Prod.fst fun _ => Nat.min_le_left _ _
  exact (afterCommas_prompt hmany fun _ => Nat.min_le_right _ _).finish fun as => .done

theorem optionalList_prompt :
    Prompt past n room T (fun i => optionalList (P i)) (phrases (DerivesOptional R)) := by
  refine .current fun l _ => ?_
  by_cases hl : l.token = .punct .rparen
  · simp only [if_pos hl]
    exact .pure optional_nil
  · simp only [if_neg hl]
    exact (commaList_prompt hP).mono optional_commas

end Lists

/-! ## Names and literals -/

theorem optionalType_prompt : Prompt past n room T (fun _ => optionalType) (phrases DerivesType) :=
  accept_prompt (.punct .colon) (identifier_prompt.finish fun _ => .done) type_rows (.pure type_nil)

theorem typedName_prompt : Prompt past n room T (fun _ => typedName) (phrases DerivesTypedName) := by
  refine (identifier_prompt.bind .type fun x => ?_).mono typedName_rows
  exact optionalType_prompt.finish fun type => .spanned _ _

theorem typedNames_prompt :
    Prompt past n room T (fun _ => typedNames) (phrases (DerivesCommas DerivesTypedName)) :=
  commaList_prompt typedName_prompt

/-- What a parser makes of the token `l` when it has been taken: a value if the token has the property
`P`, or else an escape that cannot be decoded, or nothing because it asks for `what`. -/
inductive Interprets (p : Parser α) (l : Lexeme) (what : Expectation) (P : Token → Prop) : Prop where
  | value (a : α) (hP : P l.token) (hgives : ∀ c, Gives p c a c)
  | malformed (e : Text.LiteralError) (hrefuses : l.token.Refuses e)
      (herror : ∀ c, p.run c = .error ⟨.badLiteral e, l.span⟩ c)
  | unfit (herror : ∀ c, p.run c = .error ⟨.expected what l.token, l.span⟩ c)

namespace Interprets

variable {l : Lexeme} {what : Expectation} {P : Token → Prop}

theorem decoded {bytes : Except Text.LiteralError (List UInt8)}
    (hP : ∀ bs, bytes = .ok bs → P l.token) (hrefuses : ∀ e, bytes = .error e → l.token.Refuses e) :
    Interprets (decoded bytes l.span) l what P := by
  cases bytes with
  | ok bs => exact .value bs (hP bs rfl) fun _ => .pure
  | error e => exact .malformed e (hrefuses e rfl) fun _ => rfl

theorem map {p : Parser α} (h : Interprets p l what P) (f : α → β) :
    Interprets (do return f (← p)) l what P := by
  cases h with
  | value a hP hgives => exact .value (f a) hP fun c => .bind (hgives c) .pure
  | malformed e hrefuses herror => exact .malformed e hrefuses fun c => run_bind_of_error (herror c)
  | unfit herror => exact .unfit fun c => run_bind_of_error (herror c)

theorem prompt {f : Lexeme → Parser α} {F : ι → Lexeme → α → Parser β} (h : Interprets (f l) l what P)
    (hend : ¬P .endOfInput) (hL : Fillable L) (hrow : oneOf P * M ≤ L)
    (hF : ∀ a, Prompt past (n - 1) (fun i => room i - 1) (fun _ => True) (fun i => F i l a) M) :
    Prompt past n room (· = l) (fun i => do let l ← advance; let a ← f l; F i l a) L := by
  cases h with
  | value a hP hgives =>
    have hl : l.token ≠ .endOfInput := fun htoken => hend (htoken ▸ hP)
    refine .advance hl (fun us hus => hrow (Language.append_mem_mul (mem_oneOf.mpr hP) hus)) ?_
    exact .silent (fun c => ⟨a, c, rfl, rfl, fun _ => hgives _⟩) fun a => (hF a).past_cons
  | malformed e hrefuses herror => exact .misspelled hrefuses fun _ c => run_bind_of_error (herror c)
  | unfit herror => exact .refuse hL (.expected what l.token) fun _ c => run_bind_of_error (herror c)

end Interprets

theorem literalValue_interprets (l : Lexeme) :
    Interprets (literalValue l) l .literal fun t => ∃ value, t.HasValue value := by
  obtain ⟨token, span⟩ := l
  cases token with
  | decimalNumber digits => exact .value _ ⟨_, .decimalNumber digits⟩ fun _ => .pure
  | hexNumber digits => exact .value _ ⟨_, .hexNumber digits⟩ fun _ => .pure
  | string raw =>
    refine .map (.decoded (fun bs h => ?_) fun _ => id) LiteralValue.bytes
    exact ⟨_, .bytes (Text.decodeString_eq_ok_iff.mp h)⟩
  | hexString raw =>
    refine .map (.decoded (fun bs h => ?_) fun _ => id) LiteralValue.bytes
    exact ⟨_, .bytes (Text.decodeHexString_eq_ok_iff.mp h)⟩
  | keyword k =>
    cases k with
    | trueValue => exact .value _ ⟨_, .trueValue⟩ fun _ => .pure
    | falseValue => exact .value _ ⟨_, .falseValue⟩ fun _ => .pure
    | _ => exact .unfit fun _ => rfl
  | _ => exact .unfit fun _ => rfl

theorem literal_prompt : Prompt past n room T (fun _ => literal) (phrases DerivesLiteral) := by
  refine .of_forall fun l _ => ?_
  refine (literalValue_interprets l).prompt ?_ .literal literal_rows fun value => ?_
  · exact fun ⟨_, hvalue⟩ => hvalue.ne_endOfInput rfl
  · exact optionalType_prompt.finish fun type => .spanned _ _

/-! ## Expressions -/

section Expressions

theorem afterIdentifier_prompt {P : ι → Parser Expr}
    (hP : Prompt [] n room (fun _ => True) P (phrases DerivesExpr)) (x : Identifier) :
    Prompt past n room T (fun i => afterIdentifier (P i) x)
      {us | x.lexeme :: us ∈ phrases DerivesExpr} := by
  have hx : [x.lexeme] ∈ phrases DerivesIdentifier := ⟨x, .mk x⟩
  have hcall (us : List Lexeme) (hus : us ∈ Punct.lparen.row *
      (phrases (DerivesOptional DerivesExpr) * Punct.rparen.row)) :
      x.lexeme :: us ∈ phrases DerivesExpr :=
    expr_call (Language.append_mem_mul hx hus)
  refine accept_prompt (.punct .lparen) ?_ hcall (.pure (expr_identifier hx))
  have harguments : Prompt past (n - 1) (fun i => room i - 1) (fun _ => True) (fun i => arguments (P i))
      (phrases (DerivesOptional DerivesExpr) * Punct.rparen.row) := by
    refine (optionalList_prompt (hP.less 1)).bind (.punct .rparen) fun args => ?_
    exact (mark_prompt .rparen).finish fun _ => .done
  exact harguments.finish fun args => .spanned _ _

theorem expressionWithin_prompt {depths : ι → Nat} (hdepths : ∀ i, room i ≤ depths i) :
    Prompt past n room T (fun i => expressionWithin (depths i)) (phrases DerivesExpr) := by
  induction n generalizing ι past room depths T with
  | zero => exact .zero
  | succ n ih =>
    refine .opened (f := fun _ => expressionWithin) hdepths (.current fun l _ => ?_)
    cases hl : l.token.startsLiteral with
    | true =>
      simp only [if_true]
      exact (literal_prompt.finish fun _ => .done).mono expr_literal
    | false =>
      simp only [Bool.false_eq_true, if_false]
      exact identifier_bind .expr fun x => afterIdentifier_prompt
        (ih fun i => Nat.sub_le_sub_right (hdepths i) 1) x

theorem expression_prompt : Prompt past n room T (fun _ => expression) (phrases DerivesExpr) :=
  .bound (expressionWithin_prompt fun _ => Nat.min_le_right _ _)

end Expressions

theorem returns_prompt : Prompt past n room T (fun _ => returns) (phrases DerivesReturns) :=
  accept_prompt (.punct .arrow) typedNames_prompt returns_rows (.pure returns_nil)

theorem initialValue_prompt : Prompt past n room T (fun _ => initialValue) (phrases DerivesInitial) :=
  accept_prompt (.punct .assign) (expression_prompt.finish fun _ => .done) initial_rows
    (.pure initial_nil)

end Parser

end Yul
