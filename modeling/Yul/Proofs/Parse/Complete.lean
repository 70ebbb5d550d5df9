import Yul.Proofs.Parse.Reading

/-!
# All that is derived is read

Each parser is complete for its part of the grammar: it reads every row of tokens that is derived,
provided that the token behind the row is none by which the part could go on. Such tokens are told
by the conditions `EndsX`. The bounds that keep the parsers from running for ever are never met:
they exceed the number of tokens ahead.
-/

namespace Yul

/-! ## What may come behind -/

/-- A type or a name with a type is over in front of this token. -/
def Token.EndsType (t : Token) : Prop :=
  t ≠ .punct .colon

/-- Names with types are over in front of this token. -/
def Token.EndsNames (t : Token) : Prop :=
  t.EndsType ∧ t ≠ .punct .comma

/-- An expression is over in front of this token. -/
def Token.EndsExpr (t : Token) : Prop :=
  t.EndsType ∧ t ≠ .punct .lparen

/-- The arms of a switch are over in front of this token. -/
def Token.EndsArms (t : Token) : Prop :=
  t ≠ .keyword .caseArm ∧ t ≠ .keyword .defaultArm

/-- A statement is over in front of this token. -/
structure Token.EndsStmt (t : Token) : Prop where
  names : t.EndsNames
  expr : t.EndsExpr
  assign : t ≠ .punct .assign
  arms : t.EndsArms

theorem Next.cons {P : Token → Prop} {l : Lexeme} {items : List Item} (h : P l.token) :
    Next P (.lexeme l :: items) :=
  ⟨l, items, rfl, h⟩

theorem Next.first {l : Lexeme} {items : List Item} : Next (fun _ => True) (.lexeme l :: items) :=
  .cons trivial

theorem Next.any {P : Token → Prop} {items : List Item} (h : Next P items) :
    Next (fun _ => True) items :=
  h.mono fun _ _ => trivial

theorem Next.behind {P : Token → Prop} {after : List Item} (h : Next P after) (ts : List Lexeme) :
    Next (fun _ => True) (ts.map Item.lexeme ++ after) := by
  cases ts with
  | nil => exact h.any
  | cons l ts => exact .first

theorem Identifier.lexeme_inj {x y : Identifier} (h : x.lexeme = y.lexeme) : x = y := by
  cases x
  cases y
  cases h
  rfl

theorem Token.HasBytes.startsLiteral {t : Token} {bytes : List UInt8} (h : t.HasBytes bytes) :
    t.startsLiteral = true := by
  cases t with
  | string | hexString => rfl
  | _ => exact h.elim

theorem Token.HasValue.startsLiteral {t : Token} {value : LiteralValue} (h : t.HasValue value) :
    t.startsLiteral = true := by
  cases h with
  | bytes h => exact h.startsLiteral
  | _ => rfl

theorem DerivesLiteral.starts {ts : List Lexeme} {l : Literal} (h : DerivesLiteral ts l) :
    ∃ t rest, ts = t :: rest ∧ t.token.startsLiteral = true := by
  cases h with
  | mk t hvalue _ hts => exact ⟨t, _, hts, hvalue.startsLiteral⟩

theorem DerivesExpr.starts {ts : List Lexeme} {e : Expr} (h : DerivesExpr ts e) :
    (∃ l, e = .literal l ∧ DerivesLiteral ts l) ∨ ∃ x rest, ts = Identifier.lexeme x :: rest := by
  cases h with
  | literal h => exact .inl ⟨_, rfl, h⟩
  | identifier h =>
    cases h with
    | mk => exact .inr ⟨_, _, rfl⟩
  | call f _ _ _ hts => exact .inr ⟨f, _, hts⟩

theorem DerivesExpr.ne_rparen {ts : List Lexeme} {e : Expr} (h : DerivesExpr ts e) :
    ∃ l rest, ts = l :: rest ∧ l.token ≠ .punct .rparen := by
  rcases h.starts with ⟨l, -, hl⟩ | ⟨x, rest, rfl⟩
  · obtain ⟨t, rest, rfl, ht⟩ := hl.starts
    exact ⟨t, rest, rfl, fun heq => by simp [heq, Token.startsLiteral] at ht⟩
  · exact ⟨_, _, rfl, by rintro ⟨⟩⟩

namespace Parser

variable {α : Type} {m : Nat}

/-! ## Parts of the grammar without blocks -/

theorem length_le_bound {c : Cursor} {ts : List Lexeme} {after : List Item}
    (hahead : c.ahead = ts.map Item.lexeme ++ after) : ts.length ≤ c.rest.length + 1 := by
  have hlen := congrArg List.length hahead
  rw [Cursor.ahead, List.length_cons, List.length_append, List.length_map] at hlen
  omega

theorem identifier_complete (x : Identifier) {c : Cursor} {after : List Item}
    (hahead : c.ahead = .lexeme x.lexeme :: after) (hnext : Next (fun _ => True) after) :
    ∃ c', Gives identifier c x c' ∧ Reads c [x.lexeme] 0 c' := by
  obtain ⟨c₁, hadvance, hreads⟩ := advance_complete hahead hnext
  refine ⟨{ c₁ with names := c₁.names.add x.name }, ?_, hreads.ahead, hreads.previous,
    hreads.nextBlock⟩
  exact .bind hadvance (.bind .remember .pure)

theorem identifierPhrase_complete (stop : Token → Prop) :
    CompletePhrase m identifier DerivesIdentifier stop := by
  intro c ts x after _ hR hahead hnext
  cases hR with
  | mk => exact identifier_complete x hahead hnext.any

theorem optionalType_complete : CompletePhrase m optionalType DerivesType Token.EndsType := by
  intro c ts type after _ hR hahead hnext
  cases hR with
  | none =>
    obtain ⟨l, rest, rfl, hl⟩ := hnext
    refine ⟨c, .bind (accept_complete_of_ne ?_) ?_, .refl c⟩
    · rwa [current_of_ahead hahead]
    · exact .pure
  | some colon x =>
    obtain ⟨c₁, haccept, hreads⟩ := accept_complete hahead Next.first
    obtain ⟨c₂, hx, hreads'⟩ := identifier_complete x (hreads.ahead_eq hahead)
      hnext.any
    refine ⟨c₂, .bind haccept ?_, hreads.trans hreads'⟩
    exact .bind hx .pure

theorem typedName_complete : CompletePhrase m typedName DerivesTypedName Token.EndsType := by
  intro c ts t after hlen hR hahead hnext
  cases hR with
  | @mk us type x h hts =>
    subst hts
    obtain ⟨c₁, hx, hreads⟩ := identifier_complete x hahead (hnext.behind _)
    obtain ⟨c₂, htype, hreads'⟩ := optionalType_complete c₁ _ _ after (Nat.le_refl _) h
      (hreads.ahead_eq hahead) hnext
    have hall : Reads c (x.lexeme :: us) 0 c₂ := hreads.trans hreads'
    refine ⟨c₂, .bind hx (.bind htype ?_), hall⟩
    exact .bind (gives_spanOf hall) .pure

theorem decoded_complete {c : Cursor} {decodes : Except Text.LiteralError (List UInt8)} {span : Span}
    {bytes : List UInt8} (h : decodes = .ok bytes) : Gives (decoded decodes span) c bytes c := by
  rw [h]
  exact .pure

theorem dataValue_complete {c : Cursor} {l : Lexeme} {bytes : List UInt8}
    (h : l.token.HasBytes bytes) : Gives (dataValue l) c bytes c := by
  obtain ⟨token, span⟩ := l
  cases token with
  | string => exact decoded_complete (Text.decodeString_eq_ok_iff.mpr h)
  | hexString => exact decoded_complete (Text.decodeHexString_eq_ok_iff.mpr h)
  | _ => exact h.elim

theorem literalValue_complete {c : Cursor} {l : Lexeme} {value : LiteralValue}
    (h : l.token.HasValue value) : Gives (literalValue l) c value c := by
  obtain ⟨token, span⟩ := l
  cases h with
  | decimalNumber | hexNumber | trueValue | falseValue => exact .pure
  | bytes h =>
    have hbytes := dataValue_complete (c := c) (l := ⟨token, span⟩) h
    cases token with
    | string | hexString => exact .bind hbytes .pure
    | _ => exact h.elim

theorem literal_complete : CompletePhrase m literal DerivesLiteral Token.EndsType := by
  intro c ts l after hlen hR hahead hnext
  cases hR with
  | @mk us value type l hvalue h hts =>
    subst hts
    obtain ⟨c₁, hl, hreads⟩ := advance_complete hahead (hnext.behind us)
    obtain ⟨c₂, htype, hreads'⟩ := optionalType_complete c₁ _ _ after (Nat.le_refl _) h
      (hreads.ahead_eq hahead) hnext
    have hall : Reads c (l :: us) 0 c₂ := hreads.trans hreads'
    refine ⟨c₂, .bind hl ?_, hall⟩
    refine .bind (literalValue_complete hvalue) ?_
    refine .bind htype ?_
    exact .bind (gives_spanOf hall) .pure

section Lists

variable {p : Parser α} {R : List Lexeme → α → Prop} {stop : Token → Prop}
  (hp : CompletePhrase m p R stop) (hcomma : stop (.punct .comma))

include hp hcomma

theorem afterCommas_complete (n : Nat) {c : Cursor} {ts : List Lexeme} {as : List α}
    {after : List Item} (hn : ts.length ≤ n) (hm : ts.length ≤ m)
    (hR : DerivesAfterCommas R ts as)
    (hahead : c.ahead = ts.map Item.lexeme ++ after)
    (hnext : Next (fun t => stop t ∧ t ≠ .punct .comma) after) :
    ∃ c', Gives (afterCommas p n) c as c' ∧ Reads c ts 0 c' := by
  induction n generalizing c ts as with
  | zero =>
    cases hR with
    | nil => exact ⟨c, .pure, .refl c⟩
    | cons => exact absurd hn (by simp)
  | succ n ih =>
    cases hR with
    | nil =>
      obtain ⟨l, rest, rfl, -, hl⟩ := hnext
      refine ⟨c, .bind (accept_complete_of_ne ?_) ?_, .refl c⟩
      · rwa [current_of_ahead hahead]
      · exact .pure
    | @cons ts us a as comma h hrest =>
      rw [List.length_cons, List.length_append] at hn hm
      obtain ⟨c₁, haccept, hreads⟩ := accept_complete hahead (hnext.behind _)
      have hahead₁ : c₁.ahead = (ts ++ us).map Item.lexeme ++ after := hreads.ahead_eq hahead
      rw [List.map_append, List.append_assoc] at hahead₁
      have hnext₁ : Next stop (us.map Item.lexeme ++ after) := by
        cases hrest with
        | nil => exact hnext.mono fun _ => And.left
        | cons => exact .cons hcomma
      obtain ⟨c₂, ha, hreads₁⟩ := hp c₁ ts a _ (by omega) h hahead₁ hnext₁
      obtain ⟨c₃, has, hreads₂⟩ := ih (by omega) (by omega) hrest (hreads₁.ahead_eq hahead₁)
      refine ⟨c₃, .bind haccept ?_, hreads.trans (hreads₁.trans hreads₂)⟩
      refine .bind ha (.bind has .pure)

theorem commaList_complete : CompletePhrase m (commaList p) (DerivesCommas R)
    fun t => stop t ∧ t ≠ .punct .comma := by
  intro c ts as after hlen hR hahead hnext
  cases hR with
  | @mk ts us a as h hrest =>
    rw [List.length_append] at hlen
    rw [List.map_append, List.append_assoc] at hahead
    have hnext₁ : Next stop (us.map Item.lexeme ++ after) := by
      cases hrest with
      | nil => exact hnext.mono fun _ => And.left
      | cons => exact .cons hcomma
    obtain ⟨c₁, ha, hreads⟩ := hp c ts a _ (by omega) h hahead hnext₁
    have hahead₁ := hreads.ahead_eq hahead
    obtain ⟨c₂, has, hreads'⟩ := afterCommas_complete hp hcomma _ (length_le_bound hahead₁)
      (by omega) hrest hahead₁ hnext
    refine ⟨c₂, .bind ha ?_, hreads.trans hreads'⟩
    refine .bind .bound ?_
    exact .bind has .pure

theorem optionalList_complete (hclose : stop (.punct .rparen))
    (hstart : ∀ ts a, R ts a → ∃ l rest, ts = l :: rest ∧ l.token ≠ .punct .rparen) :
    CompletePhrase m (optionalList p) (DerivesOptional R) (· = .punct .rparen) := by
  intro c ts as after hlen hR hahead hnext
  cases hR with
  | none =>
    obtain ⟨l, rest, rfl, hl⟩ := hnext
    refine ⟨c, .bind .current ?_, .refl c⟩
    rw [current_of_ahead hahead, if_pos hl]
    exact .pure
  | some h =>
    have hne : c.current.token ≠ .punct .rparen := by
      cases h with
      | mk h _ =>
        obtain ⟨l, rest, rfl, hl⟩ := hstart _ _ h
        rwa [current_of_ahead hahead]
    obtain ⟨c₁, has, hreads⟩ := commaList_complete hp hcomma c ts as after hlen h hahead
      (hnext.mono fun t ht => by simp [ht, hclose])
    refine ⟨c₁, .bind .current ?_, hreads⟩
    rwa [if_neg hne]

end Lists

/-! ## Expressions -/

theorem mark_complete (p : Punct) {c : Cursor} {span : Span} {after : List Item}
    (hahead : c.ahead = .lexeme (p.lexeme span) :: after) (hnext : Next (fun _ => True) after) :
    ∃ c', Gives (mark p) c (p.lexeme span) c' ∧ Reads c [p.lexeme span] 0 c' :=
  expect_complete hahead hnext

/-- What follows an identifier that has been taken. -/
theorem afterIdentifier_complete {argument : Parser Expr}
    (hargument : CompletePhrase m argument DerivesExpr Token.EndsExpr) {c₀ c : Cursor}
    {x : Identifier} {us : List Lexeme} {e : Expr} {after : List Item} (hx : Reads c₀ [x.lexeme] 0 c)
    (hlen : us.length ≤ m) (hR : DerivesExpr (x.lexeme :: us) e)
    (hahead : c.ahead = us.map Item.lexeme ++ after) (hnext : Next Token.EndsExpr after) :
    ∃ c', Gives (afterIdentifier argument x) c e c' ∧ Reads c₀ (x.lexeme :: us) 0 c' := by
  cases hR with
  | literal h =>
    cases h with
    | mk l hvalue _ hts =>
      obtain ⟨rfl, -⟩ := List.cons.inj hts
      cases hvalue.startsLiteral
  | identifier h =>
    generalize hts : x.lexeme :: us = ts at h
    cases h with
    | mk y =>
      obtain ⟨hlexeme, rfl⟩ := List.cons.inj hts
      obtain rfl := Identifier.lexeme_inj hlexeme
      obtain ⟨l, rest, rfl, hl⟩ := hnext
      refine ⟨c, .bind (accept_complete_of_ne ?_) ?_, hx⟩
      · rw [current_of_ahead hahead]
        exact hl.2
      · exact .pure
  | @call _ ts args f opening closing h hts =>
    obtain ⟨hlexeme, rfl⟩ := List.cons.inj hts
    obtain rfl := Identifier.lexeme_inj hlexeme
    simp only [List.length_cons, List.length_append] at hlen
    simp only [List.map_cons, List.map_append, List.cons_append, List.append_assoc] at hahead
    obtain ⟨c₁, hopen, hreads₁⟩ := accept_complete hahead (Next.first.behind _)
    have hahead₁ := hreads₁.ahead_eq hahead
    obtain ⟨c₂, hargs, hreads₂⟩ := optionalList_complete hargument
      ⟨by rintro ⟨⟩, by rintro ⟨⟩⟩ ⟨by rintro ⟨⟩, by rintro ⟨⟩⟩
      (fun _ _ => DerivesExpr.ne_rparen) c₁ ts args _ (by omega) h hahead₁ (.cons rfl)
    have hahead₂ := hreads₂.ahead_eq hahead₁
    obtain ⟨c₃, hclose, hreads₃⟩ := mark_complete .rparen hahead₂ hnext.any
    have hall := hx.trans (hreads₁.trans (hreads₂.trans hreads₃))
    have harguments : Gives (arguments argument) c₁ args c₃ := .bind hargs (.bind hclose .pure)
    exact ⟨c₃, .bind hopen (.bind harguments (.bind (gives_spanOf hall) .pure)), hall⟩

theorem expressionWithin_complete (depth : Nat) :
    CompletePhrase depth (expressionWithin depth) DerivesExpr Token.EndsExpr := by
  induction depth with
  | zero =>
    intro c ts e after hlen hR
    obtain ⟨l, rest, rfl, -⟩ := hR.ne_rparen
    exact absurd hlen (by simp)
  | succ depth ih =>
    intro c ts e after hlen hR hahead hnext
    rcases hR.starts with ⟨l, rfl, hl⟩ | ⟨x, us, rfl⟩
    · obtain ⟨c₁, hliteral, hreads⟩ := literal_complete c ts l after (Nat.le_refl _) hl hahead
        (hnext.mono fun _ => And.left)
      obtain ⟨t, rest, rfl, ht⟩ := hl.starts
      refine ⟨c₁, .bind .current ?_, hreads⟩
      rw [current_of_ahead hahead, if_pos ht]
      exact .bind hliteral .pure
    · obtain ⟨c₁, hx, hreads⟩ := identifier_complete x hahead (hnext.behind us)
      obtain ⟨c₂, he, hall⟩ := afterIdentifier_complete ih hreads (Nat.le_of_succ_le_succ hlen) hR
        (hreads.ahead_eq hahead) hnext
      refine ⟨c₂, .bind .current ?_, hall⟩
      rw [current_of_ahead hahead]
      exact .bind hx he

theorem expression_complete : CompletePhrase m expression DerivesExpr Token.EndsExpr := by
  intro c ts e after _ hR hahead hnext
  obtain ⟨c₁, he, hreads⟩ := expressionWithin_complete _ c ts e after (length_le_bound hahead) hR
    hahead hnext
  exact ⟨c₁, .bind .bound he, hreads⟩

/-! ## Parts of statements -/

theorem typedNames_complete :
    CompletePhrase m typedNames (DerivesCommas DerivesTypedName) Token.EndsNames :=
  commaList_complete typedName_complete (by rintro ⟨⟩)

theorem returns_complete : CompletePhrase m returns DerivesReturns (· = .punct .lbrace) := by
  intro c ts xs after hlen hR hahead hnext
  cases hR with
  | none =>
    obtain ⟨l, rest, rfl, hl⟩ := hnext
    refine ⟨c, .bind (accept_complete_of_ne ?_) ?_, .refl c⟩
    · rw [current_of_ahead hahead, hl]
      rintro ⟨⟩
    · exact .pure
  | some arrow h =>
    obtain ⟨c₁, haccept, hreads⟩ := accept_complete hahead (hnext.behind _)
    obtain ⟨c₂, hxs, hreads'⟩ := typedNames_complete c₁ _ xs after (Nat.le_refl _) h
      (hreads.ahead_eq hahead)
      (hnext.mono fun t ht => ht ▸ ⟨by rintro ⟨⟩, by rintro ⟨⟩⟩)
    exact ⟨c₂, .bind haccept hxs, hreads.trans hreads'⟩

theorem initialValue_complete :
    CompletePhrase m initialValue DerivesInitial fun t => t.EndsExpr ∧ t ≠ .punct .assign := by
  intro c ts value after hlen hR hahead hnext
  cases hR with
  | none =>
    obtain ⟨l, rest, rfl, -, hl⟩ := hnext
    refine ⟨c, .bind (accept_complete_of_ne ?_) ?_, .refl c⟩
    · rwa [current_of_ahead hahead]
    · exact .pure
  | @some ts e assign h =>
    obtain ⟨c₁, haccept, hreads⟩ := accept_complete hahead (hnext.behind _)
    obtain ⟨c₂, he, hreads'⟩ := expression_complete c₁ ts e after (Nat.le_refl _) h
      (hreads.ahead_eq hahead) (hnext.mono fun _ => And.left)
    refine ⟨c₂, .bind haccept ?_, hreads.trans hreads'⟩
    exact .bind he .pure

end Parser

end Yul
