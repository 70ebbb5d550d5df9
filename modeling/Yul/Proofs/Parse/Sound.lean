import Yul.Proofs.Parse.Reading

/-!
# All that is read is derived

Each parser is sound for its part of the grammar. Bounds on the depth or the length of what is read
play no role here: a parser that comes to its bound reads less, or fails.
-/

namespace Yul

namespace Parser

variable {α : Type} {c c' : Cursor}

/-! ## Parts of the grammar without blocks -/

theorem mark_sound {p : Punct} {l : Lexeme} (hc : Ended c.ahead) (h : Gives (mark p) c l c') :
    ∃ span, l = p.lexeme span ∧ Reads c [p.lexeme span] 0 c' :=
  expect_sound hc h (by rintro ⟨⟩)

theorem keyword_sound {k : Keyword} {l : Lexeme} (hc : Ended c.ahead)
    (h : Gives (keyword k) c l c') : ∃ span, l = k.lexeme span ∧ Reads c [k.lexeme span] 0 c' :=
  expect_sound hc h (by rintro ⟨⟩)

theorem word_sound {text : String} {l : Lexeme} (hc : Ended c.ahead) (h : Gives (word text) c l c') :
    ∃ span, l = wordLexeme text span ∧ Reads c [wordLexeme text span] 0 c' :=
  expect_sound hc h (by rintro ⟨⟩)

theorem identifier_sound : SoundPhrase identifier DerivesIdentifier := by
  intro c x c' hc h
  simp only [identifier, gives_bind] at h
  obtain ⟨l, c₁, hadvance, h⟩ := h
  obtain ⟨token, span⟩ := l
  cases token with
  | identifier name =>
    have hreads := advance_sound hc hadvance (by rintro ⟨⟩)
    simp only [gives_bind, gives_remember, gives_pure] at h
    obtain ⟨_, _, rfl, rfl, rfl⟩ := h
    exact ⟨_, ⟨hreads.ahead, hreads.previous, hreads.nextBlock⟩, .mk ⟨name, span⟩, by simp⟩
  | _ => exact (gives_fail.mp h).elim

theorem optionalType_sound : SoundPhrase optionalType DerivesType := by
  intro c type c' hc h
  simp only [optionalType, gives_bind] at h
  obtain ⟨b, c₁, haccept, h⟩ := h
  rcases accept_sound hc haccept (by rintro ⟨⟩) with ⟨rfl, colon, hreads⟩ | ⟨rfl, -, rfl⟩
  · simp only [if_true, gives_bind, gives_pure] at h
    obtain ⟨x, c₂, hx, rfl, rfl⟩ := h
    obtain ⟨_, hreads', ⟨x⟩, -⟩ := identifier_sound _ _ _ (hreads.ended hc) hx
    exact ⟨_, hreads.trans hreads', .some colon x, by simp⟩
  · obtain ⟨rfl, rfl⟩ := gives_pure.mp h
    exact ⟨[], .refl c, .none, allDecode_nil⟩

theorem typedName_sound : SoundPhrase typedName DerivesTypedName := by
  intro c t c' hc h
  simp only [typedName, gives_bind, gives_spanFrom, gives_pure] at h
  obtain ⟨x, c₁, hx, type, c₂, htype, _, _, ⟨rfl, rfl⟩, rfl, rfl⟩ := h
  obtain ⟨_, hreads, ⟨x⟩, hdecode⟩ := identifier_sound _ _ _ hc hx
  obtain ⟨us, hreads', hderives, hdecode'⟩ := optionalType_sound _ _ _ (hreads.ended hc) htype
  have hall := hreads.trans hreads'
  have hspan : x.span.merge c₂.previous = spanOf (x.lexeme :: us) := hall.spanOf_eq
  exact ⟨_, hall, hspan ▸ .mk x hderives rfl, allDecode_append.mpr ⟨hdecode, hdecode'⟩⟩

theorem decoded_sound {bytes : Except Text.LiteralError (List UInt8)} {span : Span}
    {bs : List UInt8} (h : Gives (decoded bytes span) c bs c') : bytes = .ok bs ∧ c = c' := by
  cases bytes with
  | ok bs' => exact ⟨congrArg _ (gives_pure.mp h).1, (gives_pure.mp h).2⟩
  | error e => exact (gives_fail.mp h).elim

theorem dataValue_sound {l : Lexeme} {bytes : List UInt8} (h : Gives (dataValue l) c bytes c') :
    l.token.HasBytes bytes ∧ c = c' := by
  obtain ⟨token, span⟩ := l
  cases token with
  | string raw =>
    obtain ⟨hbytes, rfl⟩ := decoded_sound h
    exact ⟨Text.decodeString_eq_ok_iff.mp hbytes, rfl⟩
  | hexString raw =>
    obtain ⟨hbytes, rfl⟩ := decoded_sound h
    exact ⟨Text.decodeHexString_eq_ok_iff.mp hbytes, rfl⟩
  | _ => exact (gives_fail.mp h).elim

theorem literalValue_sound {l : Lexeme} {value : LiteralValue}
    (h : Gives (literalValue l) c value c') : l.token.HasValue value ∧ c = c' := by
  obtain ⟨token, span⟩ := l
  cases token with
  | decimalNumber digits =>
    obtain ⟨rfl, rfl⟩ := gives_pure.mp h
    exact ⟨.decimalNumber digits, rfl⟩
  | hexNumber digits =>
    obtain ⟨rfl, rfl⟩ := gives_pure.mp h
    exact ⟨.hexNumber digits, rfl⟩
  | string raw =>
    simp only [literalValue, gives_bind, gives_pure] at h
    obtain ⟨bs, _, hdecoded, rfl, rfl⟩ := h
    obtain ⟨hbytes, rfl⟩ := dataValue_sound (l := ⟨.string raw, span⟩) hdecoded
    exact ⟨.bytes hbytes, rfl⟩
  | hexString raw =>
    simp only [literalValue, gives_bind, gives_pure] at h
    obtain ⟨bs, _, hdecoded, rfl, rfl⟩ := h
    obtain ⟨hbytes, rfl⟩ := dataValue_sound (l := ⟨.hexString raw, span⟩) hdecoded
    exact ⟨.bytes hbytes, rfl⟩
  | keyword k =>
    cases k with
    | trueValue =>
      obtain ⟨rfl, rfl⟩ := gives_pure.mp h
      exact ⟨.trueValue, rfl⟩
    | falseValue =>
      obtain ⟨rfl, rfl⟩ := gives_pure.mp h
      exact ⟨.falseValue, rfl⟩
    | _ => exact (gives_fail.mp h).elim
  | _ => exact (gives_fail.mp h).elim

theorem literal_sound : SoundPhrase literal DerivesLiteral := by
  intro c l c' hc h
  simp only [literal, gives_bind, gives_spanFrom, gives_pure] at h
  obtain ⟨t, c₁, hadvance, value, _, hliteral, type, c₂, htype, _, _, ⟨rfl, rfl⟩, rfl, rfl⟩ := h
  obtain ⟨hvalue, rfl⟩ := literalValue_sound hliteral
  have hreads := advance_sound hc hadvance hvalue.ne_endOfInput
  obtain ⟨us, hreads', hderives, hdecode'⟩ := optionalType_sound _ _ _ (hreads.ended hc) htype
  have hall := hreads.trans hreads'
  have hspan : t.span.merge c₂.previous = spanOf (t :: us) := hall.spanOf_eq
  exact ⟨_, hall, hspan ▸ .mk t hvalue hderives rfl, allDecode_cons.mpr ⟨hvalue.decodes, hdecode'⟩⟩

section Lists

variable {p : Parser α} {R : List Lexeme → α → Prop} (hp : SoundPhrase p R)

include hp

theorem afterCommas_sound (n : Nat) : SoundPhrase (afterCommas p n) (DerivesAfterCommas R) := by
  induction n with
  | zero =>
    intro c as c' hc h
    obtain ⟨rfl, rfl⟩ := gives_pure.mp h
    exact ⟨[], .refl c, .nil, allDecode_nil⟩
  | succ n ih =>
    intro c as c' hc h
    simp only [afterCommas, gives_bind] at h
    obtain ⟨b, c₁, haccept, h⟩ := h
    rcases accept_sound hc haccept (by rintro ⟨⟩) with ⟨rfl, comma, hreads⟩ | ⟨rfl, -, rfl⟩
    · simp only [if_true, gives_bind, gives_pure] at h
      obtain ⟨a, c₂, ha, as, _, has, rfl, rfl⟩ := h
      have hc₁ := hreads.ended hc
      obtain ⟨ts, hreads₁, hR, hdecode⟩ := hp _ _ _ hc₁ ha
      obtain ⟨us, hreads₂, hrest, hdecode'⟩ := ih _ _ _ (hreads₁.ended hc₁) has
      have hall : Reads c (Punct.comma.lexeme comma :: (ts ++ us)) 0 _ :=
        hreads.trans (hreads₁.trans hreads₂)
      exact ⟨_, hall, .cons comma hR hrest, by simp [hdecode, hdecode']⟩
    · obtain ⟨rfl, rfl⟩ := gives_pure.mp h
      exact ⟨[], .refl c, .nil, allDecode_nil⟩

theorem commaList_sound : SoundPhrase (commaList p) (DerivesCommas R) := by
  intro c as c' hc h
  simp only [commaList, gives_bind, gives_bound, gives_pure] at h
  obtain ⟨a, c₁, ha, _, _, ⟨rfl, rfl⟩, as, _, has, rfl, rfl⟩ := h
  obtain ⟨ts, hreads, hR, hdecode⟩ := hp _ _ _ hc ha
  obtain ⟨us, hreads', hrest, hdecode'⟩ := afterCommas_sound hp _ _ _ _ (hreads.ended hc) has
  exact ⟨_, hreads.trans hreads', .mk hR hrest, allDecode_append.mpr ⟨hdecode, hdecode'⟩⟩

theorem optionalList_sound : SoundPhrase (optionalList p) (DerivesOptional R) := by
  intro c as c' hc h
  simp only [optionalList, gives_bind, gives_current] at h
  obtain ⟨_, _, ⟨rfl, rfl⟩, h⟩ := h
  split at h
  · obtain ⟨rfl, rfl⟩ := gives_pure.mp h
    exact ⟨[], .refl c, .none, allDecode_nil⟩
  · obtain ⟨ts, hreads, hR, hdecode⟩ := commaList_sound hp _ _ _ hc h
    exact ⟨ts, hreads, .some hR, hdecode⟩

end Lists

/-! ## Expressions -/

/-- What follows an identifier that has been taken. -/
theorem afterIdentifier_sound {argument : Parser Expr} (hargument : SoundPhrase argument DerivesExpr)
    {c₀ : Cursor} {x : Identifier} {e : Expr} (hc₀ : Ended c₀.ahead) (hx : Reads c₀ [x.lexeme] 0 c)
    (h : Gives (afterIdentifier argument x) c e c') :
    ∃ ts, Reads c₀ ts 0 c' ∧ DerivesExpr ts e ∧ AllDecode ts := by
  have hc := hx.ended hc₀
  simp only [afterIdentifier, gives_bind] at h
  obtain ⟨b, c₁, haccept, h⟩ := h
  rcases accept_sound hc haccept (by rintro ⟨⟩) with ⟨rfl, opening, hreads⟩ | ⟨rfl, -, rfl⟩
  · simp only [if_true, arguments, gives_bind, gives_spanFrom, gives_pure] at h
    obtain ⟨args, _, ⟨_, c₂, hargs, _, c₃, hclose, rfl, rfl⟩, _, _, ⟨rfl, rfl⟩, rfl, rfl⟩ := h
    have hc₁ := hreads.ended hc
    obtain ⟨us, hreads₁, hderives, hdecode⟩ := optionalList_sound hargument _ _ _ hc₁ hargs
    obtain ⟨closing, rfl, hreads₂⟩ := mark_sound (hreads₁.ended hc₁) hclose
    have hall := hx.trans (hreads.trans (hreads₁.trans hreads₂))
    have hspan : x.span.merge c₃.previous = spanOf (x.lexeme :: _) := hall.spanOf_eq
    refine ⟨_, hall, hspan ▸ .call x opening closing hderives rfl, ?_⟩
    simp [hdecode]
  · obtain ⟨rfl, rfl⟩ := gives_pure.mp h
    exact ⟨_, hx, .identifier (.mk x), by simp⟩

theorem expressionWithin_sound (depth : Nat) :
    SoundPhrase (expressionWithin depth) DerivesExpr := by
  induction depth with
  | zero => exact fun c e c' _ h => (gives_unexpected.mp h).elim
  | succ depth ih =>
    intro c e c' hc h
    simp only [expressionWithin, gives_bind, gives_current] at h
    obtain ⟨_, _, ⟨rfl, rfl⟩, h⟩ := h
    split at h
    · simp only [gives_bind, gives_pure] at h
      obtain ⟨l, _, hl, rfl, rfl⟩ := h
      obtain ⟨ts, hreads, hderives, hdecode⟩ := literal_sound _ _ _ hc hl
      exact ⟨ts, hreads, .literal hderives, hdecode⟩
    · simp only [gives_bind] at h
      obtain ⟨x, c₁, hx, h⟩ := h
      obtain ⟨_, hreads, ⟨x⟩, -⟩ := identifier_sound _ _ _ hc hx
      exact afterIdentifier_sound ih hc hreads h

theorem expression_sound : SoundPhrase expression DerivesExpr := by
  intro c e c' hc h
  simp only [expression, gives_bind, gives_bound] at h
  obtain ⟨_, _, ⟨rfl, rfl⟩, h⟩ := h
  exact expressionWithin_sound _ _ _ _ hc h

/-! ## Statements -/

theorem returns_sound : SoundPhrase returns DerivesReturns := by
  intro c xs c' hc h
  simp only [returns, gives_bind] at h
  obtain ⟨b, c₁, haccept, h⟩ := h
  rcases accept_sound hc haccept (by rintro ⟨⟩) with ⟨rfl, arrow, hreads⟩ | ⟨rfl, -, rfl⟩
  · obtain ⟨ts, hreads', hderives, hdecode⟩ :=
      commaList_sound typedName_sound _ _ _ (hreads.ended hc) h
    exact ⟨_, hreads.trans hreads', .some arrow hderives, by simp [hdecode]⟩
  · obtain ⟨rfl, rfl⟩ := gives_pure.mp h
    exact ⟨[], .refl c, .none, allDecode_nil⟩

theorem initialValue_sound : SoundPhrase initialValue DerivesInitial := by
  intro c value c' hc h
  simp only [initialValue, gives_bind] at h
  obtain ⟨b, c₁, haccept, h⟩ := h
  rcases accept_sound hc haccept (by rintro ⟨⟩) with ⟨rfl, assign, hreads⟩ | ⟨rfl, -, rfl⟩
  · simp only [if_true, gives_bind, gives_pure] at h
    obtain ⟨e, c₂, he, rfl, rfl⟩ := h
    obtain ⟨ts, hreads', hderives, hdecode⟩ := expression_sound _ _ _ (hreads.ended hc) he
    exact ⟨_, hreads.trans hreads', .some assign hderives, by simp [hdecode]⟩
  · obtain ⟨rfl, rfl⟩ := gives_pure.mp h
    exact ⟨[], .refl c, .none, allDecode_nil⟩

theorem advance_keyword_sound {k : Keyword} {l : Lexeme} (hc : Ended c.ahead)
    (h : Gives advance c l c') (htoken : c.current.token = .keyword k) :
    ∃ span, Reads c [k.lexeme span] 0 c' := by
  obtain ⟨rfl, -⟩ := gives_advance.mp h
  have hl : c.current = k.lexeme c.current.span := by rw [Keyword.lexeme, ← htoken]
  exact ⟨_, hl ▸ advance_sound hc h (by simp [htoken])⟩

/-- The tokens of one statement have been read from `c` to `c'`. -/
abbrev ReadsStmt (c : Cursor) (s : Stmt) (c' : Cursor) : Prop :=
  ∃ ts, Reads c ts s.blocks.length c' ∧ DerivesStmt c.nextBlock ts s ∧ AllDecode ts

theorem identifierStatement_sound {s : Stmt} (hc : Ended c.ahead)
    (h : Gives identifierStatement c s c') : ReadsStmt c s c' := by
  simp only [identifierStatement, gives_bind, gives_current] at h
  obtain ⟨first, c₁, hfirst, _, _, ⟨rfl, rfl⟩, h⟩ := h
  obtain ⟨_, hreads, ⟨first⟩, -⟩ := identifier_sound _ _ _ hc hfirst
  have hc₁ := hreads.ended hc
  split at h
  · simp only [gives_bind, gives_bound, gives_spanFrom, gives_pure] at h
    obtain ⟨_, _, ⟨rfl, rfl⟩, others, c₂, hothers, _, c₃, hassign, value, c₄, hvalue, _, _,
      ⟨rfl, rfl⟩, rfl, rfl⟩ := h
    obtain ⟨us, hreads₁, hothers, hus⟩ := afterCommas_sound identifier_sound _ _ _ _ hc₁ hothers
    have hc₂ := hreads₁.ended hc₁
    obtain ⟨assign, rfl, hreads₂⟩ := mark_sound hc₂ hassign
    obtain ⟨es, hreads₃, hvalue, hes⟩ := expression_sound _ _ _ (hreads₂.ended hc₂) hvalue
    have hall : Reads c (first.lexeme :: (us ++ Punct.assign.lexeme assign :: es)) 0 c₄ :=
      hreads.trans (hreads₁.trans (hreads₂.trans hreads₃))
    refine ⟨_, hall, ?_, by simp [hus, hes]⟩
    have hspan : first.span.merge c₄.previous = _ := hall.spanOf_eq
    rw [hspan]
    exact .assignment assign (.mk (.mk first) hothers) hvalue rfl
  · simp only [gives_bind, gives_pure] at h
    obtain ⟨e, _, he, rfl, rfl⟩ := h
    obtain ⟨ts, hreads, hderives, hdecode⟩ := afterIdentifier_sound expression_sound hc hreads he
    exact ⟨ts, hreads, .expression hderives, hdecode⟩

theorem declaration_sound {block : Parser Block} {s : Stmt} (hc : Ended c.ahead)
    (htoken : c.current.token = .keyword .letVar) (h : Gives (statement block) c s c') :
    ReadsStmt c s c' := by
  rw [statement, gives_current_bind, htoken] at h
  simp only [gives_bind, gives_spanFrom, gives_pure] at h
  obtain ⟨_, c₁, hk, xs, c₂, hxs, value, c₃, hvalue, _, _, ⟨rfl, rfl⟩, rfl, rfl⟩ := h
  obtain ⟨k, hreads⟩ := advance_keyword_sound hc hk htoken
  have hc₁ := hreads.ended hc
  obtain ⟨ts, hreads₁, hxs, hts⟩ := commaList_sound typedName_sound _ _ _ hc₁ hxs
  obtain ⟨us, hreads₂, hvalue, hus⟩ := initialValue_sound _ _ _ (hreads₁.ended hc₁) hvalue
  have hall : Reads c (Keyword.letVar.lexeme k :: (ts ++ us)) 0 c₃ :=
    hreads.trans (hreads₁.trans hreads₂)
  refine ⟨_, hall, ?_, by simp [hts, hus]⟩
  rw [hall.current_eq, hall.spanOf_eq]
  exact .declaration k hxs hvalue rfl

theorem jump_sound {s : Stmt} {k : Keyword} {make : Span → Stmt} (hc : Ended c.ahead)
    (htoken : c.current.token = .keyword k) (hblocks : ∀ span, (make span).blocks = [])
    (hderives : ∀ {n : Nat} (span : Span),
      DerivesStmt n [k.lexeme span] (make (spanOf [k.lexeme span])))
    (h : Gives (do let _ ← advance; return make (← spanFrom c.current.span)) c s c') :
    ReadsStmt c s c' := by
  simp only [gives_bind, gives_spanFrom, gives_pure] at h
  obtain ⟨_, c₁, hk, _, _, ⟨rfl, rfl⟩, rfl, rfl⟩ := h
  obtain ⟨span, hreads⟩ := advance_keyword_sound hc hk htoken
  refine ⟨_, hreads.cast (by rw [hblocks, List.length_nil]), ?_, by simp⟩
  rw [hreads.current_eq, hreads.spanOf_eq]
  exact hderives span

/-- The specification of parsers of blocks. -/
abbrev SoundBlock (p : Parser Block) : Prop :=
  Sound p DerivesBlock fun b => b.blocks.length

abbrev SoundStmt (p : Parser Stmt) : Prop :=
  Sound p DerivesStmt fun s => s.blocks.length

theorem statements_sound {statement : Parser Stmt} (hstatement : SoundStmt statement) (n : Nat) :
    Sound (statements statement n) DerivesStmts fun ss => (blocksOfStmts ss).length := by
  induction n with
  | zero =>
    intro c ss c' hc h
    obtain ⟨rfl, rfl⟩ := gives_pure.mp h
    exact ⟨[], .refl c, .nil, allDecode_nil⟩
  | succ n ih =>
    intro c ss c' hc h
    simp only [statements, gives_bind, gives_current] at h
    obtain ⟨_, _, ⟨rfl, rfl⟩, h⟩ := h
    split at h
    · obtain ⟨rfl, rfl⟩ := gives_pure.mp h
      exact ⟨[], .refl c, .nil, allDecode_nil⟩
    · exact (gives_unexpected.mp h).elim
    · simp only [gives_bind, gives_pure] at h
      obtain ⟨s, c₁, hs, ss, _, hss, rfl, rfl⟩ := h
      obtain ⟨ts, hreads, hderives, hdecode⟩ := hstatement _ _ _ hc hs
      obtain ⟨us, hreads', hrest, hdecode'⟩ := ih _ _ _ (hreads.ended hc) hss
      rw [hreads.nextBlock] at hrest
      have hall := (hreads.trans hreads').cast (m := (blocksOfStmts (s :: ss)).length) (by
        rw [blocksOfStmts, List.length_append])
      exact ⟨_, hall, .cons hderives hrest, allDecode_append.mpr ⟨hdecode, hdecode'⟩⟩

theorem blockOf_sound {statement : Parser Stmt} (hstatement : SoundStmt statement) :
    SoundBlock (blockOf statement) := by
  intro c b c' hc h
  simp only [blockOf, gives_bind, gives_freshBlock, gives_bound, gives_spanFrom, gives_pure] at h
  obtain ⟨l, c₁, hopen, _, _, ⟨rfl, rfl⟩, _, _, ⟨rfl, rfl⟩, ss, c₂, hss, _, c₃, hclose, _, _,
    ⟨rfl, rfl⟩, rfl, rfl⟩ := h
  obtain ⟨opening, rfl, hreads⟩ := mark_sound hc hopen
  -- the number of the block is taken behind its opening brace
  have hnumber : Reads c [Punct.lbrace.lexeme opening] 1
      { c₁ with nextBlock := c₁.nextBlock + 1 } :=
    ⟨hreads.ahead, hreads.previous, congrArg (· + 1) hreads.nextBlock⟩
  obtain ⟨us, hreads₁, hderives, hdecode⟩ :=
    statements_sound hstatement _ _ _ _ (hnumber.ended hc) hss
  obtain ⟨closing, rfl, hreads₂⟩ := mark_sound (hreads₁.ended (hnumber.ended hc)) hclose
  have hall : Reads c (Punct.lbrace.lexeme opening :: (us ++ [Punct.rbrace.lexeme closing]))
      (1 + (blocksOfStmts ss).length) c₃ := hnumber.trans (hreads₁.trans hreads₂)
  have hid : c₁.nextBlock = c.nextBlock := hreads.nextBlock
  refine ⟨_, hall.cast ?_, ?_, by simp [hdecode]⟩
  · simp [Block.blocks, Nat.add_comm]
  · rw [hid] at hderives ⊢
    rw [hall.spanOf_eq]
    exact .mk opening closing hderives rfl

section Statements

variable {block : Parser Block} (hblock : SoundBlock block)

include hblock

theorem functionDef_sound {f : FunctionDef} (hc : Ended c.ahead)
    (h : Gives (functionDef block) c f c') :
    ∃ l ts, Reads c (l :: ts) f.blocks.length c' ∧ AllDecode (l :: ts) ∧
      DerivesStmt c.nextBlock (l :: ts) (.function f (spanOf (l :: ts))) := by
  simp only [functionDef, gives_bind, gives_pure] at h
  obtain ⟨_, c₁, hk, name, c₂, hname, _, c₃, hopen, params, c₄, hparams, _, c₅, hclose, rets, c₆,
    hreturns, body, _, hbody, rfl, rfl⟩ := h
  obtain ⟨k, rfl, hreads₁⟩ := keyword_sound hc hk
  have hc₁ := hreads₁.ended hc
  obtain ⟨_, hreads₂, ⟨name⟩, -⟩ := identifier_sound _ _ _ hc₁ hname
  have hc₂ := hreads₂.ended hc₁
  obtain ⟨opening, rfl, hreads₃⟩ := mark_sound hc₂ hopen
  have hc₃ := hreads₃.ended hc₂
  obtain ⟨ps, hreads₄, hparams, hps⟩ := optionalList_sound typedName_sound _ _ _ hc₃ hparams
  have hc₄ := hreads₄.ended hc₃
  obtain ⟨closing, rfl, hreads₅⟩ := mark_sound hc₄ hclose
  have hc₅ := hreads₅.ended hc₄
  obtain ⟨rs, hreads₆, hreturns, hrs⟩ := returns_sound _ _ _ hc₅ hreturns
  obtain ⟨bs, hreads₇, hbody, hbs⟩ := hblock _ _ _ (hreads₆.ended hc₅) hbody
  have hhead := hreads₁.trans (hreads₂.trans (hreads₃.trans (hreads₄.trans (hreads₅.trans hreads₆))))
  rw [hhead.nextBlock] at hbody
  refine ⟨_, _, (hhead.trans hreads₇).cast (by simp [FunctionDef.blocks]), by simp [hps, hrs, hbs], ?_⟩
  exact .function k opening closing name hparams hreturns hbody (by simp)

theorem armBody_sound {value : Option Literal} {start : Span} {arm : Case}
    (hc : Ended c.ahead) (h : Gives (armBody block value start) c arm c') :
    ∃ ts body, Reads c ts body.blocks.length c' ∧ DerivesBlock c.nextBlock ts body ∧ AllDecode ts ∧
      arm = ⟨value, body, start.merge c'.previous⟩ := by
  simp only [armBody, gives_bind, gives_spanFrom, gives_pure] at h
  obtain ⟨body, c₁, hbody, _, _, ⟨rfl, rfl⟩, rfl, rfl⟩ := h
  obtain ⟨ts, hreads, hderives, hdecode⟩ := hblock _ _ _ hc hbody
  exact ⟨ts, body, hreads, hderives, hdecode, rfl⟩

theorem arms_sound (n : Nat) :
    Sound (arms block n) DerivesArms fun arms => (blocksOfCases arms).length := by
  induction n with
  | zero =>
    intro c cases c' hc h
    obtain ⟨rfl, rfl⟩ := gives_pure.mp h
    exact ⟨[], .refl c, .nil, allDecode_nil⟩
  | succ n ih =>
    intro c cases c' hc h
    simp only [arms, gives_bind, gives_current] at h
    obtain ⟨_, _, ⟨rfl, rfl⟩, b, c₁, haccept, h⟩ := h
    rcases accept_sound hc haccept (by rintro ⟨⟩) with ⟨rfl, k, hreads⟩ | ⟨rfl, -, rfl⟩
    · simp only [if_true, gives_bind, gives_pure] at h
      obtain ⟨l, c₂, hl, arm, c₃, harm, rest, _, hrest, rfl, rfl⟩ := h
      have hc₁ := hreads.ended hc
      obtain ⟨ls, hreads₁, hvalue, hls⟩ := literal_sound _ _ _ hc₁ hl
      have hc₂ := hreads₁.ended hc₁
      obtain ⟨bs, body, hreads₂, hbody, hbs, rfl⟩ := armBody_sound hblock hc₂ harm
      obtain ⟨us, hreads₃, hrest, hus⟩ := ih _ _ _ (hreads₂.ended hc₂) hrest
      have harm : Reads c (Keyword.caseArm.lexeme k :: (ls ++ bs)) body.blocks.length c₃ :=
        (hreads.trans (hreads₁.trans hreads₂)).cast (by simp)
      have hstart : c.nextBlock = c₂.nextBlock := (hreads.trans hreads₁).nextBlock.symm
      rw [harm.nextBlock] at hrest
      refine ⟨_, (harm.trans hreads₃).cast (by simp [blocksOfCases, Case.blocks]), ?_, by
        simp [hls, hbs, hus]⟩
      rw [harm.current_eq, harm.spanOf_eq]
      exact .case k hvalue (hstart ▸ hbody) hrest rfl
    · simp only [Bool.false_eq_true, if_false, gives_bind] at h
      obtain ⟨b, c₁, haccept, h⟩ := h
      rcases accept_sound hc haccept (by rintro ⟨⟩) with ⟨rfl, k, hreads⟩ | ⟨rfl, -, rfl⟩
      · simp only [if_true, gives_bind, gives_current] at h
        obtain ⟨arm, c₂, harm, _, _, ⟨rfl, rfl⟩, h⟩ := h
        have hc₁ := hreads.ended hc
        obtain ⟨bs, body, hreads₁, hbody, hbs, rfl⟩ := armBody_sound hblock hc₁ harm
        split at h
        · simp at h
        · obtain ⟨rfl, rfl⟩ := gives_pure.mp h
          have hall : Reads c (Keyword.defaultArm.lexeme k :: bs) body.blocks.length c₂ :=
            (hreads.trans hreads₁).cast (by simp)
          have hstart : c.nextBlock = c₁.nextBlock := hreads.nextBlock.symm
          refine ⟨_, hall.cast (by simp [blocksOfCases, Case.blocks]), ?_, by simp [hbs]⟩
          rw [hall.current_eq, hall.spanOf_eq]
          exact .default k (hstart ▸ hbody) rfl
      · obtain ⟨rfl, rfl⟩ := gives_pure.mp h
        exact ⟨[], .refl c, .nil, allDecode_nil⟩

theorem function_sound {s : Stmt} (hc : Ended c.ahead)
    (htoken : c.current.token = .keyword .function) (h : Gives (statement block) c s c') :
    ReadsStmt c s c' := by
  rw [statement, gives_current_bind, htoken] at h
  simp only [gives_bind, gives_spanFrom, gives_pure] at h
  obtain ⟨f, c₁, hf, _, _, ⟨rfl, rfl⟩, rfl, rfl⟩ := h
  obtain ⟨l, ts, hreads, hdecode, hderives⟩ := functionDef_sound hblock hc hf
  refine ⟨_, hreads, ?_, hdecode⟩
  rwa [hreads.current_eq, hreads.spanOf_eq]

theorem ifThen_sound {s : Stmt} (hc : Ended c.ahead) (htoken : c.current.token = .keyword .ifTest)
    (h : Gives (statement block) c s c') : ReadsStmt c s c' := by
  rw [statement, gives_current_bind, htoken] at h
  simp only [gives_bind, gives_spanFrom, gives_pure] at h
  obtain ⟨_, c₁, hk, e, c₂, he, body, c₃, hbody, _, _, ⟨rfl, rfl⟩, rfl, rfl⟩ := h
  obtain ⟨k, hreads⟩ := advance_keyword_sound hc hk htoken
  have hc₁ := hreads.ended hc
  obtain ⟨es, hreads₁, he, hes⟩ := expression_sound _ _ _ hc₁ he
  obtain ⟨bs, hreads₂, hbody, hbs⟩ := hblock _ _ _ (hreads₁.ended hc₁) hbody
  have hall : Reads c (Keyword.ifTest.lexeme k :: (es ++ bs)) body.blocks.length c₃ :=
    (hreads.trans (hreads₁.trans hreads₂)).cast (by simp)
  rw [(hreads.trans hreads₁).nextBlock] at hbody
  refine ⟨_, hall, ?_, by simp [hes, hbs]⟩
  rw [hall.current_eq, hall.spanOf_eq]
  exact .ifThen k he hbody rfl

theorem switch_sound {s : Stmt} (hc : Ended c.ahead) (htoken : c.current.token = .keyword .switch)
    (h : Gives (statement block) c s c') : ReadsStmt c s c' := by
  rw [statement, gives_current_bind, htoken] at h
  simp only [gives_bind, gives_bound, gives_spanFrom] at h
  obtain ⟨_, c₁, hk, e, c₂, he, _, _, ⟨rfl, rfl⟩, cases, c₃, hcases, _, _, ⟨rfl, rfl⟩, h⟩ := h
  split at h
  · simp at h
  · next hsome =>
    obtain ⟨rfl, rfl⟩ := gives_pure.mp h
    obtain ⟨k, hreads⟩ := advance_keyword_sound hc hk htoken
    have hc₁ := hreads.ended hc
    obtain ⟨es, hreads₁, he, hes⟩ := expression_sound _ _ _ hc₁ he
    obtain ⟨us, hreads₂, hcases, hus⟩ := arms_sound hblock _ _ _ _ (hreads₁.ended hc₁) hcases
    have hall : Reads c (Keyword.switch.lexeme k :: (es ++ us)) (blocksOfCases cases).length c₃ :=
      (hreads.trans (hreads₁.trans hreads₂)).cast (by simp)
    rw [(hreads.trans hreads₁).nextBlock] at hcases
    refine ⟨_, hall, ?_, by simp [hes, hus]⟩
    rw [hall.current_eq, hall.spanOf_eq]
    exact .switch k he hcases (by simpa using hsome) rfl

theorem forLoop_sound {s : Stmt} (hc : Ended c.ahead) (htoken : c.current.token = .keyword .forLoop)
    (h : Gives (statement block) c s c') : ReadsStmt c s c' := by
  rw [statement, gives_current_bind, htoken] at h
  simp only [gives_bind, gives_spanFrom, gives_pure] at h
  obtain ⟨_, c₁, hk, init, c₂, hinit, e, c₃, he, post, c₄, hpost, body, c₅, hbody, _, _,
    ⟨rfl, rfl⟩, rfl, rfl⟩ := h
  obtain ⟨k, hreads⟩ := advance_keyword_sound hc hk htoken
  have hc₁ := hreads.ended hc
  obtain ⟨is, hreads₁, hinit, his⟩ := hblock _ _ _ hc₁ hinit
  have hc₂ := hreads₁.ended hc₁
  obtain ⟨es, hreads₂, he, hes⟩ := expression_sound _ _ _ hc₂ he
  have hc₃ := hreads₂.ended hc₂
  obtain ⟨ps, hreads₃, hpost, hps⟩ := hblock _ _ _ hc₃ hpost
  obtain ⟨bs, hreads₄, hbody, hbs⟩ := hblock _ _ _ (hreads₃.ended hc₃) hbody
  have hhead := hreads.trans (hreads₁.trans hreads₂)
  have hall : Reads c (Keyword.forLoop.lexeme k :: (is ++ (es ++ (ps ++ bs))))
      (init.blocks ++ post.blocks ++ body.blocks).length c₅ :=
    (hreads.trans (hreads₁.trans (hreads₂.trans (hreads₃.trans hreads₄)))).cast (by
      simp only [List.length_append]
      omega)
  -- each block is numbered behind those in front of it
  rw [hreads.nextBlock] at hinit
  rw [hhead.nextBlock] at hpost
  rw [(hhead.trans hreads₃).nextBlock] at hbody
  refine ⟨_, hall, ?_, by simp [his, hes, hps, hbs]⟩
  rw [hall.current_eq, hall.spanOf_eq]
  exact .forLoop k hinit he (by simpa using hpost) (by simpa [Nat.add_assoc] using hbody) rfl

theorem statement_sound : SoundStmt (statement block) := by
  intro c s c' hc h
  have hbranch := h
  rw [statement, gives_current_bind] at hbranch
  split at hbranch
  · simp only [gives_bind, gives_pure] at hbranch
    obtain ⟨b, _, hb, rfl, rfl⟩ := hbranch
    obtain ⟨ts, hreads, hderives, hdecode⟩ := hblock _ _ _ hc hb
    exact ⟨ts, hreads, .block hderives, hdecode⟩
  · next htoken => exact function_sound hblock hc htoken h
  · next htoken => exact declaration_sound hc htoken h
  · next htoken => exact ifThen_sound hblock hc htoken h
  · next htoken => exact switch_sound hblock hc htoken h
  · next htoken => exact forLoop_sound hblock hc htoken h
  · next htoken =>
    exact jump_sound hc htoken (fun _ => rfl) (fun span => .breakLoop span rfl) hbranch
  · next htoken =>
    exact jump_sound hc htoken (fun _ => rfl) (fun span => .continueLoop span rfl) hbranch
  · next htoken =>
    exact jump_sound hc htoken (fun _ => rfl) (fun span => .leave span rfl) hbranch
  · exact identifierStatement_sound hc hbranch
  · split at hbranch
    · simp only [gives_bind, gives_pure] at hbranch
      obtain ⟨e, _, he, rfl, rfl⟩ := hbranch
      obtain ⟨ts, hreads, hderives, hdecode⟩ := expression_sound _ _ _ hc he
      exact ⟨ts, hreads, .expression hderives, hdecode⟩
    · exact (gives_unexpected.mp hbranch).elim

end Statements

theorem blockWithin_sound (depth : Nat) : SoundBlock (blockWithin depth) := by
  induction depth with
  | zero => exact fun c b c' _ h => (gives_unexpected.mp h).elim
  | succ depth ih => exact blockOf_sound (statement_sound ih)

theorem block_sound : SoundBlock block := by
  intro c b c' hc h
  simp only [block, gives_bind, gives_bound] at h
  obtain ⟨_, _, ⟨rfl, rfl⟩, h⟩ := h
  exact blockWithin_sound _ _ _ _ hc h

/-! ## Objects -/

theorem stringName_sound : SoundPhrase stringName DerivesName := by
  intro c name c' hc h
  simp only [stringName, gives_bind, gives_current] at h
  obtain ⟨_, _, ⟨rfl, rfl⟩, h⟩ := h
  split at h
  · next raw htoken =>
    simp only [gives_bind, gives_pure] at h
    obtain ⟨l, c₁, hadvance, bytes, _, hdecoded, rfl, rfl⟩ := h
    obtain ⟨hbytes, rfl⟩ := decoded_sound hdecoded
    obtain ⟨rfl, -⟩ := gives_advance.mp hadvance
    have hl : c.current = ⟨.string raw, c.current.span⟩ := by rw [← htoken]
    have hreads := advance_sound hc hadvance (by simp [htoken])
    have hdenotes : (Token.string raw).HasBytes bytes := Text.decodeString_eq_ok_iff.mp hbytes
    rw [hl] at hreads
    exact ⟨_, hreads, .mk _ hdenotes, List.forall_mem_singleton.mpr hdenotes.decodes⟩
  · exact (gives_unexpected.mp h).elim

theorem dataSection_sound : SoundPhrase dataSection DerivesData := by
  intro c d c' hc h
  simp only [dataSection, gives_bind, gives_spanFrom, gives_pure] at h
  obtain ⟨_, c₁, hk, name, c₂, hname, l, c₃, hl, bytes, _, hdata, _, _, ⟨rfl, rfl⟩, rfl, rfl⟩ := h
  obtain ⟨hbytes, rfl⟩ := dataValue_sound hdata
  obtain ⟨k, rfl, hreads⟩ := word_sound hc hk
  have hc₁ := hreads.ended hc
  obtain ⟨ns, hreads₁, hname, hns⟩ := stringName_sound _ _ _ hc₁ hname
  have hreads₂ := advance_sound (hreads₁.ended hc₁) hl hbytes.ne_endOfInput
  have hall : Reads c (wordLexeme "data" k :: (ns ++ [l])) 0 c₃ :=
    hreads.trans (hreads₁.trans hreads₂)
  refine ⟨_, hall, ?_, by simp [hns, hbytes.decodes]⟩
  rw [hall.spanOf_eq]
  exact .mk k l hname hbytes rfl

/-- The specification of parsers of objects. -/
abbrev SoundObject (p : Parser Object) : Prop :=
  Sound p DerivesObject fun o => o.blocks.length

theorem objectItems_sound {object : Parser Object} (hobject : SoundObject object) (n : Nat) :
    Sound (objectItems object n) (fun n ts parts => DerivesParts n ts parts.1 parts.2)
      fun parts => (blocksOfObjects parts.1).length := by
  induction n with
  | zero =>
    intro c parts c' hc h
    obtain ⟨rfl, rfl⟩ := gives_pure.mp h
    exact ⟨[], .refl c, .nil, allDecode_nil⟩
  | succ n ih =>
    intro c parts c' hc h
    simp only [objectItems, gives_bind, gives_current] at h
    obtain ⟨_, _, ⟨rfl, rfl⟩, h⟩ := h
    split at h
    · obtain ⟨rfl, rfl⟩ := gives_pure.mp h
      exact ⟨[], .refl c, .nil, allDecode_nil⟩
    · simp only [gives_bind, gives_pure] at h
      obtain ⟨o, c₁, ho, ⟨objects, data⟩, _, hparts, rfl, rfl⟩ := h
      obtain ⟨ts, hreads, hderives, hdecode⟩ := hobject _ _ _ hc ho
      obtain ⟨us, hreads', hrest, hdecode'⟩ := ih _ _ _ (hreads.ended hc) hparts
      rw [hreads.nextBlock] at hrest
      exact ⟨_, (hreads.trans hreads').cast (by simp [blocksOfObjects]), .object hderives hrest,
        allDecode_append.mpr ⟨hdecode, hdecode'⟩⟩
    · simp only [gives_bind, gives_pure] at h
      obtain ⟨d, c₁, hd, ⟨objects, data⟩, _, hparts, rfl, rfl⟩ := h
      obtain ⟨ts, hreads, hderives, hdecode⟩ := dataSection_sound _ _ _ hc hd
      obtain ⟨us, hreads', hrest, hdecode'⟩ := ih _ _ _ (hreads.ended hc) hparts
      rw [hreads.nextBlock] at hrest
      exact ⟨_, (hreads.trans hreads').cast (by simp), .data hderives hrest,
        allDecode_append.mpr ⟨hdecode, hdecode'⟩⟩
    · exact (gives_unexpected.mp h).elim

theorem objectWithin_sound (depth : Nat) : SoundObject (objectWithin depth) := by
  induction depth with
  | zero => exact fun c o c' _ h => (gives_unexpected.mp h).elim
  | succ depth ih =>
    intro c o c' hc h
    simp only [objectWithin, gives_bind, gives_bound, gives_spanFrom, gives_pure] at h
    obtain ⟨_, c₁, hk, name, c₂, hname, _, c₃, hopen, _, c₄, hcode, code, c₅, hblock, _, _, ⟨rfl, rfl⟩,
      ⟨objects, data⟩, c₆, hparts, _, c₇, hclose, _, _, ⟨rfl, rfl⟩, rfl, rfl⟩ := h
    obtain ⟨k, rfl, hreads₁⟩ := word_sound hc hk
    have hc₁ := hreads₁.ended hc
    obtain ⟨ns, hreads₂, hname, hns⟩ := stringName_sound _ _ _ hc₁ hname
    have hc₂ := hreads₂.ended hc₁
    obtain ⟨opening, rfl, hreads₃⟩ := mark_sound hc₂ hopen
    have hc₃ := hreads₃.ended hc₂
    obtain ⟨word, rfl, hreads₄⟩ := word_sound hc₃ hcode
    have hc₄ := hreads₄.ended hc₃
    obtain ⟨cs, hreads₅, hblock, hcs⟩ := block_sound _ _ _ hc₄ hblock
    have hc₅ := hreads₅.ended hc₄
    obtain ⟨us, hreads₆, hparts, hus⟩ := objectItems_sound ih _ _ _ _ hc₅ hparts
    obtain ⟨closing, rfl, hreads₇⟩ := mark_sound (hreads₆.ended hc₅) hclose
    have hhead := hreads₁.trans (hreads₂.trans (hreads₃.trans hreads₄))
    have hall : Reads c (wordLexeme "object" k :: (ns ++ Punct.lbrace.lexeme opening ::
        wordLexeme "code" word :: (cs ++ (us ++ [Punct.rbrace.lexeme closing]))))
        (code.blocks ++ blocksOfObjects objects).length c₇ := by
      refine ((hreads₁.trans (hreads₂.trans (hreads₃.trans (hreads₄.trans (hreads₅.trans
        (hreads₆.trans hreads₇)))))).cast ?_)
      simp
    rw [(hhead.trans hreads₅).nextBlock] at hparts
    rw [hhead.nextBlock] at hblock
    refine ⟨_, hall, ?_, by simp [hns, hcs, hus]⟩
    rw [hall.spanOf_eq]
    exact .mk k opening word closing hname hblock (by simpa using hparts) rfl

/-! ## Whole sources -/

theorem endOfInput_sound {u : Unit} (h : Gives endOfInput c u c') :
    c.current.token = .endOfInput := by
  simp only [endOfInput, expect, gives_bind, gives_current] at h
  obtain ⟨_, _, ⟨_, _, ⟨rfl, rfl⟩, h⟩, -⟩ := h
  split at h
  · next htoken => exact htoken
  · exact (gives_unexpected.mp h).elim

theorem rest_of_endOfInput (hc : Ended c.ahead) (h : c.current.token = .endOfInput) : c.rest = [] := by
  obtain ⟨⟨token, span⟩, rest, previous, nextBlock, names⟩ := c
  obtain rfl : token = .endOfInput := h
  cases hc with
  | last => rfl
  | cons hne _ => exact absurd rfl (hne span)

theorem wholeBlock_sound {b : Block} (hc : Ended c.ahead) (h : Gives wholeBlock c b c') :
    ∃ ts span, c.ahead = ts.map Item.lexeme ++ [.lexeme ⟨.endOfInput, span⟩] ∧
      DerivesBlock c.nextBlock ts b ∧ AllDecode ts := by
  simp only [wholeBlock, gives_bind, gives_pure] at h
  obtain ⟨_, c₁, hb, _, _, hend, rfl, rfl⟩ := h
  obtain ⟨ts, hreads, hderives, hdecode⟩ := block_sound _ _ _ hc hb
  have htoken := endOfInput_sound hend
  refine ⟨ts, c₁.current.span, ?_, hderives, hdecode⟩
  rw [hreads.ahead, Cursor.ahead, rest_of_endOfInput (hreads.ended hc) htoken, ← htoken]

theorem wholeObject_sound {o : Object} (hc : Ended c.ahead) (hfirst : c.nextBlock = 0)
    (h : Gives wholeObject c o c') :
    ∃ ts span, c.ahead = ts.map Item.lexeme ++ [.lexeme ⟨.endOfInput, span⟩] ∧
      DerivesProgram ts o ∧ AllDecode ts := by
  simp only [wholeObject, gives_bind, gives_pure] at h
  obtain ⟨_, c₁, ho, _, _, hend, rfl, rfl⟩ := h
  have htoken := endOfInput_sound hend
  have hahead {ts : List Lexeme} {k : Nat} (hreads : Reads c ts k c₁) :
      c.ahead = ts.map Item.lexeme ++ [.lexeme ⟨.endOfInput, c₁.current.span⟩] := by
    rw [hreads.ahead, Cursor.ahead, rest_of_endOfInput (hreads.ended hc) htoken, ← htoken]
  simp only [objectOrBlock, gives_bind, gives_current] at ho
  obtain ⟨_, _, ⟨rfl, rfl⟩, ho⟩ := ho
  split at ho
  · simp only [object, gives_bind, gives_bound] at ho
    obtain ⟨_, _, ⟨rfl, rfl⟩, ho⟩ := ho
    obtain ⟨ts, hreads, hderives, hdecode⟩ := objectWithin_sound _ _ _ _ hc ho
    exact ⟨ts, _, hahead hreads, .object (hfirst ▸ hderives), hdecode⟩
  · simp only [gives_bind, gives_pure] at ho
    obtain ⟨b, _, hb, rfl, rfl⟩ := ho
    obtain ⟨ts, hreads, hderives, hdecode⟩ := block_sound _ _ _ hc hb
    exact ⟨ts, _, hahead hreads, .block (hfirst ▸ hderives), hdecode⟩

end Parser

end Yul
