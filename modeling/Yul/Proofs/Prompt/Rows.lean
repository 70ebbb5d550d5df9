import Mathlib.Computability.Language
import Mathlib.Order.CompletePartialOrder
import Yul.Proofs.Layout.Lexing
import Yul.Proofs.Parse.CompleteBlocks

/-!
# Rows of tokens as languages

What can be derived from a nonterminal of the grammar, as a language whose letters are tokens at any
places. A production is an inequality here: the product of the languages of its parts is within the
language of its left side. The parts of productions have rows that can be spelled (`Fillable`), so a
row that the first parts of a production begin can be completed.
-/

namespace Yul

variable {α : Type}

/-! ## Languages of tokens -/

/-- The rows from which something can be derived, whatever the number of the first block in it. -/
def rows (R : Nat → List Lexeme → α → Prop) : Language Lexeme :=
  {ts | ∀ n, ∃ a, R n ts a}

/-- The same for something without blocks. -/
def phrases (R : List Lexeme → α → Prop) : Language Lexeme :=
  {ts | ∃ a, R ts a}

/-- One token with some property. -/
def oneOf (P : Token → Prop) : Language Lexeme :=
  {ts | ∃ l, P l.token ∧ ts = [l]}

/-- One token at any place. -/
def Token.row (t : Token) : Language Lexeme :=
  oneOf (· = t)

abbrev Punct.row (p : Punct) : Language Lexeme :=
  (Token.punct p).row

abbrev Keyword.row (k : Keyword) : Language Lexeme :=
  (Token.keyword k).row

/-- An identifier that is a keyword in its place. -/
abbrev wordRow (text : String) : Language Lexeme :=
  (Token.identifier text).row

/-- The arms of a switch that has some. -/
def someArms : Language Lexeme :=
  rows fun n ts arms => DerivesArms n ts arms ∧ arms ≠ []

/-- The parts of an object behind its code. -/
def partRows : Language Lexeme :=
  rows fun n ts (parts : List Object × List DataSection) => DerivesParts n ts parts.1 parts.2

theorem mem_oneOf {P : Token → Prop} {l : Lexeme} : [l] ∈ oneOf P ↔ P l.token := by
  constructor
  · rintro ⟨_, hP, ⟨⟩⟩
    exact hP
  · exact fun hP => ⟨l, hP, rfl⟩

theorem nil_notMem_oneOf {P : Token → Prop} : [] ∉ oneOf P := by
  rintro ⟨_, _, ⟨⟩⟩

/-! ## Productions -/

section Lists

variable {R : List Lexeme → α → Prop}

theorem afterCommas_nil : [] ∈ phrases (DerivesAfterCommas R) :=
  ⟨_, .nil⟩

theorem afterCommas_cons : Punct.comma.row * (phrases R * phrases (DerivesAfterCommas R)) ≤
    phrases (DerivesAfterCommas R) := by
  rintro _ ⟨_, ⟨⟨_, comma⟩, rfl, rfl⟩, _, ⟨ts, ⟨a, ha⟩, us, ⟨as, has⟩, rfl⟩, rfl⟩
  have hderives := DerivesAfterCommas.cons comma ha has
  exact ⟨a :: as, hderives⟩

theorem commas_rows : phrases R * phrases (DerivesAfterCommas R) ≤ phrases (DerivesCommas R) := by
  rintro _ ⟨ts, ⟨a, ha⟩, us, ⟨as, has⟩, rfl⟩
  exact ⟨_, .mk ha has⟩

theorem optional_nil : [] ∈ phrases (DerivesOptional R) :=
  ⟨_, .none⟩

theorem optional_commas : phrases (DerivesCommas R) ≤ phrases (DerivesOptional R) := by
  rintro ts ⟨as, has⟩
  exact ⟨as, .some has⟩

end Lists

theorem identifier_rows :
    oneOf (fun t => ∃ name, t = .identifier name) ≤ phrases DerivesIdentifier := by
  rintro _ ⟨⟨_, span⟩, ⟨name, rfl⟩, rfl⟩
  exact ⟨_, .mk ⟨name, span⟩⟩

theorem type_nil : [] ∈ phrases DerivesType :=
  ⟨_, .none⟩

theorem type_rows : Punct.colon.row * phrases DerivesIdentifier ≤ phrases DerivesType := by
  rintro _ ⟨_, ⟨⟨_, colon⟩, rfl, rfl⟩, _, ⟨x, ⟨⟩⟩, rfl⟩
  exact ⟨_, .some colon x⟩

theorem typedName_rows :
    phrases DerivesIdentifier * phrases DerivesType ≤ phrases DerivesTypedName := by
  rintro _ ⟨_, ⟨x, ⟨⟩⟩, us, ⟨type, htype⟩, rfl⟩
  exact ⟨_, .mk x htype rfl⟩

theorem literal_rows :
    oneOf (fun t => ∃ value, t.HasValue value) * phrases DerivesType ≤
      phrases DerivesLiteral := by
  rintro _ ⟨_, ⟨l, ⟨value, hvalue⟩, rfl⟩, us, ⟨type, htype⟩, rfl⟩
  exact ⟨_, .mk l hvalue htype rfl⟩

theorem expr_literal : phrases DerivesLiteral ≤ phrases DerivesExpr := by
  rintro ts ⟨l, hl⟩
  exact ⟨_, .literal hl⟩

theorem expr_identifier : phrases DerivesIdentifier ≤ phrases DerivesExpr := by
  rintro ts ⟨x, hx⟩
  exact ⟨_, .identifier hx⟩

theorem expr_call : phrases DerivesIdentifier *
    (Punct.lparen.row * (phrases (DerivesOptional DerivesExpr) * Punct.rparen.row)) ≤
      phrases DerivesExpr := by
  rintro _ ⟨_, ⟨f, ⟨⟩⟩, _, ⟨_, ⟨⟨_, opening⟩, rfl, rfl⟩, _,
    ⟨us, ⟨args, hargs⟩, _, ⟨⟨_, closing⟩, rfl, rfl⟩, rfl⟩, rfl⟩, rfl⟩
  exact ⟨_, .call f opening closing hargs rfl⟩

theorem returns_nil : [] ∈ phrases DerivesReturns :=
  ⟨_, .none⟩

theorem returns_rows :
    Punct.arrow.row * phrases (DerivesCommas DerivesTypedName) ≤ phrases DerivesReturns := by
  rintro _ ⟨_, ⟨⟨_, arrow⟩, rfl, rfl⟩, ts, ⟨xs, hxs⟩, rfl⟩
  exact ⟨_, .some arrow hxs⟩

theorem initial_nil : [] ∈ phrases DerivesInitial :=
  ⟨_, .none⟩

theorem initial_rows : Punct.assign.row * phrases DerivesExpr ≤ phrases DerivesInitial := by
  rintro _ ⟨_, ⟨⟨_, assign⟩, rfl, rfl⟩, ts, ⟨e, he⟩, rfl⟩
  exact ⟨_, .some assign he⟩

theorem block_rows :
    Punct.lbrace.row * (rows DerivesStmts * Punct.rbrace.row) ≤ rows DerivesBlock := by
  rintro _ ⟨_, ⟨⟨_, opening⟩, rfl, rfl⟩, _, ⟨us, hus, _, ⟨⟨_, closing⟩, rfl, rfl⟩, rfl⟩, rfl⟩ n
  obtain ⟨ss, hss⟩ := hus (n + 1)
  exact ⟨_, .mk opening closing hss rfl⟩

theorem stmts_nil : [] ∈ rows DerivesStmts :=
  fun _ => ⟨_, .nil⟩

theorem stmts_cons : rows DerivesStmt * rows DerivesStmts ≤ rows DerivesStmts := by
  rintro _ ⟨ts, hts, us, hus, rfl⟩ n
  obtain ⟨s, hs⟩ := hts n
  obtain ⟨ss, hss⟩ := hus (n + s.blocks.length)
  exact ⟨_, .cons hs hss⟩

theorem stmt_block : rows DerivesBlock ≤ rows DerivesStmt := by
  intro ts hts n
  obtain ⟨b, hb⟩ := hts n
  exact ⟨_, .block hb⟩

theorem stmt_function : Keyword.function.row * (phrases DerivesIdentifier * (Punct.lparen.row *
    (phrases (DerivesOptional DerivesTypedName) * (Punct.rparen.row *
      (phrases DerivesReturns * rows DerivesBlock))))) ≤ rows DerivesStmt := by
  rintro _ ⟨_, ⟨⟨_, k⟩, rfl, rfl⟩, _, ⟨_, ⟨name, ⟨⟩⟩, _, ⟨_, ⟨⟨_, opening⟩, rfl, rfl⟩, _,
    ⟨ps, ⟨params, hparams⟩, _, ⟨_, ⟨⟨_, closing⟩, rfl, rfl⟩, _, ⟨rs, ⟨returns, hreturns⟩, bs, hbs,
      rfl⟩, rfl⟩, rfl⟩, rfl⟩, rfl⟩, rfl⟩ n
  obtain ⟨body, hbody⟩ := hbs n
  exact ⟨_, .function k opening closing name hparams hreturns hbody rfl⟩

theorem stmt_declaration : Keyword.letVar.row * (phrases (DerivesCommas DerivesTypedName) *
    phrases DerivesInitial) ≤ rows DerivesStmt := by
  rintro _ ⟨_, ⟨⟨_, k⟩, rfl, rfl⟩, _, ⟨xs, ⟨declared, hdeclared⟩, vs, ⟨value, hvalue⟩, rfl⟩, rfl⟩ n
  exact ⟨_, .declaration k hdeclared hvalue rfl⟩

theorem stmt_ifThen :
    Keyword.ifTest.row * (phrases DerivesExpr * rows DerivesBlock) ≤ rows DerivesStmt := by
  rintro _ ⟨_, ⟨⟨_, k⟩, rfl, rfl⟩, _, ⟨es, ⟨e, he⟩, bs, hbs, rfl⟩, rfl⟩ n
  obtain ⟨body, hbody⟩ := hbs n
  exact ⟨_, .ifThen k he hbody rfl⟩

theorem stmt_switch :
    Keyword.switch.row * (phrases DerivesExpr * someArms) ≤ rows DerivesStmt := by
  rintro _ ⟨_, ⟨⟨_, k⟩, rfl, rfl⟩, _, ⟨es, ⟨e, he⟩, us, hus, rfl⟩, rfl⟩ n
  obtain ⟨arms, harms, hsome⟩ := hus n
  exact ⟨_, .switch k he harms hsome rfl⟩

theorem stmt_forLoop : Keyword.forLoop.row * (rows DerivesBlock * (phrases DerivesExpr *
    (rows DerivesBlock * rows DerivesBlock))) ≤ rows DerivesStmt := by
  rintro _ ⟨_, ⟨⟨_, k⟩, rfl, rfl⟩, _, ⟨is, his, _, ⟨es, ⟨e, he⟩, _, ⟨ps, hps, bs, hbs, rfl⟩, rfl⟩,
    rfl⟩, rfl⟩ n
  obtain ⟨init, hinit⟩ := his n
  obtain ⟨post, hpost⟩ := hps (n + init.blocks.length)
  obtain ⟨body, hbody⟩ := hbs (n + init.blocks.length + post.blocks.length)
  exact ⟨_, .forLoop k hinit he hpost hbody rfl⟩

theorem stmt_breakLoop : Keyword.breakLoop.row ≤ rows DerivesStmt := by
  rintro _ ⟨⟨_, k⟩, rfl, rfl⟩ n
  exact ⟨_, .breakLoop k rfl⟩

theorem stmt_continueLoop : Keyword.continueLoop.row ≤ rows DerivesStmt := by
  rintro _ ⟨⟨_, k⟩, rfl, rfl⟩ n
  exact ⟨_, .continueLoop k rfl⟩

theorem stmt_leave : Keyword.leave.row ≤ rows DerivesStmt := by
  rintro _ ⟨⟨_, k⟩, rfl, rfl⟩ n
  exact ⟨_, .leave k rfl⟩

theorem stmt_assignment : phrases DerivesIdentifier * (phrases (DerivesAfterCommas DerivesIdentifier) *
    (Punct.assign.row * phrases DerivesExpr)) ≤ rows DerivesStmt := by
  rintro _ ⟨xs, ⟨x, hx⟩, _, ⟨us, ⟨others, hothers⟩, _, ⟨_, ⟨⟨_, assign⟩, rfl, rfl⟩, es, ⟨e, he⟩, rfl⟩,
    rfl⟩, rfl⟩ n
  exact ⟨_, .assignment assign (.mk hx hothers) he (List.append_assoc _ _ _).symm⟩

theorem stmt_expression : phrases DerivesExpr ≤ rows DerivesStmt := by
  rintro ts ⟨e, he⟩ n
  exact ⟨_, .expression he⟩

theorem arms_nil : [] ∈ rows DerivesArms :=
  fun _ => ⟨_, .nil⟩

theorem arms_default : Keyword.defaultArm.row * rows DerivesBlock ≤ someArms := by
  rintro _ ⟨_, ⟨⟨_, k⟩, rfl, rfl⟩, bs, hbs, rfl⟩ n
  obtain ⟨body, hbody⟩ := hbs n
  exact ⟨_, .default k hbody rfl, List.cons_ne_nil _ _⟩

theorem arms_case : Keyword.caseArm.row * (phrases DerivesLiteral * (rows DerivesBlock *
    rows DerivesArms)) ≤ someArms := by
  rintro _ ⟨_, ⟨⟨_, k⟩, rfl, rfl⟩, _, ⟨ls, ⟨l, hl⟩, _, ⟨bs, hbs, us, hus, rfl⟩, rfl⟩, rfl⟩ n
  obtain ⟨body, hbody⟩ := hbs n
  obtain ⟨arms, harms⟩ := hus (n + body.blocks.length)
  refine ⟨_, ?_, List.cons_ne_nil ⟨some l, body, spanOf (Keyword.caseArm.lexeme k :: (ls ++ bs))⟩ arms⟩
  have hderives := DerivesArms.case k hl hbody harms rfl
  rwa [List.cons_append, List.append_assoc] at hderives

theorem arms_some : someArms ≤ rows DerivesArms := by
  intro ts hts n
  obtain ⟨arms, harms, -⟩ := hts n
  exact ⟨arms, harms⟩

theorem name_rows : oneOf (fun t => ∃ raw bytes, t = .string raw ∧ t.HasBytes bytes) ≤
    phrases DerivesName := by
  rintro _ ⟨⟨_, span⟩, ⟨raw, bytes, rfl, hbytes⟩, rfl⟩
  exact ⟨_, .mk span hbytes⟩

theorem data_rows : wordRow "data" * (phrases DerivesName *
    oneOf fun t => ∃ bytes, t.HasBytes bytes) ≤ phrases DerivesData := by
  rintro _ ⟨_, ⟨⟨_, k⟩, rfl, rfl⟩, _, ⟨ns, ⟨name, hname⟩, _, ⟨l, ⟨bytes, hbytes⟩, rfl⟩, rfl⟩, rfl⟩
  exact ⟨_, .mk k l hname hbytes rfl⟩

theorem parts_nil : [] ∈ partRows :=
  fun _ => ⟨([], []), .nil⟩

theorem parts_object : rows DerivesObject * partRows ≤ partRows := by
  rintro _ ⟨ts, hts, us, hus, rfl⟩ n
  obtain ⟨o, ho⟩ := hts n
  obtain ⟨⟨objects, data⟩, hparts⟩ := hus (n + o.blocks.length)
  exact ⟨(o :: objects, data), .object ho hparts⟩

theorem parts_data : phrases DerivesData * partRows ≤ partRows := by
  rintro _ ⟨ts, ⟨d, hd⟩, us, hus, rfl⟩ n
  obtain ⟨⟨objects, data⟩, hparts⟩ := hus n
  exact ⟨(objects, d :: data), .data hd hparts⟩

theorem object_rows : wordRow "object" * (phrases DerivesName * (Punct.lbrace.row *
    (wordRow "code" * (rows DerivesBlock * (partRows * Punct.rbrace.row))))) ≤ rows DerivesObject := by
  rintro _ ⟨_, ⟨⟨_, k⟩, rfl, rfl⟩, _, ⟨ns, ⟨name, hname⟩, _, ⟨_, ⟨⟨_, opening⟩, rfl, rfl⟩, _,
    ⟨_, ⟨⟨_, word⟩, rfl, rfl⟩, _, ⟨cs, hcs, _, ⟨us, hus, _, ⟨⟨_, closing⟩, rfl, rfl⟩, rfl⟩, rfl⟩, rfl⟩,
    rfl⟩, rfl⟩, rfl⟩ n
  obtain ⟨code, hcode⟩ := hcs n
  obtain ⟨⟨objects, data⟩, hparts⟩ := hus (n + code.blocks.length)
  exact ⟨_, .mk k opening word closing hname hcode hparts rfl⟩

theorem program_block : rows DerivesBlock ≤ phrases DerivesProgram := by
  intro ts hts
  obtain ⟨b, hb⟩ := hts 0
  exact ⟨_, .block hb⟩

theorem program_object : rows DerivesObject ≤ phrases DerivesProgram := by
  intro ts hts
  obtain ⟨o, ho⟩ := hts 0
  exact ⟨o, .object ho⟩

/-! ## Parts that are not empty -/

theorem nil_notMem_stmt : [] ∉ rows DerivesStmt := by
  intro h
  obtain ⟨s, hs⟩ := h 0
  obtain ⟨l, rest, ⟨⟩, -⟩ := hs.starts

theorem nil_notMem_data : [] ∉ phrases DerivesData := by
  rintro ⟨d, hd⟩
  obtain ⟨k, rest, ⟨⟩⟩ := hd.starts

theorem nil_notMem_object : [] ∉ rows DerivesObject := by
  intro h
  obtain ⟨o, ho⟩ := h 0
  obtain ⟨k, rest, ⟨⟩⟩ := ho.starts

/-! ## Rows that can be spelled -/

/-- A token that some source has. -/
def Token.Occurs (t : Token) : Prop :=
  ∃ text, t.ReadFrom text

/-- Tokens that can stand in a source. -/
def Spellable (ts : List Lexeme) : Prop :=
  ∀ l ∈ ts, l.token.Occurs

/-- Some row of a language can be spelled. -/
def Fillable (L : Language Lexeme) : Prop :=
  ∃ ts ∈ L, Spellable ts

theorem Spellable.nil : Spellable [] :=
  List.forall_mem_nil _

theorem Spellable.append {ts us : List Lexeme} (h : Spellable ts) (h' : Spellable us) :
    Spellable (ts ++ us) :=
  List.forall_mem_append.mpr ⟨h, h'⟩

theorem occurs_of_mem_items {source : String} {l : Lexeme} (h : .lexeme l ∈ items source)
    (hl : l.token ≠ .endOfInput) : l.token.Occurs := by
  obtain ⟨is, hlocate, htiles⟩ := locate_tile [] source.toList
  change .lexeme l ∈ locate (Text.byteLength []) (tile source.toList) at h
  rw [hlocate, List.mem_append] at h
  rcases h with hmem | hmem
  · obtain ⟨before, mine, rest, -, hstands⟩ := htiles.stands _ hmem
    obtain ⟨c, v, rfl⟩ := List.exists_cons_of_ne_nil hstands.ne_nil
    exact ⟨String.ofList (c :: v), c, v, rest, String.toList_ofList, hstands.reads⟩
  · obtain ⟨⟩ := List.mem_singleton.mp hmem
    exact absurd rfl hl

/-- Tokens that can be spelled are those of some source. -/
theorem exists_source {tokens : List Token} (h : ∀ t ∈ tokens, t.Occurs) :
    ∃ source ts, Lexes source ts ∧ ts.map Lexeme.token = tokens := by
  have hspelled : ∃ w, Stops w ∧ ReadsTokens w tokens := by
    induction tokens with
    | nil => exact ⟨[], fun _ hc => absurd hc (by simp), .nil⟩
    | cons t tokens ih =>
      obtain ⟨⟨text, ht⟩, hrest⟩ := List.forall_mem_cons.mp h
      obtain ⟨w, hstops, hreads⟩ := ih hrest
      have hgap : Pattern.Gaps [' '] := .blank rfl .nil
      exact ⟨_, hgap.stops (by simp), hreads.text ht hgap hstops⟩
  obtain ⟨w, -, hreads⟩ := hspelled
  obtain ⟨ts, span, hlocate, htokens⟩ := hreads 0
  refine ⟨String.ofList w, ts, ⟨span, ?_⟩, htokens⟩
  rw [items, String.toList_ofList, hlocate]

theorem Token.Occurs.of_pattern {t : Token} (text : String) (hne : text.toList ≠ [])
    (hpattern : text.toList ∈ t.pattern)
    (hpayload : ∀ payload, t.payload? = some payload → payload = text)
    (hkeyword : ∀ k, Keyword.ofText? text = some k → t = .keyword k) : t.Occurs := by
  obtain ⟨c, v, htext⟩ := List.exists_cons_of_ne_nil hne
  refine ⟨text, c, v, [], htext, ?_⟩
  rw [← htext]
  refine ⟨hpattern, fun payload h => congrArg String.toList (hpayload payload h), fun k hk => ?_, ?_⟩
  · apply hkeyword
    rw [← String.toList_inj.mp hk, k.ofText?_text]
  · intro w hw _
    rw [List.append_nil] at hw
    exact hw.length_le

theorem Token.Occurs.keyword (k : Keyword) : (Token.keyword k).Occurs := by
  have hne : k.text.toList ≠ [] := by cases k <;> exact nofun
  refine .of_pattern k.text hne rfl nofun fun k' hk => ?_
  rw [k.ofText?_text] at hk
  exact congrArg Token.keyword (Option.some.inj hk)

theorem Token.Occurs.punct (p : Punct) : (Token.punct p).Occurs := by
  have hne : p.text.toList ≠ [] := by cases p <;> exact nofun
  have hword : Keyword.ofText? p.text = none := by cases p <;> rfl
  refine .of_pattern p.text hne rfl nofun fun k hk => ?_
  rw [hword] at hk
  cases hk

theorem Token.Occurs.identifier {c : Char} {v : List Char} (hc : isNameStart c = true)
    (hv : v.all isNamePart = true) (hword : Keyword.ofText? (String.ofList (c :: v)) = none) :
    (Token.identifier (String.ofList (c :: v))).Occurs := by
  have htext : (String.ofList (c :: v)).toList = c :: v := String.toList_ofList
  refine .of_pattern _ (by simp) (Pattern.mem_identifier.mpr ⟨c, v, hc, List.all_eq_true.mp hv, htext⟩)
    (fun _ h => (Option.some.inj h).symm) fun k hk => ?_
  rw [hword] at hk
  cases hk

namespace Fillable

variable {L M : Language Lexeme}

theorem mono (h : Fillable L) (hLM : L ≤ M) : Fillable M := by
  obtain ⟨ts, hts, hspell⟩ := h
  exact ⟨ts, hLM hts, hspell⟩

theorem mul (h : Fillable L) (h' : Fillable M) : Fillable (L * M) := by
  obtain ⟨ts, hts, hspell⟩ := h
  obtain ⟨us, hus, hspell'⟩ := h'
  exact ⟨ts ++ us, Language.append_mem_mul hts hus, hspell.append hspell'⟩

theorem of_nil (h : [] ∈ L) : Fillable L :=
  ⟨[], h, .nil⟩

theorem token {P : Token → Prop} {t : Token} (h : t.Occurs) (hP : P t) : Fillable (oneOf P) :=
  ⟨[⟨t, ⟨0, 0⟩⟩], ⟨_, hP, rfl⟩, List.forall_mem_singleton.mpr h⟩

theorem punct (p : Punct) : Fillable p.row :=
  token (.punct p) rfl

theorem keyword (k : Keyword) : Fillable k.row :=
  token (.keyword k) rfl

theorem word {c : Char} {v : List Char} (hc : isNameStart c = true) (hv : v.all isNamePart = true)
    (hword : Keyword.ofText? (String.ofList (c :: v)) = none) :
    Fillable (wordRow (String.ofList (c :: v))) :=
  token (.identifier hc hv hword) rfl

theorem codeWord : Fillable (wordRow "code") :=
  word (c := 'c') (v := ['o', 'd', 'e']) rfl rfl rfl

theorem dataWord : Fillable (wordRow "data") :=
  word (c := 'd') (v := ['a', 't', 'a']) rfl rfl rfl

theorem objectWord : Fillable (wordRow "object") :=
  word (c := 'o') (v := ['b', 'j', 'e', 'c', 't']) rfl rfl rfl

theorem identifier : Fillable (phrases DerivesIdentifier) :=
  (token (.identifier (c := 'x') (v := []) rfl rfl rfl) ⟨_, rfl⟩).mono identifier_rows

theorem type : Fillable (phrases DerivesType) :=
  of_nil type_nil

theorem literal : Fillable (phrases DerivesLiteral) := by
  have hzero : (Token.decimalNumber "0").Occurs :=
    .of_pattern "0" nofun (Pattern.mem_plus_one.mpr ⟨nofun, List.all_eq_true.mp rfl⟩)
      (fun _ h => (Option.some.inj h).symm) fun _ hk => nomatch (hk : none = some _)
  exact (mul (token hzero ⟨_, .decimalNumber "0"⟩) type).mono literal_rows

theorem expr : Fillable (phrases DerivesExpr) :=
  identifier.mono expr_identifier

theorem block : Fillable (rows DerivesBlock) :=
  ((punct .lbrace).mul ((of_nil stmts_nil).mul (punct .rbrace))).mono block_rows

theorem stmt : Fillable (rows DerivesStmt) :=
  block.mono stmt_block

theorem someArms : Fillable someArms :=
  ((keyword .defaultArm).mul block).mono arms_default

theorem emptyString {P : Token → Prop} (hP : P (.string "\"\"")) : Fillable (oneOf P) := by
  refine token (t := .string "\"\"") ?_ hP
  exact .of_pattern "\"\"" nofun (Pattern.mem_string.mpr ⟨_, .close, rfl⟩)
    (fun _ h => (Option.some.inj h).symm) fun _ hk => nomatch (hk : none = some _)

theorem emptyString_hasBytes : (Token.string "\"\"").HasBytes [] :=
  ⟨[], rfl, .nil⟩

theorem name : Fillable (phrases DerivesName) :=
  (emptyString ⟨_, _, rfl, emptyString_hasBytes⟩).mono name_rows

theorem dataValue : Fillable (oneOf fun t => ∃ bytes, t.HasBytes bytes) :=
  emptyString ⟨_, emptyString_hasBytes⟩

end Fillable

end Yul
