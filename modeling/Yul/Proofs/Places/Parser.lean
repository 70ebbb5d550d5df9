import Yul.Parse.Object
import Yul.Proofs.Places.Code

/-!
# Parsing the same tokens at other places

A parser decides nothing by places. From two cursors with the same tokens, whose places are related
one by one, it comes to the same tree with related places, or fails with the same error at related
places (`Parser.wholeObject_tracks`, `Parser.wholeBlock_tracks`). The relation has to hold between
spans that are merged from related ones, and at the beginning of a source.
-/

namespace Yul

/-! ## Tokens at related places -/

section Moved

variable (R : Span → Span → Prop)

/-- A relation of places that parsers keep. -/
structure Mergeable : Prop where
  zero : R ⟨0, 0⟩ ⟨0, 0⟩
  merge : ∀ {s s' t t' : Span}, R s s' → R t t' → R (s.merge t) (s'.merge t')

structure Lexeme.Moved (l l' : Lexeme) : Prop where
  token : l.token = l'.token
  span : R l.span l'.span

/-- The same item at another place. -/
inductive Item.Moved : Item → Item → Prop where
  | lexeme {l l' : Lexeme} (h : l.Moved R l') : Item.Moved (.lexeme l) (.lexeme l')
  | bad (text : String) {span span' : Span} (h : R span span') :
      Item.Moved (.bad text span) (.bad text span')

/-- Cursors with the same tokens, blocks and names. -/
structure Cursor.Moved (c c' : Cursor) : Prop where
  current : c.current.Moved R c'.current
  rest : List.Forall₂ (Item.Moved R) c.rest c'.rest
  previous : R c.previous c'.previous
  nextBlock : c.nextBlock = c'.nextBlock
  names : c.names = c'.names

structure SourceError.Moved (e e' : SourceError) : Prop where
  cause : e.cause = e'.cause
  span : R e.span e'.span

namespace Parser

/-- Two parsers read values that `Q` relates, or both fail with the same error. -/
inductive Alike {α β : Type} (Q : α → β → Prop) :
    EStateM.Result SourceError Cursor α → EStateM.Result SourceError Cursor β → Prop where
  | ok {a : α} {b : β} {c c' : Cursor} (value : Q a b) (cursor : c.Moved R c') :
      Alike Q (.ok a c) (.ok b c')
  | error {e e' : SourceError} {c c' : Cursor} (same : e.Moved R e') :
      Alike Q (.error e c) (.error e' c')

/-- From cursors with the same tokens two parsers come to values that `Q` relates. -/
def Tracks {α β : Type} (Q : α → β → Prop) (p : Parser α) (p' : Parser β) : Prop :=
  ∀ c c', c.Moved R c' → Alike R Q (p c) (p' c')

end Parser

end Moved

namespace Parser

variable {R : Span → Span → Prop} {α β γ δ : Type} {Q : α → β → Prop} {S : γ → δ → Prop}

/-! ## Combinators -/

namespace Tracks

theorem pure {a : α} {b : β} (h : Q a b) : Tracks R Q (pure a) (pure b) :=
  fun _ _ hc => .ok h hc

theorem bind {p : Parser α} {p' : Parser β} {f : α → Parser γ} {f' : β → Parser δ}
    (hp : Tracks R Q p p') (hf : ∀ a b, Q a b → Tracks R S (f a) (f' b)) :
    Tracks R S (p >>= f) (p' >>= f') := by
  intro c c' hc
  have hfirst := hp c c' hc
  change Alike R S (EStateM.bind p f c) (EStateM.bind p' f' c')
  rw [EStateM.bind, EStateM.bind]
  generalize p c = result at hfirst
  generalize p' c' = result' at hfirst
  cases hfirst with
  | ok value cursor => exact hf _ _ value _ _ cursor
  | error same => exact .error same

theorem fail {cause : SourceError.Cause} {span span' : Span} (h : R span span') :
    Tracks R Q (fail cause span) (Parser.fail cause span') :=
  fun _ _ _ => .error ⟨rfl, h⟩

theorem ite {b b' : Prop} [Decidable b] [Decidable b'] {p q : Parser α} {p' q' : Parser β}
    (hb : b ↔ b') (hp : b → Tracks R Q p p') (hq : ¬b → Tracks R Q q q') :
    Tracks R Q (if b then p else q) (if b' then p' else q') := by
  by_cases h : b
  · rw [if_pos h, if_pos (hb.mp h)]
    exact hp h
  · rw [if_neg h, if_neg fun h' => h (hb.mpr h')]
    exact hq h

end Tracks

/-! ## Reading tokens -/

theorem current_tracks : Tracks R (Lexeme.Moved R) current current :=
  fun _ _ hc => .ok hc.current hc

theorem advance_tracks : Tracks R (Lexeme.Moved R) advance advance := by
  rintro ⟨l, rest, previous, nextBlock, names⟩ ⟨l', rest', previous', _, _⟩
    ⟨hcurrent, hrest, hprevious, rfl, rfl⟩
  cases hrest with
  | nil => exact .ok hcurrent ⟨hcurrent, .nil, hcurrent.span, rfl, rfl⟩
  | cons hitem hrest =>
    cases hitem with
    | lexeme hnext => exact .ok hcurrent ⟨hnext, hrest, hcurrent.span, rfl, rfl⟩
    | bad text hspan => exact .error ⟨rfl, hspan⟩

theorem unexpected_tracks (what : Expectation) :
    Tracks R Q (unexpected what) (unexpected what) := by
  refine current_tracks.bind fun l l' hl => ?_
  rw [hl.token]
  exact .fail hl.span

theorem accept_tracks (token : Token) : Tracks R Eq (accept token) (accept token) := by
  refine current_tracks.bind fun l l' hl => .ite (by rw [hl.token]) (fun _ => ?_) fun _ => .pure rfl
  exact advance_tracks.bind fun _ _ _ => .pure rfl

theorem expect_tracks (token : Token) (what : Expectation) :
    Tracks R (Lexeme.Moved R) (expect token what) (expect token what) :=
  current_tracks.bind fun _ _ hl => .ite (by rw [hl.token]) (fun _ => advance_tracks)
    fun _ => unexpected_tracks what

theorem endOfInput_tracks : Tracks R Eq endOfInput endOfInput :=
  (expect_tracks _ _).bind fun _ _ _ => .pure rfl

theorem freshBlock_tracks : Tracks R Eq freshBlock freshBlock := by
  rintro ⟨l, rest, previous, nextBlock, names⟩ ⟨l', rest', previous', _, _⟩
    ⟨hcurrent, hrest, hprevious, rfl, rfl⟩
  exact .ok rfl ⟨hcurrent, hrest, hprevious, rfl, rfl⟩

theorem remember_tracks (name : Name) : Tracks R Eq (remember name) (remember name) := by
  rintro ⟨l, rest, previous, nextBlock, names⟩ ⟨l', rest', previous', _, _⟩
    ⟨hcurrent, hrest, hprevious, rfl, rfl⟩
  exact .ok rfl ⟨hcurrent, hrest, hprevious, rfl, rfl⟩

theorem bound_tracks : Tracks R Eq bound bound :=
  fun _ _ hc => .ok (congrArg (· + 1) hc.rest.length_eq) hc

theorem decoded_tracks (bytes : Except Text.LiteralError (List UInt8)) {span span' : Span}
    (h : R span span') : Tracks R Eq (decoded bytes span) (decoded bytes span') := by
  cases bytes with
  | ok bytes => exact .pure rfl
  | error e => exact .fail h

/-! ## Lists -/

section Lists

variable {p : Parser α} {p' : Parser β} (hp : Tracks R Q p p')

include hp

theorem afterCommas_tracks (n : Nat) :
    Tracks R (List.Forall₂ Q) (afterCommas p n) (afterCommas p' n) := by
  induction n with
  | zero => exact .pure .nil
  | succ n ih =>
    refine (accept_tracks _).bind fun _ _ heq => ?_
    refine .ite (by rw [heq]) (fun _ => ?_) fun _ => .pure .nil
    exact hp.bind fun _ _ hfirst => ih.bind fun _ _ hrest => .pure (.cons hfirst hrest)

theorem commaList_tracks : Tracks R (List.Forall₂ Q) (commaList p) (commaList p') := by
  refine hp.bind fun _ _ hfirst => bound_tracks.bind fun n _ heq => ?_
  subst heq
  exact (afterCommas_tracks hp n).bind fun _ _ hrest => .pure (.cons hfirst hrest)

theorem optionalList_tracks : Tracks R (List.Forall₂ Q) (optionalList p) (optionalList p') :=
  current_tracks.bind fun _ _ hl => .ite (by rw [hl.token]) (fun _ => .pure .nil)
    fun _ => commaList_tracks hp

end Lists

/-! ## Expressions -/

theorem identifier_tracks : Tracks R (Identifier.Moved R) identifier identifier := by
  refine advance_tracks.bind fun ⟨token, span⟩ ⟨token', span'⟩ ⟨htoken, hspan⟩ => ?_
  obtain rfl : token = token' := htoken
  cases token with
  | identifier name => exact (remember_tracks name).bind fun _ _ _ => .pure ⟨rfl, hspan⟩
  | _ => exact .fail hspan

theorem optionalType_tracks : Tracks R Eq optionalType optionalType := by
  refine (accept_tracks _).bind fun _ _ heq => .ite (by rw [heq]) (fun _ => ?_) fun _ => .pure rfl
  exact identifier_tracks.bind fun _ _ hx => .pure (congrArg some hx.name)

section Places

variable (hR : Mergeable R)

include hR

theorem spanFrom_tracks {start start' : Span} (h : R start start') :
    Tracks R R (spanFrom start) (spanFrom start') :=
  fun _ _ hc => .ok (hR.merge h hc.previous) hc

theorem typedName_tracks : Tracks R (TypedName.Moved R) typedName typedName :=
  identifier_tracks.bind fun _ _ hx => optionalType_tracks.bind fun _ _ htype =>
    (spanFrom_tracks hR hx.span).bind fun _ _ hspan => .pure ⟨hx.name, htype, hspan⟩

theorem typedNames_tracks : Tracks R (List.Forall₂ (TypedName.Moved R)) typedNames typedNames :=
  commaList_tracks (typedName_tracks hR)

omit hR in
theorem literalValue_tracks {l l' : Lexeme} (hl : l.Moved R l') :
    Tracks R Eq (literalValue l) (literalValue l') := by
  obtain ⟨token, span⟩ := l
  obtain ⟨token', span'⟩ := l'
  obtain ⟨htoken, hspan⟩ := hl
  obtain rfl : token = token' := htoken
  cases token with
  | decimalNumber | hexNumber => exact .pure rfl
  | string | hexString =>
    exact (decoded_tracks _ hspan).bind fun _ _ heq => .pure (congrArg _ heq)
  | keyword k => cases k <;> first | exact .pure rfl | exact .fail hspan
  | punct | identifier | endOfInput => exact .fail hspan

theorem literal_tracks : Tracks R (Literal.Moved R) literal literal :=
  advance_tracks.bind fun _ _ hl => (literalValue_tracks hl).bind fun _ _ hvalue =>
    optionalType_tracks.bind fun _ _ htype => (spanFrom_tracks hR hl.span).bind fun _ _ hspan =>
      .pure ⟨hvalue, htype, hspan⟩

omit hR in
theorem arguments_tracks {p p' : Parser Expr} (hp : Tracks R (Expr.Moved R) p p') :
    Tracks R (MovedExprs R) (arguments p) (arguments p') :=
  (optionalList_tracks hp).bind fun _ _ hargs => (expect_tracks _ _).bind fun _ _ _ =>
    .pure (.of_forall₂ hargs)

theorem afterIdentifier_tracks {p p' : Parser Expr} (hp : Tracks R (Expr.Moved R) p p')
    {x x' : Identifier} (hx : x.Moved R x') :
    Tracks R (Expr.Moved R) (afterIdentifier p x) (afterIdentifier p' x') := by
  refine (accept_tracks _).bind fun _ _ heq => .ite (by rw [heq]) (fun _ => ?_)
    fun _ => .pure (.identifier hx)
  exact (arguments_tracks hp).bind fun _ _ hargs => (spanFrom_tracks hR hx.span).bind
    fun _ _ hspan => .pure (.call hx hargs hspan)

theorem expressionWithin_tracks (depth : Nat) :
    Tracks R (Expr.Moved R) (expressionWithin depth) (expressionWithin depth) := by
  induction depth with
  | zero => exact unexpected_tracks _
  | succ depth ih =>
    refine current_tracks.bind fun _ _ hl => .ite (by rw [hl.token]) (fun _ => ?_) fun _ => ?_
    · exact (literal_tracks hR).bind fun _ _ hl => .pure (.literal hl)
    · exact identifier_tracks.bind fun _ _ hx => afterIdentifier_tracks hR ih hx

theorem expression_tracks : Tracks R (Expr.Moved R) expression expression :=
  bound_tracks.bind fun n _ heq => heq ▸ expressionWithin_tracks hR n

/-! ## Statements -/

omit hR in
theorem statements_tracks {p p' : Parser Stmt} (hp : Tracks R (Stmt.Moved R) p p') (n : Nat) :
    Tracks R (MovedStmts R) (statements p n) (statements p' n) := by
  induction n with
  | zero => exact .pure .nil
  | succ n ih =>
    have hmore : Tracks R (MovedStmts R) (do return (← p) :: (← statements p n))
        (do return (← p') :: (← statements p' n)) :=
      hp.bind fun _ _ hs => ih.bind fun _ _ hrest => .pure (.cons hs hrest)
    refine current_tracks.bind fun ⟨token, span⟩ ⟨token', span'⟩ ⟨htoken, hspan⟩ => ?_
    obtain rfl : token = token' := htoken
    cases token with
    | punct k =>
      cases k with
      | rbrace => exact .pure .nil
      | _ => exact hmore
    | endOfInput => exact unexpected_tracks _
    | _ => exact hmore

theorem blockOf_tracks {p p' : Parser Stmt} (hp : Tracks R (Stmt.Moved R) p p') :
    Tracks R (Block.Moved R) (blockOf p) (blockOf p') := by
  refine (expect_tracks _ _).bind fun _ _ hl => freshBlock_tracks.bind fun id _ hid => ?_
  refine bound_tracks.bind fun n _ hn => ?_
  subst hid hn
  exact (statements_tracks hp n).bind fun _ _ hss => (expect_tracks _ _).bind fun _ _ _ =>
    (spanFrom_tracks hR hl.span).bind fun _ _ hspan => .pure (.mk hss hspan)

theorem returns_tracks : Tracks R (List.Forall₂ (TypedName.Moved R)) returns returns :=
  (accept_tracks _).bind fun _ _ heq => .ite (by rw [heq]) (fun _ => typedNames_tracks hR)
    fun _ => .pure .nil

theorem initialValue_tracks :
    Tracks R (Option.Rel (Expr.Moved R)) initialValue initialValue := by
  refine (accept_tracks _).bind fun _ _ heq => .ite (by rw [heq]) (fun _ => ?_) fun _ => .pure .none
  exact (expression_tracks hR).bind fun _ _ he => .pure (.some he)

theorem identifierStatement_tracks :
    Tracks R (Stmt.Moved R) identifierStatement identifierStatement := by
  refine identifier_tracks.bind fun _ _ hfirst => current_tracks.bind fun _ _ hl => ?_
  refine .ite (by rw [hl.token]) (fun _ => ?_) fun _ => ?_
  · refine bound_tracks.bind fun n _ hn => ?_
    subst hn
    exact (afterCommas_tracks identifier_tracks n).bind fun _ _ hothers =>
      (expect_tracks _ _).bind fun _ _ _ => (expression_tracks hR).bind fun _ _ he =>
        (spanFrom_tracks hR hfirst.span).bind fun _ _ hspan =>
          .pure (.assignment (.cons hfirst hothers) he hspan)
  · exact (afterIdentifier_tracks hR (expression_tracks hR) hfirst).bind fun _ _ he =>
      .pure (.expression he)

section Statements

variable {p p' : Parser Block} (hp : Tracks R (Block.Moved R) p p')

include hp

theorem functionDef_tracks : Tracks R (FunctionDef.Moved R) (functionDef p) (functionDef p') :=
  (expect_tracks _ _).bind fun _ _ _ => identifier_tracks.bind fun _ _ hname =>
    (expect_tracks _ _).bind fun _ _ _ => (optionalList_tracks (typedName_tracks hR)).bind
      fun _ _ hparameters => (expect_tracks _ _).bind fun _ _ _ => (returns_tracks hR).bind
        fun _ _ hreturns => hp.bind fun _ _ hbody => .pure (.mk hname hparameters hreturns hbody)

/-- Arms of the given values with related bodies. -/
def ArmsOf (R : Span → Span → Prop) (value value' : Option Literal) (c c' : Case) : Prop :=
  c.value = value ∧ c'.value = value' ∧ c.body.Moved R c'.body ∧ R c.span c'.span

theorem armBody_tracks (value value' : Option Literal) {start start' : Span} (h : R start start') :
    Tracks R (ArmsOf R value value') (armBody p value start) (armBody p' value' start') :=
  hp.bind fun _ _ hbody =>
    (spanFrom_tracks hR h).bind fun _ _ hspan => .pure ⟨rfl, rfl, hbody, hspan⟩

theorem arms_tracks (n : Nat) : Tracks R (MovedCases R) (arms p n) (arms p' n) := by
  induction n with
  | zero => exact .pure .nil
  | succ n ih =>
    refine current_tracks.bind fun _ _ hstart => (accept_tracks _).bind fun _ _ heq => ?_
    refine .ite (by rw [heq]) (fun _ => ?_) fun _ => (accept_tracks _).bind fun _ _ heq => ?_
    · refine (literal_tracks hR).bind fun l l' hl => ?_
      refine (armBody_tracks hR hp (some l) (some l') hstart.span).bind ?_
      rintro ⟨_, body, span⟩ ⟨_, body', span'⟩ ⟨rfl, rfl, hbody, hspan⟩
      exact ih.bind fun _ _ hrest => .pure (.value hl hbody hspan hrest)
    · refine .ite (by rw [heq]) (fun _ => ?_) fun _ => .pure .nil
      refine (armBody_tracks hR hp none none hstart.span).bind ?_
      rintro ⟨_, body, span⟩ ⟨_, body', span'⟩ ⟨rfl, rfl, hbody, hspan⟩
      have hlast : Tracks R (MovedCases R) (pure [⟨none, body, span⟩])
          (pure [⟨none, body', span'⟩]) :=
        .pure (.default hbody hspan .nil)
      refine current_tracks.bind fun _ _ hnext => ?_
      refine .ite (by rw [hnext.token]) (fun _ => ?_) fun _ => hlast
      exact (Tracks.fail (Q := Eq) hnext.span).bind fun _ _ _ => hlast

theorem statement_tracks : Tracks R (Stmt.Moved R) (statement p) (statement p') := by
  refine current_tracks.bind fun ⟨token, start⟩ ⟨token', start'⟩ ⟨htoken, hstart⟩ => ?_
  obtain rfl : token = token' := htoken
  change R start start' at hstart
  have hspan := spanFrom_tracks hR hstart
  have hliteral : Tracks R (Stmt.Moved R) (do return .expression (← expression))
      (do return .expression (← expression)) :=
    (expression_tracks hR).bind fun _ _ he => .pure (.expression he)
  cases token with
  | punct k =>
    cases k with
    | lbrace => exact hp.bind fun _ _ hb => .pure (.block hb)
    | _ => exact unexpected_tracks _
  | keyword k =>
    cases k with
    | function =>
      exact (functionDef_tracks hR hp).bind fun _ _ hf => hspan.bind fun _ _ hspan =>
        .pure (.function hf hspan)
    | letVar =>
      refine advance_tracks.bind fun _ _ _ => (typedNames_tracks hR).bind fun _ _ hxs => ?_
      refine (initialValue_tracks hR).bind fun _ _ hvalue => hspan.bind fun _ _ hspan => ?_
      cases hvalue with
      | none => exact .pure (.declaration hxs hspan)
      | some he => exact .pure (.definition hxs he hspan)
    | ifTest =>
      exact advance_tracks.bind fun _ _ _ => (expression_tracks hR).bind fun _ _ he =>
        hp.bind fun _ _ hbody => hspan.bind fun _ _ hspan => .pure (.ifThen he hbody hspan)
    | switch =>
      refine advance_tracks.bind fun _ _ _ => (expression_tracks hR).bind fun _ _ he => ?_
      refine bound_tracks.bind fun n _ hn => ?_
      subst hn
      refine (arms_tracks hR hp n).bind fun _ _ harms => hspan.bind fun _ _ hspan => ?_
      cases harms with
      | nil => exact (Tracks.fail (Q := Eq) hspan).bind fun _ _ _ => .pure (.switch he .nil hspan)
      | default hb hs hrest => exact .pure (.switch he (.default hb hs hrest) hspan)
      | value hl hb hs hrest => exact .pure (.switch he (.value hl hb hs hrest) hspan)
    | forLoop =>
      exact advance_tracks.bind fun _ _ _ => hp.bind fun _ _ hinit =>
        (expression_tracks hR).bind fun _ _ he => hp.bind fun _ _ hpost => hp.bind fun _ _ hbody =>
          hspan.bind fun _ _ hspan => .pure (.forLoop hinit he hpost hbody hspan)
    | breakLoop =>
      exact advance_tracks.bind fun _ _ _ => hspan.bind fun _ _ hspan => .pure (.breakLoop hspan)
    | continueLoop =>
      exact advance_tracks.bind fun _ _ _ => hspan.bind fun _ _ hspan => .pure (.continueLoop hspan)
    | leave =>
      exact advance_tracks.bind fun _ _ _ => hspan.bind fun _ _ hspan => .pure (.leave hspan)
    | trueValue | falseValue => exact hliteral
    | caseArm | defaultArm => exact unexpected_tracks _
  | identifier => exact identifierStatement_tracks hR
  | decimalNumber | hexNumber | string | hexString => exact hliteral
  | endOfInput => exact unexpected_tracks _

end Statements

theorem blockWithin_tracks (depth : Nat) :
    Tracks R (Block.Moved R) (blockWithin depth) (blockWithin depth) := by
  induction depth with
  | zero => exact unexpected_tracks _
  | succ depth ih => exact blockOf_tracks hR (statement_tracks hR ih)

theorem block_tracks : Tracks R (Block.Moved R) block block :=
  bound_tracks.bind fun n _ heq => heq ▸ blockWithin_tracks hR n

/-! ## Objects -/

omit hR in
theorem stringName_tracks : Tracks R Eq stringName stringName := by
  refine current_tracks.bind fun ⟨token, span⟩ ⟨token', span'⟩ ⟨htoken, hspan⟩ => ?_
  obtain rfl : token = token' := htoken
  cases token with
  | string raw =>
    exact advance_tracks.bind fun _ _ hl => (decoded_tracks _ hl.span).bind fun _ _ heq =>
      .pure (congrArg _ heq)
  | _ => exact unexpected_tracks _

omit hR in
theorem dataValue_tracks {l l' : Lexeme} (hl : l.Moved R l') :
    Tracks R Eq (dataValue l) (dataValue l') := by
  obtain ⟨token, span⟩ := l
  obtain ⟨token', span'⟩ := l'
  obtain ⟨htoken, hspan⟩ := hl
  obtain rfl : token = token' := htoken
  cases token with
  | string | hexString => exact decoded_tracks _ hspan
  | _ => exact .fail hspan

theorem dataSection_tracks : Tracks R (DataSection.Moved R) dataSection dataSection :=
  (expect_tracks _ _).bind fun _ _ hstart => stringName_tracks.bind fun _ _ hname =>
    advance_tracks.bind fun _ _ hl => (dataValue_tracks hl).bind fun _ _ hvalue =>
      (spanFrom_tracks hR hstart.span).bind fun _ _ hspan => .pure ⟨hname, hvalue, hspan⟩

/-- The parts of an object behind its code. -/
def PartsMoved (R : Span → Span → Prop) (parts parts' : List Object × List DataSection) : Prop :=
  MovedObjects R parts.1 parts'.1 ∧ List.Forall₂ (DataSection.Moved R) parts.2 parts'.2

theorem objectItems_tracks {p p' : Parser Object} (hp : Tracks R (Object.Moved R) p p') (n : Nat) :
    Tracks R (PartsMoved R) (objectItems p n) (objectItems p' n) := by
  induction n with
  | zero => exact .pure ⟨.nil, .nil⟩
  | succ n ih =>
    refine current_tracks.bind fun ⟨token, span⟩ ⟨token', span'⟩ ⟨htoken, hspan⟩ => ?_
    obtain rfl : token = token' := htoken
    dsimp only
    split
    · exact .pure ⟨.nil, .nil⟩
    · exact hp.bind fun _ _ ho => ih.bind fun _ _ hparts => .pure ⟨.cons ho hparts.1, hparts.2⟩
    · exact (dataSection_tracks hR).bind fun _ _ hd => ih.bind fun _ _ hparts =>
        .pure ⟨hparts.1, .cons hd hparts.2⟩
    · exact unexpected_tracks _

theorem objectWithin_tracks (depth : Nat) :
    Tracks R (Object.Moved R) (objectWithin depth) (objectWithin depth) := by
  induction depth with
  | zero => exact unexpected_tracks _
  | succ depth ih =>
    refine (expect_tracks _ _).bind fun _ _ hstart => stringName_tracks.bind fun name _ hname => ?_
    subst hname
    refine (expect_tracks _ _).bind fun _ _ _ => (expect_tracks _ _).bind fun _ _ _ => ?_
    refine (block_tracks hR).bind fun _ _ hcode => bound_tracks.bind fun n _ hn => ?_
    subst hn
    exact (objectItems_tracks hR ih n).bind fun _ _ hparts => (expect_tracks _ _).bind fun _ _ _ =>
      (spanFrom_tracks hR hstart.span).bind fun _ _ hspan =>
        .pure (.mk hcode hparts.1 hparts.2 hspan)

theorem object_tracks : Tracks R (Object.Moved R) object object :=
  bound_tracks.bind fun n _ heq => heq ▸ objectWithin_tracks hR n

theorem objectOrBlock_tracks : Tracks R (Object.Moved R) objectOrBlock objectOrBlock := by
  refine current_tracks.bind fun _ _ hl => .ite (by rw [hl.token]) (fun _ => object_tracks hR)
    fun _ => ?_
  exact (block_tracks hR).bind fun _ _ hcode => .pure (.mk hcode .nil .nil hcode.span)

theorem wholeObject_tracks : Tracks R (Object.Moved R) wholeObject wholeObject :=
  (objectOrBlock_tracks hR).bind fun _ _ ho => endOfInput_tracks.bind fun _ _ _ => .pure ho

theorem wholeBlock_tracks : Tracks R (Block.Moved R) wholeBlock wholeBlock :=
  (block_tracks hR).bind fun _ _ hb => endOfInput_tracks.bind fun _ _ _ => .pure hb

end Places

end Parser

/-! ## Whole sources -/

/-- Two sources are read to values that `Q` relates, or the same error is found in both. -/
inductive ReadAlike (R : Span → Span → Prop) {α β : Type} (Q : α → β → Prop) :
    Except SourceError α → Except SourceError β → Prop where
  | ok {a : α} {b : β} (value : Q a b) : ReadAlike R Q (.ok a) (.ok b)
  | error {e e' : SourceError} (same : e.Moved R e') : ReadAlike R Q (.error e) (.error e')

section Sources

variable {R : Span → Span → Prop} (hR : Mergeable R)

include hR

theorem Cursor.ofItems_alike (names : NameTable) {is is' : List Item}
    (h : List.Forall₂ (Item.Moved R) is is') :
    ReadAlike R (Cursor.Moved R) (ofItems names is) (ofItems names is') := by
  cases h with
  | nil => exact .ok ⟨⟨rfl, hR.zero⟩, .nil, hR.zero, rfl, rfl⟩
  | cons hitem hrest =>
    cases hitem with
    | lexeme hl => exact .ok ⟨hl, hrest, hR.zero, rfl, rfl⟩
    | bad text hspan => exact .error ⟨rfl, hspan⟩

/-- Sources with the same items are parsed alike. -/
theorem Parser.Tracks.parse {α : Type} {Q : α → α → Prop} {p : Parser α} (hp : Tracks R Q p p)
    (names : NameTable) {source source' : String}
    (hitems : List.Forall₂ (Item.Moved R) (items source) (items source')) :
    ReadAlike R (fun found found' => Q found.1 found'.1 ∧ found.2 = found'.2)
      (p.parse names source) (p.parse names source') := by
  have hstart := Cursor.ofItems_alike hR names hitems
  rw [Parser.parse, Parser.parse, Cursor.ofSource, Cursor.ofSource]
  generalize Cursor.ofItems names (items source) = start at hstart
  generalize Cursor.ofItems names (items source') = start' at hstart
  cases hstart with
  | error same => exact .error same
  | @ok c c' hc =>
    have hread := hp c c' hc
    dsimp only [Bind.bind, Except.bind, EStateM.run]
    generalize p c = result at hread
    generalize p c' = result' at hread
    cases hread with
    | ok value cursor => exact .ok ⟨value, cursor.names⟩
    | error same => exact .error same

end Sources

end Yul
