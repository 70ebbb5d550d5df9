import Yul.Object
import Yul.Proofs.Text.Escapes
import Yul.SourceError

/-!
# The grammar

What rows of tokens spell which trees. A relation `DerivesX ts x` says that the whole row `ts` is
derived from the nonterminal `X`, and `x` is the tree of the derivation: its spans go from the first
to the last token. Where blocks may stand inside, `DerivesX n ts x` also says that they are numbered
from `n` on in the order of their opening braces.

Strings are read by the rules of `DenotesBytes` and `DenotesPairs`: nothing is derived from a row with
a string in it that denotes no bytes.
-/

namespace Yul

/-! ## Spans and tokens -/

/-- The span of the last token of a row behind a token with span `before`. -/
def lastSpan (before : Span) : List Lexeme → Span
  | [] => before
  | l :: rest => lastSpan l.span rest

/-- The span from the first to the last token of a row. -/
def spanOf : List Lexeme → Span
  | [] => default
  | l :: rest => l.span.merge (lastSpan l.span rest)

@[simp] theorem lastSpan_append (before : Span) (ts us : List Lexeme) :
    lastSpan before (ts ++ us) = lastSpan (lastSpan before ts) us := by
  induction ts generalizing before with
  | nil => rfl
  | cons l ts ih => exact ih l.span

def Identifier.lexeme (x : Identifier) : Lexeme :=
  ⟨.identifier x.name, x.span⟩

def Punct.lexeme (p : Punct) (span : Span) : Lexeme :=
  ⟨.punct p, span⟩

def Keyword.lexeme (k : Keyword) (span : Span) : Lexeme :=
  ⟨.keyword k, span⟩

/-- An identifier that is a keyword in its place. -/
def wordLexeme (text : String) (span : Span) : Lexeme :=
  ⟨.identifier text, span⟩

/-- The bytes that a token denotes if it is a string. -/
def Token.HasBytes : Token → List UInt8 → Prop
  | string raw, bytes => ∃ inner, raw.toList = '"' :: (inner ++ ['"']) ∧
      Text.DenotesBytes Text.LooseDigits inner bytes
  | hexString raw, bytes => ∃ digits, raw.toList = 'h' :: 'e' :: 'x' :: '"' :: (digits ++ ['"']) ∧
      Text.DenotesPairs Text.LooseDigits digits bytes
  | _, _ => False

/-- The value of a token that is a literal. -/
inductive Token.HasValue : Token → LiteralValue → Prop where
  | decimalNumber (digits : String) : HasValue (decimalNumber digits) (.number digits)
  | hexNumber (digits : String) : HasValue (hexNumber digits) (.number digits)
  | trueValue : HasValue (keyword .trueValue) (.truth true)
  | falseValue : HasValue (keyword .falseValue) (.truth false)
  | bytes {t : Token} {bytes : List UInt8} (h : t.HasBytes bytes) : HasValue t (.bytes bytes)

/-- Whether a token denotes bytes if it is a string. -/
def Token.Decodes : Token → Prop
  | string raw => ∃ bytes, (string raw).HasBytes bytes
  | hexString raw => ∃ bytes, (hexString raw).HasBytes bytes
  | _ => True

namespace Token

variable {t : Token} {bytes : List UInt8} {value : LiteralValue}

theorem HasBytes.decodes (h : t.HasBytes bytes) : t.Decodes := by
  cases t with
  | string | hexString => exact ⟨bytes, h⟩
  | _ => exact h.elim

theorem HasBytes.ne_endOfInput (h : t.HasBytes bytes) : t ≠ .endOfInput := by
  rintro rfl
  exact h

theorem HasValue.decodes (h : t.HasValue value) : t.Decodes := by
  cases h with
  | bytes h => exact h.decodes
  | _ => trivial

theorem HasValue.ne_endOfInput (h : t.HasValue value) : t ≠ .endOfInput := by
  cases h with
  | bytes h => exact h.ne_endOfInput
  | _ => exact Token.noConfusion

end Token

/-! ## Lists -/

section Lists

variable {α : Type} (R : List Lexeme → α → Prop)

/-- Things that stand behind one comma each. -/
inductive DerivesAfterCommas : List Lexeme → List α → Prop where
  | nil : DerivesAfterCommas [] []
  | cons {ts us : List Lexeme} {a : α} {as : List α} (comma : Span) (h : R ts a)
      (hrest : DerivesAfterCommas us as) :
      DerivesAfterCommas (Punct.comma.lexeme comma :: (ts ++ us)) (a :: as)

/-- One or more things with commas in between. -/
inductive DerivesCommas : List Lexeme → List α → Prop where
  | mk {ts us : List Lexeme} {a : α} {as : List α} (h : R ts a)
      (hrest : DerivesAfterCommas R us as) : DerivesCommas (ts ++ us) (a :: as)

/-- Any number of things with commas in between. -/
inductive DerivesOptional : List Lexeme → List α → Prop where
  | none : DerivesOptional [] []
  | some {ts : List Lexeme} {as : List α} (h : DerivesCommas R ts as) : DerivesOptional ts as

end Lists

/-! ## Expressions -/

inductive DerivesIdentifier : List Lexeme → Identifier → Prop where
  | mk (x : Identifier) : DerivesIdentifier [x.lexeme] x

/-- A type behind a colon, or nothing. -/
inductive DerivesType : List Lexeme → Option Label → Prop where
  | none : DerivesType [] none
  | some (colon : Span) (x : Identifier) :
      DerivesType [Punct.colon.lexeme colon, x.lexeme] (some x.name)

inductive DerivesTypedName : List Lexeme → TypedName → Prop where
  | mk {ts us : List Lexeme} {type : Option Label} (x : Identifier) (h : DerivesType us type)
      (hts : ts = x.lexeme :: us) : DerivesTypedName ts ⟨x.name, type, spanOf ts⟩

inductive DerivesLiteral : List Lexeme → Literal → Prop where
  | mk {ts us : List Lexeme} {value : LiteralValue} {type : Option Label} (l : Lexeme)
      (hvalue : l.token.HasValue value) (h : DerivesType us type) (hts : ts = l :: us) :
      DerivesLiteral ts ⟨value, type, spanOf ts⟩

inductive DerivesExpr : List Lexeme → Expr → Prop where
  | literal {ts : List Lexeme} {l : Literal} (h : DerivesLiteral ts l) : DerivesExpr ts (.literal l)
  | identifier {ts : List Lexeme} {x : Identifier} (h : DerivesIdentifier ts x) :
      DerivesExpr ts (.identifier x)
  | call {ts us : List Lexeme} {args : List Expr} (f : Identifier) (opening closing : Span)
      (h : DerivesOptional DerivesExpr us args)
      (hts : ts = f.lexeme :: Punct.lparen.lexeme opening :: (us ++ [Punct.rparen.lexeme closing])) :
      DerivesExpr ts (.call f args (spanOf ts))

/-! ## Statements -/

/-- The results of a function behind an arrow, or nothing. -/
inductive DerivesReturns : List Lexeme → List TypedName → Prop where
  | none : DerivesReturns [] []
  | some {ts : List Lexeme} {xs : List TypedName} (arrow : Span)
      (h : DerivesCommas DerivesTypedName ts xs) :
      DerivesReturns (Punct.arrow.lexeme arrow :: ts) xs

/-- An initial value behind `:=`, or nothing. -/
inductive DerivesInitial : List Lexeme → Option Expr → Prop where
  | none : DerivesInitial [] none
  | some {ts : List Lexeme} {e : Expr} (assign : Span) (h : DerivesExpr ts e) :
      DerivesInitial (Punct.assign.lexeme assign :: ts) (some e)

mutual

inductive DerivesBlock : Nat → List Lexeme → Block → Prop where
  | mk {n : Nat} {ts us : List Lexeme} {ss : List Stmt} (opening closing : Span)
      (h : DerivesStmts (n + 1) us ss)
      (hts : ts = Punct.lbrace.lexeme opening :: (us ++ [Punct.rbrace.lexeme closing])) :
      DerivesBlock n ts ⟨n, ss, spanOf ts⟩

inductive DerivesStmts : Nat → List Lexeme → List Stmt → Prop where
  | nil {n : Nat} : DerivesStmts n [] []
  | cons {n : Nat} {ts us : List Lexeme} {s : Stmt} {ss : List Stmt} (h : DerivesStmt n ts s)
      (hrest : DerivesStmts (n + s.blocks.length) us ss) : DerivesStmts n (ts ++ us) (s :: ss)

inductive DerivesStmt : Nat → List Lexeme → Stmt → Prop where
  | block {n : Nat} {ts : List Lexeme} {b : Block} (h : DerivesBlock n ts b) :
      DerivesStmt n ts (.block b)
  | function {n : Nat} {ts ps rs bs : List Lexeme} {params returns : List TypedName} {body : Block}
      (k opening closing : Span) (name : Identifier)
      (hparams : DerivesOptional DerivesTypedName ps params) (hreturns : DerivesReturns rs returns)
      (hbody : DerivesBlock n bs body)
      (hts : ts = Keyword.function.lexeme k :: name.lexeme :: Punct.lparen.lexeme opening ::
        (ps ++ Punct.rparen.lexeme closing :: (rs ++ bs))) :
      DerivesStmt n ts (.function ⟨name, params, returns, body⟩ (spanOf ts))
  | declaration {n : Nat} {ts xs vs : List Lexeme} {declared : List TypedName}
      {value : Option Expr} (k : Span) (hdeclared : DerivesCommas DerivesTypedName xs declared)
      (hvalue : DerivesInitial vs value) (hts : ts = Keyword.letVar.lexeme k :: (xs ++ vs)) :
      DerivesStmt n ts (.declaration declared value (spanOf ts))
  | ifThen {n : Nat} {ts es bs : List Lexeme} {e : Expr} {body : Block} (k : Span)
      (he : DerivesExpr es e) (hbody : DerivesBlock n bs body)
      (hts : ts = Keyword.ifTest.lexeme k :: (es ++ bs)) :
      DerivesStmt n ts (.ifThen e body (spanOf ts))
  | switch {n : Nat} {ts es us : List Lexeme} {e : Expr} {arms : List Case} (k : Span)
      (he : DerivesExpr es e) (harms : DerivesArms n us arms) (hsome : arms ≠ [])
      (hts : ts = Keyword.switch.lexeme k :: (es ++ us)) :
      DerivesStmt n ts (.switch e arms (spanOf ts))
  | forLoop {n : Nat} {ts is es ps bs : List Lexeme} {init post body : Block} {e : Expr} (k : Span)
      (hinit : DerivesBlock n is init) (he : DerivesExpr es e)
      (hpost : DerivesBlock (n + init.blocks.length) ps post)
      (hbody : DerivesBlock (n + init.blocks.length + post.blocks.length) bs body)
      (hts : ts = Keyword.forLoop.lexeme k :: (is ++ (es ++ (ps ++ bs)))) :
      DerivesStmt n ts (.forLoop init e post body (spanOf ts))
  | breakLoop {n : Nat} {ts : List Lexeme} (k : Span) (hts : ts = [Keyword.breakLoop.lexeme k]) :
      DerivesStmt n ts (.breakLoop (spanOf ts))
  | continueLoop {n : Nat} {ts : List Lexeme} (k : Span)
      (hts : ts = [Keyword.continueLoop.lexeme k]) : DerivesStmt n ts (.continueLoop (spanOf ts))
  | leave {n : Nat} {ts : List Lexeme} (k : Span) (hts : ts = [Keyword.leave.lexeme k]) :
      DerivesStmt n ts (.leave (spanOf ts))
  | assignment {n : Nat} {ts xs es : List Lexeme} {targets : List Identifier} {value : Expr}
      (assign : Span) (htargets : DerivesCommas DerivesIdentifier xs targets)
      (hvalue : DerivesExpr es value) (hts : ts = xs ++ Punct.assign.lexeme assign :: es) :
      DerivesStmt n ts (.assignment targets value (spanOf ts))
  | expression {n : Nat} {ts : List Lexeme} {e : Expr} (h : DerivesExpr ts e) :
      DerivesStmt n ts (.expression e)

/-- The arms of a switch; a default arm is the last one. -/
inductive DerivesArms : Nat → List Lexeme → List Case → Prop where
  | nil {n : Nat} : DerivesArms n [] []
  | default {n : Nat} {ts bs : List Lexeme} {body : Block} (k : Span)
      (hbody : DerivesBlock n bs body) (hts : ts = Keyword.defaultArm.lexeme k :: bs) :
      DerivesArms n ts [⟨none, body, spanOf ts⟩]
  | case {n : Nat} {ts ls bs us : List Lexeme} {l : Literal} {body : Block} {arms : List Case}
      (k : Span) (hvalue : DerivesLiteral ls l) (hbody : DerivesBlock n bs body)
      (hrest : DerivesArms (n + body.blocks.length) us arms)
      (hts : ts = Keyword.caseArm.lexeme k :: (ls ++ bs)) :
      DerivesArms n (ts ++ us) (⟨some l, body, spanOf ts⟩ :: arms)

end

/-! ## Objects -/

mutual

/-- The blocks of the code of an object and of the objects inside it, in the order of their opening
braces. -/
def Object.blocks : Object → List Block
  | ⟨_, code, objects, _, _⟩ => code.blocks ++ blocksOfObjects objects

def blocksOfObjects : List Object → List Block
  | [] => []
  | o :: rest => o.blocks ++ blocksOfObjects rest

end

/-- A name in quotes. -/
inductive DerivesName : List Lexeme → String → Prop where
  | mk {raw : String} {bytes : List UInt8} (span : Span) (h : (Token.string raw).HasBytes bytes) :
      DerivesName [⟨.string raw, span⟩] (Text.decodeLossy bytes)

inductive DerivesData : List Lexeme → DataSection → Prop where
  | mk {ts ns : List Lexeme} {name : String} {bytes : List UInt8} (k : Span) (l : Lexeme)
      (hname : DerivesName ns name) (hbytes : l.token.HasBytes bytes)
      (hts : ts = wordLexeme "data" k :: (ns ++ [l])) : DerivesData ts ⟨name, bytes, spanOf ts⟩

mutual

inductive DerivesObject : Nat → List Lexeme → Object → Prop where
  | mk {n : Nat} {ts ns cs us : List Lexeme} {name : String} {code : Block}
      {objects : List Object} {data : List DataSection} (k opening word closing : Span)
      (hname : DerivesName ns name) (hcode : DerivesBlock n cs code)
      (hparts : DerivesParts (n + code.blocks.length) us objects data)
      (hts : ts = wordLexeme "object" k :: (ns ++ Punct.lbrace.lexeme opening ::
        wordLexeme "code" word :: (cs ++ (us ++ [Punct.rbrace.lexeme closing])))) :
      DerivesObject n ts ⟨name, code, objects, data, spanOf ts⟩

/-- What stands behind the code of an object, in any order. -/
inductive DerivesParts : Nat → List Lexeme → List Object → List DataSection → Prop where
  | nil {n : Nat} : DerivesParts n [] [] []
  | object {n : Nat} {ts us : List Lexeme} {o : Object} {objects : List Object}
      {data : List DataSection} (h : DerivesObject n ts o)
      (hrest : DerivesParts (n + o.blocks.length) us objects data) :
      DerivesParts n (ts ++ us) (o :: objects) data
  | data {n : Nat} {ts us : List Lexeme} {d : DataSection} {objects : List Object}
      {data : List DataSection} (h : DerivesData ts d) (hrest : DerivesParts n us objects data) :
      DerivesParts n (ts ++ us) objects (d :: data)

end

/-- What a whole source holds: a lone block counts as an object without a name. -/
inductive DerivesProgram : List Lexeme → Object → Prop where
  | block {ts : List Lexeme} {b : Block} (h : DerivesBlock 0 ts b) :
      DerivesProgram ts ⟨"", b, [], [], b.span⟩
  | object {ts : List Lexeme} {o : Object} (h : DerivesObject 0 ts o) : DerivesProgram ts o

end Yul
