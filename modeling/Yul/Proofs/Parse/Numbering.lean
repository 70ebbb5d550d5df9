import Yul.Proofs.Parse.Grammar

/-!
# The numbers of blocks

Blocks that are derived from a row of tokens are numbered in the order of their opening braces, from
the number on that the derivation starts with (`DerivesBlock.numbered`, `DerivesProgram.numbered`).
The span of a block tells its opening brace, provided that the tokens are in order.
-/

namespace Yul

/-- Tokens that start one behind the other. -/
def InOrder (ts : List Lexeme) : Prop :=
  ts.Pairwise fun l m => l.span.start < m.span.start

namespace InOrder

variable {l : Lexeme} {ts us : List Lexeme}

theorem tail (h : InOrder (l :: ts)) : InOrder ts :=
  (List.pairwise_cons.mp h).2

theorem left (h : InOrder (ts ++ us)) : InOrder ts :=
  (List.pairwise_append.mp h).1

theorem right (h : InOrder (ts ++ us)) : InOrder us :=
  (List.pairwise_append.mp h).2.1

end InOrder

theorem lastSpan_mem (before : Span) (ts : List Lexeme) :
    lastSpan before ts = before ∨ ∃ l ∈ ts, lastSpan before ts = l.span := by
  induction ts generalizing before with
  | nil => exact .inl rfl
  | cons l ts ih =>
    refine .inr ?_
    rcases ih l.span with h | ⟨m, hm, h⟩
    · exact ⟨l, List.mem_cons_self, h⟩
    · exact ⟨m, List.mem_cons_of_mem _ hm, h⟩

theorem start_spanOf {l : Lexeme} {ts : List Lexeme} (h : InOrder (l :: ts)) :
    (spanOf (l :: ts)).start = l.span.start := by
  refine Nat.min_eq_left ?_
  rcases lastSpan_mem l.span ts with hlast | ⟨m, hm, hlast⟩
  · exact Nat.le_of_eq (by rw [hlast])
  · rw [hlast]
    exact Nat.le_of_lt ((List.pairwise_cons.mp h).1 m hm)

/-! ## Opening braces -/

/-- Where the opening braces of a row stand. -/
def openings (ts : List Lexeme) : List Nat :=
  (ts.filter fun l => l.token = .punct .lbrace).map fun l => l.span.start

theorem openings_append (ts us : List Lexeme) :
    openings (ts ++ us) = openings ts ++ openings us := by
  rw [openings, List.filter_append, List.map_append]
  rfl

theorem openings_lbrace (opening : Span) (ts : List Lexeme) :
    openings (Punct.lbrace.lexeme opening :: ts) = opening.start :: openings ts :=
  rfl

theorem InOrder.openings {ts : List Lexeme} (h : InOrder ts) :
    (openings ts).Pairwise (· < ·) :=
  List.pairwise_map.mpr (h.filter _)

/-! ## Numbered blocks -/

/-- Blocks are numbered from `n` on, and stand in a row of tokens in this order. -/
structure Numbered (n : Nat) (ts : List Lexeme) (bs : List Block) : Prop where
  ids : bs.map Block.id = List.range' n bs.length
  starts : (bs.map fun b => b.span.start).Sublist (openings ts)

namespace Numbered

variable {n : Nat} {ts us : List Lexeme} {bs cs : List Block}

theorem nil (n : Nat) (ts : List Lexeme) : Numbered n ts [] :=
  ⟨rfl, List.nil_sublist _⟩

theorem append (h : Numbered n ts bs) (h' : Numbered (n + bs.length) us cs) :
    Numbered n (ts ++ us) (bs ++ cs) where
  ids := by rw [List.map_append, h.ids, h'.ids, List.length_append, List.range'_append_1]
  starts := by
    rw [List.map_append, openings_append]
    exact h.starts.append h'.starts

theorem behind (h : Numbered n us bs) (ts : List Lexeme) : Numbered n (ts ++ us) bs :=
  (nil n ts).append h

theorem cons (h : Numbered n ts bs) (l : Lexeme) : Numbered n (l :: ts) bs :=
  h.behind [l]

theorem before (h : Numbered n ts bs) (us : List Lexeme) : Numbered n (ts ++ us) bs := by
  simpa using h.append (nil _ us)

end Numbered

mutual

theorem DerivesBlock.numbered {n : Nat} {ts : List Lexeme} {b : Block} (h : DerivesBlock n ts b)
    (hs : InOrder ts) : Numbered n ts b.blocks := by
  match h with
  | .mk opening closing h hts =>
    have hinner := (h.numbered (hts ▸ hs).tail.left).before [Punct.rbrace.lexeme closing]
    have hstart := start_spanOf (hts ▸ hs)
    rw [← hts] at hstart
    constructor
    · rw [Block.blocks, List.map_cons, hinner.ids, List.length_cons, List.range'_succ]
    · rw [Block.blocks, List.map_cons, hstart, hts, openings_lbrace]
      exact hinner.starts.cons_cons _

theorem DerivesStmts.numbered {n : Nat} {ts : List Lexeme} {ss : List Stmt}
    (h : DerivesStmts n ts ss) (hs : InOrder ts) : Numbered n ts (blocksOfStmts ss) := by
  match h with
  | .nil => exact .nil _ _
  | .cons h hrest => exact (h.numbered hs.left).append (hrest.numbered hs.right)

theorem DerivesStmt.numbered {n : Nat} {ts : List Lexeme} {s : Stmt} (h : DerivesStmt n ts s)
    (hs : InOrder ts) : Numbered n ts s.blocks := by
  match h with
  | .block h => exact h.numbered hs
  | .function k opening closing name hparams hreturns hbody hts =>
    subst hts
    exact ((((((hbody.numbered hs.tail.tail.tail.right.tail.right).behind _).cons _).behind _).cons
      _).cons _).cons _
  | .ifThen k he hbody hts =>
    subst hts
    exact ((hbody.numbered hs.tail.right).behind _).cons _
  | .switch k he harms hsome hts =>
    subst hts
    exact ((harms.numbered hs.tail.right).behind _).cons _
  | .forLoop k hinit he hpost hbody hts =>
    subst hts
    have hinit := hinit.numbered hs.tail.left
    have hpost := hpost.numbered hs.tail.right.right.left
    have hbody := hbody.numbered hs.tail.right.right.right
    rw [Stmt.blocks, List.append_assoc]
    exact (hinit.append ((hpost.append hbody).behind _)).cons _
  | .declaration .. | .breakLoop .. | .continueLoop .. | .leave .. | .assignment ..
  | .expression .. => exact .nil _ _

theorem DerivesArms.numbered {n : Nat} {ts : List Lexeme} {arms : List Case}
    (h : DerivesArms n ts arms) (hs : InOrder ts) : Numbered n ts (blocksOfCases arms) := by
  match h with
  | .nil => exact .nil _ _
  | .default k hbody hts =>
    subst hts
    simpa [blocksOfCases, Case.blocks] using (hbody.numbered hs.tail).cons _
  | .case k hvalue hbody hrest hts =>
    subst hts
    exact (((hbody.numbered hs.left.tail.right).behind _).cons _).append (hrest.numbered hs.right)

end

/-! ## Objects -/

mutual

theorem DerivesObject.numbered {n : Nat} {ts : List Lexeme} {o : Object}
    (h : DerivesObject n ts o) (hs : InOrder ts) : Numbered n ts o.blocks := by
  match h with
  | .mk k opening word closing hname hcode hparts hts =>
    subst hts
    have hcode := hcode.numbered hs.tail.right.tail.tail.left
    have hparts := (hparts.numbered hs.tail.right.tail.tail.right.left).before
      [Punct.rbrace.lexeme closing]
    exact ((((hcode.append hparts).cons _).cons _).behind _).cons _

theorem DerivesParts.numbered {n : Nat} {ts : List Lexeme} {objects : List Object}
    {data : List DataSection} (h : DerivesParts n ts objects data) (hs : InOrder ts) :
    Numbered n ts (blocksOfObjects objects) := by
  match h with
  | .nil => exact .nil _ _
  | .object h hrest => exact (h.numbered hs.left).append (hrest.numbered hs.right)
  | .data h hrest => exact (hrest.numbered hs.right).behind _

end

theorem DerivesProgram.numbered {ts : List Lexeme} {o : Object} (h : DerivesProgram ts o)
    (hs : InOrder ts) : Numbered 0 ts o.blocks := by
  cases h with
  | block h => simpa [Object.blocks, blocksOfObjects] using h.numbered hs
  | object h => exact h.numbered hs

end Yul
