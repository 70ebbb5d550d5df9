import Yul.Proofs.Effects.Definitions
import Yul.Proofs.Effects.Lattice

/-!
# Code without loops

`Block.LoopFree` says of a piece of code that it has no loop and calls no builtin that may run for
ever. Functions that the code defines are left out: they run only where they are called. The account
of a block tells of each block inside it and of each function body whether it is loop-free
(`Block.account_tells`).
-/

namespace Yul

/-! ## Loops and builtins that may not return -/

mutual

/-- No call in an expression is of a builtin that may run for ever. -/
def Expr.LoopFree : Expr → Prop
  | .literal _ | .identifier _ => True
  | .call f args _ => (∀ b, Builtin.find? f.name = some b → b.effects.cannotLoop = true) ∧
      LoopFreeExprs args

def LoopFreeExprs : List Expr → Prop
  | [] => True
  | e :: rest => e.LoopFree ∧ LoopFreeExprs rest

end

mutual

def Stmt.LoopFree : Stmt → Prop
  | .expression e => e.LoopFree
  | .assignment _ value _ => value.LoopFree
  | .declaration _ none _ => True
  | .declaration _ (some value) _ => value.LoopFree
  | .function _ _ => True
  | .ifThen e body _ => e.LoopFree ∧ body.LoopFree
  | .switch subject arms _ => subject.LoopFree ∧ LoopFreeCases arms
  | .forLoop _ _ _ _ _ => False
  | .breakLoop _ | .continueLoop _ | .leave _ => True
  | .block b => b.LoopFree

/-- A block has no loop and no call of a builtin that may run for ever, except in functions that it
defines. -/
def Block.LoopFree : Block → Prop
  | ⟨_, statements, _⟩ => LoopFreeStmts statements

def LoopFreeStmts : List Stmt → Prop
  | [] => True
  | s :: rest => s.LoopFree ∧ LoopFreeStmts rest

def LoopFreeCases : List Case → Prop
  | [] => True
  | ⟨_, body, _⟩ :: rest => body.LoopFree ∧ LoopFreeCases rest

end

/-! ## What acts tell -/

namespace SideEffects

@[simp] theorem cannotLoop_join (a b : SideEffects) :
    (a.join b).cannotLoop = true ↔ a.cannotLoop = true ∧ b.cannotLoop = true :=
  Bool.and_eq_true_iff

theorem cannotLoop_of_le {a b : SideEffects} (hle : a ≤ b) (hb : b.cannotLoop = true) :
    a.cannotLoop = true := by
  have hjoin : a.join b = b := sup_eq_right.mpr hle
  rw [← hjoin, cannotLoop_join] at hb
  exact hb.1

end SideEffects

/-- Acts that surely come to an end, as far as functions that are called do. -/
def Ends {φ : Type} (acts : List (Act φ)) : Prop :=
  (effectsOf acts).cannotLoop = true

section Ends

variable {φ : Type}

@[simp] theorem ends_nil : Ends ([] : List (Act φ)) := rfl

@[simp] theorem ends_append {acts acts' : List (Act φ)} :
    Ends (acts ++ acts') ↔ Ends acts ∧ Ends acts' := by
  rw [Ends, effectsOf_append, SideEffects.cannotLoop_join]
  rfl

@[simp] theorem ends_effects {e : SideEffects} {acts : List (Act φ)} :
    Ends (.effects e :: acts) ↔ e.cannotLoop = true ∧ Ends acts := by
  rw [Ends, effectsOf_effects, SideEffects.cannotLoop_join]
  rfl

@[simp] theorem ends_call {f : φ} {acts : List (Act φ)} : Ends (.call f :: acts) ↔ Ends acts :=
  Iff.rfl

end Ends

theorem actsOfHead_ends_iff {home : Homes} {f : Name} :
    Ends (actsOfHead home f) ↔ ∀ b, Builtin.find? f = some b → b.effects.cannotLoop = true := by
  rw [actsOfHead]
  cases Builtin.find? f with
  | some b => simp
  | none => cases home f <;> simp

mutual

theorem Expr.ends_iff {home : Homes} (e : Expr) : Ends (e.acts home) ↔ e.LoopFree := by
  match e with
  | .literal _ | .identifier _ => exact iff_of_true ends_nil trivial
  | .call f args _ =>
    rw [Expr.acts, ends_append, actsOfHead_ends_iff, ends_iff_exprs args, Expr.LoopFree]

theorem ends_iff_exprs {home : Homes} (args : List Expr) :
    Ends (actsOfArguments home args) ↔ LoopFreeExprs args := by
  match args with
  | [] => exact iff_of_true ends_nil trivial
  | e :: rest => rw [actsOfArguments, ends_append, e.ends_iff, ends_iff_exprs rest, LoopFreeExprs]

end

mutual

theorem Stmt.ends_iff {home : Homes} {here : BlockId} (s : Stmt) :
    Ends (s.account home here).acts ↔ s.LoopFree := by
  match s with
  | .expression e => exact e.ends_iff
  | .assignment _ value _ => exact value.ends_iff
  | .declaration _ none _ | .breakLoop _ | .continueLoop _ | .leave _ =>
    exact iff_of_true ends_nil trivial
  | .declaration _ (some value) _ => exact value.ends_iff
  | .function ⟨_, _, _, _⟩ _ => exact iff_of_true ends_nil trivial
  | .ifThen e body _ =>
    rw [Stmt.account, Account.append_acts, ends_append, body.ends_iff, Stmt.LoopFree, ← e.ends_iff]
    rfl
  | .switch subject arms _ =>
    rw [Stmt.account, Account.append_acts, ends_append, ends_iff_cases arms, Stmt.LoopFree,
      ← subject.ends_iff]
    rfl
  | .forLoop ⟨_, _, _⟩ _ _ _ _ =>
    -- the loop itself is the last thing that its account lists
    simp [Stmt.account, Stmt.LoopFree, Account.ofActs, SideEffects.looping]
  | .block b => exact b.ends_iff

/-- What a block does itself surely ends if and only if the block is loop-free. -/
theorem Block.ends_iff {home : Homes} (b : Block) : Ends (b.account home).acts ↔ b.LoopFree := by
  match b with
  | ⟨_, statements, _⟩ => exact ends_iff_stmts statements

theorem ends_iff_stmts {home : Homes} {here : BlockId} (ss : List Stmt) :
    Ends (accountOfStmts home here ss).acts ↔ LoopFreeStmts ss := by
  match ss with
  | [] => exact iff_of_true ends_nil trivial
  | s :: rest =>
    rw [accountOfStmts, Account.append_acts, ends_append, s.ends_iff, ends_iff_stmts rest,
      LoopFreeStmts]

theorem ends_iff_cases {home : Homes} (arms : List Case) :
    Ends (accountOfCases home arms).acts ↔ LoopFreeCases arms := by
  match arms with
  | [] => exact iff_of_true ends_nil trivial
  | ⟨_, body, _⟩ :: rest =>
    rw [accountOfCases, Account.append_acts, ends_append, body.ends_iff, ends_iff_cases rest,
      LoopFreeCases]

end

/-! ## Blocks and bodies -/

/-- The functions that statements of block `id` define, with their bodies. -/
def bodiesAmong (id : BlockId) (statements : List Stmt) : List (FunctionKey × Block) :=
  (functionsOf statements).map fun f => (⟨id, f.name.name⟩, f.body)

/-- The functions that a block itself defines, with their bodies. -/
def Block.ownBodies (b : Block) : List (FunctionKey × Block) :=
  bodiesAmong b.id b.statements

/-- The functions that a block and the blocks inside it define, with their bodies. -/
def Block.bodies (b : Block) : List (FunctionKey × Block) :=
  b.blocks.flatMap Block.ownBodies

theorem Block.map_fst_bodies (b : Block) : b.bodies.map (·.1) = b.definitions := by
  rw [bodies, definitions, List.map_flatMap]
  congr 1
  funext b'
  rw [ownBodies, bodiesAmong, List.map_map]
  rfl

/-- An account has an entry for each block of `bs` and for each function that they define or that
`own` lists, and an entry of acts that surely end is of loop-free code. -/
structure Account.Tells (a : Account FunctionKey) (own : List (FunctionKey × Block))
    (bs : List Block) : Prop where
  blocks : ∀ b ∈ bs, ∃ acts, (b.id, acts) ∈ a.blocks ∧ (Ends acts → b.LoopFree)
  functions : ∀ f ∈ own ++ bs.flatMap Block.ownBodies,
    ∃ acts, (f.1, acts) ∈ a.functions ∧ (Ends acts → f.2.LoopFree)

namespace Account.Tells

variable {a a' : Account FunctionKey} {own own' : List (FunctionKey × Block)} {bs bs' : List Block}

theorem ofActs (acts : List (Act FunctionKey)) : (Account.ofActs acts).Tells [] [] :=
  ⟨List.forall_mem_nil _, List.forall_mem_nil _⟩

theorem append (h : a.Tells own bs) (h' : a'.Tells own' bs') :
    (a.append a').Tells (own ++ own') (bs ++ bs') := by
  constructor
  · intro b hb
    rcases List.mem_append.mp hb with hb | hb
    · obtain ⟨acts, hmem, hends⟩ := h.blocks b hb
      exact ⟨acts, List.mem_append_left _ hmem, hends⟩
    · obtain ⟨acts, hmem, hends⟩ := h'.blocks b hb
      exact ⟨acts, List.mem_append_right _ hmem, hends⟩
  · intro f hf
    have hor : f ∈ own ++ bs.flatMap Block.ownBodies ∨ f ∈ own' ++ bs'.flatMap Block.ownBodies := by
      simp only [List.mem_append, List.flatMap_append] at hf ⊢
      tauto
    rcases hor with hf | hf
    · obtain ⟨acts, hmem, hends⟩ := h.functions f hf
      exact ⟨acts, List.mem_append_left _ hmem, hends⟩
    · obtain ⟨acts, hmem, hends⟩ := h'.functions f hf
      exact ⟨acts, List.mem_append_right _ hmem, hends⟩

theorem inBlock (b : Block) (h : a.Tells b.ownBodies bs) (hends : Ends a.acts → b.LoopFree) :
    (a.inBlock b.id).Tells [] (b :: bs) := by
  refine ⟨List.forall_mem_cons.mpr ⟨⟨a.acts, ?_, hends⟩, fun b' hb' => ?_⟩, h.functions⟩
  · exact List.mem_append_right _ List.mem_cons_self
  · obtain ⟨acts, hmem, hends'⟩ := h.blocks b' hb'
    exact ⟨acts, List.mem_append_left _ hmem, hends'⟩

theorem inFunction (f : FunctionKey) {body : Block} (h : a.Tells [] bs)
    (hends : Ends a.acts → body.LoopFree) : (a.inFunction f).Tells [(f, body)] bs := by
  refine ⟨h.blocks, List.forall_mem_cons.mpr ⟨⟨a.acts, ?_, hends⟩, fun f' hf' => ?_⟩⟩
  · exact List.mem_append_right _ List.mem_cons_self
  · obtain ⟨acts, hmem, hends'⟩ := h.functions f' hf'
    exact ⟨acts, List.mem_append_left _ hmem, hends'⟩

theorem of_perm (h : a.Tells own bs) (hperm : bs.Perm bs') : a.Tells own bs' where
  blocks b hb := h.blocks b (hperm.mem_iff.mpr hb)
  functions f hf := by
    refine h.functions f (List.mem_append.mpr ((List.mem_append.mp hf).imp_right ?_))
    exact (hperm.flatMap_right _).mem_iff.mpr

end Account.Tells

mutual

theorem Stmt.account_tells (home : Homes) (id : BlockId) (s : Stmt) :
    (s.account home id).Tells (bodiesAmong id [s]) s.blocks := by
  match s with
  | .expression e => exact .ofActs _
  | .assignment _ value _ => exact .ofActs _
  | .declaration _ none _ => exact .ofActs []
  | .declaration _ (some value) _ => exact .ofActs _
  | .function ⟨name, _, _, body⟩ _ => exact .inFunction _ (body.account_tells home) body.ends_iff.mp
  | .ifThen e body _ => exact .append (.ofActs _) (body.account_tells home)
  | .switch subject arms _ => exact .append (.ofActs _) (accountOfCases_tells home arms)
  | .forLoop ⟨bid, statements, span⟩ e post body _ =>
    have hrest := (Account.Tells.ofActs (e.acts (home.enter bid statements))).append
      ((body.account_tells (home.enter bid statements)).append
        ((post.account_tells (home.enter bid statements)).append (.ofActs [.effects .looping])))
    have hinside := (accountOfStmts_tells (home.enter bid statements) bid statements).append hrest
    simp only [List.append_nil, List.nil_append] at hinside
    refine (Account.Tells.inBlock ⟨bid, statements, span⟩ hinside fun hends => ?_).of_perm ?_
    · rw [Account.append_acts, ends_append, ends_iff_stmts] at hends
      exact hends.1
    · rw [Stmt.blocks, Block.blocks, List.append_assoc, List.cons_append]
      exact (List.Perm.append_left _ List.perm_append_comm).cons _
  | .breakLoop _ | .continueLoop _ | .leave _ => exact .ofActs []
  | .block b => exact b.account_tells home

/-- The account of a block tells which of its blocks and function bodies are loop-free. -/
theorem Block.account_tells (home : Homes) (b : Block) : (b.account home).Tells [] b.blocks := by
  match b with
  | ⟨id, statements, span⟩ =>
    exact .inBlock ⟨id, statements, span⟩ (accountOfStmts_tells _ id statements)
      (ends_iff_stmts statements).mp

theorem accountOfStmts_tells (home : Homes) (id : BlockId) (ss : List Stmt) :
    (accountOfStmts home id ss).Tells (bodiesAmong id ss) (blocksOfStmts ss) := by
  match ss with
  | [] => exact .ofActs []
  | s :: rest =>
    have happend : bodiesAmong id (s :: rest) = bodiesAmong id [s] ++ bodiesAmong id rest := by
      rw [bodiesAmong, functionsOf, ← List.singleton_append, List.filterMap_append, List.map_append]
      rfl
    rw [happend]
    exact .append (s.account_tells home id) (accountOfStmts_tells home id rest)

theorem accountOfCases_tells (home : Homes) (arms : List Case) :
    (accountOfCases home arms).Tells [] (blocksOfCases arms) := by
  match arms with
  | [] => exact .ofActs []
  | ⟨_, body, _⟩ :: rest => exact .append (body.account_tells home) (accountOfCases_tells home rest)

end

end Yul
