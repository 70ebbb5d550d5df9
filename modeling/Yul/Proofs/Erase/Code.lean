import Yul.Proofs.Effects.Regions
import Yul.Proofs.Scope.Sites

/-!
# Code without annotations

`Block.erase` takes the type annotations out of a block: those of literals, of variables, and of the
parameters and results of functions. What is left has the same blocks, opens the same scopes in the
same order, and does the same.
-/

namespace Yul

/-! ## Erasing annotations -/

def Literal.erase (l : Literal) : Literal :=
  { l with type := none }

def TypedName.erase (x : TypedName) : TypedName :=
  { x with type := none }

mutual

def Expr.erase : Expr → Expr
  | .literal l => .literal l.erase
  | .identifier x => .identifier x
  | .call f args span => .call f (eraseExprs args) span

def eraseExprs : List Expr → List Expr
  | [] => []
  | e :: rest => e.erase :: eraseExprs rest

end

mutual

/-- A statement without its annotations. -/
def Stmt.erase : Stmt → Stmt
  | .expression e => .expression e.erase
  | .assignment xs value span => .assignment xs value.erase span
  | .declaration xs value span =>
    .declaration (xs.map TypedName.erase) (value.map Expr.erase) span
  | .function f span => .function f.erase span
  | .ifThen e body span => .ifThen e.erase body.erase span
  | .switch subject arms span => .switch subject.erase (eraseCases arms) span
  | .forLoop init e post body span => .forLoop init.erase e.erase post.erase body.erase span
  | .breakLoop span => .breakLoop span
  | .continueLoop span => .continueLoop span
  | .leave span => .leave span
  | .block b => .block b.erase

def FunctionDef.erase : FunctionDef → FunctionDef
  | ⟨name, parameters, returns, body⟩ =>
    ⟨name, parameters.map TypedName.erase, returns.map TypedName.erase, body.erase⟩

/-- A block without its annotations. -/
def Block.erase : Block → Block
  | ⟨id, statements, span⟩ => ⟨id, eraseStmts statements, span⟩

def eraseStmts : List Stmt → List Stmt
  | [] => []
  | s :: rest => s.erase :: eraseStmts rest

def eraseCases : List Case → List Case
  | [] => []
  | ⟨value, body, span⟩ :: rest => ⟨value.map Literal.erase, body.erase, span⟩ :: eraseCases rest

end

/-! ## What is left -/

theorem eraseStmts_eq_map (ss : List Stmt) : eraseStmts ss = ss.map Stmt.erase := by
  induction ss with
  | nil => rfl
  | cons s ss ih => exact congrArg (s.erase :: ·) ih

theorem Expr.string?_erase (e : Expr) :
    e.erase.string? = e.string?.map fun found => (found.1.erase, found.2) := by
  cases e with
  | literal l =>
    obtain ⟨value, type, span⟩ := l
    cases value <;> rfl
  | identifier | call => rfl

theorem functionsOf_eraseStmts (ss : List Stmt) :
    functionsOf (eraseStmts ss) = (functionsOf ss).map FunctionDef.erase := by
  rw [eraseStmts_eq_map]
  unfold functionsOf
  rw [List.filterMap_map, List.map_filterMap]
  congr 1
  funext s
  cases s <;> rfl

theorem Block.erase_id (b : Block) : b.erase.id = b.id := by
  cases b
  rfl

theorem FunctionDef.erase_name (f : FunctionDef) : f.erase.name = f.name := by
  cases f
  rfl

mutual

theorem Stmt.ids_erase (s : Stmt) : s.erase.blocks.map Block.id = s.blocks.map Block.id := by
  match s with
  | .expression _ | .assignment _ _ _ | .declaration _ _ _ | .breakLoop _ | .continueLoop _
  | .leave _ => rfl
  | .function ⟨_, _, _, body⟩ _ => exact body.ids_erase
  | .ifThen _ body _ => exact body.ids_erase
  | .switch _ arms _ => exact ids_eraseCases arms
  | .forLoop init _ post body _ =>
    simp only [Stmt.erase, Stmt.blocks, List.map_append, init.ids_erase, post.ids_erase,
      body.ids_erase]
  | .block b => exact b.ids_erase

theorem Block.ids_erase (b : Block) : b.erase.blocks.map Block.id = b.blocks.map Block.id := by
  match b with
  | ⟨id, statements, _⟩ => exact congrArg (id :: ·) (ids_eraseStmts statements)

theorem ids_eraseStmts (ss : List Stmt) :
    (blocksOfStmts (eraseStmts ss)).map Block.id = (blocksOfStmts ss).map Block.id := by
  match ss with
  | [] => rfl
  | s :: rest =>
    simp only [eraseStmts, blocksOfStmts, List.map_append, s.ids_erase, ids_eraseStmts rest]

theorem ids_eraseCases (arms : List Case) :
    (blocksOfCases (eraseCases arms)).map Block.id = (blocksOfCases arms).map Block.id := by
  match arms with
  | [] => rfl
  | ⟨_, body, _⟩ :: rest =>
    simp only [eraseCases, blocksOfCases, Case.blocks, List.map_append, body.ids_erase,
      ids_eraseCases rest]

end

section Sites

variable (d d' : Dialect)

mutual

theorem Stmt.holders_erase (around : Holder) (s : Stmt) :
    (s.erase.sites d' around).map Site.holder = (s.sites d around).map Site.holder := by
  match s with
  | .expression _ | .assignment _ _ _ | .declaration _ _ _ | .breakLoop _ | .continueLoop _
  | .leave _ => rfl
  | .function ⟨_, _, _, body⟩ _ =>
    simp only [Stmt.erase, FunctionDef.erase, Stmt.sites, FunctionDef.sites, List.map_cons,
      body.erase_id, body.holders_erase]
  | .ifThen _ body _ => exact body.holders_erase around
  | .switch _ arms _ => exact holders_eraseCases around arms
  | .forLoop ⟨id, statements, _⟩ _ post body _ =>
    simp only [Stmt.erase, Block.erase, Stmt.sites, List.map_cons, List.map_append,
      holders_eraseStmts (.block id) statements, body.holders_erase, post.holders_erase]
  | .block b => exact b.holders_erase around

theorem Block.holders_erase (around : Holder) (b : Block) :
    (b.erase.sites d' around).map Site.holder = (b.sites d around).map Site.holder := by
  match b with
  | ⟨id, statements, _⟩ =>
    exact congrArg (Holder.block id :: ·) (holders_eraseStmts (.block id) statements)

theorem holders_eraseStmts (around : Holder) (ss : List Stmt) :
    (sitesOfStmts d' around (eraseStmts ss)).map Site.holder =
      (sitesOfStmts d around ss).map Site.holder := by
  match ss with
  | [] => rfl
  | s :: rest =>
    simp only [eraseStmts, sitesOfStmts, List.map_append, s.holders_erase around,
      holders_eraseStmts around rest]

theorem holders_eraseCases (around : Holder) (arms : List Case) :
    (sitesOfCases d' around (eraseCases arms)).map Site.holder =
      (sitesOfCases d around arms).map Site.holder := by
  match arms with
  | [] => rfl
  | ⟨_, body, _⟩ :: rest =>
    simp only [eraseCases, sitesOfCases, List.map_append, body.holders_erase around,
      holders_eraseCases around rest]

end

theorem Block.rootHolders_erase (b : Block) :
    (b.erase.rootSites d').map Site.holder = (b.rootSites d).map Site.holder := by
  obtain ⟨id, statements, _⟩ := b
  exact congrArg (Holder.block id :: ·) (holders_eraseStmts d d' (.block id) statements)

end Sites

/-! ## What is done -/

section Accounts

mutual

theorem Expr.acts_erase (home : Homes) (e : Expr) : e.erase.acts home = e.acts home := by
  match e with
  | .literal _ | .identifier _ => rfl
  | .call f args _ => exact congrArg (actsOfHead home f.name ++ ·) (acts_eraseExprs home args)

theorem acts_eraseExprs (home : Homes) (es : List Expr) :
    actsOfArguments home (eraseExprs es) = actsOfArguments home es := by
  match es with
  | [] => rfl
  | e :: rest =>
    rw [eraseExprs, actsOfArguments, actsOfArguments, e.acts_erase, acts_eraseExprs home rest]

end

theorem Expr.account_erase (home : Homes) (e : Expr) : e.erase.account home = e.account home :=
  congrArg Account.ofActs (e.acts_erase home)

theorem Homes.enter_erase (home : Homes) (id : BlockId) (ss : List Stmt) :
    home.enter id (eraseStmts ss) = home.enter id ss := by
  rw [Homes.enter, Homes.enter, functionsOf_eraseStmts, List.foldl_map]
  simp only [FunctionDef.erase_name]

mutual

theorem Stmt.account_erase (home : Homes) (here : BlockId) (s : Stmt) :
    s.erase.account home here = s.account home here := by
  match s with
  | .expression e | .assignment _ e _ | .declaration _ (some e) _ => exact e.account_erase home
  | .declaration _ none _ | .breakLoop _ | .continueLoop _ | .leave _ => rfl
  | .function ⟨name, _, _, body⟩ _ =>
    exact congrArg (Account.inFunction ⟨here, name.name⟩) (body.account_erase home)
  | .ifThen e body _ => exact congrArg₂ Account.append (e.account_erase home) (body.account_erase home)
  | .switch subject arms _ =>
    exact congrArg₂ Account.append (subject.account_erase home) (account_eraseCases home arms)
  | .forLoop ⟨id, statements, _⟩ e post body _ =>
    simp only [Stmt.erase, Block.erase, Stmt.account, home.enter_erase,
      account_eraseStmts _ id statements, e.account_erase, body.account_erase, post.account_erase]
  | .block b => exact b.account_erase home

/-- Blocks and functions do the same. -/
theorem Block.account_erase (home : Homes) (b : Block) : b.erase.account home = b.account home := by
  match b with
  | ⟨id, statements, _⟩ =>
    simp only [Block.erase, Block.account, home.enter_erase, account_eraseStmts _ id statements]

theorem account_eraseStmts (home : Homes) (here : BlockId) (ss : List Stmt) :
    accountOfStmts home here (eraseStmts ss) = accountOfStmts home here ss := by
  match ss with
  | [] => rfl
  | s :: rest =>
    exact congrArg₂ Account.append (s.account_erase home here) (account_eraseStmts home here rest)

theorem account_eraseCases (home : Homes) (arms : List Case) :
    accountOfCases home (eraseCases arms) = accountOfCases home arms := by
  match arms with
  | [] => rfl
  | ⟨_, body, _⟩ :: rest =>
    exact congrArg₂ Account.append (body.account_erase home) (account_eraseCases home rest)

end

end Accounts

end Yul
