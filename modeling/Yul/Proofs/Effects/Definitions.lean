import Mathlib.Data.List.Nodup
import Yul.Proofs.Effects.Regions
import Yul.Proofs.WellFormed.Judgement

/-!
# Blocks and functions of an account

The account of a block has one entry for each block of the code and one for each function that the
code defines (`Block.account_covers`), and calls lead to these functions (`Block.account_resolved`).
In well-formed code whose blocks have different numbers no function occurs twice.
-/

namespace Yul

/-- The functions that statements of block `id` define. -/
def definedAmong (id : BlockId) (statements : List Stmt) : List FunctionKey :=
  (functionsOf statements).map fun f => ⟨id, f.name.name⟩

/-- The functions that a block itself defines. -/
def Block.ownFunctions (b : Block) : List FunctionKey :=
  definedAmong b.id b.statements

/-- The functions that a block and the blocks inside it define. -/
def Block.definitions (b : Block) : List FunctionKey :=
  b.blocks.flatMap Block.ownFunctions

/-! ## Entries of accounts -/

/-- An account has an entry for each block of `bs`, and for each function that they define or that
`own` lists. -/
structure Account.Covers (a : Account FunctionKey) (own : List FunctionKey) (bs : List Block) :
    Prop where
  blocks : (a.blocks.map (·.1)).Perm (bs.map Block.id)
  functions : (a.functions.map (·.1)).Perm (own ++ bs.flatMap Block.ownFunctions)

namespace Account.Covers

variable {a a' : Account FunctionKey} {own own' : List FunctionKey} {bs bs' : List Block}

theorem ofActs (acts : List (Act FunctionKey)) : (Account.ofActs acts).Covers [] [] :=
  ⟨.nil, .nil⟩

theorem append (h : a.Covers own bs) (h' : a'.Covers own' bs') :
    (a.append a').Covers (own ++ own') (bs ++ bs') := by
  constructor
  · rw [append_blocks, List.map_append, List.map_append]
    exact h.blocks.append h'.blocks
  · rw [append_functions, List.map_append, List.flatMap_append]
    refine (h.functions.append h'.functions).trans ?_
    rw [List.append_assoc, List.append_assoc]
    refine .append_left own ?_
    rw [← List.append_assoc, ← List.append_assoc]
    exact .append_right _ List.perm_append_comm

theorem inBlock (b : Block) (h : a.Covers b.ownFunctions bs) :
    (a.inBlock b.id).Covers [] (b :: bs) := by
  constructor
  · rw [inBlock_blocks, List.map_append]
    exact (List.perm_append_singleton _ _).trans (h.blocks.cons _)
  · exact h.functions

theorem inFunction (f : FunctionKey) (h : a.Covers [] bs) : (a.inFunction f).Covers [f] bs := by
  constructor
  · exact h.blocks
  · rw [inFunction_functions, List.map_append]
    exact (List.perm_append_singleton _ _).trans (h.functions.cons _)

theorem of_perm (h : a.Covers own bs) (hperm : bs.Perm bs') : a.Covers own bs' :=
  ⟨h.blocks.trans (hperm.map _), h.functions.trans (.append_left own (hperm.flatMap_right _))⟩

end Account.Covers

mutual

theorem Stmt.account_covers (home : Homes) (id : BlockId) (s : Stmt) :
    (s.account home id).Covers (definedAmong id [s]) s.blocks := by
  match s with
  | .expression e => exact .ofActs _
  | .assignment _ value _ => exact .ofActs _
  | .declaration _ none _ => exact .ofActs []
  | .declaration _ (some value) _ => exact .ofActs _
  | .function f _ => exact f.account_covers home id
  | .ifThen e body _ => exact .append (.ofActs _) (body.account_covers home)
  | .switch subject arms _ => exact .append (.ofActs _) (accountOfCases_covers home arms)
  | .forLoop ⟨bid, statements, span⟩ e post body _ =>
    have hrest := (Account.Covers.ofActs (e.acts (home.enter bid statements))).append
      ((body.account_covers (home.enter bid statements)).append
        ((post.account_covers (home.enter bid statements)).append (.ofActs [.effects .looping])))
    have hinside := (accountOfStmts_covers (home.enter bid statements) bid statements).append hrest
    simp only [List.append_nil, List.nil_append] at hinside
    refine (Account.Covers.inBlock ⟨bid, statements, span⟩ hinside).of_perm ?_
    rw [Stmt.blocks, Block.blocks, List.append_assoc, List.cons_append]
    exact (List.Perm.append_left _ List.perm_append_comm).cons _
  | .breakLoop _ | .continueLoop _ | .leave _ => exact .ofActs []
  | .block b => exact b.account_covers home

theorem FunctionDef.account_covers (home : Homes) (id : BlockId) (f : FunctionDef) :
    (f.account home id).Covers [⟨id, f.name.name⟩] f.blocks := by
  match f with
  | ⟨name, _, _, body⟩ => exact .inFunction _ (body.account_covers home)

/-- The account of a block has an entry for each block and function of its code. -/
theorem Block.account_covers (home : Homes) (b : Block) : (b.account home).Covers [] b.blocks := by
  match b with
  | ⟨id, statements, span⟩ =>
    exact .inBlock ⟨id, statements, span⟩ (accountOfStmts_covers _ id statements)

theorem accountOfStmts_covers (home : Homes) (id : BlockId) (ss : List Stmt) :
    (accountOfStmts home id ss).Covers (definedAmong id ss) (blocksOfStmts ss) := by
  match ss with
  | [] => exact .ofActs []
  | s :: rest =>
    have happend : definedAmong id (s :: rest) = definedAmong id [s] ++ definedAmong id rest := by
      rw [definedAmong, functionsOf, ← List.singleton_append, List.filterMap_append, List.map_append]
      rfl
    rw [happend]
    exact .append (s.account_covers home id) (accountOfStmts_covers home id rest)

theorem accountOfCases_covers (home : Homes) (arms : List Case) :
    (accountOfCases home arms).Covers [] (blocksOfCases arms) := by
  match arms with
  | [] => exact .ofActs []
  | ⟨_, body, _⟩ :: rest => exact .append (body.account_covers home) (accountOfCases_covers home rest)

end

/-! ## Where calls lead -/

/-- All functions that are called in an account are among `fs`. -/
structure Account.CallsAmong (a : Account FunctionKey) (fs : List FunctionKey) : Prop where
  acts : ∀ f ∈ calleesOf a.acts, f ∈ fs
  blocks : ∀ entry ∈ a.blocks, ∀ f ∈ calleesOf entry.2, f ∈ fs
  functions : ∀ entry ∈ a.functions, ∀ f ∈ calleesOf entry.2, f ∈ fs

namespace Account.CallsAmong

variable {a a' : Account FunctionKey} {fs : List FunctionKey}

theorem ofActs (acts : List (Act FunctionKey)) (h : ∀ f ∈ calleesOf acts, f ∈ fs) :
    (Account.ofActs acts).CallsAmong fs :=
  ⟨h, List.forall_mem_nil _, List.forall_mem_nil _⟩

theorem append (h : a.CallsAmong fs) (h' : a'.CallsAmong fs) : (a.append a').CallsAmong fs where
  acts := by
    rw [append_acts, calleesOf_append]
    exact List.forall_mem_append.mpr ⟨h.acts, h'.acts⟩
  blocks := List.forall_mem_append.mpr ⟨h.blocks, h'.blocks⟩
  functions := List.forall_mem_append.mpr ⟨h.functions, h'.functions⟩

theorem inBlock (h : a.CallsAmong fs) (id : BlockId) : (a.inBlock id).CallsAmong fs where
  acts := h.acts
  blocks := List.forall_mem_append.mpr ⟨h.blocks, List.forall_mem_singleton.mpr h.acts⟩
  functions := h.functions

theorem inFunction (h : a.CallsAmong fs) (f : FunctionKey) : (a.inFunction f).CallsAmong fs where
  acts := List.forall_mem_nil _
  blocks := h.blocks
  functions := List.forall_mem_append.mpr ⟨h.functions, List.forall_mem_singleton.mpr h.acts⟩

end Account.CallsAmong

/-- The functions that can be called are among `fs`. -/
def Homes.Among (home : Homes) (fs : List FunctionKey) : Prop :=
  ∀ x id, home x = some id → ⟨id, x⟩ ∈ fs

section Resolved

variable {fs : List FunctionKey} {home : Homes}

theorem Homes.Among.enter (h : home.Among fs) {id : BlockId} {statements : List Stmt}
    (hown : ∀ f ∈ definedAmong id statements, f ∈ fs) : (home.enter id statements).Among fs := by
  rw [definedAmong, List.forall_mem_map] at hown
  rw [Homes.enter]
  generalize functionsOf statements = defined at hown ⊢
  induction defined generalizing home with
  | nil => exact h
  | cons f defined ih =>
    rw [List.forall_mem_cons] at hown
    refine ih (fun x id' hx => ?_) hown.2
    change (if x = f.name.name then some id else home x) = some id' at hx
    split at hx
    · next heq =>
      obtain rfl := Option.some.inj hx
      exact heq ▸ hown.1
    · exact h x id' hx

theorem actsOfHead_resolved (h : home.Among fs) (x : Name) :
    ∀ f ∈ calleesOf (actsOfHead home x), f ∈ fs := by
  rw [actsOfHead]
  cases Builtin.find? x with
  | some b => exact List.forall_mem_nil _
  | none =>
    cases hhome : home x with
    | none => exact List.forall_mem_nil _
    | some id => exact List.forall_mem_singleton.mpr (h x id hhome)

mutual

theorem Expr.acts_resolved (h : home.Among fs) (e : Expr) :
    ∀ f ∈ calleesOf (e.acts home), f ∈ fs := by
  match e with
  | .literal _ | .identifier _ => exact List.forall_mem_nil _
  | .call f args _ =>
    rw [Expr.acts, calleesOf_append]
    exact List.forall_mem_append.mpr ⟨actsOfHead_resolved h f.name, actsOfArguments_resolved h args⟩

theorem actsOfArguments_resolved (h : home.Among fs) (args : List Expr) :
    ∀ f ∈ calleesOf (actsOfArguments home args), f ∈ fs := by
  match args with
  | [] => exact List.forall_mem_nil _
  | e :: rest =>
    rw [actsOfArguments, calleesOf_append]
    exact List.forall_mem_append.mpr ⟨e.acts_resolved h, actsOfArguments_resolved h rest⟩

end

theorem Expr.account_resolved (h : home.Among fs) (e : Expr) : (e.account home).CallsAmong fs :=
  .ofActs _ (e.acts_resolved h)

mutual

theorem Stmt.account_resolved {home : Homes} (h : home.Among fs) (id : BlockId) (s : Stmt)
    (hfs : ∀ b ∈ s.blocks, ∀ f ∈ b.ownFunctions, f ∈ fs) : (s.account home id).CallsAmong fs := by
  match s with
  | .expression e => exact e.account_resolved h
  | .assignment _ value _ => exact value.account_resolved h
  | .declaration _ none _ => exact .ofActs [] (List.forall_mem_nil _)
  | .declaration _ (some value) _ => exact value.account_resolved h
  | .function f _ => exact f.account_resolved h id hfs
  | .ifThen e body _ => exact (e.account_resolved h).append (body.account_resolved h hfs)
  | .switch subject arms _ =>
    exact (subject.account_resolved h).append (accountOfCases_resolved h arms hfs)
  | .forLoop ⟨bid, statements, _⟩ e post body _ =>
    rw [Stmt.blocks, Block.blocks, List.forall_mem_append, List.forall_mem_append,
      List.forall_mem_cons] at hfs
    obtain ⟨⟨⟨hown, hstatements⟩, hpost⟩, hbody⟩ := hfs
    have hinner : (home.enter bid statements).Among fs := h.enter hown
    exact ((accountOfStmts_resolved hinner bid statements hstatements).append
      ((e.account_resolved hinner).append ((body.account_resolved hinner hbody).append
        ((post.account_resolved hinner hpost).append (.ofActs [.effects .looping]
          (List.forall_mem_nil _)))))).inBlock bid
  | .breakLoop _ | .continueLoop _ | .leave _ => exact .ofActs [] (List.forall_mem_nil _)
  | .block b => exact b.account_resolved h hfs

theorem FunctionDef.account_resolved {home : Homes} (h : home.Among fs) (id : BlockId)
    (f : FunctionDef) (hfs : ∀ b ∈ f.blocks, ∀ f ∈ b.ownFunctions, f ∈ fs) :
    (f.account home id).CallsAmong fs := by
  match f with
  | ⟨name, _, _, body⟩ => exact (body.account_resolved h hfs).inFunction _

/-- Calls in a block lead to functions of blocks around it or in it. -/
theorem Block.account_resolved {home : Homes} (h : home.Among fs) (b : Block)
    (hfs : ∀ b' ∈ b.blocks, ∀ f ∈ b'.ownFunctions, f ∈ fs) : (b.account home).CallsAmong fs := by
  match b with
  | ⟨id, statements, _⟩ =>
    rw [Block.blocks, List.forall_mem_cons] at hfs
    have hinner : (home.enter id statements).Among fs := h.enter hfs.1
    exact (accountOfStmts_resolved hinner id statements hfs.2).inBlock id

theorem accountOfStmts_resolved {home : Homes} (h : home.Among fs) (id : BlockId) (ss : List Stmt)
    (hfs : ∀ b ∈ blocksOfStmts ss, ∀ f ∈ b.ownFunctions, f ∈ fs) :
    (accountOfStmts home id ss).CallsAmong fs := by
  match ss with
  | [] => exact .ofActs [] (List.forall_mem_nil _)
  | s :: rest =>
    rw [blocksOfStmts, List.forall_mem_append] at hfs
    exact (s.account_resolved h id hfs.1).append (accountOfStmts_resolved h id rest hfs.2)

theorem accountOfCases_resolved {home : Homes} (h : home.Among fs) (arms : List Case)
    (hfs : ∀ b ∈ blocksOfCases arms, ∀ f ∈ b.ownFunctions, f ∈ fs) :
    (accountOfCases home arms).CallsAmong fs := by
  match arms with
  | [] => exact .ofActs [] (List.forall_mem_nil _)
  | ⟨_, body, _⟩ :: rest =>
    rw [blocksOfCases, Case.blocks, List.forall_mem_append] at hfs
    exact (body.account_resolved h hfs.1).append (accountOfCases_resolved h rest hfs.2)

end

end Resolved

theorem Block.account_callsAmong (b : Block) : (b.account .none).CallsAmong b.definitions :=
  b.account_resolved (fun _ _ h => absurd h (by simp [Homes.none])) fun _ hb _ hf =>
    List.mem_flatMap.mpr ⟨_, hb, hf⟩

/-! ## Distinct functions -/

section Distinct

variable {cfg : Setting}

theorem Env.Declarable.distinct {env : Env} {names : List (Name × Entity)} (h : env.Declarable names) :
    (names.map (·.1)).Nodup ∧ ∀ x ∈ names.map (·.1), x ∉ env.taken := by
  induction names generalizing env with
  | nil => exact ⟨List.nodup_nil, List.forall_mem_nil _⟩
  | cons entry names ih =>
    obtain ⟨x, e⟩ := entry
    obtain ⟨⟨-, hfree⟩, hrest⟩ := h
    obtain ⟨hnodup, hrestFree⟩ := ih hrest
    have hnot : x ∉ names.map (·.1) := fun hmem => hrestFree x hmem List.mem_cons_self
    refine ⟨List.nodup_cons.mpr ⟨hnot, hnodup⟩, List.forall_mem_cons.mpr ⟨hfree, ?_⟩⟩
    exact fun y hy hmem => hrestFree y hy (List.mem_cons_of_mem _ hmem)

theorem Env.OpensBlock.distinct {env : Env} {b : Block} (h : env.OpensBlock cfg b.id b.statements) :
    b.ownFunctions.Nodup := by
  have hnames := h.2.distinct.1
  rw [signaturesOf, List.map_map] at hnames
  refine List.Nodup.of_map FunctionKey.name ?_
  rwa [Block.ownFunctions, definedAmong, List.map_map]

mutual

theorem Stmt.WellFormed.distinct {env : Env} {place : Place} {s : Stmt}
    (h : s.WellFormed cfg env place) : ∀ b ∈ s.blocks, b.ownFunctions.Nodup := by
  match s with
  | .expression _ | .assignment _ _ _ | .declaration _ _ _ | .breakLoop _ | .continueLoop _
  | .leave _ => exact List.forall_mem_nil _
  | .function f _ => exact h.2.distinct
  | .ifThen _ body _ => exact h.2.distinct
  | .switch _ arms _ => exact WellFormedCases.distinct h.2
  | .forLoop ⟨bid, statements, span⟩ _ post body _ =>
    obtain ⟨hopens, hstatements, -, hbody, hpost⟩ := h
    rw [Stmt.blocks, Block.blocks, List.forall_mem_append, List.forall_mem_append,
      List.forall_mem_cons]
    exact ⟨⟨⟨Env.OpensBlock.distinct (b := ⟨bid, statements, span⟩) hopens,
      WellFormedStmts.distinct hstatements⟩, hpost.distinct⟩, hbody.distinct⟩
  | .block b => exact Block.WellFormed.distinct h

theorem FunctionDef.WellFormed.distinct {env : Env} {f : FunctionDef} (h : f.WellFormed cfg env) :
    ∀ b ∈ f.blocks, b.ownFunctions.Nodup := by
  match f with
  | ⟨_, _, _, body⟩ => exact h.2.distinct

theorem Block.WellFormed.distinct {env : Env} {place : Place} {b : Block}
    (h : b.WellFormed cfg env place) : ∀ b' ∈ b.blocks, b'.ownFunctions.Nodup := by
  match b with
  | ⟨id, statements, span⟩ =>
    rw [Block.blocks, List.forall_mem_cons]
    exact ⟨Env.OpensBlock.distinct (b := ⟨id, statements, span⟩) h.1,
      WellFormedStmts.distinct h.2⟩

theorem WellFormedStmts.distinct {env : Env} {place : Place} {ss : List Stmt}
    (h : WellFormedStmts cfg env place ss) : ∀ b ∈ blocksOfStmts ss, b.ownFunctions.Nodup := by
  match ss with
  | [] => exact List.forall_mem_nil _
  | s :: rest =>
    rw [blocksOfStmts, List.forall_mem_append]
    exact ⟨h.1.distinct, WellFormedStmts.distinct h.2⟩

theorem WellFormedCases.distinct {env : Env} {place : Place} {arms : List Case}
    (h : WellFormedCases cfg env place arms) : ∀ b ∈ blocksOfCases arms, b.ownFunctions.Nodup := by
  match arms with
  | [] => exact List.forall_mem_nil _
  | ⟨_, body, _⟩ :: rest =>
    rw [blocksOfCases, Case.blocks, List.forall_mem_append]
    exact ⟨h.1.distinct, WellFormedCases.distinct h.2⟩

end

theorem home_of_mem_ownFunctions {b : Block} {f : FunctionKey} (h : f ∈ b.ownFunctions) :
    f.home = b.id := by
  obtain ⟨f', -, rfl⟩ := List.mem_map.mp h
  rfl

theorem Block.WellFormed.definitions_nodup {env : Env} {place : Place} {b : Block}
    (h : b.WellFormed cfg env place) (hdistinct : (b.blocks.map Block.id).Nodup) :
    b.definitions.Nodup := by
  refine List.nodup_flatMap.mpr ⟨h.distinct, ?_⟩
  refine (List.pairwise_map.mp hdistinct).imp fun hne f hf hf' => hne ?_
  exact (home_of_mem_ownFunctions hf).symm.trans (home_of_mem_ownFunctions hf')

end Distinct

end Yul
