import Yul.Proofs.Effects.Reach
import Yul.Proofs.Scope.Chart
import Yul.Proofs.WellFormed.Exact

/-!
# The recorded scopes mirror the code

Behind the analysis of a block, whatever it reports, the record has one scope for each block of the
code and one for the parameters of each function, each below the scope that the code puts it in
(`Mirrors`). If no error is found, the scopes hold what the code declares there, with the labels that
calls rely on (`HoldsDeclared`).
-/

namespace Yul

/-- The functions that are defined in a block and in the blocks inside it. -/
def Block.functions (b : Block) : List FunctionDef :=
  b.blocks.flatMap fun b' => functionsOf b'.statements

/-! ## The sites of a block -/

/-- The bodies of functions whose parameters have a site. -/
def bodiesOfSites (sites : List Site) : List BlockId :=
  sites.filterMap fun site => site.holder.body?

theorem bodiesOfSites_append (sites sites' : List Site) :
    bodiesOfSites (sites ++ sites') = bodiesOfSites sites ++ bodiesOfSites sites' :=
  List.filterMap_append

theorem holders_nodup {sites : List Site} (hblocks : (visitedOfSites sites).Nodup)
    (hbodies : (bodiesOfSites sites).Nodup) : (sites.map Site.holder).Nodup := by
  induction sites with
  | nil => exact List.nodup_nil
  | cons site sites ih =>
    obtain ⟨holder, parent, symbols⟩ := site
    rw [List.map_cons, List.nodup_cons]
    cases holder with
    | block id =>
      rw [visitedOfSites_block, List.nodup_cons] at hblocks
      refine ⟨fun hmem => hblocks.1 ?_, ih hblocks.2 hbodies⟩
      obtain ⟨site, hsite, hholder⟩ := List.mem_map.mp hmem
      exact List.mem_filterMap.mpr ⟨site, hsite, by rw [hholder]; rfl⟩
    | parameters body =>
      change (body :: bodiesOfSites sites).Nodup at hbodies
      rw [List.nodup_cons] at hbodies
      refine ⟨fun hmem => hbodies.1 ?_, ih hblocks hbodies.2⟩
      obtain ⟨site, hsite, hholder⟩ := List.mem_map.mp hmem
      exact List.mem_filterMap.mpr ⟨site, hsite, by rw [hholder]; rfl⟩

section Dialect

variable (d : Dialect)

/-- The sites that a block asks for: its own, and those of its functions' parameters. -/
def Block.Asks (sites : List Site) (b : Block) : Prop :=
  (∃ around, ⟨.block b.id, around, symbolsOf d b.statements⟩ ∈ sites) ∧
    ∀ f ∈ functionsOf b.statements,
      ⟨.parameters f.body.id, some (.block b.id), variableSymbols d (f.parameters ++ f.returns)⟩ ∈
        sites

theorem Block.Asks.mono {sites sites' : List Site} {b : Block} (h : b.Asks d sites)
    (hsub : sites ⊆ sites') : b.Asks d sites' := by
  obtain ⟨⟨around, hblock⟩, hfunctions⟩ := h
  exact ⟨⟨around, hsub hblock⟩, fun f hf => hsub (hfunctions f hf)⟩

theorem mem_sitesOfStmts {f : FunctionDef} {statements : List Stmt} (hf : f ∈ functionsOf statements)
    (holder : Holder) :
    ⟨.parameters f.body.id, some holder, variableSymbols d (f.parameters ++ f.returns)⟩ ∈
      sitesOfStmts d holder statements := by
  induction statements with
  | nil => exact absurd hf List.not_mem_nil
  | cons s rest ih =>
    rw [sitesOfStmts, List.mem_append]
    obtain ⟨s', hs', hfun⟩ := List.mem_filterMap.mp hf
    rcases List.mem_cons.mp hs' with rfl | hs'
    · left
      cases s' with
      | function g _ =>
        obtain rfl := Option.some.inj hfun
        obtain ⟨name, params, returns, body⟩ := g
        exact List.mem_cons_self
      | _ => exact nomatch hfun
    · exact .inr (ih (List.mem_filterMap.mpr ⟨s', hs', hfun⟩))

theorem Block.asks_self {sites : List Site} {around : Option Holder} {b : Block}
    (hsub : ⟨.block b.id, around, symbolsOf d b.statements⟩ ::
      sitesOfStmts d (.block b.id) b.statements ⊆ sites) : b.Asks d sites :=
  ⟨⟨around, hsub List.mem_cons_self⟩, fun _ hf =>
    hsub (List.mem_cons_of_mem _ (mem_sitesOfStmts d hf _))⟩

mutual

theorem Stmt.blocks_ask (holder : Holder) (s : Stmt) :
    ∀ b ∈ s.blocks, b.Asks d (s.sites d holder) := by
  match s with
  | .expression _ | .assignment _ _ _ | .declaration _ _ _ | .breakLoop _ | .continueLoop _
  | .leave _ => exact List.forall_mem_nil _
  | .function f _ => exact f.blocks_ask holder
  | .ifThen _ body _ => exact body.blocks_ask holder
  | .switch _ cases _ => exact blocksOfCases_ask holder cases
  | .forLoop ⟨id, statements, span⟩ _ post body _ =>
    rw [Stmt.blocks, Stmt.sites, Block.blocks]
    intro b hb
    rw [List.append_assoc, List.cons_append, List.mem_cons, List.mem_append, List.mem_append] at hb
    rcases hb with rfl | hb | hb | hb
    · exact Block.asks_self d (List.cons_subset_cons _ (List.subset_append_left _ _))
    · refine (blocksOfStmts_ask (.block id) statements b hb).mono d ?_
      exact fun x hx => List.mem_cons_of_mem _ (List.mem_append_left _ hx)
    · refine (post.blocks_ask (.block id) b hb).mono d ?_
      exact fun x hx => List.mem_cons_of_mem _
        (List.mem_append_right _ (List.mem_append_right _ hx))
    · refine (body.blocks_ask (.block id) b hb).mono d ?_
      exact fun x hx => List.mem_cons_of_mem _
        (List.mem_append_right _ (List.mem_append_left _ hx))
  | .block b => exact b.blocks_ask holder

theorem FunctionDef.blocks_ask (holder : Holder) (f : FunctionDef) :
    ∀ b ∈ f.blocks, b.Asks d (f.sites d holder) := by
  match f with
  | ⟨_, _, _, body⟩ =>
    intro b hb
    exact (body.blocks_ask (.parameters body.id) b hb).mono d (List.subset_cons_self _ _)

theorem Block.blocks_ask (holder : Holder) (b : Block) :
    ∀ b' ∈ b.blocks, b'.Asks d (b.sites d holder) := by
  match b with
  | ⟨id, statements, span⟩ =>
    rw [Block.blocks, Block.sites]
    intro b hb
    rcases List.mem_cons.mp hb with rfl | hb
    · exact Block.asks_self d (List.Subset.refl _)
    · exact (blocksOfStmts_ask (.block id) statements b hb).mono d (List.subset_cons_self _ _)

theorem blocksOfStmts_ask (holder : Holder) (ss : List Stmt) :
    ∀ b ∈ blocksOfStmts ss, b.Asks d (sitesOfStmts d holder ss) := by
  match ss with
  | [] => exact List.forall_mem_nil _
  | s :: rest =>
    rw [blocksOfStmts, sitesOfStmts]
    intro b hb
    rcases List.mem_append.mp hb with hb | hb
    · exact (s.blocks_ask holder b hb).mono d (List.subset_append_left _ _)
    · exact (blocksOfStmts_ask holder rest b hb).mono d (List.subset_append_right _ _)

theorem blocksOfCases_ask (holder : Holder) (cs : List Case) :
    ∀ b ∈ blocksOfCases cs, b.Asks d (sitesOfCases d holder cs) := by
  match cs with
  | [] => exact List.forall_mem_nil _
  | ⟨value, body, span⟩ :: rest =>
    rw [blocksOfCases, sitesOfCases]
    intro b hb
    rcases List.mem_append.mp hb with hb | hb
    · exact (body.blocks_ask holder b hb).mono d (List.subset_append_left _ _)
    · exact (blocksOfCases_ask holder rest b hb).mono d (List.subset_append_right _ _)

end

/-! ## The bodies among the sites -/

mutual

theorem Stmt.bodies_sublist (holder : Holder) (s : Stmt) :
    (bodiesOfSites (s.sites d holder)).Sublist s.visited := by
  match s with
  | .expression _ | .assignment _ _ _ | .declaration _ _ _ | .breakLoop _ | .continueLoop _
  | .leave _ => exact .slnil
  | .function ⟨name, params, returns, body⟩ _ =>
    change (body.id :: bodiesOfSites (body.sites d (.parameters body.id))).Sublist body.visited
    rw [body.visited_cons]
    exact (body.bodies_sublist _).cons_cons body.id
  | .ifThen _ body _ => exact body.bodies_sublist_visited holder
  | .switch _ cases _ => exact bodiesOfCases_sublist holder cases
  | .forLoop ⟨id, statements, _⟩ _ post body _ =>
    have hblocks := (body.bodies_sublist_visited (.block id)).append
      (post.bodies_sublist_visited (.block id))
    have hall := (bodiesOfStmts_sublist (.block id) statements).append hblocks
    rw [← bodiesOfSites_append, ← bodiesOfSites_append] at hall
    exact hall.cons id
  | .block b => exact b.bodies_sublist_visited holder

theorem Block.bodies_sublist (holder : Holder) (b : Block) :
    (bodiesOfSites (b.sites d holder)).Sublist (visitedOfStmts b.statements) := by
  match b with
  | ⟨id, statements, _⟩ => exact bodiesOfStmts_sublist (.block id) statements

theorem Block.bodies_sublist_visited (holder : Holder) (b : Block) :
    (bodiesOfSites (b.sites d holder)).Sublist b.visited := by
  match b with
  | ⟨id, statements, _⟩ => exact (bodiesOfStmts_sublist (.block id) statements).cons id

theorem bodiesOfStmts_sublist (holder : Holder) (ss : List Stmt) :
    (bodiesOfSites (sitesOfStmts d holder ss)).Sublist (visitedOfStmts ss) := by
  match ss with
  | [] => exact .slnil
  | s :: rest =>
    rw [sitesOfStmts, bodiesOfSites_append]
    exact (s.bodies_sublist holder).append (bodiesOfStmts_sublist holder rest)

theorem bodiesOfCases_sublist (holder : Holder) (cs : List Case) :
    (bodiesOfSites (sitesOfCases d holder cs)).Sublist (visitedOfCases cs) := by
  match cs with
  | [] => exact .slnil
  | ⟨_, body, _⟩ :: rest =>
    rw [sitesOfCases, bodiesOfSites_append]
    exact (body.bodies_sublist_visited holder).append (bodiesOfCases_sublist holder rest)

end

/-- Whether a block is the body of a function that statements define directly, or that one of the
given blocks defines. -/
def IsBody (statements : List Stmt) (blocks : List Block) (body : BlockId) : Prop :=
  (∃ f ∈ functionsOf statements, f.body.id = body) ∨
    ∃ b ∈ blocks, ∃ f ∈ functionsOf b.statements, f.body.id = body

theorem IsBody.mono {statements statements' : List Stmt} {blocks blocks' : List Block}
    {body : BlockId} (h : IsBody statements blocks body) (hstatements : statements ⊆ statements')
    (hblocks : blocks ⊆ blocks') : IsBody statements' blocks' body := by
  rcases h with ⟨f, hf, hbody⟩ | ⟨b, hb, hfunction⟩
  · obtain ⟨s, hs, hfun⟩ := List.mem_filterMap.mp hf
    exact .inl ⟨f, List.mem_filterMap.mpr ⟨s, hstatements hs, hfun⟩, hbody⟩
  · exact .inr ⟨b, hblocks hb, hfunction⟩

theorem IsBody.inside {statements : List Stmt} {blocks : List Block} {body : BlockId}
    (h : IsBody statements blocks body) (id : BlockId) (span : Span) :
    IsBody [] (⟨id, statements, span⟩ :: blocks) body := by
  rcases h with hfunction | ⟨b, hb, hfunction⟩
  · exact .inr ⟨_, List.mem_cons_self, hfunction⟩
  · exact .inr ⟨b, List.mem_cons_of_mem _ hb, hfunction⟩

mutual

theorem Stmt.isBody (holder : Holder) (s : Stmt) :
    ∀ body ∈ bodiesOfSites (s.sites d holder), IsBody [s] s.blocks body := by
  match s with
  | .expression _ | .assignment _ _ _ | .declaration _ _ _ | .breakLoop _ | .continueLoop _
  | .leave _ => exact List.forall_mem_nil _
  | .function ⟨name, params, returns, body⟩ _ =>
    intro id hid
    rcases List.mem_cons.mp hid with rfl | hid
    · exact .inl ⟨_, List.mem_cons_self, rfl⟩
    · exact (body.isBody _ id hid).mono (List.nil_subset _) (List.Subset.refl _)
  | .ifThen _ body _ =>
    intro id hid
    exact (body.isBody holder id hid).mono (List.nil_subset _) (List.Subset.refl _)
  | .switch _ cases _ =>
    intro id hid
    exact (isBody_of_cases holder cases id hid).mono (List.nil_subset _) (List.Subset.refl _)
  | .forLoop ⟨id, statements, span⟩ _ post body _ =>
    intro id' hid'
    change id' ∈ bodiesOfSites (sitesOfStmts d (.block id) statements ++
      (body.sites d (.block id) ++ post.sites d (.block id))) at hid'
    rw [bodiesOfSites_append, bodiesOfSites_append, List.mem_append, List.mem_append] at hid'
    rw [Stmt.blocks, Block.blocks, List.append_assoc]
    rcases hid' with hid' | hid' | hid'
    · exact ((isBody_of_stmts (.block id) statements id' hid').inside id span).mono
        (List.nil_subset _) (List.subset_append_left _ _)
    · exact (body.isBody _ id' hid').mono (List.nil_subset _) fun b hb =>
        List.mem_append_right _ (List.mem_append_right _ hb)
    · exact (post.isBody _ id' hid').mono (List.nil_subset _) fun b hb =>
        List.mem_append_right _ (List.mem_append_left _ hb)
  | .block b =>
    intro id hid
    exact (b.isBody holder id hid).mono (List.nil_subset _) (List.Subset.refl _)

theorem Block.isBody (holder : Holder) (b : Block) :
    ∀ body ∈ bodiesOfSites (b.sites d holder), IsBody [] b.blocks body := by
  match b with
  | ⟨id, statements, span⟩ =>
    intro body hbody
    exact (isBody_of_stmts (.block id) statements body hbody).inside id span

theorem isBody_of_stmts (holder : Holder) (ss : List Stmt) :
    ∀ body ∈ bodiesOfSites (sitesOfStmts d holder ss), IsBody ss (blocksOfStmts ss) body := by
  match ss with
  | [] => exact List.forall_mem_nil _
  | s :: rest =>
    intro body hbody
    rw [sitesOfStmts, bodiesOfSites_append, List.mem_append] at hbody
    rcases hbody with hbody | hbody
    · refine (s.isBody holder body hbody).mono ?_ (List.subset_append_left _ _)
      exact List.cons_subset_cons s (List.nil_subset rest)
    · exact (isBody_of_stmts holder rest body hbody).mono (List.subset_cons_self _ _)
        (List.subset_append_right _ _)

theorem isBody_of_cases (holder : Holder) (cs : List Case) :
    ∀ body ∈ bodiesOfSites (sitesOfCases d holder cs), IsBody [] (blocksOfCases cs) body := by
  match cs with
  | [] => exact List.forall_mem_nil _
  | ⟨value, body, span⟩ :: rest =>
    intro id hid
    rw [sitesOfCases, bodiesOfSites_append, List.mem_append] at hid
    rcases hid with hid | hid
    · exact (body.isBody holder id hid).mono (List.nil_subset _) (List.subset_append_left _ _)
    · exact (isBody_of_cases holder rest id hid).mono (List.nil_subset _)
        (List.subset_append_right _ _)

end

/-! ## The sites of a whole -/

variable (b : Block)

theorem Block.visitedOfSites_rootSites : visitedOfSites (b.rootSites d) = b.visited := by
  rw [Block.rootSites, visitedOfSites_block, visitedOfStmts_eq, b.visited_cons]

theorem Block.rootSites_nodup (hdistinct : (b.blocks.map Block.id).Nodup) :
    ((b.rootSites d).map Site.holder).Nodup := by
  have hvisited : b.visited.Nodup := b.visited_perm.nodup_iff.mpr hdistinct
  refine holders_nodup ?_ ?_
  · rw [b.visitedOfSites_rootSites d]
    exact hvisited
  · rw [b.visited_cons, List.nodup_cons] at hvisited
    exact hvisited.2.sublist (bodiesOfStmts_sublist d (.block b.id) b.statements)

theorem Block.blocks_ask_root : ∀ b' ∈ b.blocks, b'.Asks d (b.rootSites d) := by
  obtain ⟨id, statements, span⟩ := b
  intro b' hb'
  rw [Block.blocks] at hb'
  rcases List.mem_cons.mp hb' with rfl | hb'
  · exact Block.asks_self d (List.Subset.refl _)
  · exact (blocksOfStmts_ask d (.block id) statements b' hb').mono d (List.subset_cons_self _ _)

theorem Block.mem_bodiesOfSites {body : BlockId} :
    body ∈ bodiesOfSites (b.rootSites d) ↔ body ∈ b.functions.map fun f => f.body.id := by
  simp only [List.mem_map, Block.functions, List.mem_flatMap]
  constructor
  · intro hbody
    rcases (isBody_of_stmts d (.block b.id) b.statements body hbody).inside b.id b.span with
      hnone | ⟨b', hb', f, hf, heq⟩
    · exact absurd hnone (by simp [functionsOf])
    · refine ⟨f, ⟨b', ?_, hf⟩, heq⟩
      cases b
      exact hb'
  · rintro ⟨f, ⟨b', hb', hf⟩, rfl⟩
    exact List.mem_filterMap.mpr ⟨_, (b.blocks_ask_root d b' hb').2 f hf, rfl⟩

end Dialect

/-! ## Behind an analysis -/

section Root

variable (cfg : Setting) {b : Block}

/-- Behind the analysis of a block the scopes are those of its sites. -/
theorem runBlock_charts (hdistinct : (b.blocks.map Block.id).Nodup)
    (hfault : (runBlock cfg {} b).fault = none) :
    Charted (runBlock cfg {} b).record (b.rootSites cfg.dialect) := by
  obtain ⟨r₁, r₂, hfunctions, htour, hrun⟩ := runBlock_tour cfg {} b
  rw [hrun] at hfault ⊢
  have hr₂ := (Run.fits_of_take hfault).1
  have hr₁ := htour.walk.fault_eq_none hr₂
  have hready := Run.ready_first b.id
  have hopened := Charted.empty.enterBlock (r := Run.mk {} [] [] [] none) hready.fault .root
    (by simp) (symbolsOf cfg.dialect b.statements)
  have hdeclared := hfunctions.charts hr₁ hopened
  have hcharted := htour.charts hr₂ hdeclared hdeclared.place_last
    (b.rootSites_nodup cfg.dialect hdistinct)
  rw [Run.record_exitBlock hfault]
  exact hcharted

/-- If no error is found, the scopes hold what their sites say. -/
theorem runBlock_fills (hfault : (runBlock cfg {} b).fault = none)
    (hclean : (runBlock cfg {} b).Clean) {k : Nat} {site : Site}
    (hsite : (b.rootSites cfg.dialect)[k]? = some site) :
    ∃ s, (runBlock cfg {} b).record.scopes.get? k = some s ∧ s.symbols = site.symbols := by
  obtain ⟨r₁, r₂, hfunctions, htour, hrun⟩ := runBlock_tour cfg {} b
  rw [hrun] at hfault hclean ⊢
  have hr₂ := (Run.fits_of_take hfault).1
  have hr₁ := htour.walk.fault_eq_none hr₂
  have hready := Run.ready_first b.id
  have hclean₂ := ((Run.clean_take hfault).mp hclean).1
  have hclean₁ := htour.walk.reaches.clean hr₂ hclean₂
  have hfilled := (hfunctions.fills hready hr₁ hclean₁).own_append
    (htour.fills (hfunctions.walk.ready hready hr₁) hr₂ hclean₂)
  have hfirst := Run.take_eq hready.fault
  rw [Run.record_exitBlock hfault]
  cases k with
  | zero =>
    obtain rfl := Option.some.inj hsite
    obtain ⟨s, hs, hsymbols⟩ := hfilled.own ⟨none, false, []⟩ (by rw [hfirst]; rfl)
    exact ⟨s, hs, hsymbols⟩
  | succ k =>
    obtain ⟨s, hs, hsymbols⟩ := hfilled.sites k site hsite
    rw [Run.size_enterBlock hready.fault, Nat.add_right_comm] at hs
    exact ⟨s, (Nat.zero_add k) ▸ hs, hsymbols⟩

theorem runBlock_single (b : Block) : (runBlock cfg {} b).record.scopes.Single :=
  (runBlock_reaches cfg {} b).single fun i s hs => by simp [ScopeTable.get?] at hs

end Root

/-- The scopes of a record are those that a block asks for, and nothing else. -/
structure Mirrors (d : Dialect) (b : Block) (record : Record) : Prop where
  /-- each block has a scope -/
  blocks : ∀ id, record.blockScopes.contains id = true ↔ id ∈ b.blocks.map Block.id
  /-- so have the parameters of each function, under the number of its body -/
  functions : ∀ body, record.functionScopes.contains body = true ↔
    body ∈ b.functions.map fun f => f.body.id
  /-- no scope belongs to two blocks -/
  blocks_injective : ∀ (id id' : BlockId) (i : Nat), record.blockScopes[id]? = some i →
    record.blockScopes[id']? = some i → id = id'
  /-- no scope belongs to two functions -/
  functions_injective : ∀ (body body' : BlockId) (i : Nat), record.functionScopes[body]? = some i →
    record.functionScopes[body']? = some i → body = body'
  /-- no scope belongs to a block and to a function -/
  disjoint : ∀ (id body : BlockId) (i : Nat), record.blockScopes[id]? = some i →
    record.functionScopes[body]? ≠ some i
  /-- every scope belongs to a block or a function -/
  onto : ∀ i : Nat, i < record.scopes.size ↔
    (∃ id : BlockId, record.blockScopes[id]? = some i) ∨
      ∃ body : BlockId, record.functionScopes[body]? = some i
  /-- the scopes of functions are marked as such -/
  flags : ∀ (i : Nat) (s : Scope), record.scopes.get? i = some s →
    (s.ofFunction = true ↔ ∃ body : BlockId, record.functionScopes[body]? = some i)
  /-- each scope hangs below the scope of its site's parent, which has a smaller number -/
  parents : ∀ site ∈ b.rootSites d, ∃ i s, record.place? site.holder = some i ∧
    record.scopes.get? i = some s ∧ record.Hangs i s.parent site.parent

/-- The scopes of a record hold what a block declares. -/
structure HoldsDeclared (d : Dialect) (b : Block) (record : Record) : Prop where
  /-- the scope of each block holds the functions and variables that it declares directly -/
  blocks : ∀ b' ∈ b.blocks, ∃ s, record.scopeOf? b'.id = some s ∧
    s.symbols = symbolsOf d b'.statements
  /-- the scope of each function holds its parameters and results, with the labels that the
  function has in the scope of the block that defines it -/
  functions : ∀ b' ∈ b.blocks, ∀ f ∈ functionsOf b'.statements, ∃ s around parameters returns,
    record.functionScopes[f.body.id]?.bind record.scopes.get? = some s ∧
      s.symbols = variableSymbols d (f.parameters ++ f.returns) ∧
      record.scopeOf? b'.id = some around ∧
      around.find? f.name.name = some (.function parameters returns) ∧
      s.symbols.map (·.2) = (parameters ++ returns).map Symbol.variable

section Charted

variable {d : Dialect} {b : Block} {record : Record}

theorem Charted.injective {sites : List Site} (h : Charted record sites) (holder holder' : Holder)
    {i : Nat} (hi : record.place? holder = some i) (hi' : record.place? holder' = some i) :
    holder = holder' := by
  obtain ⟨site, hsite, rfl⟩ := (h.place holder i).mp hi
  obtain ⟨site', hsite', rfl⟩ := (h.place holder' i).mp hi'
  rw [hsite] at hsite'
  rw [Option.some.inj hsite']

theorem Charted.isSome_iff {sites : List Site} (h : Charted record sites) (holder : Holder) :
    (record.place? holder).isSome = true ↔ holder ∈ sites.map Site.holder := by
  rw [Option.isSome_iff_exists, List.mem_map]
  constructor
  · rintro ⟨i, hi⟩
    obtain ⟨site, hsite, hholder⟩ := (h.place holder i).mp hi
    exact ⟨site, List.mem_of_getElem? hsite, hholder⟩
  · rintro ⟨site, hsite, hholder⟩
    obtain ⟨i, hi⟩ := List.mem_iff_getElem?.mp hsite
    exact ⟨i, (h.place holder i).mpr ⟨site, hi, hholder⟩⟩

theorem Charted.exists_site {sites : List Site} (h : Charted record sites) {i : Nat}
    (hi : i < record.scopes.size) :
    ∃ site, sites[i]? = some site ∧ record.place? site.holder = some i := by
  rw [h.size] at hi
  exact ⟨sites[i], List.getElem?_eq_getElem hi,
    (h.place _ i).mpr ⟨_, List.getElem?_eq_getElem hi, rfl⟩⟩

theorem Charted.mirrors (h : Charted record (b.rootSites d)) : Mirrors d b record where
  blocks id := by
    have hblock := h.isSome_iff (.block id)
    rw [Std.TreeMap.contains_eq_isSome_getElem?]
    refine hblock.trans ?_
    rw [← b.visited_perm.mem_iff, ← b.visitedOfSites_rootSites d]
    simp only [visitedOfSites, List.mem_map, List.mem_filterMap]
    constructor
    · rintro ⟨site, hsite, hholder⟩
      exact ⟨site, hsite, by rw [hholder]; rfl⟩
    · rintro ⟨⟨holder, around, symbols⟩, hsite, hholder⟩
      cases holder with
      | block id' => exact ⟨_, hsite, congrArg Holder.block (Option.some.inj hholder)⟩
      | parameters body => exact nomatch hholder
  functions body := by
    have hfunction := h.isSome_iff (.parameters body)
    rw [Std.TreeMap.contains_eq_isSome_getElem?]
    refine hfunction.trans ?_
    rw [← b.mem_bodiesOfSites d]
    simp only [bodiesOfSites, List.mem_map, List.mem_filterMap]
    constructor
    · rintro ⟨site, hsite, hholder⟩
      exact ⟨site, hsite, by rw [hholder]; rfl⟩
    · rintro ⟨⟨holder, around, symbols⟩, hsite, hholder⟩
      cases holder with
      | block id' => exact nomatch hholder
      | parameters body' => exact ⟨_, hsite, congrArg Holder.parameters (Option.some.inj hholder)⟩
  blocks_injective id id' i hi hi' :=
    Holder.block.inj (h.injective (.block id) (.block id') hi hi')
  functions_injective body body' i hi hi' :=
    Holder.parameters.inj (h.injective (.parameters body) (.parameters body') hi hi')
  disjoint id body i hi hi' :=
    nomatch h.injective (.block id) (.parameters body) hi hi'
  onto i := by
    constructor
    · intro hi
      obtain ⟨⟨holder, around, symbols⟩, -, hplace⟩ := h.exists_site hi
      cases holder with
      | block id => exact .inl ⟨id, hplace⟩
      | parameters body => exact .inr ⟨body, hplace⟩
    · rintro (⟨id, hid⟩ | ⟨body, hbody⟩)
      · exact h.place_lt (.block id) hid
      · exact h.place_lt (.parameters body) hbody
  flags i s hs := by
    obtain ⟨site, hsite, hplace⟩ := h.exists_site (ScopeTable.lt_of_get? hs)
    obtain ⟨s', hs', hflag, -⟩ := h.scope i site hsite
    obtain rfl := Option.some.inj (hs.symm.trans hs')
    rw [hflag]
    constructor
    · intro hparameters
      obtain ⟨holder, around, symbols⟩ := site
      cases holder with
      | block id => exact absurd hparameters Bool.false_ne_true
      | parameters body => exact ⟨body, hplace⟩
    · rintro ⟨body, hbody⟩
      rw [h.injective site.holder (.parameters body) hplace hbody]
      rfl
  parents site hsite := by
    obtain ⟨i, hi⟩ := List.mem_iff_getElem?.mp hsite
    obtain ⟨s, hs, -, hup⟩ := h.scope i site hi
    exact ⟨i, s, (h.place _ _).mpr ⟨site, hi, rfl⟩, hs, hup⟩

theorem Charted.holdsDeclared (h : Charted record (b.rootSites d)) (hsingle : record.scopes.Single)
    (hfilled : ∀ (k : Nat) (site : Site), (b.rootSites d)[k]? = some site →
      ∃ s, record.scopes.get? k = some s ∧ s.symbols = site.symbols) : HoldsDeclared d b record := by
  have hholds {site : Site} (hsite : site ∈ b.rootSites d) :
      ∃ s, (record.place? site.holder).bind record.scopes.get? = some s ∧
        (s.symbols.map (·.1)).Nodup ∧ s.symbols = site.symbols := by
    obtain ⟨i, hi⟩ := List.mem_iff_getElem?.mp hsite
    obtain ⟨s, hs, hsymbols⟩ := hfilled i site hi
    refine ⟨s, ?_, hsingle i s hs, hsymbols⟩
    rw [(h.place site.holder i).mpr ⟨site, hi, rfl⟩, Option.bind_some, hs]
  constructor
  · intro b' hb'
    obtain ⟨around, hsite⟩ := (b.blocks_ask_root d b' hb').1
    obtain ⟨s, hs, -, hsymbols⟩ := hholds hsite
    exact ⟨s, hs, hsymbols⟩
  · intro b' hb' f hf
    obtain ⟨⟨around, hblock⟩, hfunctions⟩ := b.blocks_ask_root d b' hb'
    obtain ⟨s, hs, -, hsymbols⟩ := hholds (hfunctions f hf)
    obtain ⟨s', hs', hnodup, hsymbols'⟩ := hholds hblock
    refine ⟨s, s', d.declaredLabels f.parameters, d.declaredLabels f.returns, hs, hsymbols, hs', ?_, ?_⟩
    · refine lookup_of_mem hnodup ?_
      rw [hsymbols']
      exact List.mem_append_left _ (List.mem_map.mpr ⟨f, hf, rfl⟩)
    · rw [hsymbols]
      simp only [variableSymbols, Dialect.declaredLabels, List.map_append, List.map_map]
      rfl

end Charted

/-- Whatever problems the analysis of a block finds, its scopes mirror the block; if it finds no
error, they hold what the block declares. -/
theorem scopes_mirror (cfg : Setting) (b : Block) (hdistinct : (b.blocks.map Block.id).Nodup) :
    (analyze cfg {} b).fault = none ∧ Mirrors cfg.dialect b (analyze cfg {} b).record ∧
      ((analyze cfg {} b).succeeded = true →
        HoldsDeclared cfg.dialect b (analyze cfg {} b).record) := by
  have hfault := (analyze_fault_eq_none_iff cfg b).mpr hdistinct
  have hrun := fault_of_ofRun hfault
  obtain ⟨hscopes, hblocks, hfunctions⟩ := ofRun_record (runBlock cfg {} b)
  have hplace (holder : Holder) : (analyze cfg {} b).record.place? holder =
      (runBlock cfg {} b).record.place? holder := by
    cases holder with
    | block id => exact congrArg (·[id]?) hblocks
    | parameters body => exact congrArg (·[body]?) hfunctions
  have hcharted : Charted (analyze cfg {} b).record (b.rootSites cfg.dialect) :=
    (runBlock_charts cfg hdistinct hrun).of_same hscopes hplace
  refine ⟨hfault, hcharted.mirrors, fun hsucceeded => ?_⟩
  have hclean := (analyze_succeeded_iff cfg b).mp hsucceeded
  refine hcharted.holdsDeclared ?_ fun k site hsite => ?_
  · intro i s hs
    exact runBlock_single cfg b i s (hscopes ▸ hs)
  · obtain ⟨s, hs, hsymbols⟩ := runBlock_fills cfg hrun hclean hsite
    exact ⟨s, (congrArg (·.get? k) hscopes).trans hs, hsymbols⟩

theorem countdown_mirrored :
    (countdown.blocks.map Block.id).Nodup ∧ Mirrors {} countdown (analyze {} {} countdown).record ∧
      HoldsDeclared {} countdown (analyze {} {} countdown).record :=
  ⟨by decide, (scopes_mirror {} countdown (by decide)).2.1,
    (scopes_mirror {} countdown (by decide)).2.2 (by decide +kernel)⟩

end Yul
