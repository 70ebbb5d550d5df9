import Yul.Proofs.Effects.Overall
import Yul.Proofs.Exchange.Relation
import Yul.Proofs.WellFormed.Ease

/-!
# Neighbours may be exchanged

Exchanging two neighbours that declare no variables changes neither whether code is correct nor what
it may do, be it correct or not (`analyze_exchanged`). So the functions of a block may be defined in
any order, before or behind their uses.
-/

namespace Yul

/-! ## Declaring in another order -/

namespace Env

theorem declarable_iff {env : Env} {names : List (Name × Entity)} :
    env.Declarable names ↔
      (∀ entry ∈ names, Allowed entry.1 ∧ entry.1 ∉ env.taken) ∧ (names.map (·.1)).Nodup := by
  induction names generalizing env with
  | nil => exact iff_of_true trivial ⟨List.forall_mem_nil _, List.nodup_nil⟩
  | cons entry names ih =>
    rw [Declarable, ih, List.forall_mem_cons, List.map_cons, List.nodup_cons, List.mem_map]
    constructor
    · rintro ⟨hentry, hnames, hnodup⟩
      refine ⟨⟨hentry, fun other hmem => ⟨(hnames other hmem).1, fun htaken => ?_⟩⟩, ?_, hnodup⟩
      · exact (hnames other hmem).2 (List.mem_cons_of_mem _ htaken)
      · rintro ⟨other, hmem, heq⟩
        exact (hnames other hmem).2 (heq ▸ List.mem_cons_self)
    · rintro ⟨⟨hentry, hnames⟩, hnot, hnodup⟩
      refine ⟨hentry, fun other hmem => ⟨(hnames other hmem).1, fun htaken => ?_⟩, hnodup⟩
      rcases List.mem_cons.mp htaken with heq | htaken
      · exact hnot ⟨other, hmem, heq⟩
      · exact (hnames other hmem).2 htaken

theorem Eases.refl (env : Env) : env.Eases env :=
  ⟨rfl, fun _ h => h⟩

theorem Eases.trans {env₁ env₂ env₃ : Env} (h : env₁.Eases env₂) (h' : env₂.Eases env₃) :
    env₁.Eases env₃ :=
  ⟨h'.visible.trans h.visible, fun _ hx => h.taken (h'.taken hx)⟩

/-- Distinct names may be declared in any order. -/
theorem declareAll_perm {names names' : List (Name × Entity)} (h : names.Perm names')
    (hnodup : (names.map (·.1)).Nodup) (env : Env) :
    (env.declareAll names).Eases (env.declareAll names') := by
  induction h generalizing env with
  | nil => exact .refl env
  | cons entry _ ih => exact ih (List.nodup_cons.mp hnodup).2 (env.declare entry.1 entry.2)
  | swap first second rest =>
    have hne : second.1 ≠ first.1 :=
      (List.pairwise_cons.mp hnodup).1 first.1 List.mem_cons_self
    refine Eases.declareAll ⟨?_, ?_⟩ rest
    · funext x
      by_cases hx : x = first.1
      · simp [declare, hx, hne.symm]
      · simp [declare, hx]
    · exact fun x hx => (List.Perm.swap first.1 second.1 env.taken).mem_iff.mp hx
  | trans h₁ _ ih₁ ih₂ =>
    exact (ih₁ hnodup env).trans (ih₂ ((h₁.map _).nodup_iff.mp hnodup) env)

end Env

/-! ## Well-formed code -/

section Setting

variable {cfg : Setting} {env : Env} {id : BlockId} {ss ss' : List Stmt}

theorem ExchangedStmts.signaturesOf (h : ExchangedStmts ss ss') :
    (signaturesOf cfg id ss).Perm (signaturesOf cfg id ss') := by
  have hmap := h.headers.map fun header : Name × List TypedName × List TypedName =>
    (header.1, Entity.function id (cfg.dialect.declaredLabels header.2.1)
      (cfg.dialect.declaredLabels header.2.2))
  rwa [List.map_map, List.map_map] at hmap

theorem ExchangedStmts.opensBlock (h : ExchangedStmts ss ss') (hopens : env.OpensBlock cfg id ss) :
    env.OpensBlock cfg id ss' := by
  have hsignatures : (Yul.signaturesOf cfg id ss).Perm (Yul.signaturesOf cfg id ss') :=
    h.signaturesOf
  obtain ⟨hlabels, hdeclarable⟩ := hopens
  refine ⟨fun f hf => ?_, ?_⟩
  · have hheaders : ∀ header ∈ (functionsOf ss).map FunctionDef.header,
        cfg.dialect.AnnotatesAll header.2.1 ∧ cfg.dialect.AnnotatesAll header.2.2 :=
      List.forall_mem_map.mpr hlabels
    exact hheaders f.header (h.headers.mem_iff.mpr (List.mem_map_of_mem hf))
  · rw [Env.declarable_iff] at hdeclarable ⊢
    exact ⟨fun entry hmem => hdeclarable.1 entry (hsignatures.mem_iff.mpr hmem),
      (hsignatures.map _).nodup_iff.mp hdeclarable.2⟩

theorem ExchangedStmts.eases (h : ExchangedStmts ss ss') (hopens : env.OpensBlock cfg id ss) :
    (env.inBlock cfg id ss).Eases (env.inBlock cfg id ss') :=
  Env.declareAll_perm h.signaturesOf (Env.declarable_iff.mp hopens.2).2 env

theorem Env.after_of_not_declaration {s : Stmt} (h : s.isDeclaration = false) :
    env.after cfg s = env := by
  cases s with
  | declaration => exact absurd h (by simp [Stmt.isDeclaration])
  | _ => rfl

theorem ExchangedStmts.foldl_env {ss ss' : List Stmt} (h : ExchangedStmts ss ss') (env : Env) :
    ss.foldl (Env.after cfg) env = ss'.foldl (Env.after cfg) env := by
  cases h with
  | swap hs ht =>
    simp only [List.foldl_cons, Env.after_of_not_declaration hs, Env.after_of_not_declaration ht]
  | head h =>
    simp only [List.foldl_cons, Env.after_of_not_declaration h.isDeclaration.1,
      Env.after_of_not_declaration h.isDeclaration.2]
  | tail h => exact h.foldl_env _

theorem ExchangedCases.values {arms arms' : List Case} (h : ExchangedCases arms arms') :
    arms.map Case.value = arms'.map Case.value := by
  cases h with
  | head => rfl
  | tail h => exact congrArg (List.cons _) h.values

theorem ExchangedCases.armsMatch {arms arms' : List Case} {type : Label}
    (h : ExchangedCases arms arms') (hmatch : ArmsMatch cfg type arms) :
    ArmsMatch cfg type arms' := by
  have hvalues : arms.filterMap Case.value = arms'.filterMap Case.value := by
    rw [← Function.id_comp Case.value, ← List.filterMap_map, h.values, List.filterMap_map]
  have hdefaults : arms.countP Case.isDefault = arms'.countP Case.isDefault := by
    have hcount := congrArg (List.countP Option.isNone) h.values
    rwa [List.countP_map, List.countP_map] at hcount
  exact ⟨hvalues ▸ hmatch.values, hvalues ▸ hmatch.distinct, hdefaults ▸ hmatch.default⟩

mutual

theorem Stmt.WellFormed.exchanged {env : Env} {place : Place} {s s' : Stmt} (h : s.Exchanged s')
    (hs : s.WellFormed cfg env place) : s'.WellFormed cfg env place := by
  match h with
  | .function h => exact ⟨hs.1, hs.2.exchanged h⟩
  | .ifThen h => exact ⟨hs.1, hs.2.exchanged h⟩
  | .switch h =>
    obtain ⟨⟨type, hsubject, hmatch⟩, hbodies⟩ := hs
    exact ⟨⟨type, hsubject, h.armsMatch hmatch⟩, WellFormedCases.exchanged h hbodies⟩
  | .loopInit (@Block.Exchanged.statements _ _ statements' _ h) =>
    obtain ⟨hopens, hstatements, hcondition, hbody, hpost⟩ := hs
    have hstart := h.eases hopens
    have hinner := hstart.foldl_after cfg statements'
    rw [h.foldl_env] at hcondition hbody hpost
    exact ⟨h.opensBlock hopens, (WellFormedStmts.exchanged h hstatements).ease hstart,
      hcondition.ease hinner, hbody.ease hinner, hpost.ease hinner⟩
  | @Stmt.Exchanged.loopPost ⟨_, _, _⟩ _ _ _ _ _ h =>
    obtain ⟨hopens, hstatements, hcondition, hbody, hpost⟩ := hs
    exact ⟨hopens, hstatements, hcondition, hbody, hpost.exchanged h⟩
  | @Stmt.Exchanged.loopBody ⟨_, _, _⟩ _ _ _ _ _ h =>
    obtain ⟨hopens, hstatements, hcondition, hbody, hpost⟩ := hs
    exact ⟨hopens, hstatements, hcondition, hbody.exchanged h, hpost⟩
  | .block h => exact Block.WellFormed.exchanged h hs

theorem FunctionDef.WellFormed.exchanged {env : Env} {f f' : FunctionDef} (h : f.Exchanged f')
    (hf : f.WellFormed cfg env) : f'.WellFormed cfg env := by
  match h with
  | .body h => exact ⟨hf.1, hf.2.exchanged h⟩

theorem Block.WellFormed.exchanged {env : Env} {place : Place} {b b' : Block} (h : b.Exchanged b')
    (hb : b.WellFormed cfg env place) : b'.WellFormed cfg env place := by
  match h with
  | .statements h =>
    exact ⟨h.opensBlock hb.1, (WellFormedStmts.exchanged h hb.2).ease (h.eases hb.1)⟩

theorem WellFormedStmts.exchanged {env : Env} {place : Place} {ss ss' : List Stmt}
    (h : ExchangedStmts ss ss') (hss : WellFormedStmts cfg env place ss) :
    WellFormedStmts cfg env place ss' := by
  match h with
  | .swap hs ht =>
    simp only [WellFormedStmts, Env.after_of_not_declaration hs,
      Env.after_of_not_declaration ht] at hss ⊢
    exact ⟨hss.2.1, hss.1, hss.2.2⟩
  | .head h =>
    simp only [WellFormedStmts, Env.after_of_not_declaration h.isDeclaration.1,
      Env.after_of_not_declaration h.isDeclaration.2] at hss ⊢
    exact ⟨hss.1.exchanged h, hss.2⟩
  | .tail h => exact ⟨hss.1, WellFormedStmts.exchanged h hss.2⟩

theorem WellFormedCases.exchanged {env : Env} {place : Place} {arms arms' : List Case}
    (h : ExchangedCases arms arms') (harms : WellFormedCases cfg env place arms) :
    WellFormedCases cfg env place arms' := by
  match h with
  | .head h => exact ⟨harms.1.exchanged h, harms.2⟩
  | @ExchangedCases.tail ⟨_, _, _⟩ _ _ h => exact ⟨harms.1, WellFormedCases.exchanged h harms.2⟩

end

/-- Exchanging two neighbours that declare no variables, in any row of statements inside a block,
changes neither whether the analysis of the block has a fault nor, if it has none, its result and the
side effects of all of the code. -/
theorem analyze_exchanged (cfg : Setting) {b b' : Block} (h : b.Exchanged b') :
    ((analyze cfg {} b).fault = none ↔ (analyze cfg {} b').fault = none) ∧
      ((analyze cfg {} b).fault = none →
        (analyze cfg {} b).succeeded = (analyze cfg {} b').succeeded ∧
          (analyze cfg {} b).sideEffects = (analyze cfg {} b').sideEffects) := by
  have hnodup : (b.blocks.map Block.id).Nodup ↔ (b'.blocks.map Block.id).Nodup := h.ids.nodup_iff
  have hfaults : (analyze cfg {} b).fault = none ↔ (analyze cfg {} b').fault = none := by
    rw [analyze_fault_eq_none_iff, analyze_fault_eq_none_iff, hnodup]
  refine ⟨hfaults, fun hfault => ⟨?_, ?_⟩⟩
  · have hdistinct := (analyze_fault_eq_none_iff cfg b).mp hfault
    rw [Bool.eq_iff_iff, (succeeded_iff_wellFormed cfg b hdistinct).2,
      (succeeded_iff_wellFormed cfg b' (hnodup.mp hdistinct)).2]
    exact ⟨Block.WellFormed.exchanged h, Block.WellFormed.exchanged h.symm⟩
  · have hsame : {e | (b.deeds .none).Involves e} = {e | (b'.deeds .none).Involves e} :=
      Set.ext fun e => (h.deeds .none).involves_iff
    exact (hsame ▸ isLUB_sideEffects cfg b hfault).unique
      (isLUB_sideEffects cfg b' (hfaults.mp hfault))

end Setting

/-- The loop of `countdown` in front of the function that it calls. -/
def countdownForward : Block where
  id := countdown.id
  statements := countdown.statements.reverse
  span := countdown.span

theorem countdown_exchanged :
    countdown.Exchanged countdownForward ∧ (analyze {} {} countdown).fault = none ∧
      (analyze {} {} countdown).succeeded = (analyze {} {} countdownForward).succeeded ∧
        (analyze {} {} countdown).sideEffects = (analyze {} {} countdownForward).sideEffects := by
  have h : countdown.Exchanged countdownForward := .statements (.swap rfl rfl)
  have hfault : (analyze {} {} countdown).fault = none := by decide +kernel
  exact ⟨h, hfault, (analyze_exchanged {} h).2 hfault⟩

end Yul
