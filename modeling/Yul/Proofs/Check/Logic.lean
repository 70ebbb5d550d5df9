import Yul.Proofs.Run.Models

/-!
# A logic for parts of an analysis

`Decides I J m R a` is the specification of a part `m` of an analysis. Started from a state with
`I`, it finds an error unless `R` holds of some value, and then it gives this value, leads to a
state with `J`, and does what the account `a` says. Parts of an analysis are put together by
`Decides.bind`; a rule of the judgement becomes the relation `R` of the part that checks it.
-/

namespace Yul

/-! ## What a run does -/

/-- The function that a key stands for, where `scopeOf` gives the scope of each block. -/
@[simps] def FunctionKey.id (scopeOf : BlockId → ScopeId) (key : FunctionKey) : FunctionId where
  scope := scopeOf key.home
  name := key.name

/-- Whether `scopeOf` gives the scopes of the blocks that have been entered. -/
def Record.Places (record : Record) (scopeOf : BlockId → ScopeId) : Prop :=
  ∀ (id : BlockId) (s : ScopeId), record.blockScopes[id]? = some s → scopeOf id = s

/-- What happens from `r` to `r'` is what the account says. -/
def Run.Does (r r' : Run) (a : Account FunctionKey) : Prop :=
  ∃ steps, r'.collectorSteps = r.collectorSteps ++ steps ∧
    ∀ scopeOf, r'.record.Places scopeOf → Nested steps (a.map (FunctionKey.id scopeOf))

namespace Account

variable {φ : Type}

@[simp] theorem nil_append (a : Account φ) : ({} : Account φ).append a = a := rfl

@[simp] theorem append_nil (a : Account φ) : a.append {} = a := by
  simp [append]

theorem ofActs_append (acts acts' : List (Act φ)) :
    (ofActs acts).append (ofActs acts') = ofActs (acts ++ acts') := rfl

@[simp] theorem ofActs_nil : ofActs ([] : List (Act φ)) = {} := rfl

end Account

namespace Run

variable {r r₁ r₂ : Run} {a b : Account FunctionKey}

theorem Reaches.places (h : r.Reaches r₁) (hfault : r₁.fault = none) {scopeOf : BlockId → ScopeId}
    (hplaces : r₁.record.Places scopeOf) : r.record.Places scopeOf :=
  fun id s hs => hplaces id s (h.blockScopes hfault hs)

namespace Does

theorem refl (r : Run) : r.Does r {} :=
  ⟨[], (List.append_nil _).symm, fun _ _ => .nil⟩

theorem trans (h : r.Does r₁ a) (h' : r₁.Does r₂ b) (hreaches : r₁.Reaches r₂)
    (hfault : r₂.fault = none) : r.Does r₂ (a.append b) := by
  obtain ⟨steps, hsteps, ha⟩ := h
  obtain ⟨steps', hsteps', hb⟩ := h'
  refine ⟨steps ++ steps', by rw [hsteps', hsteps, List.append_assoc], fun scopeOf hplaces => ?_⟩
  rw [Account.map_append]
  exact .append (ha scopeOf (hreaches.places hfault hplaces)) (hb scopeOf hplaces)

theorem of_take {e : Event} (hstep : e.collectorStep? = none) (hfault : (r.take e).fault = none)
    (h : (r.take e).Does r₁ a) : r.Does r₁ a := by
  obtain ⟨steps, hsteps, ha⟩ := h
  refine ⟨steps, ?_, ha⟩
  rw [hsteps, collectorSteps_take hfault, hstep, Option.toList_none, List.append_nil]

theorem effects {e : SideEffects} (hfault : (r.take (.effects e)).fault = none) :
    r.Does (r.take (.effects e)) (.ofActs [.effects e]) :=
  ⟨[.add e], collectorSteps_take hfault, fun _ _ => .add e⟩

theorem call {f : FunctionId} {id : BlockId} (hid : r.record.blockScopes[id]? = some f.scope)
    (hfault : (r.take (.call f)).fault = none) :
    r.Does (r.take (.call f)) (.ofActs [.call ⟨id, f.name⟩]) := by
  refine ⟨[.call f], collectorSteps_take hfault, fun scopeOf hplaces => ?_⟩
  have hscope : scopeOf id = f.scope :=
    hplaces id f.scope ((Reaches.take r _).blockScopes hfault hid)
  have hf : FunctionKey.id scopeOf ⟨id, f.name⟩ = f :=
    congrArg (FunctionId.mk · f.name) hscope
  exact hf ▸ Nested.call (FunctionKey.id scopeOf ⟨id, f.name⟩)

theorem block {id : BlockId} {parent : Option ScopeId} {scope : ScopeId}
    (hinside : (r.take (.enterBlock id parent)).Does r₁ a)
    (hfault : (r.take (.enterBlock id parent)).fault = none)
    (hfault' : (r₁.take (.exitBlock id scope)).fault = none) :
    r.Does (r₁.take (.exitBlock id scope)) (a.inBlock id) := by
  obtain ⟨steps, hsteps, ha⟩ := hinside
  refine ⟨.enterBlock id :: steps ++ [.exitBlock id], ?_, fun scopeOf hplaces => ?_⟩
  · rw [collectorSteps_take hfault', hsteps, collectorSteps_take hfault]
    simp [Event.collectorStep?]
  · rw [Account.map_inBlock]
    exact .block id (ha scopeOf ((Reaches.take r₁ _).places hfault' hplaces))

theorem function {body here : BlockId} {scope : ScopeId} {name : Name}
    (hparams : (r.take (.openParameters body scope)).Does r₁ {})
    (hinside : (r₁.take (.enterFunction ⟨scope, name⟩)).Does r₂ a)
    (hhere : r₂.record.blockScopes[here]? = some scope)
    (hfault : (r.take (.openParameters body scope)).fault = none)
    (hfault₁ : (r₁.take (.enterFunction ⟨scope, name⟩)).fault = none)
    (hreaches : (r₁.take (.enterFunction ⟨scope, name⟩)).Reaches r₂)
    (hfault₂ : (r₂.take (.exitFunction ⟨scope, name⟩)).fault = none) :
    r.Does (r₂.take (.exitFunction ⟨scope, name⟩)) (a.inFunction ⟨here, name⟩) := by
  obtain ⟨steps₁, hsteps₁, ha₁⟩ := hparams
  obtain ⟨steps, hsteps, ha⟩ := hinside
  have hreaches₁ : r₁.Reaches (r₂.take (.exitFunction ⟨scope, name⟩)) :=
    (Reaches.take r₁ _).trans (hreaches.trans (Reaches.take r₂ _))
  refine ⟨steps₁ ++ (.enterFunction ⟨scope, name⟩ :: steps ++ [.exitFunction ⟨scope, name⟩]), ?_,
    fun scopeOf hplaces => ?_⟩
  · rw [collectorSteps_take hfault₂, hsteps, collectorSteps_take hfault₁, hsteps₁,
      collectorSteps_take hfault]
    simp [Event.collectorStep?]
  · have hscope : scopeOf here = scope :=
      hplaces here scope ((Reaches.take r₂ _).blockScopes hfault₂ hhere)
    have hf : FunctionKey.id scopeOf ⟨here, name⟩ = ⟨scope, name⟩ :=
      congrArg (FunctionId.mk · name) hscope
    rw [Account.map_inFunction, hf]
    exact .append (ha₁ scopeOf (hreaches₁.places hfault₂ hplaces))
      (.function _ (ha scopeOf ((Reaches.take r₂ _).places hfault₂ hplaces)))

end Does

end Run

/-! ## Specifications -/

namespace Check

variable {α β : Type} {I I₁ J : Run → Prop} {a b c : Account FunctionKey}

/-- From the state `r`, a part of an analysis finds an error unless `R` holds of some value. Then it
gives the value, leads to a state with `J`, and does what `a` says. -/
structure DecidesAt (r : Run) (J : Run → Prop) (m : Check α) (R : α → Prop)
    (a : Account FunctionKey) : Prop where
  sound : (m.after r).fault = none → (m.after r).Clean →
    R (m.value r) ∧ J (m.after r) ∧ r.Does (m.after r) a
  complete : ∀ x, (m.after r).fault = none → r.Clean → R x → (m.after r).Clean ∧ m.value r = x

/-- The same from every state with `I`. -/
structure Decides (I J : Run → Prop) (m : Check α) (R : α → Prop) (a : Account FunctionKey) :
    Prop where
  reaches : ∀ r : Run, r.Reaches (m.after r)
  decides : ∀ r, I r → DecidesAt r J m R a

theorem reaches_pure (x : α) (r : Run) : r.Reaches ((pure x : Check α).after r) :=
  .refl

theorem reaches_emit (e : Event) (r : Run) : r.Reaches ((emit e).after r) :=
  .single ⟨e, rfl⟩

theorem reaches_report (p : Problem) (span : Span) (r : Run) :
    r.Reaches ((report p span).after r) :=
  reaches_emit _ r

theorem Quietly.reaches {scope : ScopeId} {m : Check α} (h : Quietly scope m) (r : Run) :
    r.Reaches (m.after r) :=
  (Walk.of_quiet (h r)).reaches

theorem Walks.reaches {scope : ScopeId} {ids : List BlockId} {m : Check α}
    (h : Walks scope ids m) (r : Run) : r.Reaches (m.after r) :=
  (h r).reaches

namespace DecidesAt

variable {r : Run}

theorem bind_of {m : Check α} {f : α → Check β} {R : α → Prop} {S : α → β → Prop}
    {T : β → Prop} (hm : DecidesAt r I₁ m R a)
    (hreaches : ∀ x (r : Run), r.Reaches ((f x).after r))
    (hf : ∀ x, R x → Decides I₁ J (f x) (S x) b) (hT : ∀ y, T y ↔ ∃ x, R x ∧ S x y)
    (hc : c = a.append b) : DecidesAt r J (m >>= f) T c := by
  have hreaches := hreaches (m.value r) (m.after r)
  constructor
  · intro hfault hclean
    have hfault₁ := hreaches.fault_eq_none hfault
    obtain ⟨hR, hI₁, hdoes⟩ := hm.sound hfault₁ (hreaches.clean hfault hclean)
    obtain ⟨hS, hJ, hdoes'⟩ := ((hf _ hR).decides _ hI₁).sound hfault hclean
    exact ⟨(hT _).mpr ⟨_, hR, hS⟩, hJ, hc ▸ hdoes.trans hdoes' hreaches hfault⟩
  · intro y hfault hclean hy
    obtain ⟨x, hR, hS⟩ := (hT y).mp hy
    have hfault₁ := hreaches.fault_eq_none hfault
    obtain ⟨hclean₁, hx⟩ := hm.complete x hfault₁ hclean hR
    have hI₁ := (hm.sound hfault₁ hclean₁).2.1
    subst hx
    exact ((hf _ hR).decides _ hI₁).complete y hfault hclean₁ hS

theorem congr {m : Check α} {R S : α → Prop} (h : DecidesAt r J m R a)
    (hR : ∀ x, R x ↔ S x) : DecidesAt r J m S a := by
  rwa [← funext fun x => propext (hR x)]

/-- The account need not be right where there is an error. -/
theorem congr_account {m : Check α} {R : α → Prop} (h : DecidesAt r J m R a)
    (ha : ∀ x, R x → a = b) : DecidesAt r J m R b where
  sound hfault hclean := by
    obtain ⟨hR, hJ, hdoes⟩ := h.sound hfault hclean
    exact ⟨hR, hJ, ha _ hR ▸ hdoes⟩
  complete := h.complete

theorem of_eq {m : Check α} {x : α} (hafter : m.after r = r) (hvalue : m.value r = x) (h : J r) :
    DecidesAt r J m (· = x) {} where
  sound _ _ := by
    rw [hafter, hvalue]
    exact ⟨rfl, h, .refl r⟩
  complete _ _ hclean hx := by
    rw [hafter, hvalue]
    exact ⟨hclean, hx.symm⟩

theorem of_take {m n : Check α} {e : Event} {R : α → Prop} (hfault : (r.take e).fault = none)
    (hfinding : ∀ g, e.finding? = some g → g.isError = false) (hstep : e.collectorStep? = none)
    (hafter : m.after r = n.after (r.take e)) (hvalue : m.value r = n.value (r.take e))
    (h : DecidesAt (r.take e) J n R a) : DecidesAt r J m R a := by
  constructor
  · intro hfault' hclean
    rw [hafter] at hfault' hclean
    rw [hafter, hvalue]
    obtain ⟨hS, hJ, hdoes⟩ := h.sound hfault' hclean
    exact ⟨hS, hJ, .of_take hstep hfault hdoes⟩
  · intro y hfault' hclean hS
    rw [hafter] at hfault'
    rw [hafter, hvalue]
    exact h.complete y hfault' ((Run.clean_take hfault).mpr ⟨hclean, hfinding⟩) hS

end DecidesAt

namespace Decides

/-- What comes behind a part may rely on what the part has found. -/
theorem bind_of {m : Check α} {f : α → Check β} {R : α → Prop} {S : α → β → Prop} {T : β → Prop}
    (hm : Decides I I₁ m R a) (hreaches : ∀ x (r : Run), r.Reaches ((f x).after r))
    (hf : ∀ x, R x → Decides I₁ J (f x) (S x) b) (hT : ∀ y, T y ↔ ∃ x, R x ∧ S x y)
    (hc : c = a.append b) : Decides I J (m >>= f) T c where
  reaches r := (hm.reaches r).trans (hreaches _ _)
  decides r hI := (hm.decides r hI).bind_of hreaches hf hT hc

theorem bind {m : Check α} {f : α → Check β} {R : α → Prop} {S : α → β → Prop} {T : β → Prop}
    (hm : Decides I I₁ m R a) (hf : ∀ x, Decides I₁ J (f x) (S x) b)
    (hT : ∀ y, T y ↔ ∃ x, R x ∧ S x y) (hc : c = a.append b) : Decides I J (m >>= f) T c :=
  hm.bind_of (fun x => (hf x).reaches) (fun x _ => hf x) hT hc

theorem congr {m : Check α} {R S : α → Prop} (h : Decides I J m R a) (hR : ∀ x, R x ↔ S x) :
    Decides I J m S a where
  reaches := h.reaches
  decides r hI := (h.decides r hI).congr hR

theorem congr_account {m : Check α} {R : α → Prop} (h : Decides I J m R a)
    (ha : ∀ x, R x → a = b) : Decides I J m R b where
  reaches := h.reaches
  decides r hI := (h.decides r hI).congr_account ha

theorem pure (x : α) : Decides I I (pure x) (· = x) {} where
  reaches _ := .refl
  decides _ hI := .of_eq rfl rfl hI

theorem done : Decides I I (Pure.pure () : Check Unit) (fun _ => True) {} :=
  (Decides.pure ()).congr fun _ => iff_of_true rfl trivial

theorem seq_of {m : Check PUnit} {f : PUnit → Check β} {P : Prop} {S T : β → Prop}
    (hm : Decides I I₁ m (fun _ => P) a) (hreaches : ∀ r : Run, r.Reaches ((f ()).after r))
    (hf : P → Decides I₁ J (f ()) S b) (hT : ∀ y, T y ↔ P ∧ S y) (hc : c = a.append b) :
    Decides I J (m >>= f) T c :=
  hm.bind_of (S := fun _ => S) (fun _ => hreaches) (fun _ => hf)
    (fun y => (hT y).trans ⟨fun ⟨hP, hS⟩ => ⟨(), hP, hS⟩, fun ⟨_, hP, hS⟩ => ⟨hP, hS⟩⟩) hc

theorem seq {m : Check PUnit} {f : PUnit → Check β} {P : Prop} {S T : β → Prop}
    (hm : Decides I I₁ m (fun _ => P) a) (hf : Decides I₁ J (f ()) S b)
    (hT : ∀ y, T y ↔ P ∧ S y) (hc : c = a.append b) : Decides I J (m >>= f) T c :=
  hm.seq_of hf.reaches (fun _ => hf) hT hc

/-- Nothing makes up for an error that is reported. -/
theorem failure {p : Problem} (span : Span) (hp : p.severity = .error) :
    Decides I J (report p span) (fun _ => False) a where
  reaches := reaches_report p span
  decides r _ := by
    refine ⟨fun hfault hclean => ?_, fun _ _ _ h => h.elim⟩
    rw [after_report] at hfault hclean
    have herror := ((Run.clean_take hfault).mp hclean).2 ⟨p, span⟩ rfl
    simp [Finding.isError, hp] at herror

theorem error {p : Problem} (span : Span) (hp : p.severity = .error) {f : PUnit → Check β}
    (hreaches : ∀ r : Run, r.Reaches ((f ()).after r)) :
    Decides I J (report p span >>= f) (fun _ => False) a :=
  (failure (J := J) span hp).seq_of (S := fun _ => False) (b := {}) hreaches (fun h => h.elim)
    (fun _ => (and_self_iff).symm) (Account.append_nil a).symm

end Decides

end Check

end Yul
