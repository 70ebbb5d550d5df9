import Mathlib.Data.List.Chain
import Yul.Proofs.Effects.Exact

/-!
# Records that grow

A record is changed by single writes: a scope is opened, a name declared, an entry put into one of
the tables of effects, or the effects of all code raised. `Record.Write` says that a write adds to
what is there: the tables have nothing under the key yet, and the scope does not declare the name.
Then every scope stays what it is but for further names, and no entry of a table is lost or replaced
(`Record.GrowsTo`).

`Record.addEffects` makes one write for each entry of a summary (`addEffects_eq`). Writes one after the
other are new if all of their keys are (`Fresh`).
-/

namespace Yul

/-! ## Entries of tables -/

section Tables

variable {α β : Type} {cmp : α → α → Ordering} {m m' m'' : Std.TreeMap α β cmp}

/-- All entries of a table are in the other one. -/
def Within (m m' : Std.TreeMap α β cmp) : Prop :=
  ∀ (k : α) (v : β), m[k]? = some v → m'[k]? = some v

theorem Within.refl (m : Std.TreeMap α β cmp) : Within m m :=
  fun _ _ h => h

theorem Within.trans (h : Within m m') (h' : Within m' m'') : Within m m'' :=
  fun k v hv => h' k v (h k v hv)

theorem Within.insert [Std.TransCmp cmp] [Std.LawfulEqCmp cmp] {k : α} (hnew : m[k]? = none)
    (v : β) : Within m (m.insert k v) := by
  intro k' v' hv
  rw [Std.TreeMap.getElem?_insert, if_neg, hv]
  rintro heq
  obtain rfl := Std.LawfulEqCmp.eq_of_compare heq
  rw [hnew] at hv
  exact nomatch hv

end Tables

/-! ## New keys -/

section Fresh

variable {ε κ ν : Type} {key? : ε → Option κ} {value? value?' : κ → Option ν} {e : ε} {es : List ε}

/-- The keys of a list are all different, and none of them has a value yet. -/
def Fresh (key? : ε → Option κ) (value? : κ → Option ν) (es : List ε) : Prop :=
  (es.filterMap key?).Nodup ∧ ∀ k ∈ es.filterMap key?, value? k = none

theorem Fresh.head (h : Fresh key? value? (e :: es)) : ∀ k ∈ key? e, value? k = none :=
  fun k hk => h.2 k (List.mem_filterMap.mpr ⟨e, List.mem_cons_self, hk⟩)

theorem Fresh.tail (h : Fresh key? value? (e :: es))
    (hsame : ∀ k, key? e ≠ some k → value?' k = value? k) : Fresh key? value?' es := by
  obtain ⟨hnodup, hnew⟩ := h
  cases he : key? e with
  | none =>
    rw [List.filterMap_cons_none he] at hnodup hnew
    exact ⟨hnodup, fun k hk => (hsame k (he ▸ nofun)).trans (hnew k hk)⟩
  | some k₀ =>
    rw [List.filterMap_cons_some he, List.nodup_cons] at hnodup
    rw [List.filterMap_cons_some he, List.forall_mem_cons] at hnew
    refine ⟨hnodup.2, fun k hk => (hsame k ?_).trans (hnew.2 k hk)⟩
    rw [he]
    rintro ⟨rfl⟩
    exact hnodup.1 hk

end Fresh

section Steps

variable {σ ε κ ν : Type} {f : σ → ε → σ} {key? : ε → Option κ} {value? : σ → κ → Option ν}
  {I : σ → List ε → Prop} {s : σ} {es : List ε}
  (hrest : ∀ s e es, I s (e :: es) → I (f s e) es)
  (hother : ∀ s e es, I s (e :: es) → ∀ k, key? e ≠ some k → value? (f s e) k = value? s k)

include hrest hother

variable (value?) in
theorem value?_foldl (h : I s es) {k : κ} (hnot : k ∉ es.filterMap key?) :
    value? (es.foldl f s) k = value? s k := by
  induction es generalizing s with
  | nil => rfl
  | cons e es ih =>
    rw [List.mem_filterMap, not_exists] at hnot
    rw [List.foldl_cons, ih (hrest s e es h), hother s e es h k]
    · exact fun hk => hnot e ⟨List.mem_cons_self, hk⟩
    · rw [List.mem_filterMap]
      exact fun ⟨e', he', hk⟩ => hnot e' ⟨List.mem_cons_of_mem e he', hk⟩

theorem isChain_scanl {R : σ → σ → Prop}
    (hlink : ∀ s e es, I s (e :: es) → (∀ k ∈ key? e, value? s k = none) → R s (f s e))
    (h : I s es) (hfresh : Fresh key? (value? s) es) : (es.scanl f s).IsChain R := by
  induction es generalizing s with
  | nil => exact .singleton s
  | cons e es ih =>
    rw [List.scanl_cons, List.isChain_cons, List.head?_scanl]
    refine ⟨fun s' hs' => ?_, ih (hrest s e es h) (hfresh.tail (hother s e es h))⟩
    obtain rfl := Option.some.inj hs'
    exact hlink s e es h hfresh.head

end Steps

/-! ## Growth -/

/-- A scope gains names and stays the same otherwise. -/
structure Scope.GrowsTo (s s' : Scope) : Prop where
  parent : s'.parent = s.parent
  ofFunction : s'.ofFunction = s.ofFunction
  symbols : s.symbols <+: s'.symbols

namespace Scope.GrowsTo

variable {s s' s'' : Scope}

theorem refl (s : Scope) : s.GrowsTo s := ⟨rfl, rfl, List.prefix_rfl⟩

theorem trans (h : s.GrowsTo s') (h' : s'.GrowsTo s'') : s.GrowsTo s'' :=
  ⟨h'.parent.trans h.parent, h'.ofFunction.trans h.ofFunction, h.symbols.trans h'.symbols⟩

theorem declare (s : Scope) (name : Name) (symbol : Symbol) : s.GrowsTo (s.declare name symbol) := by
  refine ⟨s.parent_declare name symbol, s.ofFunction_declare name symbol, ?_⟩
  unfold Scope.declare
  split
  · exact List.prefix_rfl
  · exact List.prefix_append _ _

theorem find? (h : s.GrowsTo s') {x : Name} {symbol : Symbol} (hx : s.find? x = some symbol) :
    s'.find? x = some symbol := by
  obtain ⟨more, hmore⟩ := h.symbols
  rw [Scope.find?, ← hmore, List.lookup_append, ← Scope.find?, hx, Option.some_or]

end Scope.GrowsTo

/-- A record gains scopes, names and entries, and all that it holds stays the same. What all code may
do gets worse at most. -/
structure Record.GrowsTo (r r' : Record) : Prop where
  scopes : ∀ (i : ScopeId) (s : Scope), r.scopes.get? i = some s →
    ∃ s', r'.scopes.get? i = some s' ∧ s.GrowsTo s'
  blockScopes : Within r.blockScopes r'.blockScopes
  functionScopes : Within r.functionScopes r'.functionScopes
  blockEffects : Within r.blockEffects r'.blockEffects
  functionEffects : Within r.functionEffects r'.functionEffects
  sideEffects : r.sideEffects ≤ r'.sideEffects

namespace Record.GrowsTo

variable {r r' r'' : Record}

theorem refl (r : Record) : r.GrowsTo r :=
  ⟨fun _ s hs => ⟨s, hs, .refl s⟩, .refl _, .refl _, .refl _, .refl _, le_rfl⟩

theorem trans (h : r.GrowsTo r') (h' : r'.GrowsTo r'') : r.GrowsTo r'' where
  scopes i s hs := by
    obtain ⟨s', hs', hgrows⟩ := h.scopes i s hs
    obtain ⟨s'', hs'', hgrows'⟩ := h'.scopes i s' hs'
    exact ⟨s'', hs'', hgrows.trans hgrows'⟩
  blockScopes := h.blockScopes.trans h'.blockScopes
  functionScopes := h.functionScopes.trans h'.functionScopes
  blockEffects := h.blockEffects.trans h'.blockEffects
  functionEffects := h.functionEffects.trans h'.functionEffects
  sideEffects := h.sideEffects.trans h'.sideEffects

instance : Trans GrowsTo GrowsTo GrowsTo := ⟨trans⟩

end Record.GrowsTo

/-! ## Single writes -/

/-- An entry that says what a block, a function or all code may do. -/
inductive Entry where
  | block (id : BlockId) (effects : SideEffects)
  | function (f : FunctionId) (effects : SideEffects)
  | total (effects : SideEffects)
deriving DecidableEq, Repr

/-- Whose entry it is. -/
def Entry.owner? : Entry → Option FrameOwner
  | .block id _ => some (.block id)
  | .function f _ => some (.function f)
  | .total _ => none

namespace Record

/-- Puts an entry into a record. -/
def enter (r : Record) : Entry → Record
  | .block id e => { r with blockEffects := r.blockEffects.insert id e }
  | .function f e => { r with functionEffects := r.functionEffects.insert f e }
  | .total e => { r with sideEffects := r.sideEffects.join e }

/-- What a block or function may do. -/
def effectsOf? (r : Record) : FrameOwner → Option SideEffects
  | .block id => r.blockEffects[id]?
  | .function f => r.functionEffects[f]?

/-- One write that adds to what is there. -/
inductive Write (r : Record) : Record → Prop where
  | openBlock {id : BlockId} (parent : Option ScopeId) (hnew : r.blockScopes[id]? = none) :
      Write r (r.openBlock id parent)
  | openParameters {body : BlockId} (parent : ScopeId) (hnew : r.functionScopes[body]? = none) :
      Write r (r.openParameters body parent)
  | declare {scope : ScopeId} {name : Name} {s : Scope} (symbol : Symbol)
      (hscope : r.scopes.get? scope = some s) (hfree : s.declares name = false) :
      Write r (r.declare scope name symbol)
  | enter {entry : Entry} (hnew : ∀ owner ∈ entry.owner?, r.effectsOf? owner = none) :
      Write r (r.enter entry)

variable {r r' : Record}

theorem growsTo_of_add {parent : Option ScopeId} {ofFunction : Bool}
    (hscopes : r'.scopes = r.scopes.add parent ofFunction) {i : ScopeId} {s : Scope}
    (hs : r.scopes.get? i = some s) : ∃ s', r'.scopes.get? i = some s' ∧ s.GrowsTo s' := by
  have hne : i ≠ r.scopes.size := Nat.ne_of_lt (ScopeTable.lt_of_get? hs)
  refine ⟨s, ?_, .refl s⟩
  rw [hscopes, ScopeTable.get?_add, if_neg hne, hs]

theorem Write.growsTo (h : r.Write r') : r.GrowsTo r' := by
  have hsame := GrowsTo.refl r
  cases h with
  | openBlock parent hnew =>
    exact { hsame with
      scopes := fun i s hs => growsTo_of_add rfl hs
      blockScopes := .insert hnew _ }
  | openParameters parent hnew =>
    exact { hsame with
      scopes := fun i s hs => growsTo_of_add rfl hs
      functionScopes := .insert hnew _ }
  | @declare scope name _ symbol _ _ =>
    refine { hsame with scopes := fun i s hs => ?_ }
    change ∃ s', (r.scopes.declare scope name symbol).get? i = some s' ∧ s.GrowsTo s'
    rw [ScopeTable.get?_declare]
    split
    · exact ⟨_, congrArg (Option.map _) hs, .declare s name symbol⟩
    · exact ⟨s, hs, .refl s⟩
  | @enter entry hnew =>
    cases entry with
    | block id e => exact { hsame with blockEffects := .insert (hnew _ rfl) e }
    | function f e => exact { hsame with functionEffects := .insert (hnew _ rfl) e }
    | total e => exact { hsame with sideEffects := le_sup_left }

/-- A record stays the same or grows by one write. -/
def Step (r r' : Record) : Prop :=
  r' = r ∨ r.Write r'

theorem Step.growsTo (h : r.Step r') : r.GrowsTo r' := by
  rcases h with rfl | hwrite
  · exact .refl r'
  · exact hwrite.growsTo

/-! ## Entries one after the other -/

theorem effectsOf?_enter (r : Record) {entry : Entry} {owner : FrameOwner}
    (hne : entry.owner? ≠ some owner) : (r.enter entry).effectsOf? owner = r.effectsOf? owner := by
  cases entry with
  | block id e =>
    cases owner with
    | block id' =>
      refine (Std.TreeMap.getElem?_insert ..).trans (if_neg fun heq => hne ?_)
      exact congrArg (some ∘ FrameOwner.block) (Std.LawfulEqCmp.eq_of_compare heq)
    | function f => rfl
  | function f e =>
    cases owner with
    | block id => rfl
    | function f' =>
      refine (Std.TreeMap.getElem?_insert ..).trans (if_neg fun heq => hne ?_)
      exact congrArg (some ∘ FrameOwner.function) (Std.LawfulEqCmp.eq_of_compare heq)
  | total e => cases owner <;> rfl

theorem effectsOf?_foldl_enter (r : Record) {entries : List Entry} {owner : FrameOwner}
    (hnot : owner ∉ entries.filterMap Entry.owner?) :
    (entries.foldl enter r).effectsOf? owner = r.effectsOf? owner :=
  value?_foldl effectsOf? (I := fun _ _ => True) (fun _ _ _ _ => trivial)
    (fun r _ _ _ _ => r.effectsOf?_enter) trivial hnot

theorem isChain_enter {entries : List Entry} (h : Fresh Entry.owner? r.effectsOf? entries) :
    (entries.scanl enter r).IsChain Step :=
  isChain_scanl (I := fun _ _ => True) (fun _ _ _ _ => trivial)
    (fun r _ _ _ _ => r.effectsOf?_enter) (fun _ _ _ _ hnew => .inr (.enter hnew)) trivial h

end Record

/-- The entries of a summary, in the order in which they are written. -/
def EffectSummary.entries (s : EffectSummary) : List Entry :=
  s.blocks.map (fun (id, e) => .block id e) ++ s.functions.map (fun (f, e) => .function f e) ++
    [.total s.total]

theorem Record.foldl_enter_blocks (r : Record) (entries : List (BlockId × SideEffects)) :
    (entries.map fun (id, e) => Entry.block id e).foldl enter r =
      { r with blockEffects := entries.foldl (fun m (id, e) => m.insert id e) r.blockEffects } := by
  induction entries generalizing r with
  | nil => rfl
  | cons entry entries ih => exact ih (r.enter (.block entry.1 entry.2))

theorem Record.foldl_enter_functions (r : Record) (entries : List (FunctionId × SideEffects)) :
    (entries.map fun (f, e) => Entry.function f e).foldl enter r =
      { r with functionEffects := entries.foldl (fun m (f, e) => m.insert f e) r.functionEffects } := by
  induction entries generalizing r with
  | nil => rfl
  | cons entry entries ih => exact ih (r.enter (.function entry.1 entry.2))

/-- A summary is put into a record by one write for each of its entries. -/
theorem Record.addEffects_eq (r : Record) (s : EffectSummary) :
    r.addEffects s = s.entries.foldl enter r := by
  rw [EffectSummary.entries, List.foldl_append, List.foldl_append, foldl_enter_blocks,
    foldl_enter_functions]
  rfl

end Yul
