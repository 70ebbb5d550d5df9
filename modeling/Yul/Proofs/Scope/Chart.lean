import Mathlib.Data.List.Nodup
import Yul.Proofs.Run.Models
import Yul.Proofs.Run.Points

/-!
# The table of scopes as a list of sites

A run opens scopes in the order of the sites of its code, so the scope with number `i` belongs to site
`i`. `Charted record sites` says so of a record: the maps lead from each holder to the number of its
site and nowhere else, and the scope at that number hangs below the scope of the site's parent.
`Tour.charts` is the step from one piece of code to the next, whatever problems are found;
`Tour.fills` adds what the scopes hold, if no error is.
-/

namespace Yul

/-- The scope of a holder. -/
def Record.place? (record : Record) : Holder → Option ScopeId
  | .block id => record.blockScopes[id]?
  | .parameters body => record.functionScopes[body]?

namespace Record

variable (record : Record)

theorem place?_openBlock (id : BlockId) (parent : Option ScopeId) (h : Holder) :
    (record.openBlock id parent).place? h =
      if h = .block id then some record.scopes.size else record.place? h := by
  cases h with
  | block id' =>
    simp only [place?, openBlock, Std.TreeMap.getElem?_insert, Holder.block.injEq,
      Std.LawfulEqCmp.compare_eq_iff_eq, eq_comm (a := id)]
  | parameters body => rfl

theorem place?_openParameters (body : BlockId) (parent : ScopeId) (h : Holder) :
    (record.openParameters body parent).place? h =
      if h = .parameters body then some record.scopes.size else record.place? h := by
  cases h with
  | block id => rfl
  | parameters body' =>
    simp only [place?, openParameters, Std.TreeMap.getElem?_insert, Holder.parameters.injEq,
      Std.LawfulEqCmp.compare_eq_iff_eq, eq_comm (a := body)]

@[simp] theorem place?_declare (scope : ScopeId) (name : Name) (symbol : Symbol) (h : Holder) :
    (record.declare scope name symbol).place? h = record.place? h := by
  cases h <;> rfl

end Record

/-! ## Charts -/

/-- A scope with the given parent hangs where a site with the given parent has to hang: nowhere, or
below the scope of the holder, which has a number below `bound`. -/
inductive Record.Hangs (record : Record) (bound : Nat) : Option ScopeId → Option Holder → Prop where
  | root : Hangs record bound none none
  | below {p : Nat} {holder : Holder} (hplace : record.place? holder = some p) (hlt : p < bound) :
      Hangs record bound (some p) (some holder)

theorem Record.Hangs.mono {record record' : Record} {bound : Nat} {parent : Option ScopeId}
    {around : Option Holder} (h : record.Hangs bound parent around)
    (hplace : ∀ (holder : Holder) (p : Nat), record.place? holder = some p →
      record'.place? holder = some p) : record'.Hangs bound parent around := by
  cases h with
  | root => exact .root
  | below hp hlt => exact .below (hplace _ _ hp) hlt

/-- The scopes of a record are those of the given sites, in this order. -/
structure Charted (record : Record) (sites : List Site) : Prop where
  size : record.scopes.size = sites.length
  place : ∀ (h : Holder) (i : Nat),
    record.place? h = some i ↔ ∃ site, sites[i]? = some site ∧ site.holder = h
  scope : ∀ (i : Nat) (site : Site), sites[i]? = some site →
    ∃ s, record.scopes.get? i = some s ∧ s.ofFunction = site.holder.isParameters ∧
      record.Hangs i s.parent site.parent

theorem getElem?_concat_eq_some {α : Type} {xs : List α} {x y : α} {i : Nat} :
    (xs ++ [x])[i]? = some y ↔ xs[i]? = some y ∨ i = xs.length ∧ x = y := by
  rcases Nat.lt_trichotomy i xs.length with hlt | rfl | hgt
  · rw [List.getElem?_append_left hlt, or_iff_left fun h => absurd h.1 (Nat.ne_of_lt hlt)]
  · simp
  · rw [List.getElem?_eq_none (Nat.le_of_lt hgt), List.getElem?_eq_none]
    · simp [Nat.ne_of_gt hgt]
    · rw [List.length_append, List.length_singleton]
      exact hgt

namespace Charted

variable {record record' : Record} {sites : List Site}

theorem empty : Charted {} [] where
  size := rfl
  place h i := by
    cases h <;> simp [Record.place?]
  scope i site h := by simp at h

theorem place_lt (h : Charted record sites) (holder : Holder) {i : Nat}
    (hi : record.place? holder = some i) : i < record.scopes.size := by
  obtain ⟨site, hsite, -⟩ := (h.place holder i).mp hi
  obtain ⟨hlt, -⟩ := List.getElem?_eq_some_iff.mp hsite
  rw [h.size]
  exact hlt

theorem place_eq_none (h : Charted record sites) {holder : Holder}
    (hnew : holder ∉ sites.map Site.holder) : record.place? holder = none := by
  rw [Option.eq_none_iff_forall_ne_some]
  intro i hi
  obtain ⟨site, hsite, rfl⟩ := (h.place holder i).mp hi
  exact hnew (List.mem_map_of_mem (List.mem_of_getElem? hsite))

theorem place_append {more : List Site} (h : Charted record sites)
    (h' : Charted record' (sites ++ more)) {holder : Holder} {i : Nat}
    (hi : record.place? holder = some i) : record'.place? holder = some i := by
  obtain ⟨site, hsite, rfl⟩ := (h.place holder i).mp hi
  obtain ⟨hlt, -⟩ := List.getElem?_eq_some_iff.mp hsite
  exact (h'.place _ i).mpr ⟨site, (List.getElem?_append_left hlt).trans hsite, rfl⟩

theorem place_congr (h : Charted record sites) (h' : Charted record' sites) {holder : Holder}
    {i : Nat} (hi : record.place? holder = some i) : record'.place? holder = some i :=
  (h'.place holder i).mpr ((h.place holder i).mp hi)

theorem place_last {site : Site} (h : Charted record (sites ++ [site])) :
    record.place? site.holder = some sites.length :=
  (h.place site.holder _).mpr ⟨site, List.getElem?_concat_length, rfl⟩

theorem of_same (h : Charted record sites) (hscopes : record'.scopes = record.scopes)
    (hplace : ∀ holder, record'.place? holder = record.place? holder) : Charted record' sites := by
  have hkeep (holder : Holder) (p : Nat) (hp : record.place? holder = some p) :
      record'.place? holder = some p := (hplace holder).trans hp
  refine ⟨by rw [hscopes, h.size], fun holder i => ?_, fun i site hsite => ?_⟩
  · rw [hplace, h.place]
  · obtain ⟨s, hs, hflag, hup⟩ := h.scope i site hsite
    rw [hscopes]
    exact ⟨s, hs, hflag, hup.mono hkeep⟩

theorem add (h : Charted record sites) {site : Site} {parent : Option ScopeId}
    (hscopes : record'.scopes = record.scopes.add parent site.holder.isParameters)
    (hplace : ∀ holder, record'.place? holder =
      if holder = site.holder then some record.scopes.size else record.place? holder)
    (hnew : site.holder ∉ sites.map Site.holder)
    (hparent : record.Hangs record.scopes.size parent site.parent) :
    Charted record' (sites ++ [site]) := by
  have hnone := h.place_eq_none hnew
  have hkeep (holder : Holder) (p : Nat) (hp : record.place? holder = some p) :
      record'.place? holder = some p := by
    rw [hplace, if_neg, hp]
    rintro rfl
    rw [hnone] at hp
    exact nomatch hp
  refine ⟨?_, fun holder i => ?_, fun i site' hsite' => ?_⟩
  · rw [hscopes, ScopeTable.size_add, h.size, List.length_append, List.length_singleton]
  · simp only [getElem?_concat_eq_some, or_and_right, exists_or, ← h.place, hplace]
    by_cases heq : holder = site.holder
    · subst heq
      rw [if_pos rfl, hnone, h.size]
      simp [eq_comm]
    · rw [if_neg heq]
      refine (or_iff_left ?_).symm
      rintro ⟨site', ⟨-, rfl⟩, rfl⟩
      exact heq rfl
  · rw [hscopes]
    rcases getElem?_concat_eq_some.mp hsite' with hsite' | ⟨rfl, rfl⟩
    · obtain ⟨s, hs, hflag, hup⟩ := h.scope i site' hsite'
      have hlt := ScopeTable.lt_of_get? hs
      refine ⟨s, ?_, hflag, hup.mono hkeep⟩
      rw [ScopeTable.get?_add, if_neg (Nat.ne_of_lt hlt), hs]
    · rw [h.size] at hparent
      refine ⟨⟨parent, site.holder.isParameters, []⟩, ?_, rfl, hparent.mono hkeep⟩
      rw [ScopeTable.get?_add, if_pos h.size.symm]

theorem declare (h : Charted record sites) (scope : ScopeId) (name : Name) (symbol : Symbol) :
    Charted (record.declare scope name symbol) sites := by
  refine ⟨?_, fun holder i => ?_, fun i site hsite => ?_⟩
  · exact (record.scopes.size_declare scope name symbol).trans h.size
  · rw [Record.place?_declare]
    exact h.place holder i
  · obtain ⟨s, hs, hflag, hup⟩ := h.scope i site hsite
    have hup : (record.declare scope name symbol).Hangs i s.parent site.parent :=
      hup.mono fun holder p hp => (record.place?_declare scope name symbol holder).trans hp
    change ∃ s, (record.scopes.declare scope name symbol).get? i = some s ∧ _
    rw [ScopeTable.get?_declare, hs]
    split
    · refine ⟨_, rfl, ?_, ?_⟩
      · rw [Scope.ofFunction_declare]
        exact hflag
      · rw [Scope.parent_declare]
        exact hup
    · exact ⟨s, rfl, hflag, hup⟩

end Charted

/-! ## Tours and charts -/

theorem Declares.charts {scope : ScopeId} {symbols : List (Name × Symbol)} {r r' : Run}
    (h : Declares scope symbols r r') (hfault : r'.fault = none) {sites : List Site}
    (hr : Charted r.record sites) : Charted r'.record sites := by
  induction h with
  | done => exact hr
  | @quiet symbols e r r' he _ _ ih =>
    have hrecord := (he.alike r).record
    exact ih hfault (hrecord ▸ hr)
  | @declare symbols name symbol r r' _ next ih =>
    refine ih hfault ?_
    rw [Run.take_eq (next.walk.fault_eq_none hfault)]
    exact hr.declare scope name symbol
  | @refuse symbols name symbol what span r r' _ _ ih =>
    have hquiet : (Event.report ⟨.alreadyTaken what name, span⟩).IsQuiet scope := trivial
    exact ih hfault ((hquiet.alike r).record ▸ hr)

theorem Charted.enterBlock {r : Run} {sites : List Site} (hr : Charted r.record sites)
    {id : BlockId} {parent : Option ScopeId} {around : Option Holder}
    (hfault : (r.take (.enterBlock id parent)).fault = none)
    (hparent : r.record.Hangs r.record.scopes.size parent around)
    (hnew : .block id ∉ sites.map Site.holder) (symbols : List (Name × Symbol)) :
    Charted (r.take (.enterBlock id parent)).record (sites ++ [⟨.block id, around, symbols⟩]) := by
  rw [Run.take_eq hfault]
  exact hr.add rfl (r.record.place?_openBlock id parent) hnew hparent

theorem Charted.openParameters {r : Run} {sites : List Site} (hr : Charted r.record sites)
    {body : BlockId} {parent : ScopeId} {holder : Holder}
    (hfault : (r.take (.openParameters body parent)).fault = none)
    (hparent : r.record.place? holder = some parent)
    (hnew : .parameters body ∉ sites.map Site.holder) (symbols : List (Name × Symbol)) :
    Charted (r.take (.openParameters body parent)).record
      (sites ++ [⟨.parameters body, some holder, symbols⟩]) := by
  rw [Run.take_eq hfault]
  exact hr.add rfl (r.record.place?_openParameters body parent) hnew
    (.below hparent (hr.place_lt holder hparent))

theorem distinct_prefix {before inner sites : List Site} {site : Site}
    (h : ((before ++ [site] ++ inner ++ sites).map Site.holder).Nodup) :
    site.holder ∉ before.map Site.holder ∧
      ((before ++ [site] ++ inner).map Site.holder).Nodup := by
  rw [List.map_append] at h
  have hinside := h.of_append_left
  refine ⟨fun hmem => ?_, hinside⟩
  rw [List.map_append, List.map_append] at hinside
  have hdisjoint := List.disjoint_of_nodup_append hinside.of_append_left
  exact hdisjoint hmem (List.mem_singleton_self site.holder)

/-- A tour that ends without a fault opens one scope for each of its sites, in this order. -/
theorem Tour.charts {holder : Holder} {scope : ScopeId} {own : List (Name × Symbol)}
    {sites before : List Site} {r r' : Run} (h : Tour holder scope own sites r r')
    (hfault : r'.fault = none) (hr : Charted r.record before)
    (hscope : r.record.place? holder = some scope)
    (hdistinct : ((before ++ sites).map Site.holder).Nodup) : Charted r'.record (before ++ sites) := by
  induction h generalizing before with
  | done =>
    rw [List.append_nil]
    exact hr
  | declares here _ next ih =>
    have hr₁ := here.charts (next.walk.fault_eq_none hfault) hr
    exact ih hfault hr₁ (hr.place_congr hr₁ hscope) hdistinct
  | @block holder scope id functions inside own inner sites r r₁ r₂ r' opening within next ihWithin
      ihNext =>
    obtain ⟨henter, hr₂, hexit⟩ :=
      (opening.walk.trans within.walk).bracket_faults next.walk hfault
    have hr₁ := within.walk.fault_eq_none hr₂
    rw [List.append_cons, ← List.append_assoc] at hdistinct ⊢
    obtain ⟨hnew, hinside⟩ := distinct_prefix hdistinct
    have hopened := hr.enterBlock henter (.below hscope (hr.place_lt holder hscope))
      hnew (functions ++ inside)
    have hdeclared := opening.charts hr₁ hopened
    have hplace : r₁.record.place? (.block id) = some r.record.scopes.size :=
      hr.size ▸ hdeclared.place_last
    have hwithin := ihWithin hr₂ hdeclared hplace hinside
    rw [← Run.record_exitBlock hexit] at hwithin
    refine ihNext hfault hwithin ?_ hdistinct
    rw [List.append_assoc] at hwithin
    exact hr.place_append hwithin hscope
  | @function holder scope name body params own inner sites r r₁ r₂ r' opening hvariables within next
      ihWithin ihNext =>
    obtain ⟨henter, hr₂, hexit⟩ := within.walk.bracket_faults next.walk hfault
    obtain ⟨hopen, hr₁, -⟩ := opening.walk.bracket_faults within.walk hr₂
    rw [List.append_cons, ← List.append_assoc] at hdistinct ⊢
    obtain ⟨hnew, hinside⟩ := distinct_prefix hdistinct
    have hopened := hr.openParameters hopen hscope hnew params
    have hdeclared := opening.charts hr₁ hopened
    rw [← Run.record_enterFunction henter] at hdeclared
    have hplace : (r₁.take (.enterFunction ⟨scope, name⟩)).record.place? (.parameters body) =
        some r.record.scopes.size := hr.size ▸ hdeclared.place_last
    have hwithin := ihWithin hr₂ hdeclared hplace hinside
    rw [← Run.record_exitFunction hexit] at hwithin
    refine ihNext hfault hwithin ?_ hdistinct
    rw [List.append_assoc] at hwithin
    exact hr.place_append hwithin hscope

/-! ## What the scopes hold -/

/-- From `r` to `r'` a scope gets the symbols `own`, and one scope is opened for each of the given
sites and holds its symbols. -/
structure Filled (scope : ScopeId) (own : List (Name × Symbol)) (sites : List Site) (r r' : Run) :
    Prop where
  size : r'.record.scopes.size = r.record.scopes.size + sites.length
  own : ∀ s, r.record.scopes.get? scope = some s →
    ∃ s', r'.record.scopes.get? scope = some s' ∧ s'.symbols = s.symbols ++ own
  sites : ∀ (k : Nat) (site : Site), sites[k]? = some site →
    ∃ s, r'.record.scopes.get? (r.record.scopes.size + k) = some s ∧ s.symbols = site.symbols

namespace Filled

variable {scope : Nat} {own own' : List (Name × Symbol)} {inner sites : List Site}
  {r r₁ r₂ r' : Run}

theorem of_record (hrecord : r'.record = r.record) : Filled scope [] [] r r' where
  size := by rw [hrecord, List.length_nil, Nat.add_zero]
  own s hs := ⟨s, hrecord ▸ hs, (List.append_nil _).symm⟩
  sites k site hsite := by simp at hsite

theorem then_record (h : Filled scope own sites r r₁) (hrecord : r'.record = r₁.record) :
    Filled scope own sites r r' := by
  obtain ⟨hsize, hown, hsites⟩ := h
  constructor <;> rw [hrecord] <;> assumption

theorem own_append (h : Filled scope own [] r r₁) (h' : Filled scope own' sites r₁ r') :
    Filled scope (own ++ own') sites r r' := by
  have hsize := h.size
  rw [List.length_nil, Nat.add_zero] at hsize
  refine ⟨hsize ▸ h'.size, fun s hs => ?_, hsize ▸ h'.sites⟩
  obtain ⟨s₁, hs₁, hsymbols₁⟩ := h.own s hs
  obtain ⟨s', hs', hsymbols⟩ := h'.own s₁ hs₁
  exact ⟨s', hs', by rw [hsymbols, hsymbols₁, List.append_assoc]⟩

theorem cons {site : Site} (hscope : scope < r.record.scopes.size) (hapart : Apart r r₂)
    (hsize : r₁.record.scopes.size = r.record.scopes.size + 1)
    (hempty : ∃ s, r₁.record.scopes.get? r.record.scopes.size = some s ∧ s.symbols = [])
    (hinside : Filled r.record.scopes.size site.symbols inner r₁ r₂)
    (hconfined : Confined scope r₂ r') (hnext : Filled scope own sites r₂ r') :
    Filled scope own (site :: (inner ++ sites)) r r' := by
  have hsize₂ := hinside.size
  have hkeep {i : Nat} (hi : i < r₂.record.scopes.size) (hge : r.record.scopes.size ≤ i) :
      r'.record.scopes.get? i = r₂.record.scopes.get? i :=
    hconfined.others i hi (Nat.ne_of_gt (Nat.lt_of_lt_of_le hscope hge))
  refine ⟨?_, fun s hs => ?_, fun k site' hsite' => ?_⟩
  · rw [hnext.size, hsize₂, hsize, List.length_cons, List.length_append]
    omega
  · exact hnext.own s ((hapart.scopes scope hscope).trans hs)
  · cases k with
    | zero =>
      obtain rfl := Option.some.inj hsite'
      obtain ⟨s, hs, hnone⟩ := hempty
      obtain ⟨s', hs', hsymbols⟩ := hinside.own s hs
      refine ⟨s', ?_, by rw [hsymbols, hnone, List.nil_append]⟩
      rw [Nat.add_zero, hkeep (by omega) (Nat.le_refl _), hs']
    | succ k =>
      rw [List.getElem?_cons_succ] at hsite'
      by_cases hk : k < inner.length
      · rw [List.getElem?_append_left hk] at hsite'
        obtain ⟨s, hs, hsymbols⟩ := hinside.sites k site' hsite'
        refine ⟨s, ?_, hsymbols⟩
        rw [hsize, Nat.add_assoc, Nat.add_comm 1 k] at hs
        rw [hkeep (by omega) (Nat.le_add_right _ _), hs]
      · have hle := Nat.not_lt.mp hk
        rw [List.getElem?_append_right hle] at hsite'
        obtain ⟨s, hs, hsymbols⟩ := hnext.sites _ site' hsite'
        have hindex : r.record.scopes.size + (k + 1) =
            r.record.scopes.size + 1 + inner.length + (k - inner.length) := by omega
        rw [hsize₂, hsize, ← hindex] at hs
        exact ⟨s, hs, hsymbols⟩

end Filled

theorem Declares.fills {scope : Nat} {symbols : List (Name × Symbol)} {r r' : Run}
    (h : Declares scope symbols r r') (hready : r.Ready scope) (hfault : r'.fault = none)
    (hclean : r'.Clean) : Filled scope symbols [] r r' := by
  induction h with
  | done => exact .of_record rfl
  | @quiet symbols e r r' he _ next ih =>
    have hrest := ih (hready.quiet he) hfault hclean
    exact Filled.own_append (.of_record (he.alike r).record) hrest
  | @declare symbols name symbol r r' hfree next ih =>
    have hstep := next.walk.fault_eq_none hfault
    have hdeclared : Filled scope [(name, symbol)] [] r (r.take (.declare scope name symbol)) := by
      rw [Run.take_eq hstep]
      refine ⟨r.record.scopes.size_declare scope name symbol, fun s hs => ?_, ?_⟩
      · rw [ScopeTable.isTaken_eq hready.regular.parentsFirst hs, Bool.or_eq_false_iff] at hfree
        refine ⟨s.declare name symbol, ?_, ?_⟩
        · exact (ScopeTable.get?_declare _ _ _ _ _).trans (by rw [if_pos rfl, hs, Option.map_some])
        · rw [Scope.declare, hfree.1, if_neg Bool.false_ne_true]
      · exact fun k site hsite => by simp at hsite
    exact hdeclared.own_append (ih (hready.declare name symbol) hfault hclean)
  | @refuse symbols name symbol what span r r' _ next ih =>
    have hstep := next.walk.fault_eq_none hfault
    have hbefore := (Run.clean_take hstep).mp (next.walk.reaches.clean hfault hclean)
    exact absurd (hbefore.2 _ rfl) (by simp [Finding.isError, Problem.severity])

/-- A tour that finds no error opens scopes that hold what their sites say. -/
theorem Tour.fills {holder : Holder} {scope : ScopeId} {own : List (Name × Symbol)}
    {sites : List Site} {r r' : Run} (h : Tour holder scope own sites r r')
    (hready : r.Ready scope) (hfault : r'.fault = none) (hclean : r'.Clean) :
    Filled scope own sites r r' := by
  induction h with
  | done => exact .of_record rfl
  | declares here _ next ih =>
    have hfault₁ := next.walk.fault_eq_none hfault
    have hclean₁ := next.walk.reaches.clean hfault hclean
    exact (here.fills hready hfault₁ hclean₁).own_append
      (ih (here.walk.ready hready hfault₁) hfault hclean)
  | @block holder scope id functions inside own inner sites r r₁ r₂ r' opening within next ihWithin
      ihNext =>
    obtain ⟨henter, hr₂, hexit⟩ :=
      (opening.walk.trans within.walk).bracket_faults next.walk hfault
    have hr₁ := within.walk.fault_eq_none hr₂
    have hclean₂ := ((Run.clean_take hexit).mp (next.walk.reaches.clean hfault hclean)).1
    have hclean₁ := within.walk.reaches.clean hr₂ hclean₂
    have hready₀ := hready.enterBlock_of_fits henter
    have hready₁ := opening.walk.ready hready₀ hr₁
    have hready₂ := within.walk.ready hready₁ hr₂
    have hwalk := opening.walk.trans within.walk
    have hapart : Apart r (r₂.take (.exitBlock id r.record.scopes.size)) :=
      .block (hwalk.confined hr₂ hready₀.regular hready₀.scope_lt).2 henter hexit
    have hready₃ := hready₂.exitBlock id (Nat.lt_trans hready.scope_lt hready₂.scope_lt)
    have hinside := (opening.fills hready₀ hr₁ hclean₁).own_append (ihWithin hready₁ hr₂ hclean₂)
    refine .cons hready.scope_lt hapart (Run.size_enterBlock henter) ?_
      (hinside.then_record (Run.record_exitBlock hexit))
      (next.walk.confined hfault hready₃.regular hready₃.scope_lt).2 (ihNext hready₃ hfault hclean)
    rw [Run.take_eq henter]
    exact ⟨_, r.record.scopes.get?_add_size _ _, rfl⟩
  | @function holder scope name body params own inner sites r r₁ r₂ r' opening hvariables within next
      ihWithin ihNext =>
    obtain ⟨henter, hr₂, hexit⟩ := within.walk.bracket_faults next.walk hfault
    obtain ⟨hopen, hr₁, -⟩ := opening.walk.bracket_faults within.walk hr₂
    have hclean₂ := ((Run.clean_take hexit).mp (next.walk.reaches.clean hfault hclean)).1
    have hclean₁ := ((Run.clean_take henter).mp (within.walk.reaches.clean hr₂ hclean₂)).1
    have hready₀ := hready.openParameters body
    have hready₁ := (opening.walk.ready hready₀ hr₁).enterFunction ⟨scope, name⟩
    have hready₂ := within.walk.ready hready₁ hr₂
    have hapart : Apart r (r₂.take (.exitFunction ⟨scope, name⟩)) :=
      .function (opening.walk.confined hr₁ hready₀.regular hready₀.scope_lt).2
        (within.walk.confined hr₂ hready₁.regular hready₁.scope_lt).2 hopen henter hexit
    have hready₃ := hready₂.exitFunction ⟨scope, name⟩
      (Nat.lt_trans hready.scope_lt hready₂.scope_lt)
    have hparams := opening.fills hready₀ hr₁ hclean₁
    have hinside := (hparams.then_record (Run.record_enterFunction henter)).own_append
      (ihWithin hready₁ hr₂ hclean₂)
    rw [List.append_nil] at hinside
    refine .cons hready.scope_lt hapart ?_ ?_ (hinside.then_record (Run.record_exitFunction hexit))
      (next.walk.confined hfault hready₃.regular hready₃.scope_lt).2 (ihNext hready₃ hfault hclean)
    · rw [Run.take_eq hopen]
      exact r.record.scopes.size_add (some scope) true
    · rw [Run.take_eq hopen]
      exact ⟨_, r.record.scopes.get?_add_size _ _, rfl⟩

/-! ## Names within one scope -/

/-- No scope declares a name twice. -/
def ScopeTable.Single (t : ScopeTable) : Prop :=
  ∀ (i : Nat) (s : Scope), t.get? i = some s → (s.symbols.map (·.1)).Nodup

theorem ScopeTable.Single.add {t : ScopeTable} (h : t.Single) (parent : Option ScopeId)
    (ofFunction : Bool) : (t.add parent ofFunction).Single := by
  intro i s hs
  rw [get?_add] at hs
  split at hs
  · obtain rfl := Option.some.inj hs
    exact List.nodup_nil
  · exact h i s hs

theorem ScopeTable.Single.declare {t : ScopeTable} (h : t.Single) (id : ScopeId) (name : Name)
    (symbol : Symbol) : (t.declare id name symbol).Single := by
  intro i s hs
  rw [get?_declare] at hs
  split at hs
  · obtain ⟨s₀, hs₀, rfl⟩ := Option.map_eq_some_iff.mp hs
    have hnodup := h i s₀ hs₀
    unfold Scope.declare
    split
    · exact hnodup
    · next hfree =>
      rw [Scope.declares, Option.isSome_iff_ne_none, not_not, Scope.find?,
        List.lookup_eq_none_iff] at hfree
      rw [List.map_append, List.nodup_append]
      refine ⟨hnodup, List.nodup_singleton _, fun x hx y hy => ?_⟩
      obtain rfl := List.mem_singleton.mp hy
      obtain ⟨entry, hentry, rfl⟩ := List.mem_map.mp hx
      exact Ne.symm (bne_iff_ne.mp (hfree entry hentry))
  · exact h i s hs

theorem Run.Reaches.single {r r' : Run} (h : r.Reaches r') (hr : r.record.scopes.Single) :
    r'.record.scopes.Single := by
  induction h with
  | refl => exact hr
  | @tail r₁ r₂ _ hstep ih =>
    obtain ⟨e, rfl⟩ := hstep
    by_cases hfault : r₁.fault = none
    · cases hclash : r₁.clash e with
      | some f =>
        rw [Run.take_of_clash hfault hclash]
        exact ih
      | none =>
        rw [Run.take_of_fits hfault hclash]
        cases e with
        | enterBlock id parent => exact ih.add parent false
        | openParameters body parent => exact ih.add (some parent) true
        | declare scope name symbol => exact ih.declare scope name symbol
        | exitFunction f =>
          change (r₁.change (.exitFunction f)).record.scopes.Single
          rw [Run.change_exitFunction_record]
          exact ih
        | _ => exact ih
    · rw [Run.take_of_fault hfault]
      exact ih

end Yul
