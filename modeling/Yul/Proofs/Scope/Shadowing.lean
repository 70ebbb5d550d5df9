import Yul.Proofs.Scope.Rows

/-!
# No name is declared twice along open scopes

A name is declared only if no scope around declares it, seen or not, so at every point of a run each
name is declared in one of the open scopes at most (`Declared.unique`). That holds for open scopes
only: a block may declare a name that its surroundings declare later, behind the block. In the end
this is the one way in which a scope and a scope around it come to declare the same name
(`DeclaredLater`): functions are declared before any scope is opened below theirs.
-/

namespace Yul

namespace ScopeTable

/-! ## Scopes around a scope -/

/-- Scope `id` hangs directly below scope `outer`. -/
def Below (t : ScopeTable) (id outer : ScopeId) : Prop :=
  ∃ s, t.get? id = some s ∧ s.parent = some outer

/-- Scope `outer` is a scope around scope `id`. -/
abbrev Inside (t : ScopeTable) : ScopeId → ScopeId → Prop :=
  Relation.TransGen t.Below

/-- From number `first` on, scopes hang below scopes with smaller numbers from `first` on. -/
def RootedFrom (t : ScopeTable) (first : ScopeId) : Prop :=
  ∀ id outer : Nat, first ≤ id → t.Below id outer → first ≤ outer ∧ outer < id

variable {t : ScopeTable} {first : Nat}

theorem RootedFrom.inside (h : t.RootedFrom first) {id outer : Nat} (hid : first ≤ id)
    (hinside : t.Inside id outer) : first ≤ outer ∧ outer < id := by
  induction hinside with
  | single hbelow => exact h _ _ hid hbelow
  | tail _ hbelow ih =>
    obtain ⟨hfirst, hlt⟩ := ih
    obtain ⟨hfirst', hlt'⟩ := h _ _ hfirst hbelow
    exact ⟨hfirst', Nat.lt_trans hlt' hlt⟩

theorem below_declare (id : ScopeId) (name : Name) (symbol : Symbol) (i outer : ScopeId) :
    (t.declare id name symbol).Below i outer ↔ t.Below i outer := by
  simp only [Below, get?_declare]
  split
  · simp
  · rfl

theorem inside_declare (id : ScopeId) (name : Name) (symbol : Symbol) :
    (t.declare id name symbol).Inside = t.Inside := by
  have hbelow : (t.declare id name symbol).Below = t.Below := by
    funext i outer
    exact propext (below_declare id name symbol i outer)
  rw [Inside, hbelow]

theorem below_add {parent : Option ScopeId} {ofFunction : Bool} {i outer : ScopeId}
    (h : (t.add parent ofFunction).Below i outer) :
    i = t.size ∧ parent = some outer ∨ t.Below i outer := by
  obtain ⟨s, hs, hparent⟩ := h
  rw [get?_add] at hs
  split at hs
  · next heq =>
    obtain rfl := Option.some.inj hs
    exact .inl ⟨heq, hparent⟩
  · exact .inr ⟨s, hs, hparent⟩

theorem declares_of_declare {id : ScopeId} {name : Name} {symbol : Symbol} {i : ScopeId} {s : Scope}
    {x : Name} (hs : (t.declare id name symbol).get? i = some s) (hx : s.declares x = true) :
    (id = i ∧ x = name) ∨ ∃ s₀, t.get? i = some s₀ ∧ s₀.declares x = true := by
  rw [get?_declare] at hs
  split at hs
  · next heq =>
    obtain ⟨s₀, hs₀, rfl⟩ := Option.map_eq_some_iff.mp hs
    rw [Scope.declares_declare, Bool.or_eq_true, beq_iff_eq] at hx
    exact hx.imp (fun h => ⟨heq, h⟩) fun h => ⟨s₀, hs₀, h⟩
  · exact .inr ⟨s, hs, hx⟩

theorem RootedFrom.add (h : t.RootedFrom first) {parent : Option ScopeId}
    (hparent : ∀ p : Nat, parent = some p → first ≤ p ∧ p < t.size) (ofFunction : Bool) :
    (t.add parent ofFunction).RootedFrom first := by
  intro id outer hid hbelow
  rcases below_add hbelow with ⟨rfl, hp⟩ | hbelow
  · exact hparent outer hp
  · exact h id outer hid hbelow

theorem RootedFrom.declare (h : t.RootedFrom first) (id : ScopeId) (name : Name)
    (symbol : Symbol) : (t.declare id name symbol).RootedFrom first := by
  intro i outer hi hbelow
  exact h i outer hi ((below_declare id name symbol i outer).mp hbelow)

theorem RootedFrom.inside_of_add (h : t.RootedFrom first) {parent : Option ScopeId}
    {ofFunction : Bool} {i outer : Nat} (hi : first ≤ i) (hlt : i < t.size)
    (hinside : (t.add parent ofFunction).Inside i outer) : t.Inside i outer := by
  induction hinside using Relation.TransGen.head_induction_on with
  | single hbelow =>
    rcases below_add hbelow with ⟨rfl, -⟩ | hbelow
    · exact absurd hlt (Nat.lt_irrefl _)
    · exact .single hbelow
  | head hbelow _ ih =>
    rcases below_add hbelow with ⟨rfl, -⟩ | hbelow
    · exact absurd hlt (Nat.lt_irrefl _)
    · obtain ⟨hfirst, hsmaller⟩ := h _ _ hi hbelow
      exact .head hbelow (ih hfirst (Nat.lt_trans hsmaller hlt))

theorem Row.inside {row : List (ScopeId × Scope)} (h : t.Row row) {i outer : ScopeId} {s : Scope}
    (hi : (i, s) ∈ row) (hinside : t.Inside i outer) : ∃ s', (outer, s') ∈ row := by
  have hstep : ∀ {row : List (ScopeId × Scope)}, t.Row row → ∀ {j b : ScopeId} {s : Scope},
      (j, s) ∈ row → t.Below j b → ∃ s', (b, s') ∈ row := by
    intro row h
    induction h with
    | nil => exact fun hj => absurd hj List.not_mem_nil
    | @cons id s outer hs hparent _ next ih =>
      intro j b s' hj hbelow
      rcases List.mem_cons.mp hj with heq | hj
      · obtain ⟨rfl, rfl⟩ := Prod.mk.inj heq
        obtain ⟨s₁, hs₁, hp⟩ := hbelow
        obtain rfl := Option.some.inj (hs₁.symm.trans hs)
        rw [hp] at hparent
        cases outer with
        | nil => exact nomatch hparent
        | cons entry outer =>
          obtain rfl := Option.some.inj hparent
          exact ⟨entry.2, List.mem_cons_of_mem _ List.mem_cons_self⟩
      · obtain ⟨s₁, hs₁⟩ := ih hj hbelow
        exact ⟨s₁, List.mem_cons_of_mem _ hs₁⟩
  induction hinside with
  | single hbelow => exact hstep h hi hbelow
  | tail _ hbelow ih =>
    obtain ⟨s', hs'⟩ := ih
    exact hstep h hs' hbelow

end ScopeTable

/-! ## Points of a run that started with a record -/

/-- A point of a run that started with the given record: it has a row of open scopes, all of which
the run has opened, and scopes that were there before have not changed. -/
structure Point.Since (record : Record) (p : Point) (row : List (ScopeId × Scope)) : Prop where
  stands : p.Stands row
  replayed : p = (Point.start record).after p.run.events
  size_le : record.scopes.size ≤ p.run.record.scopes.size
  own : ∀ entry ∈ row, record.scopes.size ≤ entry.1
  rooted : p.run.record.scopes.RootedFrom record.scopes.size
  earlier : ∀ i : Nat, i < record.scopes.size →
    p.run.record.scopes.get? i = record.scopes.get? i

namespace Point

variable {record : Record} {p : Point} {row row' : List (ScopeId × Scope)} {e : Event}

theorem Since.start (record : Record) : (Point.start record).Since record [] where
  stands := .start record
  replayed := rfl
  size_le := Nat.le_refl _
  own := List.forall_mem_nil _
  rooted id outer hid hbelow := by
    obtain ⟨s, hs, -⟩ := hbelow
    exact absurd (ScopeTable.lt_of_get? hs) (Nat.not_lt.mpr hid)
  earlier _ _ := rfl

theorem Since.head (h : p.Since record row) {outer : Nat} (hhead : row.head?.map (·.1) = some outer) :
    record.scopes.size ≤ outer ∧ outer < p.run.record.scopes.size := by
  cases row with
  | nil => exact nomatch hhead
  | cons entry row =>
    obtain rfl := Option.some.inj hhead
    exact ⟨h.own entry List.mem_cons_self, h.stands.links.lt_size List.mem_cons_self⟩

theorem Since.step (h : p.Since record row) (he : p.Happens e) (hstands : (p.take e).Stands row')
    (hshift : Shift p (p.take e) row row') : (p.take e).Since record row' := by
  have hreplayed : p.take e = (Point.start record).after (p.take e).run.events := by
    rw [he.events, after_append, ← h.replayed]
    rfl
  have hsize := h.size_le
  cases hshift with
  | quiet hscopes =>
    refine ⟨hstands, hreplayed, ?_, h.own, ?_, ?_⟩ <;> rw [hscopes]
    exacts [hsize, h.rooted, h.earlier]
  | @declare id s outer name symbol _ _ _ hscopes =>
    have hid := h.own (id, s) List.mem_cons_self
    refine ⟨hstands, hreplayed, ?_, ?_, ?_, fun i hi => ?_⟩
    · rw [hscopes, ScopeTable.size_declare]
      exact hsize
    · exact List.forall_mem_cons.mpr ⟨hid, (List.forall_mem_cons.mp h.own).2⟩
    · rw [hscopes]
      exact h.rooted.declare id name symbol
    · have hne : id ≠ i := Nat.ne_of_gt (Nat.lt_of_lt_of_le hi hid)
      rw [hscopes, ScopeTable.get?_declare, if_neg hne, h.earlier i hi]
  | enterBlock hscopes | openParameters hscopes =>
    refine ⟨hstands, hreplayed, ?_, List.forall_mem_cons.mpr ⟨hsize, h.own⟩, ?_, fun i hi => ?_⟩
    · rw [hscopes, ScopeTable.size_add]
      exact Nat.le_succ_of_le hsize
    · rw [hscopes]
      exact h.rooted.add (fun _ hp => h.head hp) _
    · have hne := Nat.ne_of_lt (Nat.lt_of_lt_of_le hi hsize)
      rw [hscopes, ScopeTable.get?_add, if_neg hne, h.earlier i hi]
  | exitBlock _ hscopes | exitFunction _ hscopes =>
    refine ⟨hstands, hreplayed, ?_, (List.forall_mem_cons.mp h.own).2, ?_, ?_⟩ <;> rw [hscopes]
    exacts [hsize, h.rooted, h.earlier]

/-! ## Names along the row -/

/-- No name is declared in two scopes of a row. -/
def Unique (row : List (ScopeId × Scope)) : Prop :=
  ∀ x, row.countP (fun entry => entry.2.declares x) ≤ 1

theorem Unique.shift {p' : Point} (h : Unique row) (hshift : Shift p p' row row') :
    Unique row' := by
  intro x
  have hx := h x
  cases hshift with
  | quiet => exact hx
  | @declare id s outer name symbol hfree =>
    obtain ⟨hhere, houter⟩ := List.forall_mem_cons.mp hfree
    rw [List.countP_cons] at hx ⊢
    rw [Scope.declares_declare]
    by_cases heq : x = name
    · have hnone : outer.countP (fun entry => entry.2.declares x) = 0 := by
        rw [heq]
        exact List.countP_eq_zero.mpr fun entry hentry => Bool.eq_false_iff.mp (houter entry hentry)
      refine Nat.le_of_eq ?_
      rw [hnone, heq, beq_self_eq_true, Bool.true_or, if_pos rfl]
    · rw [beq_false_of_ne heq, Bool.false_or]
      exact hx
  | enterBlock | openParameters =>
    rw [List.countP_cons]
    exact hx
  | exitBlock | exitFunction =>
    rw [List.countP_cons] at hx
    exact Nat.le_of_add_right_le hx

end Point

/-! ## Names that are declared again further out -/

section Ordered

variable {record : Record} {p : Point} {row row' : List (ScopeId × Scope)} {e : Event}

/-- Scope `outer` holds the variable `x`, which was declared at a point of the run where scope
`inner` had been opened and left. -/
def Run.DeclaredLater (record : Record) (r : Run) (inner outer : ScopeId) (x : Name) : Prop :=
  ∃ s type before behind, r.record.scopes.get? outer = some s ∧
    s.find? x = some (.variable type) ∧
    r.events = before ++ .declare outer x (.variable type) :: behind ∧
    inner < ((Point.start record).after before).run.record.scopes.size ∧
    inner ∉ ((Point.start record).after before).openScopes.map (·.1)

/-- Whenever a scope and a scope around it declare the same name, the outer scope has declared it
later. -/
def Run.Ordered (record : Record) (r : Run) : Prop :=
  ∀ (inner outer : Nat) (s s' : Scope) (x : Name), record.scopes.size ≤ inner →
    r.record.scopes.Inside inner outer → r.record.scopes.get? inner = some s →
    r.record.scopes.get? outer = some s' → s.declares x = true → s'.declares x = true →
    r.DeclaredLater record inner outer x

theorem Run.Ordered.start (record : Record) : (Point.start record).run.Ordered record := by
  intro inner outer s s' x hinner hinside hs
  exact absurd (ScopeTable.lt_of_get? hs) (Nat.not_lt.mpr hinner)

theorem Run.DeclaredLater.mono {r r' : Run} {inner outer : ScopeId} {x : Name} {more : List Event}
    (h : r.DeclaredLater record inner outer x) (hevents : r'.events = r.events ++ more)
    (hscopes : ∀ s symbol, r.record.scopes.get? outer = some s → s.find? x = some symbol →
      ∃ s', r'.record.scopes.get? outer = some s' ∧ s'.find? x = some symbol) :
    r'.DeclaredLater record inner outer x := by
  obtain ⟨s, type, before, behind, hs, hfind, hsplit, hopened, hleft⟩ := h
  obtain ⟨s', hs', hfind'⟩ := hscopes s _ hs hfind
  refine ⟨s', type, before, behind ++ more, hs', hfind', ?_, hopened, hleft⟩
  rw [hevents, hsplit, List.append_assoc, List.cons_append]

theorem Run.Ordered.of_same {r r' : Run} {more : List Event} (h : r.Ordered record)
    (hevents : r'.events = r.events ++ more) (hscopes : r'.record.scopes = r.record.scopes) :
    r'.Ordered record := by
  intro inner outer s s' x hinner hinside hs hs' hx hx'
  rw [hscopes] at hinside hs hs'
  refine (h inner outer s s' x hinner hinside hs hs' hx hx').mono hevents fun s symbol hs hfind => ?_
  exact ⟨s, hscopes ▸ hs, hfind⟩

theorem Run.Ordered.of_add {r r' : Run} {more : List Event} {parent : Option ScopeId}
    {ofFunction : Bool} (h : r.Ordered record)
    (hrooted : r.record.scopes.RootedFrom record.scopes.size)
    (hevents : r'.events = r.events ++ more)
    (hscopes : r'.record.scopes = r.record.scopes.add parent ofFunction) : r'.Ordered record := by
  intro inner outer s s' x hinner hinside hs hs' hx hx'
  have hold {i : ScopeId} {s : Scope} (hs : r'.record.scopes.get? i = some s)
      (hx : s.declares x = true) : r.record.scopes.get? i = some s := by
    rw [hscopes, ScopeTable.get?_add] at hs
    split at hs
    · obtain rfl := Option.some.inj hs
      exact absurd hx Bool.false_ne_true
    · exact hs
  rw [hscopes] at hinside
  have hinside' := hrooted.inside_of_add hinner (ScopeTable.lt_of_get? (hold hs hx)) hinside
  have hlater := h inner outer s s' x hinner hinside' (hold hs hx) (hold hs' hx') hx hx'
  refine hlater.mono hevents fun s symbol hs hfind => ⟨s, ?_, hfind⟩
  rw [hscopes, ScopeTable.get?_add, if_neg (Nat.ne_of_lt (ScopeTable.lt_of_get? hs)), hs]

/-- A name that is declared in the innermost open scope is free further out, and all scopes below
have been left. -/
theorem Run.Ordered.of_declare {p' : Point} {id : Nat} {sid : Scope}
    {around : List (ScopeId × Scope)} {name : Name} {symbol : Symbol} (h : p.run.Ordered record)
    (hsince : p.Since record ((id, sid) :: around))
    (hfree : ∀ entry ∈ (id, sid) :: around, entry.2.declares name = false)
    (hnew : symbol.isVariable = false → p.run.record.scopes.size = id + 1)
    (hevents : p'.run.events = p.run.events ++ [.declare id name symbol])
    (hscopes : p'.run.record.scopes = p.run.record.scopes.declare id name symbol) :
    p'.run.Ordered record := by
  have hrow := hsince.stands.links
  have hdeclare : p.run.record.scopes.get? id = some sid := hrow.get? List.mem_cons_self
  intro inner outer s s' x hinner hinside hs hs' hx hx'
  rw [hscopes, ScopeTable.inside_declare] at hinside
  rw [hscopes] at hs hs'
  obtain ⟨-, hlt⟩ := hsince.rooted.inside hinner hinside
  rcases ScopeTable.declares_of_declare hs hx with ⟨rfl, rfl⟩ | ⟨s₀, hs₀, hx₀⟩
  · obtain ⟨s₁, hs₁⟩ := hrow.inside List.mem_cons_self hinside
    rw [ScopeTable.get?_declare, if_neg (Nat.ne_of_gt hlt), hrow.get? hs₁] at hs'
    obtain rfl := Option.some.inj hs'
    exact absurd hx' (Bool.eq_false_iff.mp (hfree _ hs₁))
  have hinnerLt := ScopeTable.lt_of_get? hs₀
  rcases ScopeTable.declares_of_declare hs' hx' with ⟨rfl, rfl⟩ | ⟨s₁, hs₁, hx₁⟩
  · rw [ScopeTable.get?_declare, if_pos rfl, hdeclare] at hs'
    obtain rfl := Option.some.inj hs'
    have hfind := Scope.find?_declare (hfree _ List.mem_cons_self) symbol x
    rw [if_pos rfl] at hfind
    cases symbol with
    | function params returns =>
      -- a function is declared before any scope is opened below
      have hsize := hnew rfl
      omega
    | «variable» type =>
      refine ⟨_, type, p.run.events, [], ?_, hfind, hevents, ?_, ?_⟩
      · rw [hscopes, ScopeTable.get?_declare, if_pos rfl, hdeclare]
        rfl
      · rw [← hsince.replayed]
        exact hinnerLt
      · rw [← hsince.replayed, hsince.stands.map_openScopes]
        intro hmem
        obtain ⟨entry, hentry, rfl⟩ := List.mem_map.mp hmem
        rcases List.mem_cons.mp hentry with rfl | hentry
        · exact absurd hlt (Nat.lt_irrefl _)
        · exact absurd hlt (Nat.lt_asymm (hrow.lt_head entry hentry))
  · refine (h inner outer s₀ s₁ x hinner hinside hs₀ hs₁ hx₀ hx₁).mono hevents
      fun s₂ found hs₂ hfind => ?_
    rw [hscopes, ScopeTable.get?_declare, hs₂]
    split
    · exact ⟨_, rfl, Scope.find?_declare_of_some hfind name symbol⟩
    · exact ⟨s₂, rfl, hfind⟩

theorem Run.Ordered.step (h : p.run.Ordered record) (hsince : p.Since record row)
    (he : p.Happens e) (hshift : Point.Shift p (p.take e) row row') :
    (p.take e).run.Ordered record := by
  have hevents := he.events
  cases hshift with
  | quiet hscopes => exact h.of_same hevents hscopes
  | exitBlock _ hscopes => exact h.of_same hevents hscopes
  | exitFunction _ hscopes => exact h.of_same hevents hscopes
  | enterBlock hscopes => exact h.of_add hsince.rooted hevents hscopes
  | openParameters hscopes => exact h.of_add hsince.rooted hevents hscopes
  | declare hfree hnew hdeclared hscopes => exact h.of_declare hsince hfree hnew hdeclared hscopes

/-- Along the open scopes no name is declared twice, and where a scope and one around it declare the
same name, the outer one has declared it later. -/
structure Point.Declared (record : Record) (p : Point) (row : List (ScopeId × Scope)) : Prop where
  since : p.Since record row
  unique : Point.Unique row
  ordered : p.run.Ordered record

theorem Point.Declared.step (h : ∃ row, p.Declared record row) (he : p.Happens e) :
    ∃ row, (p.take e).Declared record row := by
  obtain ⟨row, hsince, hunique, hordered⟩ := h
  obtain ⟨row', hstands, hshift⟩ := hsince.stands.step he
  exact ⟨row', hsince.step he hstands hshift, hunique.shift hshift,
    hordered.step hsince he hshift⟩

/-- Every point of a run has a row of open scopes that declare no name twice. -/
theorem Point.declared {es : List Event} (hgoes : (Point.start record).Goes es) :
    ∃ row, ((Point.start record).after es).Declared record row := by
  refine hgoes.invariant (fun p e => Point.Declared.step) ⟨[], .start record, ?_, .start record⟩
  exact fun x => Nat.zero_le 1

end Ordered

/-! ## The analysis of a block -/

/-- What an analysis never does: declare a name in a scope and, while this scope is open, in one
inside it, or the other way round. -/
structure NoShadowing (cfg : Setting) (record : Record) (b : Block) : Prop where
  /-- at every point the scopes from the innermost open one outward are the open ones, those of
  functions around included, and each name is declared in one of them at most -/
  open_once : ∀ es, es <+: (runBlock cfg record b).events →
    ∀ scope, ((Point.start record).after es).innermost? = some scope →
      let chain := ((Point.start record).after es).run.record.scopes.chain scope
      chain.map (·.1) = ((Point.start record).after es).openScopes.map (·.1) ∧
        ∀ x, chain.countP (fun entry => entry.2.declares x) ≤ 1
  /-- in the end, whenever a scope that was opened and a scope around it declare the same name, it is
  a variable of the outer one that was declared after the inner one had been left -/
  declared_later : ∀ (inner outer : Nat) (s s' : Scope) (x : Name), record.scopes.size ≤ inner →
    (analyze cfg record b).record.scopes.Inside inner outer →
    (analyze cfg record b).record.scopes.get? inner = some s →
    (analyze cfg record b).record.scopes.get? outer = some s' →
    s.declares x = true → s'.declares x = true →
    (runBlock cfg record b).DeclaredLater record inner outer x
  /-- scopes of earlier analyses stay as they are -/
  earlier : ∀ i : Nat, i < record.scopes.size →
    (analyze cfg record b).record.scopes.get? i = record.scopes.get? i

/-- No analysis ever shadows a name. -/
theorem no_shadowing (cfg : Setting) (record : Record) (b : Block) : NoShadowing cfg record b := by
  have hscopes : (analyze cfg record b).record.scopes = (runBlock cfg record b).record.scopes :=
    (ofRun_record _).1
  obtain ⟨hgoes, hrun⟩ := runBlock_goes cfg record b
  obtain ⟨row, hsince, -, hordered⟩ := Point.declared hgoes
  have hrecord := congrArg Run.record hrun
  change (runBlock cfg record b).record = _ at hrecord
  constructor
  · intro es hes scope hscope
    obtain ⟨row, hsince, hunique, -⟩ := Point.declared (goes_at_point cfg hes)
    obtain ⟨s, outer, rfl⟩ := hsince.stands.eq_cons hscope
    dsimp only
    rw [hsince.stands.links.chain_eq]
    exact ⟨hsince.stands.map_openScopes.symm, hunique⟩
  · have hfinal : (runBlock cfg record b).Ordered record := by
      have hevents := (congrArg Run.events hrun).trans (List.append_nil _).symm
      exact hordered.of_same hevents (congrArg Record.scopes hrecord)
    rw [hscopes]
    exact hfinal
  · intro i hi
    rw [hscopes, hrecord]
    exact hsince.earlier i hi

/-- The code `{ { let x } let x }`. -/
def declaredBehind : Block where
  id := 0
  statements := [
    .block ⟨1, [.declaration [⟨"x", none, default⟩] none default], default⟩,
    .declaration [⟨"x", none, default⟩] none default]
  span := default

theorem declaredBehind_later :
    (analyze {} {} declaredBehind).record.scopes.Inside 1 0 ∧
      (runBlock {} {} declaredBehind).DeclaredLater {} 1 0 "x" := by
  have hinner : (analyze {} {} declaredBehind).record.scopes.get? 1 =
      some ⟨some 0, false, [("x", .variable "")]⟩ := by decide +kernel
  have houter : (analyze {} {} declaredBehind).record.scopes.get? 0 =
      some ⟨none, false, [("x", .variable "")]⟩ := by decide +kernel
  have hinside : (analyze {} {} declaredBehind).record.scopes.Inside 1 0 := .single ⟨_, hinner, rfl⟩
  exact ⟨hinside, (no_shadowing {} {} declaredBehind).declared_later 1 0 _ _ "x" (by decide) hinside
    hinner houter (by decide) (by decide)⟩

end Yul
