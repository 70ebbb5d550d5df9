import Yul.Proofs.Run.Points

/-!
# The row of open scopes

At every point of a run the open scopes stand in a row: each hangs below the next one, and has a
larger number. So the chain of the innermost open scope is this row (`Row.chain_eq`), whatever else a
table holds. `Point.Stands` ties a point to its row, and `Point.Stands.step` says all that an event
can do to the row and to the variables that can be used: everything about scopes along a run follows
from this one lemma.
-/

namespace Yul

namespace ScopeTable

/-! ## Rows -/

/-- Scopes of a table, each hanging below the next one. -/
inductive Row (t : ScopeTable) : List (ScopeId × Scope) → Prop where
  | nil : Row t []
  | cons {id : ScopeId} {s : Scope} {outer : List (ScopeId × Scope)} (hs : t.get? id = some s)
      (hparent : s.parent = outer.head?.map (·.1)) (hbelow : ∀ entry ∈ outer, entry.1 < id)
      (next : Row t outer) : Row t ((id, s) :: outer)

namespace Row

variable {t : ScopeTable} {row outer : List (ScopeId × Scope)} {id : ScopeId} {s : Scope}

theorem tail (h : t.Row ((id, s) :: outer)) : t.Row outer := by
  cases h with
  | cons _ _ _ next => exact next

theorem lt_head (h : t.Row ((id, s) :: outer)) : ∀ entry ∈ outer, entry.1 < id := by
  cases h with
  | cons _ _ hbelow _ => exact hbelow

theorem get? (h : t.Row row) {entry : ScopeId × Scope} (hentry : entry ∈ row) :
    t.get? entry.1 = some entry.2 := by
  induction h with
  | nil => exact absurd hentry List.not_mem_nil
  | cons hs _ _ _ ih =>
    rcases List.mem_cons.mp hentry with rfl | hentry
    · exact hs
    · exact ih hentry

theorem lt_size (h : t.Row row) {entry : ScopeId × Scope} (hentry : entry ∈ row) :
    entry.1 < t.size :=
  lt_of_get? (h.get? hentry)

theorem length_le (h : t.Row ((id, s) :: outer)) : outer.length ≤ id := by
  induction outer generalizing id s with
  | nil => exact Nat.zero_le id
  | cons entry outer ih =>
    exact Nat.lt_of_le_of_lt (ih h.tail) (h.lt_head entry List.mem_cons_self)

theorem chainWithin_eq (h : t.Row row) {n : Nat} (hn : row.length ≤ n) :
    ∀ {id : ScopeId} {s : Scope} {outer : List (ScopeId × Scope)}, row = (id, s) :: outer →
      t.chainWithin n id = row := by
  induction h generalizing n with
  | nil => exact fun heq => nomatch heq
  | @cons id s outer hs hparent hbelow next ih =>
    rintro _ _ _ ⟨rfl, rfl, rfl⟩
    rw [List.length_cons] at hn
    obtain ⟨n, rfl⟩ : ∃ k, n = k + 1 := ⟨n - 1, by omega⟩
    rw [chainWithin, hs]
    dsimp only
    rw [hparent]
    cases outer with
    | nil => rfl
    | cons entry outer =>
      obtain ⟨id', s'⟩ := entry
      exact congrArg ((id, s) :: ·) (ih (Nat.le_of_succ_le_succ hn) rfl)

/-- The chain of the first scope of a row is the row. -/
theorem chain_eq (h : t.Row ((id, s) :: outer)) : t.chain id = (id, s) :: outer := by
  have hlength := Nat.lt_of_le_of_lt h.length_le (h.lt_size List.mem_cons_self)
  exact h.chainWithin_eq hlength rfl

theorem add (h : t.Row row) (parent : Option ScopeId) (ofFunction : Bool) :
    (t.add parent ofFunction).Row row := by
  induction h with
  | nil => exact .nil
  | cons hs hparent hbelow _ ih =>
    refine .cons ?_ hparent hbelow ih
    rw [get?_add, if_neg (Nat.ne_of_lt (lt_of_get? hs)), hs]

theorem push (h : t.Row row) (ofFunction : Bool) :
    (t.add (row.head?.map (·.1)) ofFunction).Row
      ((t.size, ⟨row.head?.map (·.1), ofFunction, []⟩) :: row) := by
  refine .cons ?_ rfl (fun entry hentry => h.lt_size hentry) (h.add _ _)
  rw [get?_add, if_pos rfl]

theorem declare_below (h : t.Row row) {id : ScopeId} (hbelow : ∀ entry ∈ row, entry.1 < id)
    (name : Name) (symbol : Symbol) : (t.declare id name symbol).Row row := by
  induction h with
  | nil => exact .nil
  | cons hs hparent hlt _ ih =>
    have hne := Nat.ne_of_gt (hbelow _ List.mem_cons_self)
    refine .cons ?_ hparent hlt (ih fun entry hentry => hbelow entry (List.mem_cons_of_mem _ hentry))
    rw [get?_declare, if_neg hne, hs]

theorem declare (h : t.Row ((id, s) :: outer)) (name : Name) (symbol : Symbol) :
    (t.declare id name symbol).Row ((id, s.declare name symbol) :: outer) := by
  obtain _ | ⟨hs, hparent, hbelow, next⟩ := h
  refine .cons ?_ ?_ hbelow (next.declare_below hbelow name symbol)
  · rw [get?_declare, if_pos rfl, hs, Option.map_some]
  · rw [Scope.parent_declare, hparent]

theorem isTaken_eq (h : t.Row ((id, s) :: outer)) (x : Name) :
    t.isTaken id x = ((id, s) :: outer).any fun entry => entry.2.declares x := by
  rw [isTaken, h.chain_eq]

theorem lookup_eq (h : t.Row ((id, s) :: outer)) (x : Name) :
    t.lookup id x = visible x false ((id, s) :: outer) := by
  rw [lookup, h.chain_eq]

end Row

end ScopeTable

/-! ## The row of a point -/

namespace Point

/-- The open scopes of a point are the given row. -/
structure Stands (p : Point) (row : List (ScopeId × Scope)) : Prop where
  links : p.run.record.scopes.Row row
  /-- they are open, and those of parameters belong to functions -/
  openScopes : p.openScopes.map (fun o => (o.1, o.2.isParameters)) =
    row.map fun entry => (entry.1, entry.2.ofFunction)

/-- All that an event can do to the row of open scopes and to the variables that can be used. -/
inductive Shift (p p' : Point) : List (ScopeId × Scope) → List (ScopeId × Scope) → Prop where
  | quiet {row : List (ScopeId × Scope)} (hscopes : p'.run.record.scopes = p.run.record.scopes)
      (hactive : p'.run.active = p.run.active) (hsuspended : p'.run.suspended = p.run.suspended) :
      Shift p p' row row
  | declare {id : ScopeId} {s : Scope} {outer : List (ScopeId × Scope)} {name : Name}
      {symbol : Symbol} (hfree : ∀ entry ∈ (id, s) :: outer, entry.2.declares name = false)
      (hnew : symbol.isVariable = false → p.run.record.scopes.size = id + 1)
      (hevents : p'.run.events = p.run.events ++ [.declare id name symbol])
      (hscopes : p'.run.record.scopes = p.run.record.scopes.declare id name symbol)
      (hactive : p'.run.active =
        if symbol.isVariable then (id, name) :: p.run.active else p.run.active)
      (hsuspended : p'.run.suspended = p.run.suspended) :
      Shift p p' ((id, s) :: outer) ((id, s.declare name symbol) :: outer)
  | enterBlock {row : List (ScopeId × Scope)}
      (hscopes : p'.run.record.scopes = p.run.record.scopes.add (row.head?.map (·.1)) false)
      (hactive : p'.run.active = p.run.active) (hsuspended : p'.run.suspended = p.run.suspended) :
      Shift p p' row ((p.run.record.scopes.size, ⟨row.head?.map (·.1), false, []⟩) :: row)
  | openParameters {row : List (ScopeId × Scope)}
      (hscopes : p'.run.record.scopes = p.run.record.scopes.add (row.head?.map (·.1)) true)
      (hactive : p'.run.active = [])
      (hsuspended : p'.run.suspended = p.run.active :: p.run.suspended) :
      Shift p p' row ((p.run.record.scopes.size, ⟨row.head?.map (·.1), true, []⟩) :: row)
  | exitBlock {id : ScopeId} {s : Scope} {outer : List (ScopeId × Scope)}
      (hblock : s.ofFunction = false) (hscopes : p'.run.record.scopes = p.run.record.scopes)
      (hactive : p'.run.active = p.run.active.filter fun v => v.1 ≠ id)
      (hsuspended : p'.run.suspended = p.run.suspended) : Shift p p' ((id, s) :: outer) outer
  | exitFunction {id : ScopeId} {s : Scope} {outer : List (ScopeId × Scope)}
      (hfunction : s.ofFunction = true) (hscopes : p'.run.record.scopes = p.run.record.scopes)
      (hrestored : ∀ active suspended, p.run.suspended = active :: suspended →
        p'.run.active = active ∧ p'.run.suspended = suspended) :
      Shift p p' ((id, s) :: outer) outer

namespace Stands

variable {p : Point} {row : List (ScopeId × Scope)}

theorem start (record : Record) : (Point.start record).Stands [] :=
  ⟨.nil, rfl⟩

theorem map_openScopes (h : p.Stands row) : p.openScopes.map (·.1) = row.map (·.1) := by
  have hmap := congrArg (List.map Prod.fst) h.openScopes
  rwa [List.map_map, List.map_map] at hmap

theorem innermost? (h : p.Stands row) : p.innermost? = row.head?.map (·.1) := by
  rw [Point.innermost?, ← List.head?_map, h.map_openScopes, List.head?_map]

theorem eq_cons (h : p.Stands row) {id : ScopeId} (hid : p.innermost? = some id) :
    ∃ s outer, row = (id, s) :: outer := by
  rw [h.innermost?] at hid
  cases row with
  | nil => exact nomatch hid
  | cons entry outer =>
    obtain rfl := Option.some.inj hid
    exact ⟨entry.2, outer, rfl⟩

theorem same (h : p.Stands row) {p' : Point}
    (hscopes : p'.run.record.scopes = p.run.record.scopes) (hopen : p'.openScopes = p.openScopes) :
    p'.Stands row where
  links := hscopes ▸ h.links
  openScopes := hopen ▸ h.openScopes

theorem opened (h : p.Stands row) {p' : Point} (holder : Holder)
    (hscopes : p'.run.record.scopes =
      p.run.record.scopes.add (row.head?.map (·.1)) holder.isParameters)
    (hopen : p'.openScopes = (p.run.record.scopes.size, holder) :: p.openScopes) :
    p'.Stands ((p.run.record.scopes.size, ⟨row.head?.map (·.1), holder.isParameters, []⟩) :: row)
    where
  links := hscopes ▸ h.links.push holder.isParameters
  openScopes := by rw [hopen, List.map_cons, List.map_cons, h.openScopes]

theorem closed (h : p.Stands row) {p' : Point} {id : ScopeId} {holder : Holder}
    {around : List (ScopeId × Holder)} (hfirst : p.openScopes = (id, holder) :: around)
    (hscopes : p'.run.record.scopes = p.run.record.scopes)
    (hopen : p'.openScopes = p.openScopes.tail) :
    ∃ s outer, row = (id, s) :: outer ∧ s.ofFunction = holder.isParameters ∧ p'.Stands outer := by
  obtain ⟨hrow, hmap⟩ := h
  rw [hfirst] at hopen hmap
  cases row with
  | nil => exact nomatch hmap
  | cons entry outer =>
    obtain ⟨hentry, houter⟩ := List.cons.inj hmap
    obtain ⟨rfl, hflag⟩ := Prod.mk.inj hentry
    exact ⟨entry.2, outer, rfl, hflag.symm, hscopes ▸ hrow.tail, hopen ▸ houter⟩

theorem declared {id : ScopeId} {s : Scope} {outer : List (ScopeId × Scope)}
    (h : p.Stands ((id, s) :: outer)) {p' : Point} {name : Name} {symbol : Symbol}
    (hscopes : p'.run.record.scopes = p.run.record.scopes.declare id name symbol)
    (hopen : p'.openScopes = p.openScopes) : p'.Stands ((id, s.declare name symbol) :: outer) where
  links := hscopes ▸ h.links.declare name symbol
  openScopes := by rw [hopen, h.openScopes, List.map_cons, List.map_cons, Scope.ofFunction_declare]

/-- An event takes a point with a row to one with a row. -/
theorem step (h : p.Stands row) {e : Event} (he : p.Happens e) :
    ∃ row', (p.take e).Stands row' ∧ Shift p (p.take e) row row' := by
  have hscopes := he.scopes
  have hactive := he.active
  have hsuspended := he.suspended
  cases he.fits with
  | @quiet scope _ hscope hquiet hgrounds =>
    have halike := hquiet.alike p.run
    have hsame : (p.take e).openScopes = p.openScopes := by
      cases e <;> first | rfl | exact hquiet.elim
    have hscopes : (p.take e).run.record.scopes = p.run.record.scopes :=
      congrArg Record.scopes halike.record
    exact ⟨row, h.same hscopes hsame, .quiet hscopes halike.active halike.suspended⟩
  | @declare scope name symbol hscope hfree hnew =>
    obtain ⟨s, outer, rfl⟩ := h.eq_cons hscope
    rw [h.links.isTaken_eq, List.any_eq_false] at hfree
    refine ⟨_, h.declared hscopes rfl, .declare ?_ hnew he.events hscopes hactive hsuspended⟩
    exact fun entry hentry => Bool.eq_false_iff.mpr (hfree entry hentry)
  | @enterBlock id parent hparent =>
    rw [h.innermost?] at hparent
    subst hparent
    exact ⟨_, h.opened (.block id) hscopes rfl, .enterBlock hscopes hactive hsuspended⟩
  | @exitBlock id scope around hfirst =>
    obtain ⟨s, outer, rfl, hflag, houter⟩ := h.closed hfirst hscopes rfl
    exact ⟨outer, houter, .exitBlock hflag hscopes hactive hsuspended⟩
  | @openParameters body parent hparent =>
    rw [h.innermost?] at hparent
    have hopened : (p.take (.openParameters body parent)).run.record.scopes =
        p.run.record.scopes.add (row.head?.map (·.1)) true := hparent ▸ hscopes
    exact ⟨_, h.opened (.parameters body) hopened rfl,
      .openParameters hopened hactive hsuspended⟩
  | enterFunction => exact ⟨row, h.same hscopes rfl, .quiet hscopes hactive hsuspended⟩
  | @exitFunction f scope body around hfirst =>
    rw [Run.change_exitFunction_record] at hscopes
    obtain ⟨s, outer, rfl, hflag, houter⟩ := h.closed hfirst hscopes rfl
    refine ⟨outer, houter, .exitFunction hflag hscopes fun active suspended hstack => ?_⟩
    rw [hactive, hsuspended]
    simp only [Run.change, hstack, and_self]

end Stands

end Point

end Yul
