import Yul.Proofs.Parallel.Objects
import Yul.Proofs.Scope.Shadowing

/-!
# Scopes out of sight

A run uses no scope that was there before it, and neither do the scopes that it opens lead to one. So
the scopes of earlier analyses stay as they are, and what they hold makes no difference to a run
(`runBlock_keepsApart`): it would take the same events if all of them were different.
-/

namespace Yul

/-! ## Tables that look the same -/

namespace ScopeTable

variable {t t' : ScopeTable} {first : Nat}

/-- Scopes from number `first` on hang below scopes from `first` on. -/
def ClosedFrom (t : ScopeTable) (first : ScopeId) : Prop :=
  ∀ id outer : Nat, first ≤ id → t.Below id outer → first ≤ outer

theorem RootedFrom.closed (h : t.RootedFrom first) : t.ClosedFrom first :=
  fun id outer hid hbelow => (h id outer hid hbelow).1

theorem ClosedFrom.add (h : t.ClosedFrom first) {parent : Option ScopeId}
    (hparent : ∀ p ∈ parent, first ≤ p) (ofFunction : Bool) :
    (t.add parent ofFunction).ClosedFrom first := by
  intro id outer hid hbelow
  rcases below_add hbelow with ⟨-, hp⟩ | hbelow
  · exact hparent outer hp
  · exact h id outer hid hbelow

theorem ClosedFrom.declare (h : t.ClosedFrom first) (id : ScopeId) (name : Name)
    (symbol : Symbol) : (t.declare id name symbol).ClosedFrom first :=
  fun i outer hi hbelow => h i outer hi ((below_declare id name symbol i outer).mp hbelow)

theorem ClosedFrom.le_of_mem_chain (h : t.ClosedFrom first) {id : Nat} (hid : first ≤ id) :
    ∀ entry ∈ t.chain id, first ≤ entry.1 := by
  have hwithin (n : Nat) : ∀ id : Nat, first ≤ id → ∀ entry ∈ t.chainWithin n id,
      first ≤ entry.1 := by
    induction n with
    | zero => exact fun _ _ => List.forall_mem_nil _
    | succ n ih =>
      intro id hid
      rw [chainWithin]
      cases hs : t.get? id with
      | none => exact List.forall_mem_nil _
      | some s =>
        refine List.forall_mem_cons.mpr ⟨hid, ?_⟩
        cases hparent : s.parent with
        | none => exact List.forall_mem_nil _
        | some outer => exact ih outer (h id outer hid ⟨s, hs, hparent⟩)
  exact hwithin t.size id hid

variable (hclosed : t.ClosedFrom first) (hsame : ∀ i : Nat, first ≤ i → t'.get? i = t.get? i)

include hclosed hsame

theorem chainWithin_beyond {n : Nat} {id : Nat} (hid : first ≤ id) :
    t'.chainWithin n id = t.chainWithin n id := by
  induction n generalizing id with
  | zero => rfl
  | succ n ih =>
    rw [chainWithin, chainWithin, hsame id hid]
    cases hs : t.get? id with
    | none => rfl
    | some s =>
      dsimp only
      cases hparent : s.parent with
      | none => rfl
      | some outer => exact congrArg _ (ih (hclosed id outer hid ⟨s, hs, hparent⟩))

theorem missingWithin_beyond (x : Name) {n : Nat} {id : Nat} (hid : first ≤ id) :
    t'.missingWithin x n id = t.missingWithin x n id := by
  induction n generalizing id with
  | zero => rfl
  | succ n ih =>
    rw [missingWithin, missingWithin, hsame id hid]
    cases hs : t.get? id with
    | none => rfl
    | some s =>
      dsimp only
      cases hparent : s.parent with
      | none => rfl
      | some outer =>
        dsimp only
        rw [ih (hclosed id outer hid ⟨s, hs, hparent⟩)]

end ScopeTable

/-- Two records that show the same from scope `first` on. Scopes before may hold different names,
hang below different scopes and belong to different blocks; effects may be different as well. -/
structure Record.SameSince (first : Nat) (r r' : Record) : Prop where
  entered : ∀ id, r'.blockScopes.contains id = r.blockScopes.contains id
  size : r'.scopes.size = r.scopes.size
  first_le : first ≤ r.scopes.size
  scopes : ∀ i : Nat, first ≤ i → r'.scopes.get? i = r.scopes.get? i
  closed : r.scopes.ClosedFrom first

namespace Record.SameSince

variable {first : Nat} {r r' : Record}

theorem of_add (h : SameSince first r r') {parent : Option ScopeId} {ofFunction : Bool}
    {r₁ r₁' : Record} (hscopes : r₁.scopes = r.scopes.add parent ofFunction)
    (hscopes' : r₁'.scopes = r'.scopes.add parent ofFunction)
    (hparent : ∀ p ∈ parent, first ≤ p)
    (hentered : ∀ id, r₁'.blockScopes.contains id = r₁.blockScopes.contains id) :
    SameSince first r₁ r₁' where
  entered := hentered
  size := by rw [hscopes, hscopes', ScopeTable.size_add, ScopeTable.size_add, h.size]
  first_le := by
    rw [hscopes, ScopeTable.size_add]
    exact Nat.le_succ_of_le h.first_le
  scopes i hi := by
    rw [hscopes, hscopes', ScopeTable.get?_add, ScopeTable.get?_add, h.size, h.scopes i hi]
  closed := by
    rw [hscopes]
    exact h.closed.add hparent ofFunction

theorem openBlock (h : SameSince first r r') (id : BlockId) {parent : Option ScopeId}
    (hparent : ∀ p ∈ parent, first ≤ p) :
    SameSince first (r.openBlock id parent) (r'.openBlock id parent) := by
  refine h.of_add rfl rfl hparent fun id' => ?_
  rw [Record.openBlock, Record.openBlock, Std.TreeMap.contains_insert, Std.TreeMap.contains_insert,
    h.entered]

theorem declare (h : SameSince first r r') (scope : ScopeId) (name : Name) (symbol : Symbol) :
    SameSince first (r.declare scope name symbol) (r'.declare scope name symbol) where
  entered := h.entered
  size := by
    change (r'.scopes.declare scope name symbol).size = (r.scopes.declare scope name symbol).size
    rw [ScopeTable.size_declare, ScopeTable.size_declare, h.size]
  first_le := by
    change first ≤ (r.scopes.declare scope name symbol).size
    rw [ScopeTable.size_declare]
    exact h.first_le
  scopes i hi := by
    change (r'.scopes.declare scope name symbol).get? i = (r.scopes.declare scope name symbol).get? i
    rw [ScopeTable.get?_declare, ScopeTable.get?_declare, h.scopes i hi]
  closed := h.closed.declare scope name symbol

end Record.SameSince

/-- Scopes before `first` are out of sight. -/
def Outlook.since (first : Nat) : Outlook where
  rel := Record.SameSince first
  own scope := first ≤ scope
  entered h := h.entered
  size h := h.size
  next h := h.first_le
  missing h scope hscope x := by
    rw [ScopeTable.missing?, h.size]
    exact ScopeTable.missingWithin_beyond h.closed h.scopes x hscope
  chain h scope hscope := by
    rw [ScopeTable.chain, h.size]
    exact ScopeTable.chainWithin_beyond h.closed h.scopes hscope
  outward h _ hscope := h.closed.le_of_mem_chain hscope
  openBlock h id _ hparent := h.openBlock id fun p hp => hparent p (Option.mem_toList.mpr hp)
  openParameters h _ _ hparent :=
    h.of_add rfl rfl (fun _ hp => Option.some.inj hp ▸ hparent) h.entered
  declare h scope _ name symbol := h.declare scope name symbol

/-- The same journals, of events that name no scope out of sight. -/
def Journals.apart (d : Dialect) (first : Nat) :
    Journals id d (d.atVersion d.version) fun _ => True where
  outlook := .since first
  rel j j' := j' = j ∧ ∀ e ∈ j, ∀ scope ∈ e.scopes, first ≤ scope
  cons e j j' hown h := by
    rw [e.mapSpans_id, h.1]
    exact ⟨rfl, List.forall_mem_cons.mpr ⟨hown, h.2⟩⟩
  use b span j j' _ h := by
    rw [h.1]
    refine ⟨rfl, List.forall_mem_append.mpr ⟨fun e he => ?_, h.2⟩⟩
    rw [Dialect.usage, List.mem_reverse, List.mem_map] at he
    obtain ⟨p, -, rfl⟩ := he
    exact List.forall_mem_nil _

/-! ## The analysis of a block -/

section Root

variable (cfg : Setting) (record : Record) (b : Block)

/-- A run that starts with another record, in which other scopes come before its own. -/
theorem runBlock_apart {other : Record} (hsize : other.scopes.size = record.scopes.size)
    (hentered : ∀ id, other.blockScopes.contains id = record.blockScopes.contains id) :
    Twins (.apart cfg.dialect record.scopes.size) (runBlock cfg record b) (runBlock cfg other b) := by
  have hnone {r : Record} {i : Nat} (hi : r.scopes.size ≤ i) : r.scopes.get? i = none :=
    Array.getElem?_eq_none hi
  have hsame : record.SameSince record.scopes.size other :=
    { entered := hentered
      size := hsize
      first_le := Nat.le_refl _
      scopes := fun i hi => (hnone (hsize ▸ hi)).trans (hnone hi).symm
      closed := fun id _ hid ⟨s, hs, _⟩ => nomatch (hnone hid).symm.trans hs }
  have htwins := Check.runBlock_twins (.apart cfg.dialect record.scopes.size) cfg.overlooks_id hsame
    ⟨rfl, List.forall_mem_nil _⟩ b fun _ _ _ _ => trivial
  rwa [b.mapSpans_id] at htwins

/-- What a run has to do with the scopes that were there before it: nothing. -/
structure KeepsApart : Prop where
  /-- at every point they are as they were -/
  unchanged : ∀ es, es <+: (runBlock cfg record b).events → ∀ i : Nat, i < record.scopes.size →
    ((Point.start record).after es).run.record.scopes.get? i = record.scopes.get? i
  /-- no event names one of them -/
  unnamed : ∀ e ∈ (runBlock cfg record b).events, ∀ scope ∈ e.scopes, record.scopes.size ≤ scope
  /-- no name is looked for in one of them -/
  unsearched : ∀ es scope x rest, (runBlock cfg record b).events = es ++ .look scope x :: rest →
    ∀ entry ∈ ((Point.start record).after es).run.record.scopes.chain scope,
      record.scopes.size ≤ entry.1
  /-- if they were different, the run would take the same events and open the same scopes -/
  unseen : ∀ other : Record, other.scopes.size = record.scopes.size →
    (∀ id, other.blockScopes.contains id = record.blockScopes.contains id) →
    (runBlock cfg other b).events = (runBlock cfg record b).events ∧
      (runBlock cfg other b).fault = (runBlock cfg record b).fault ∧
      ∀ i : Nat, record.scopes.size ≤ i → (runBlock cfg other b).record.scopes.get? i =
        (runBlock cfg record b).record.scopes.get? i

/-- A run neither changes nor uses a scope that was there before it. -/
theorem runBlock_keepsApart : KeepsApart cfg record b := by
  have hunnamed : ∀ e ∈ (runBlock cfg record b).events, ∀ scope ∈ e.scopes,
      record.scopes.size ≤ scope := by
    obtain ⟨_, _, -, -, -, hnamed⟩ := runBlock_apart cfg record b rfl fun _ => rfl
    exact fun e he => hnamed e (List.mem_reverse.mp he)
  constructor
  · intro es hes
    obtain ⟨row, hsince, -, -⟩ := Point.declared (goes_at_point cfg hes)
    exact hsince.earlier
  · exact hunnamed
  · intro es scope x rest hes
    obtain ⟨row, hsince, -, -⟩ := Point.declared (goes_at_point cfg ⟨_, hes.symm⟩)
    refine hsince.rooted.closed.le_of_mem_chain (hunnamed (.look scope x) ?_ scope ?_)
    · exact hes ▸ List.mem_append_right _ List.mem_cons_self
    · exact List.mem_singleton_self scope
  · intro other hsize hentered
    have htwins := runBlock_apart cfg record b hsize hentered
    obtain ⟨_, j, hrun, hrecord, hj, -⟩ := htwins
    rw [hrun]
    exact ⟨congrArg List.reverse hj, rfl, hrecord.scopes⟩

end Root

end Yul
