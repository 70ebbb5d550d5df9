import Yul.Proofs.Scope.Chain

/-!
# Looking names up

What a name stands for after a scope has been opened or a name declared, and whether a name is
taken. A scope of parameters hides variables and nothing else (`visible_true`).
-/

namespace Yul

namespace ScopeTable

theorem visible_true (name : Name) (row : List (ScopeId × Scope)) :
    visible name true row = (visible name false row).filter (!·.2.isVariable) := by
  induction row with
  | nil => rfl
  | cons entry outer ih =>
    obtain ⟨id, scope⟩ := entry
    rw [visible, visible]
    cases hfind : scope.find? name with
    | some symbol => cases hvar : symbol.isVariable <;> simp [hvar, Option.filter_some]
    | none =>
      cases hfun : scope.ofFunction
      · exact ih
      · simp [ih, Option.filter_filter]

variable {t : ScopeTable}

/-- What a name stands for in a scope is declared there, or stands for the same in its parent. -/
theorem lookup_eq (h : t.ParentsFirst) {id : Nat} {s : Scope} (hs : t.get? id = some s)
    (x : Name) :
    t.lookup id x = match s.find? x with
      | some symbol => some (id, symbol)
      | none => visible x s.ofFunction (match s.parent with
        | none => []
        | some p => t.chain p) := by
  rw [lookup, chain_eq h hs, visible]
  cases s.find? x with
  | some symbol => rfl
  | none => rfl

theorem isTaken_eq (h : t.ParentsFirst) {id : Nat} {s : Scope} (hs : t.get? id = some s)
    (x : Name) :
    t.isTaken id x = (s.declares x || (match s.parent with
        | none => []
        | some p => t.chain p).any fun entry => entry.2.declares x) := by
  rw [isTaken, chain_eq h hs]
  exact List.any_cons

/-! ## A new scope -/

theorem chain_add (h : t.ParentsFirst) {parent : Option ScopeId}
    (hparent : ∀ p, parent = some p → p < t.size) (ofFunction : Bool) {id : Nat}
    (hid : id < t.size) : (t.add parent ofFunction).chain id = t.chain id := by
  refine (chain_congr h (h.add hparent ofFunction) hid ?_ fun i hi => ?_).symm
  · rw [size_add]
    exact Nat.lt_succ_of_lt hid
  · rw [get?_add, if_neg (Nat.ne_of_lt (Nat.lt_of_le_of_lt hi hid))]

theorem get?_add_size (t : ScopeTable) (parent : Option ScopeId) (ofFunction : Bool) :
    (t.add parent ofFunction).get? t.size = some ⟨parent, ofFunction, []⟩ := by
  rw [get?_add, if_pos rfl]

theorem find?_empty (parent : Option ScopeId) (ofFunction : Bool) (x : Name) :
    (Scope.mk parent ofFunction []).find? x = none := rfl

/-- A new scope sees what its parent sees, variables aside if it is one of parameters. -/
theorem lookup_add (h : t.ParentsFirst) {parent : Nat} (hparent : parent < t.size)
    (ofFunction : Bool) (x : Name) :
    (t.add (some parent) ofFunction).lookup t.size x =
      (t.lookup parent x).filter fun found => !(ofFunction && found.2.isVariable) := by
  have hp : ∀ p, some parent = some p → p < t.size := by
    rintro p ⟨rfl⟩
    exact hparent
  rw [lookup_eq (h.add hp ofFunction) (get?_add_size t _ _), find?_empty]
  dsimp only
  rw [chain_add h hp ofFunction hparent, lookup]
  cases ofFunction
  · cases visible x false (t.chain parent) <;> rfl
  · exact visible_true x _

theorem isTaken_add (h : t.ParentsFirst) {parent : Nat} (hparent : parent < t.size)
    (ofFunction : Bool) (x : Name) :
    (t.add (some parent) ofFunction).isTaken t.size x = t.isTaken parent x := by
  have hp : ∀ p, some parent = some p → p < t.size := by
    rintro p ⟨rfl⟩
    exact hparent
  rw [isTaken_eq (h.add hp ofFunction) (get?_add_size t _ _)]
  dsimp only
  rw [chain_add h hp ofFunction hparent, isTaken]
  rfl

theorem lookup_add_none (h : t.ParentsFirst) (ofFunction : Bool) (x : Name) :
    (t.add none ofFunction).lookup t.size x = none := by
  rw [lookup_eq (h.add (fun p hp => absurd hp (by simp)) ofFunction) (get?_add_size t _ _),
    find?_empty]
  rfl

theorem isTaken_add_none (h : t.ParentsFirst) (ofFunction : Bool) (x : Name) :
    (t.add none ofFunction).isTaken t.size x = false := by
  rw [isTaken_eq (h.add (fun p hp => absurd hp (by simp)) ofFunction) (get?_add_size t _ _)]
  rfl

/-! ## A new name -/

theorem chain_declare (h : t.ParentsFirst) {id : Nat} (hid : id < t.size) (name : Name)
    (symbol : Symbol) {i : Nat} (hi : i < id) :
    (t.declare id name symbol).chain i = t.chain i := by
  have hlt := Nat.lt_trans hi hid
  refine (chain_congr h (h.declare id name symbol) hlt ?_ fun j hj => ?_).symm
  · rw [size_declare]
    exact hlt
  · rw [get?_declare, if_neg (Nat.ne_of_gt (Nat.lt_of_le_of_lt hj hi))]

theorem outer_declare (h : t.ParentsFirst) {id : Nat} {s : Scope} (hs : t.get? id = some s)
    (name : Name) (symbol : Symbol) :
    (match (s.declare name symbol).parent with
      | none => []
      | some p => (t.declare id name symbol).chain p) =
    match s.parent with
      | none => []
      | some p => t.chain p := by
  rw [Scope.parent_declare]
  cases hp : s.parent with
  | none => rfl
  | some p => exact chain_declare h (lt_of_get? hs) name symbol (h id s p hs hp)

theorem lookup_declare (h : t.ParentsFirst) {id : Nat} (hid : id < t.size) {name : Name}
    (hfree : t.isTaken id name = false) (symbol : Symbol) (x : Name) :
    (t.declare id name symbol).lookup id x =
      if x = name then some (id, symbol) else t.lookup id x := by
  obtain ⟨s, hs⟩ := get?_of_lt hid
  rw [isTaken_eq h hs, Bool.or_eq_false_iff] at hfree
  have hs' : (t.declare id name symbol).get? id = some (s.declare name symbol) := by
    rw [get?_declare, if_pos rfl, hs, Option.map_some]
  rw [lookup_eq (h.declare id name symbol) hs', lookup_eq h hs, outer_declare h hs,
    Scope.find?_declare hfree.1, Scope.ofFunction_declare]
  by_cases hx : x = name
  · rw [if_pos hx, if_pos hx]
  · rw [if_neg hx, if_neg hx]

theorem isTaken_declare (h : t.ParentsFirst) {id : Nat} (hid : id < t.size) (name : Name)
    (symbol : Symbol) (x : Name) :
    (t.declare id name symbol).isTaken id x = (x == name || t.isTaken id x) := by
  obtain ⟨s, hs⟩ := get?_of_lt hid
  have hs' : (t.declare id name symbol).get? id = some (s.declare name symbol) := by
    rw [get?_declare, if_pos rfl, hs, Option.map_some]
  rw [isTaken_eq (h.declare id name symbol) hs', isTaken_eq h hs, outer_declare h hs,
    Scope.declares_declare, Bool.or_assoc]

/-! ## What is found -/

theorem mem_of_visible {x : Name} {home : ScopeId} {symbol : Symbol}
    {row : List (ScopeId × Scope)} {hidden : Bool}
    (h : visible x hidden row = some (home, symbol)) : ∃ s, (home, s) ∈ row := by
  induction row generalizing hidden with
  | nil => exact absurd h (by simp [visible])
  | cons entry outer ih =>
    obtain ⟨i, s⟩ := entry
    rw [visible] at h
    split at h
    · split at h
      · exact absurd h (by simp)
      · obtain ⟨rfl, -⟩ := Prod.mk.inj (Option.some.inj h)
        exact ⟨s, List.mem_cons_self⟩
    · obtain ⟨s', hs'⟩ := ih h
      exact ⟨s', List.mem_cons_of_mem _ hs'⟩

theorem lookup_lt (h : t.ParentsFirst) {id : Nat} (hid : id < t.size) {x : Name} {home : Nat}
    {symbol : Symbol} (hfound : t.lookup id x = some (home, symbol)) : home ≤ id := by
  obtain ⟨s, hs⟩ := mem_of_visible hfound
  exact (le_of_mem_chain h hid hs).1

end ScopeTable

end Yul
