import Yul.Scope

/-!
# Chains of scopes

Scopes are opened after the scopes they hang below, so in the tables of an analysis every parent has
a smaller number (`ScopeTable.ParentsFirst`). Then a walk outward never comes to a number without a
scope (`missing?_eq_none`), the chain of a scope is the scope followed by the chain of its parent
(`chain_eq`), and it depends on no scope with a larger number (`chain_congr`).
-/

namespace Yul

namespace Scope

theorem find?_declare {s : Scope} {name : Name} (hfree : s.declares name = false) (symbol : Symbol)
    (x : Name) :
    (s.declare name symbol).find? x = if x = name then some symbol else s.find? x := by
  have hnone : s.symbols.lookup name = none := 
    Option.isNone_iff_eq_none.mp (Option.isSome_eq_false_iff.mp hfree)
  rw [declare, hfree, if_neg Bool.false_ne_true, find?, List.lookup_append]
  by_cases h : x = name
  · rw [if_pos h, h, hnone, List.lookup_cons_self, Option.none_or]
  · rw [if_neg h, List.lookup_cons, beq_false_of_ne h, List.lookup_nil, Option.or_none, find?]

theorem declares_declare (s : Scope) (name : Name) (symbol : Symbol) (x : Name) :
    (s.declare name symbol).declares x = (x == name || s.declares x) := by
  cases hfree : s.declares name with
  | false =>
    rw [declares, find?_declare hfree]
    by_cases h : x = name
    · rw [if_pos h, h, beq_self_eq_true, Bool.true_or, Option.isSome_some]
    · rw [if_neg h, beq_false_of_ne h, Bool.false_or, declares]
  | true =>
    rw [declare, if_pos hfree]
    by_cases h : x = name
    · rw [h, hfree, Bool.or_true]
    · rw [beq_false_of_ne h, Bool.false_or]

theorem find?_declare_of_some {s : Scope} {x : Name} {found : Symbol} (h : s.find? x = some found)
    (name : Name) (symbol : Symbol) : (s.declare name symbol).find? x = some found := by
  cases hfree : s.declares name with
  | false =>
    have hne : x ≠ name := by
      rintro rfl
      rw [declares, h] at hfree
      exact absurd hfree (by simp)
    rw [find?_declare hfree, if_neg hne, h]
  | true => rw [declare, if_pos hfree, h]

@[simp] theorem parent_declare (s : Scope) (name : Name) (symbol : Symbol) :
    (s.declare name symbol).parent = s.parent := by
  unfold declare
  split <;> rfl

@[simp] theorem ofFunction_declare (s : Scope) (name : Name) (symbol : Symbol) :
    (s.declare name symbol).ofFunction = s.ofFunction := by
  unfold declare
  split <;> rfl

end Scope

namespace ScopeTable

/-! ## Tables after one operation -/

@[simp] theorem size_add (t : ScopeTable) (parent : Option ScopeId) (ofFunction : Bool) :
    (t.add parent ofFunction).size = t.size + 1 := by
  simp [add, size]

@[simp] theorem size_declare (t : ScopeTable) (id : ScopeId) (name : Name) (symbol : Symbol) :
    (t.declare id name symbol).size = t.size := by
  simp [declare, size]

theorem get?_add (t : ScopeTable) (parent : Option ScopeId) (ofFunction : Bool) (i : Nat) :
    (t.add parent ofFunction).get? i =
      if i = t.size then some ⟨parent, ofFunction, []⟩ else t.get? i := by
  rw [add, get?, get?, size, Array.getElem?_push]

theorem get?_declare (t : ScopeTable) (id : ScopeId) (name : Name) (symbol : Symbol) (i : Nat) :
    (t.declare id name symbol).get? i =
      if id = i then (t.get? i).map (·.declare name symbol) else t.get? i := by
  simp only [declare, get?, Array.getElem?_modify]

theorem get?_of_lt {t : ScopeTable} {i : Nat} (h : i < t.size) : ∃ s, t.get? i = some s :=
  ⟨_, Array.getElem?_eq_getElem h⟩

theorem lt_of_get? {t : ScopeTable} {i : Nat} {s : Scope} (h : t.get? i = some s) :
    i < t.size := by
  obtain ⟨hlt, -⟩ := Array.getElem?_eq_some_iff.mp h
  exact hlt

/-! ## Parents first -/

/-- Every scope has a larger number than the scope that it hangs below. -/
def ParentsFirst (t : ScopeTable) : Prop :=
  ∀ (i : Nat) (s : Scope) (p : Nat), t.get? i = some s → s.parent = some p → p < i

theorem ParentsFirst.empty : ({} : ScopeTable).ParentsFirst := by
  intro i s p h
  simp [get?] at h

theorem ParentsFirst.add {t : ScopeTable} (h : t.ParentsFirst) {parent : Option ScopeId}
    (hparent : ∀ p, parent = some p → p < t.size) (ofFunction : Bool) :
    (t.add parent ofFunction).ParentsFirst := by
  intro i s p hs hp
  rw [get?_add] at hs
  split at hs
  · next hi =>
    obtain rfl := Option.some.inj hs
    exact hi ▸ hparent p hp
  · exact h i s p hs hp

theorem ParentsFirst.declare {t : ScopeTable} (h : t.ParentsFirst) (id : ScopeId) (name : Name)
    (symbol : Symbol) : (t.declare id name symbol).ParentsFirst := by
  intro i s p hs hp
  rw [get?_declare] at hs
  split at hs
  · obtain ⟨s', hs', rfl⟩ := Option.map_eq_some_iff.mp hs
    exact h i s' p hs' (by simpa using hp)
  · exact h i s p hs hp

theorem missing?_eq_none {t : ScopeTable} (h : t.ParentsFirst) {id : Nat} (hid : id < t.size)
    (name : Name) : t.missing? id name = none := by
  have hwithin : ∀ n, ∀ i < t.size, t.missingWithin name n i = none := by
    intro n
    induction n with
    | zero =>
      intro i _
      rfl
    | succ n ih =>
      intro i hi
      obtain ⟨s, hs⟩ := get?_of_lt hi
      rw [missingWithin, hs]
      dsimp only
      split
      · rfl
      · split
        · rfl
        · next p hp => exact ih p (Nat.lt_trans (h i s p hs hp) hi)
  exact hwithin _ id hid

/-- More scopes than there are further out make no difference. -/
theorem chainWithin_eq {t : ScopeTable} (h : t.ParentsFirst) {n m : Nat} {id : Nat}
    (hn : id < n) (hm : id < m) : t.chainWithin n id = t.chainWithin m id := by
  induction n generalizing m id with
  | zero => exact absurd hn (Nat.not_lt_zero id)
  | succ n ih =>
    obtain ⟨m, rfl⟩ : ∃ k, m = k + 1 := ⟨m - 1, by omega⟩
    rw [chainWithin, chainWithin]
    cases hs : t.get? id with
    | none => rfl
    | some s =>
      dsimp only
      cases hp : s.parent with
      | none => rfl
      | some p =>
        have hlt := h id s p hs hp
        dsimp only
        rw [ih (Nat.lt_of_lt_of_le hlt (Nat.le_of_lt_succ hn))
          (Nat.lt_of_lt_of_le hlt (Nat.le_of_lt_succ hm))]

/-- The chain of a scope is the scope and the chain of its parent. -/
theorem chain_eq {t : ScopeTable} (h : t.ParentsFirst) {id : Nat} {s : Scope}
    (hs : t.get? id = some s) :
    t.chain id = (id, s) :: match s.parent with
      | none => []
      | some p => t.chain p := by
  have hid := lt_of_get? hs
  obtain ⟨n, hn⟩ : ∃ n, t.size = n + 1 := ⟨t.size - 1, by omega⟩
  rw [chain, hn, chainWithin, hs]
  dsimp only
  cases hp : s.parent with
  | none => rfl
  | some p =>
    have hlt := h id s p hs hp
    dsimp only
    have hp' : p < n := Nat.lt_of_lt_of_le hlt (Nat.le_of_lt_succ (show id < n + 1 from hn ▸ hid))
    rw [chain, chainWithin_eq h hp' (Nat.lt_trans hlt hid)]

theorem chain_congr {t t' : ScopeTable} (h : t.ParentsFirst) (h' : t'.ParentsFirst) {id : Nat}
    (hid : id < t.size) (hid' : id < t'.size) (heq : ∀ i ≤ id, t.get? i = t'.get? i) :
    t.chain id = t'.chain id := by
  induction id using Nat.strongRecOn with
  | _ id ih =>
    obtain ⟨s, hs⟩ := get?_of_lt hid
    rw [chain_eq h hs, chain_eq h' (heq id (Nat.le_refl _) ▸ hs)]
    cases hp : s.parent with
    | none => rfl
    | some p =>
      have hlt := h id s p hs hp
      dsimp only
      exact congrArg _ (ih p hlt (Nat.lt_trans hlt hid) (Nat.lt_trans hlt hid') fun i hi =>
        heq i (Nat.le_trans hi (Nat.le_of_lt hlt)))

theorem le_of_mem_chain {t : ScopeTable} (h : t.ParentsFirst) {id : Nat} (hid : id < t.size)
    {i : Nat} {s : Scope} (hi : (i, s) ∈ t.chain id) : i ≤ id ∧ t.get? i = some s := by
  induction id using Nat.strongRecOn with
  | _ id ih =>
    obtain ⟨s', hs⟩ := get?_of_lt hid
    rw [chain_eq h hs] at hi
    rcases List.mem_cons.mp hi with heq | hi
    · obtain ⟨rfl, rfl⟩ := Prod.mk.inj heq
      exact ⟨(Nat.le_refl _), hs⟩
    · cases hp : s'.parent with
      | none =>
        rw [hp] at hi
        exact absurd hi List.not_mem_nil
      | some p =>
        rw [hp] at hi
        have hlt := h id s' p hs hp
        obtain ⟨hle, hget⟩ := ih p hlt (Nat.lt_trans hlt hid) hi
        exact ⟨Nat.le_trans hle (Nat.le_of_lt hlt), hget⟩

end ScopeTable

end Yul
