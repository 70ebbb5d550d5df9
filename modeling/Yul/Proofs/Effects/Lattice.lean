import Mathlib.Order.Bounds.Basic
import Mathlib.Order.Lattice
import Yul.Effects

/-!
# Side effects as a lattice

Joining side effects is associative, commutative and idempotent, so side effects are ordered by how
bad they are: `a ≤ b` says that `b` is at least as bad as `a` in every part. `SideEffects.all` joins
a list; the result is the least upper bound of its members (`isLUB_all`).
-/

namespace Yul

namespace Effect

@[simp] theorem join_none (a : Effect) : a.join none = a := by
  cases a <;> rfl

theorem join_self (a : Effect) : a.join a = a := by
  cases a <;> rfl

theorem join_comm (a b : Effect) : a.join b = b.join a := by
  cases a <;> cases b <;> rfl

theorem join_assoc (a b c : Effect) : (a.join b).join c = a.join (b.join c) := by
  cases a <;> cases b <;> cases c <;> rfl

end Effect

namespace SideEffects

@[simp] theorem join_none (a : SideEffects) : a.join none = a := by
  simp [join, none]

theorem join_self (a : SideEffects) : a.join a = a := by
  simp [join, Effect.join_self]

theorem join_comm (a b : SideEffects) : a.join b = b.join a := by
  simp [join, Bool.and_comm, Effect.join_comm]

theorem join_assoc (a b c : SideEffects) : (a.join b).join c = a.join (b.join c) := by
  simp [join, Bool.and_assoc, Effect.join_assoc]

@[simp] theorem none_join (a : SideEffects) : none.join a = a := by
  rw [join_comm, join_none]

/-- Side effects are ordered by how bad they are. -/
instance : SemilatticeSup SideEffects where
  le a b := a.join b = b
  le_refl := join_self
  le_trans a b c hab hbc := by rw [← hbc, ← join_assoc, hab]
  le_antisymm a b hab hba := by rw [← hba, join_comm, hab]
  sup := join
  le_sup_left a b := by rw [← join_assoc, join_self]
  le_sup_right a b := by rw [join_comm a b, ← join_assoc, join_self]
  sup_le a b c hac hbc := by rw [join_assoc, hbc, hac]

theorem join_eq_sup (a b : SideEffects) : a.join b = a ⊔ b := rfl

theorem none_le (a : SideEffects) : none ≤ a :=
  none_join a

/-- The worst that a list of side effects allows. -/
def all (es : List SideEffects) : SideEffects :=
  es.foldr join none

@[simp] theorem all_nil : all [] = none := rfl

@[simp] theorem all_cons (e : SideEffects) (es : List SideEffects) :
    all (e :: es) = e.join (all es) := rfl

theorem all_append (es es' : List SideEffects) : all (es ++ es') = (all es).join (all es') := by
  induction es with
  | nil => rw [List.nil_append, all_nil, none_join]
  | cons e es ih => rw [List.cons_append, all_cons, ih, all_cons, join_assoc]

theorem foldl_join (e : SideEffects) (es : List SideEffects) : es.foldl join e = e.join (all es) := by
  induction es generalizing e with
  | nil => exact (join_none e).symm
  | cons e' es ih => rw [List.foldl_cons, ih, all_cons, join_assoc]

theorem foldl_join_map {α : Type} (S : α → SideEffects) (xs : List α) (e : SideEffects) :
    xs.foldl (fun e x => e.join (S x)) e = e ⊔ all (xs.map S) := by
  rw [← join_eq_sup, ← foldl_join, List.foldl_map]

theorem all_le_iff {es : List SideEffects} {b : SideEffects} : all es ≤ b ↔ ∀ e ∈ es, e ≤ b := by
  induction es with
  | nil => simpa using none_le b
  | cons e es ih => rw [all_cons, join_eq_sup, sup_le_iff, ih, List.forall_mem_cons]

/-- The join of a list is the least upper bound of its members. -/
theorem isLUB_all (es : List SideEffects) : IsLUB {e | e ∈ es} (all es) :=
  ⟨fun _ he => all_le_iff.mp le_rfl _ he, fun _ hb => all_le_iff.mpr fun _ he => hb he⟩

end SideEffects

end Yul
