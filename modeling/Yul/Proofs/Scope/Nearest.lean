import Yul.Proofs.Scope.Lookup

/-!
# The nearest declaration

A table of scopes is built by opening scopes, parents first, and by declaring names in them. What a
name stands for can be said from these operations alone (`Nearest`): outward of a scope, the nearest
scope with a declaration of the name counts, and its first one. A variable is hidden if a scope of
parameters is passed on the way, the scope that declares it aside; a hidden variable is taken, and
nothing behind it is seen. `resolves` proves this of look-ups, and that both walks end
(`LookupEnds`, `TakenEnds`): they go on for as long as there are scopes, with no bound.
-/

namespace Yul

namespace ScopeTable

/-! ## Operations -/

/-- What a table is built by. -/
inductive Operation where
  | add (parent : Option ScopeId) (ofFunction : Bool)
  | declare (id : ScopeId) (name : Name) (symbol : Symbol)
deriving DecidableEq, Repr

namespace Operation

def apply (t : ScopeTable) : Operation → ScopeTable
  | add parent ofFunction => t.add parent ofFunction
  | declare id name symbol => t.declare id name symbol

/-- The parent of the scope that an operation opens, and whether it is one of parameters. -/
def opens? : Operation → Option (Option ScopeId × Bool)
  | add parent ofFunction => some (parent, ofFunction)
  | declare .. => none

/-- What an operation declares `x` as in scope `id`. -/
def declares? (id : ScopeId) (x : Name) : Operation → Option Symbol
  | add .. => none
  | declare i name symbol => if i = id ∧ x = name then some symbol else none

end Operation

def build (ops : List Operation) : ScopeTable :=
  ops.foldl Operation.apply {}

/-- The scopes in the order in which they are opened. -/
def opened (ops : List Operation) : List (Option ScopeId × Bool) :=
  ops.filterMap Operation.opens?

/-- What `x` is declared as first in scope `id`. -/
def firstDeclared (ops : List Operation) (id : ScopeId) (x : Name) : Option Symbol :=
  ops.findSome? (Operation.declares? id x)

/-- Parents are opened before the scopes below them, and scopes before names are declared there. -/
inductive Buildable : List Operation → Prop
  | nil : Buildable []
  | add {ops : List Operation} {parent : Option ScopeId} (before : Buildable ops)
      (hparent : ∀ p, parent = some p → p < (opened ops).length) (ofFunction : Bool) :
      Buildable (ops ++ [.add parent ofFunction])
  | declare {ops : List Operation} {id : ScopeId} (before : Buildable ops)
      (hid : id < (opened ops).length) (name : Name) (symbol : Symbol) :
      Buildable (ops ++ [.declare id name symbol])

/-! ## Declarations outward of a scope -/

section Spec

variable (ops : List Operation)

/-- From scope `id` outward, `home` comes directly behind the scopes `passed`. -/
inductive Leads : ScopeId → List ScopeId → ScopeId → Prop
  | here (id : ScopeId) : Leads id [] id
  | outward {id parent home : ScopeId} {ofFunction : Bool} {passed : List ScopeId}
      (hopened : (opened ops)[id]? = some (some parent, ofFunction))
      (rest : Leads parent passed home) : Leads id (id :: passed) home

/-- The nearest declaration of `x` from scope `id` outward. -/
structure Nearest (id : ScopeId) (x : Name) (passed : List ScopeId) (home : ScopeId)
    (symbol : Symbol) : Prop where
  leads : Leads ops id passed home
  silent : ∀ i ∈ passed, firstDeclared ops i x = none
  declares : firstDeclared ops home x = some symbol

/-- One of the scopes that are passed is a scope of parameters. -/
def Crosses (passed : List ScopeId) : Prop :=
  ∃ i ∈ passed, ∃ parent, (opened ops)[i]? = some (parent, true)

end Spec

/-! ## Walks without a bound -/

section Walks

variable (t : ScopeTable) (x : Name)

/-- A walk that looks `x` up comes to an end. `crossed` says that it has passed a scope of
parameters. -/
inductive LookupEnds : Bool → Option ScopeId → Option (ScopeId × Symbol) → Prop
  | outside (crossed : Bool) : LookupEnds crossed none none
  | hidden {id : ScopeId} {s : Scope} {symbol : Symbol} (hs : t.get? id = some s)
      (hfind : s.find? x = some symbol) (hvariable : symbol.isVariable = true) :
      LookupEnds true (some id) none
  | seen {crossed : Bool} {id : ScopeId} {s : Scope} {symbol : Symbol} (hs : t.get? id = some s)
      (hfind : s.find? x = some symbol) (hseen : (crossed && symbol.isVariable) = false) :
      LookupEnds crossed (some id) (some (id, symbol))
  | onward {crossed : Bool} {id : ScopeId} {s : Scope} {result : Option (ScopeId × Symbol)}
      (hs : t.get? id = some s) (hfind : s.find? x = none)
      (rest : LookupEnds (crossed || s.ofFunction) s.parent result) :
      LookupEnds crossed (some id) result

/-- A walk that asks whether `x` is taken comes to an end. -/
inductive TakenEnds : Option ScopeId → Bool → Prop
  | outside : TakenEnds none false
  | declared {id : ScopeId} {s : Scope} (hs : t.get? id = some s)
      (hdeclares : s.declares x = true) : TakenEnds (some id) true
  | onward {id : ScopeId} {s : Scope} {result : Bool} (hs : t.get? id = some s)
      (hdeclares : s.declares x = false) (rest : TakenEnds s.parent result) :
      TakenEnds (some id) result

end Walks

/-- Look-ups of `x` from scope `id` find the nearest declaration unless it is hidden, and end. -/
structure Resolves (ops : List Operation) (id : ScopeId) (x : Name) : Prop where
  found : ∀ home symbol, (build ops).lookup id x = some (home, symbol) ↔
    ∃ passed, Nearest ops id x passed home symbol ∧
      (symbol.isVariable = false ∨ ¬Crosses ops passed)
  taken : (build ops).isTaken id x = true ↔ ((build ops).lookup id x).isSome = true ∨
    ∃ passed home symbol, Nearest ops id x passed home symbol ∧
      symbol.isVariable = true ∧ Crosses ops passed
  lookupEnds : LookupEnds (build ops) x false (some id) ((build ops).lookup id x)
  takenEnds : TakenEnds (build ops) x (some id) ((build ops).isTaken id x)

/-! ## What operations have built -/

theorem build_append (ops : List Operation) (op : Operation) :
    build (ops ++ [op]) = op.apply (build ops) := by
  rw [build, List.foldl_append, List.foldl_cons, List.foldl_nil, build]

theorem opened_append (ops : List Operation) (op : Operation) :
    opened (ops ++ [op]) = opened ops ++ op.opens?.toList := by
  rw [opened, List.filterMap_append, opened, List.filterMap_cons]
  cases op.opens? <;> rfl

theorem firstDeclared_append (ops : List Operation) (op : Operation) (id : ScopeId) (x : Name) :
    firstDeclared (ops ++ [op]) id x = (firstDeclared ops id x).or (op.declares? id x) := by
  rw [firstDeclared, List.findSome?_append, List.findSome?_singleton, firstDeclared]

/-- A table holds what its operations have opened and declared. -/
structure Built (ops : List Operation) (t : ScopeTable) : Prop where
  parentsFirst : t.ParentsFirst
  size : t.size = (opened ops).length
  scope : ∀ i, (t.get? i).map (fun s => (s.parent, s.ofFunction)) = (opened ops)[i]?
  symbol : ∀ i x, (t.get? i).bind (·.find? x) = firstDeclared ops i x

theorem find?_declare_or (s : Scope) (name : Name) (symbol : Symbol) (x : Name) :
    (s.declare name symbol).find? x = (s.find? x).or (if x = name then some symbol else none) := by
  cases hfree : s.declares name with
  | false =>
    rw [Scope.find?_declare hfree]
    by_cases hx : x = name
    · have hnone : s.find? x = none := by
        rwa [Scope.declares, Option.isSome_eq_false_iff, Option.isNone_iff_eq_none, ← hx] at hfree
      rw [if_pos hx, if_pos hx, hnone, Option.none_or]
    · rw [if_neg hx, if_neg hx, Option.or_none]
  | true =>
    rw [Scope.declare, if_pos hfree]
    by_cases hx : x = name
    · obtain ⟨found, hfound⟩ := Option.isSome_iff_exists.mp (hx ▸ hfree)
      rw [hfound, Option.some_or]
    · rw [if_neg hx, Option.or_none]

namespace Built

variable {ops : List Operation} {t : ScopeTable}

theorem add (h : Built ops t) {parent : Option ScopeId}
    (hparent : ∀ p, parent = some p → p < (opened ops).length) (ofFunction : Bool) :
    Built (ops ++ [.add parent ofFunction]) (t.add parent ofFunction) where
  parentsFirst := h.parentsFirst.add (fun p hp => h.size ▸ hparent p hp) ofFunction
  size := by
    rw [size_add, h.size, opened_append, List.length_append]
    rfl
  scope i := by
    rw [get?_add, opened_append]
    split
    · next hi =>
      rw [hi, h.size]
      exact List.getElem?_concat_length.symm
    · next hi =>
      rw [h.scope, List.getElem?_append]
      split
      · rfl
      · next hlt =>
        have hout : (opened ops).length < i := Nat.lt_of_le_of_ne (Nat.le_of_not_lt hlt)
          (h.size ▸ Ne.symm hi)
        rw [List.getElem?_eq_none (Nat.le_of_lt hout), List.getElem?_eq_none]
        exact Nat.le_sub_of_add_le' hout
  symbol i x := by
    rw [get?_add, firstDeclared_append, Operation.declares?, Option.or_none, ← h.symbol i x]
    split
    · next hi =>
      have hnone : t.get? i = none := by
        rw [get?, Array.getElem?_eq_none_iff, hi]
        exact Nat.le_refl _
      rw [hnone]
      rfl
    · rfl

theorem declare (h : Built ops t) (id : ScopeId) (hid : id < (opened ops).length) (name : Name)
    (symbol : Symbol) :
    Built (ops ++ [.declare id name symbol]) (t.declare id name symbol) where
  parentsFirst := h.parentsFirst.declare id name symbol
  size := by
    rw [size_declare, h.size, opened_append]
    exact congrArg List.length (List.append_nil _).symm
  scope i := by
    rw [get?_declare, opened_append, Operation.opens?, Option.toList_none, List.append_nil,
      ← h.scope i]
    split
    · rw [Option.map_map]
      congr 1
      funext s
      rw [Function.comp_apply, Scope.parent_declare, Scope.ofFunction_declare]
    · rfl
  symbol i x := by
    rw [get?_declare, firstDeclared_append, Operation.declares?, ← h.symbol i x]
    by_cases hi : id = i
    · obtain ⟨s, hs⟩ := get?_of_lt (h.size ▸ hi ▸ hid : i < t.size)
      rw [if_pos hi, hs, Option.map_some, Option.bind_some, Option.bind_some, find?_declare_or]
      simp only [hi, true_and]
    · rw [if_neg hi, if_neg fun h => hi h.1, Option.or_none]

end Built

theorem Buildable.built {ops : List Operation} (h : Buildable ops) : Built ops (build ops) := by
  induction h with
  | nil =>
    exact ⟨.empty, rfl, fun i => by simp [build, get?, opened],
      fun i x => by simp [build, get?, firstDeclared]⟩
  | add _ hparent ofFunction ih =>
    rw [build_append]
    exact ih.add hparent ofFunction
  | declare _ hid name symbol ih =>
    rw [build_append]
    exact ih.declare _ hid name symbol

/-! ## Both walks end -/

section Ends

variable {t : ScopeTable} {x : Name}

theorem lookupEnds (h : t.ParentsFirst) {id : Nat} (hid : id < t.size) (crossed : Bool) :
    LookupEnds t x crossed (some id) (visible x crossed (t.chain id)) := by
  induction id using Nat.strongRecOn generalizing crossed with
  | _ id ih =>
    obtain ⟨s, hs⟩ := get?_of_lt hid
    rw [chain_eq h hs, visible]
    cases hfind : s.find? x with
    | some symbol =>
      dsimp only
      split
      · next hhidden =>
        obtain ⟨rfl, hvariable⟩ := Bool.and_eq_true_iff.mp hhidden
        exact .hidden hs hfind hvariable
      · next hseen => exact .seen hs hfind (Bool.eq_false_iff.mpr hseen)
    | none =>
      refine .onward hs hfind ?_
      cases hp : s.parent with
      | none => exact .outside _
      | some p =>
        have hlt := h id s p hs hp
        exact ih p hlt (Nat.lt_trans hlt hid) _

theorem takenEnds (h : t.ParentsFirst) {id : Nat} (hid : id < t.size) :
    TakenEnds t x (some id) (t.isTaken id x) := by
  induction id using Nat.strongRecOn with
  | _ id ih =>
    obtain ⟨s, hs⟩ := get?_of_lt hid
    rw [isTaken_eq h hs]
    cases hdeclares : s.declares x with
    | true => exact .declared hs hdeclares
    | false =>
      refine .onward hs hdeclares ?_
      cases hp : s.parent with
      | none => exact .outside
      | some p =>
        have hlt := h id s p hs hp
        exact ih p hlt (Nat.lt_trans hlt hid)

end Ends

/-! ## Where the walks end -/

section Nearest

variable {ops : List Operation} {t : ScopeTable} {id home : ScopeId} {s : Scope} {x : Name}
  {passed : List ScopeId} {symbol : Symbol}

theorem Built.of_get? (h : Built ops t) (hs : t.get? id = some s) (x : Name) :
    (opened ops)[id]? = some (s.parent, s.ofFunction) ∧ firstDeclared ops id x = s.find? x := by
  rw [← h.scope, ← h.symbol, hs]
  exact ⟨rfl, rfl⟩

theorem Built.nearest_iff_of_some (h : Built ops t) (hs : t.get? id = some s) {found : Symbol}
    (hfind : s.find? x = some found) :
    Nearest ops id x passed home symbol ↔ passed = [] ∧ home = id ∧ symbol = found := by
  have hfirst := (h.of_get? hs x).2.trans hfind
  constructor
  · rintro ⟨hleads, hsilent, hdeclares⟩
    cases hleads with
    | here => exact ⟨rfl, rfl, Option.some.inj (hdeclares.symm.trans hfirst)⟩
    | outward =>
      have hnone := hsilent id List.mem_cons_self
      rw [hfirst] at hnone
      cases hnone
  · rintro ⟨rfl, rfl, rfl⟩
    exact ⟨.here _, List.forall_mem_nil _, hfirst⟩

theorem Built.nearest_iff_of_none (h : Built ops t) (hs : t.get? id = some s)
    (hfind : s.find? x = none) : Nearest ops id x passed home symbol ↔
      ∃ p rest, s.parent = some p ∧ passed = id :: rest ∧ Nearest ops p x rest home symbol := by
  obtain ⟨hopened, hfirst⟩ := h.of_get? hs x
  have hfirst := hfirst.trans hfind
  constructor
  · rintro ⟨hleads, hsilent, hdeclares⟩
    cases hleads with
    | here =>
      rw [hfirst] at hdeclares
      cases hdeclares
    | outward hparent rest =>
      obtain ⟨hp, -⟩ := Prod.mk.inj (Option.some.inj (hopened.symm.trans hparent))
      exact ⟨_, _, hp, rfl, rest, fun i hi => hsilent i (List.mem_cons_of_mem _ hi), hdeclares⟩
  · rintro ⟨p, rest, hp, rfl, hleads, hsilent, hdeclares⟩
    exact ⟨.outward (hp ▸ hopened) hleads, List.forall_mem_cons.mpr ⟨hfirst, hsilent⟩, hdeclares⟩

theorem crosses_nil : ¬Crosses ops [] := by
  rintro ⟨i, hi, -⟩
  exact List.not_mem_nil hi

theorem Built.crosses_cons (h : Built ops t) (hs : t.get? id = some s) :
    Crosses ops (id :: passed) ↔ s.ofFunction = true ∨ Crosses ops passed := by
  simp [Crosses, (h.of_get? hs "").1]

end Nearest

section Results

variable {ops : List Operation} {t : ScopeTable} {x : Name}

/-- A look-up finds the nearest declaration unless it is a variable and a scope of parameters has
been passed. -/
theorem LookupEnds.iff_nearest (h : Built ops t) {crossed : Bool} {start : Option ScopeId}
    {result : Option (ScopeId × Symbol)} (hends : LookupEnds t x crossed start result)
    (home : ScopeId) (symbol : Symbol) :
    result = some (home, symbol) ↔ ∃ id passed, start = some id ∧
      Nearest ops id x passed home symbol ∧
      (symbol.isVariable = false ∨ crossed = false ∧ ¬Crosses ops passed) := by
  induction hends with
  | outside crossed => simp
  | hidden hs hfind hvariable =>
    refine iff_of_false (Option.some_ne_none _).symm ?_
    rintro ⟨_, passed, ⟨rfl⟩, hnearest, hseen⟩
    obtain ⟨-, -, rfl⟩ := (h.nearest_iff_of_some hs hfind).mp hnearest
    rcases hseen with hfunction | ⟨hfalse, -⟩
    · rw [hvariable] at hfunction
      cases hfunction
    · cases hfalse
  | seen hs hfind hseen =>
    constructor
    · rintro ⟨rfl⟩
      refine ⟨_, [], rfl, (h.nearest_iff_of_some hs hfind).mpr ⟨rfl, rfl, rfl⟩, ?_⟩
      rcases Bool.and_eq_false_iff.mp hseen with hfalse | hfunction
      · exact .inr ⟨hfalse, crosses_nil⟩
      · exact .inl hfunction
    · rintro ⟨_, passed, ⟨rfl⟩, hnearest, -⟩
      obtain ⟨-, rfl, rfl⟩ := (h.nearest_iff_of_some hs hfind).mp hnearest
      rfl
  | onward hs hfind rest ih =>
    -- what is passed so far is either the scope at hand or what `crossed` knows of
    rw [ih]
    constructor
    · rintro ⟨p, passed, hp, hnearest, hseen⟩
      refine ⟨_, _, rfl, (h.nearest_iff_of_none hs hfind).mpr ⟨p, passed, hp, rfl, hnearest⟩, ?_⟩
      rw [h.crosses_cons hs]
      simpa [and_assoc] using hseen
    · rintro ⟨_, passed, ⟨rfl⟩, hnearest, hseen⟩
      obtain ⟨p, rest, hp, rfl, houter⟩ := (h.nearest_iff_of_none hs hfind).mp hnearest
      refine ⟨p, rest, hp, houter, ?_⟩
      rw [h.crosses_cons hs] at hseen
      simpa [and_assoc] using hseen

theorem TakenEnds.iff_nearest (h : Built ops t) {start : Option ScopeId} {result : Bool}
    (hends : TakenEnds t x start result) :
    result = true ↔ ∃ id passed home symbol, start = some id ∧
      Nearest ops id x passed home symbol := by
  induction hends with
  | outside => simp
  | declared hs hdeclares =>
    obtain ⟨found, hfind⟩ := Option.isSome_iff_exists.mp hdeclares
    exact iff_of_true rfl
      ⟨_, [], _, found, rfl, (h.nearest_iff_of_some hs hfind).mpr ⟨rfl, rfl, rfl⟩⟩
  | onward hs hdeclares rest ih =>
    have hfind := Option.isNone_iff_eq_none.mp (Option.isSome_eq_false_iff.mp hdeclares)
    rw [ih]
    constructor
    · rintro ⟨p, passed, home, symbol, hp, hnearest⟩
      exact ⟨_, _, home, symbol, rfl,
        (h.nearest_iff_of_none hs hfind).mpr ⟨p, passed, hp, rfl, hnearest⟩⟩
    · rintro ⟨_, passed, home, symbol, ⟨rfl⟩, hnearest⟩
      obtain ⟨p, rest, hp, rfl, houter⟩ := (h.nearest_iff_of_none hs hfind).mp hnearest
      exact ⟨p, rest, home, symbol, hp, houter⟩

end Results

/-! ## Main result -/

/-- In every table that is built parents first, look-ups find the nearest declaration unless it is a
variable behind a scope of parameters; it is taken all the same. -/
theorem resolves {ops : List Operation} (h : Buildable ops) {id : ScopeId}
    (hid : id < (opened ops).length) (x : Name) : Resolves ops id x := by
  have hbuilt := h.built
  have hlt : id < (build ops).size := hbuilt.size ▸ hid
  have hlookup := lookupEnds (x := x) hbuilt.parentsFirst hlt false
  have htaken := takenEnds (x := x) hbuilt.parentsFirst hlt
  have hfound : ∀ home symbol, (build ops).lookup id x = some (home, symbol) ↔
      ∃ passed, Nearest ops id x passed home symbol ∧
        (symbol.isVariable = false ∨ ¬Crosses ops passed) := by
    intro home symbol
    rw [lookup, hlookup.iff_nearest hbuilt]
    simp
  refine ⟨hfound, ?_, hlookup, htaken⟩
  rw [htaken.iff_nearest hbuilt]
  constructor
  · rintro ⟨_, passed, home, symbol, ⟨rfl⟩, hnearest⟩
    by_cases hhidden : symbol.isVariable = true ∧ Crosses ops passed
    · exact .inr ⟨passed, home, symbol, hnearest, hhidden⟩
    · have hseen : symbol.isVariable = false ∨ ¬Crosses ops passed := by
        rw [← Bool.not_eq_true]
        exact Decidable.not_and_iff_not_or_not.mp hhidden
      exact .inl (Option.isSome_iff_exists.mpr
        ⟨_, (hfound home symbol).mpr ⟨passed, hnearest, hseen⟩⟩)
  · rintro (hsome | ⟨passed, home, symbol, hnearest, -⟩)
    · obtain ⟨⟨home, symbol⟩, hsome⟩ := Option.isSome_iff_exists.mp hsome
      obtain ⟨passed, hnearest, -⟩ := (hfound home symbol).mp hsome
      exact ⟨id, passed, home, symbol, rfl, hnearest⟩
    · exact ⟨id, passed, home, symbol, rfl, hnearest⟩

/-- A block that declares a variable and a function, the parameters of the function and its body. -/
def functionInBlock : List Operation :=
  [.add none false, .declare 0 "x" (.variable ""), .declare 0 "f" (.function [] []),
    .add (some 0) true, .add (some 1) false]

theorem functionInBlock_resolves : Buildable functionInBlock ∧
    2 < (opened functionInBlock).length ∧ Resolves functionInBlock 2 "x" := by
  have hroot : Buildable [.add none false] := Buildable.nil.add (by simp) false
  have hvariable := hroot.declare (show 0 < 1 by decide) "x" (.variable "")
  have hfunction := hvariable.declare (show 0 < 1 by decide) "f" (.function [] [])
  have hparameters := hfunction.add (show ∀ p, some 0 = some p → p < 1 by simp) true
  have hbody := hparameters.add (show ∀ p, some 1 = some p → p < 2 by simp) false
  exact ⟨hbody, by decide, resolves hbody (by decide) "x"⟩

/-- The body sees the function, but not the variable. -/
example : ((build functionInBlock).lookup 2 "x", (build functionInBlock).isTaken 2 "x",
    (build functionInBlock).lookup 2 "f") = (none, true, some (0, .function [] [])) := by
  decide

end ScopeTable

end Yul
