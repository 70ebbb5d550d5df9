import Mathlib.Data.List.Forall2
import Yul.Flow
import Yul.Proofs.Parallel.Code

/-!
# The places of code

`Block.spans` lists the spans of a block and of all its parts. `Block.Moved R b b'` says that `b'`
is the same code as `b` with every part at a place that `R` allows for it: the trees, the numbers of
blocks and the names are the same, and `R` relates each span of one to that of the other.
`Object.Moved` says so of objects.

* `Block.Moved.mapSpans_eq`: code that was moved is the same after a map that undoes the move.
* `Block.Moved.exists_of_mem_spans`: every span of code that was moved is related to another one.
-/

namespace Yul

/-! ## Spans of all parts -/

mutual

/-- The spans of an expression and of all its parts. -/
def Expr.spans : Expr → List Span
  | .literal l => [l.span]
  | .identifier x => [x.span]
  | .call callee args span => span :: callee.span :: spansOfExprs args

def spansOfExprs : List Expr → List Span
  | [] => []
  | e :: rest => e.spans ++ spansOfExprs rest

end

mutual

/-- The spans of a statement and of all its parts. -/
def Stmt.spans : Stmt → List Span
  | .expression e => e.spans
  | .assignment xs value span => span :: xs.map Identifier.span ++ value.spans
  | .declaration xs none span => span :: xs.map TypedName.span
  | .declaration xs (some value) span => span :: xs.map TypedName.span ++ value.spans
  | .function g span => span :: g.spans
  | .ifThen e body span => span :: e.spans ++ body.spans
  | .switch subject arms span => span :: subject.spans ++ spansOfCases arms
  | .forLoop init e post body span => span :: init.spans ++ e.spans ++ post.spans ++ body.spans
  | .breakLoop span | .continueLoop span | .leave span => [span]
  | .block b => b.spans

def FunctionDef.spans : FunctionDef → List Span
  | ⟨name, parameters, returns, body⟩ =>
    name.span :: (parameters.map TypedName.span ++ returns.map TypedName.span) ++ body.spans

/-- The spans of a block and of all its parts. -/
def Block.spans : Block → List Span
  | ⟨_, statements, span⟩ => span :: spansOfStmts statements

def spansOfStmts : List Stmt → List Span
  | [] => []
  | s :: rest => s.spans ++ spansOfStmts rest

def spansOfCases : List Case → List Span
  | [] => []
  | ⟨none, body, span⟩ :: rest => span :: body.spans ++ spansOfCases rest
  | ⟨some l, body, span⟩ :: rest => span :: l.span :: body.spans ++ spansOfCases rest

end

theorem Expr.span_mem_spans (e : Expr) : e.span ∈ e.spans := by
  cases e <;> exact List.mem_cons_self

/-! ## The same code at other places -/

section Moved

variable (R : Span → Span → Prop)

structure Identifier.Moved (x x' : Identifier) : Prop where
  name : x.name = x'.name
  span : R x.span x'.span

structure TypedName.Moved (x x' : TypedName) : Prop where
  name : x.name = x'.name
  type : x.type = x'.type
  span : R x.span x'.span

structure Literal.Moved (l l' : Literal) : Prop where
  value : l.value = l'.value
  type : l.type = l'.type
  span : R l.span l'.span

structure DataSection.Moved (d d' : DataSection) : Prop where
  name : d.name = d'.name
  value : d.value = d'.value
  span : R d.span d'.span

mutual

/-- The same expression at another place. -/
inductive Expr.Moved : Expr → Expr → Prop where
  | literal {l l' : Literal} (h : l.Moved R l') : Expr.Moved (.literal l) (.literal l')
  | identifier {x x' : Identifier} (h : x.Moved R x') : Expr.Moved (.identifier x) (.identifier x')
  | call {f f' : Identifier} {args args' : List Expr} {span span' : Span} (hf : f.Moved R f')
      (hargs : MovedExprs args args') (hspan : R span span') :
      Expr.Moved (.call f args span) (.call f' args' span')

inductive MovedExprs : List Expr → List Expr → Prop where
  | nil : MovedExprs [] []
  | cons {e e' : Expr} {es es' : List Expr} (h : Expr.Moved e e') (hrest : MovedExprs es es') :
      MovedExprs (e :: es) (e' :: es')

end

mutual

/-- The same statement at another place. -/
inductive Stmt.Moved : Stmt → Stmt → Prop where
  | expression {e e' : Expr} (h : e.Moved R e') : Stmt.Moved (.expression e) (.expression e')
  | assignment {xs xs' : List Identifier} {e e' : Expr} {span span' : Span}
      (hxs : List.Forall₂ (Identifier.Moved R) xs xs') (h : e.Moved R e') (hspan : R span span') :
      Stmt.Moved (.assignment xs e span) (.assignment xs' e' span')
  | declaration {xs xs' : List TypedName} {span span' : Span}
      (hxs : List.Forall₂ (TypedName.Moved R) xs xs') (hspan : R span span') :
      Stmt.Moved (.declaration xs none span) (.declaration xs' none span')
  | definition {xs xs' : List TypedName} {e e' : Expr} {span span' : Span}
      (hxs : List.Forall₂ (TypedName.Moved R) xs xs') (h : e.Moved R e') (hspan : R span span') :
      Stmt.Moved (.declaration xs (some e) span) (.declaration xs' (some e') span')
  | function {g g' : FunctionDef} {span span' : Span} (h : FunctionDef.Moved g g')
      (hspan : R span span') : Stmt.Moved (.function g span) (.function g' span')
  | ifThen {e e' : Expr} {body body' : Block} {span span' : Span} (he : e.Moved R e')
      (hbody : Block.Moved body body') (hspan : R span span') :
      Stmt.Moved (.ifThen e body span) (.ifThen e' body' span')
  | switch {e e' : Expr} {arms arms' : List Case} {span span' : Span} (he : e.Moved R e')
      (harms : MovedCases arms arms') (hspan : R span span') :
      Stmt.Moved (.switch e arms span) (.switch e' arms' span')
  | forLoop {init init' post post' body body' : Block} {e e' : Expr} {span span' : Span}
      (hinit : Block.Moved init init') (he : e.Moved R e') (hpost : Block.Moved post post')
      (hbody : Block.Moved body body') (hspan : R span span') :
      Stmt.Moved (.forLoop init e post body span) (.forLoop init' e' post' body' span')
  | breakLoop {span span' : Span} (hspan : R span span') :
      Stmt.Moved (.breakLoop span) (.breakLoop span')
  | continueLoop {span span' : Span} (hspan : R span span') :
      Stmt.Moved (.continueLoop span) (.continueLoop span')
  | leave {span span' : Span} (hspan : R span span') : Stmt.Moved (.leave span) (.leave span')
  | block {b b' : Block} (h : Block.Moved b b') : Stmt.Moved (.block b) (.block b')

inductive FunctionDef.Moved : FunctionDef → FunctionDef → Prop where
  | mk {name name' : Identifier} {parameters parameters' returns returns' : List TypedName}
      {body body' : Block} (hname : name.Moved R name')
      (hparameters : List.Forall₂ (TypedName.Moved R) parameters parameters')
      (hreturns : List.Forall₂ (TypedName.Moved R) returns returns') (h : Block.Moved body body') :
      FunctionDef.Moved ⟨name, parameters, returns, body⟩ ⟨name', parameters', returns', body'⟩

/-- The same block at another place. -/
inductive Block.Moved : Block → Block → Prop where
  | mk {id : BlockId} {ss ss' : List Stmt} {span span' : Span} (h : MovedStmts ss ss')
      (hspan : R span span') : Block.Moved ⟨id, ss, span⟩ ⟨id, ss', span'⟩

inductive MovedStmts : List Stmt → List Stmt → Prop where
  | nil : MovedStmts [] []
  | cons {s s' : Stmt} {ss ss' : List Stmt} (h : Stmt.Moved s s') (hrest : MovedStmts ss ss') :
      MovedStmts (s :: ss) (s' :: ss')

inductive MovedCases : List Case → List Case → Prop where
  | nil : MovedCases [] []
  | default {body body' : Block} {span span' : Span} {arms arms' : List Case}
      (h : Block.Moved body body') (hspan : R span span') (hrest : MovedCases arms arms') :
      MovedCases (⟨none, body, span⟩ :: arms) (⟨none, body', span'⟩ :: arms')
  | value {l l' : Literal} {body body' : Block} {span span' : Span} {arms arms' : List Case}
      (hl : l.Moved R l') (h : Block.Moved body body') (hspan : R span span')
      (hrest : MovedCases arms arms') :
      MovedCases (⟨some l, body, span⟩ :: arms) (⟨some l', body', span'⟩ :: arms')

end

mutual

/-- The same object at another place. -/
inductive Object.Moved : Object → Object → Prop where
  | mk {name : String} {code code' : Block} {objects objects' : List Object}
      {data data' : List DataSection} {span span' : Span} (hcode : code.Moved R code')
      (hobjects : MovedObjects objects objects')
      (hdata : List.Forall₂ (DataSection.Moved R) data data') (hspan : R span span') :
      Object.Moved ⟨name, code, objects, data, span⟩ ⟨name, code', objects', data', span'⟩

inductive MovedObjects : List Object → List Object → Prop where
  | nil : MovedObjects [] []
  | cons {o o' : Object} {os os' : List Object} (h : Object.Moved o o')
      (hrest : MovedObjects os os') : MovedObjects (o :: os) (o' :: os')

end

end Moved

/-! ## Lists of parts -/

section Lists

variable {R : Span → Span → Prop}

theorem MovedExprs.of_forall₂ {es es' : List Expr} (h : List.Forall₂ (Expr.Moved R) es es') :
    MovedExprs R es es' := by
  induction h with
  | nil => exact .nil
  | cons he _ ih => exact .cons he ih

theorem MovedStmts.of_forall₂ {ss ss' : List Stmt} (h : List.Forall₂ (Stmt.Moved R) ss ss') :
    MovedStmts R ss ss' := by
  induction h with
  | nil => exact .nil
  | cons hs _ ih => exact .cons hs ih

theorem MovedObjects.of_forall₂ {os os' : List Object} (h : List.Forall₂ (Object.Moved R) os os') :
    MovedObjects R os os' := by
  induction h with
  | nil => exact .nil
  | cons ho _ ih => exact .cons ho ih

theorem Block.Moved.span {b b' : Block} (h : b.Moved R b') : R b.span b'.span := by
  obtain ⟨-, hspan⟩ := h
  exact hspan

/-! ## Undoing a move -/

theorem map_eq_of_forall₂ {α β γ : Type} {P : α → β → Prop} {f : α → γ} {g : β → γ}
    (h : ∀ a b, P a b → f a = g b) {as : List α} {bs : List β} (hP : List.Forall₂ P as bs) :
    as.map f = bs.map g := by
  rw [← List.forall₂_eq_eq_eq, List.forall₂_map_left_iff, List.forall₂_map_right_iff]
  exact hP.imp h

section MapSpans

/-- Two maps of places that send related ones to the same place. -/
def Undo (R : Span → Span → Prop) (f g : Span → Span) : Prop :=
  ∀ s s', R s s' → f s = g s'

variable {f g : Span → Span}

theorem Identifier.Moved.mapSpans_eq (hR : Undo R f g) {x x' : Identifier} (h : x.Moved R x') :
    x.mapSpans f = x'.mapSpans g := by
  obtain ⟨hname, hspan⟩ := h
  exact congrArg₂ Identifier.mk hname (hR _ _ hspan)

theorem TypedName.Moved.mapSpans_eq (hR : Undo R f g) {x x' : TypedName} (h : x.Moved R x') :
    x.mapSpans f = x'.mapSpans g := by
  obtain ⟨hname, htype, hspan⟩ := h
  rw [TypedName.mapSpans, hname, htype, hR _ _ hspan]
  rfl

theorem Literal.Moved.mapSpans_eq (hR : Undo R f g) {l l' : Literal} (h : l.Moved R l') :
    l.mapSpans f = l'.mapSpans g := by
  obtain ⟨hvalue, htype, hspan⟩ := h
  rw [Literal.mapSpans, hvalue, htype, hR _ _ hspan]
  rfl

mutual

theorem Expr.Moved.mapSpans_eq (hR : Undo R f g) {e e' : Expr} (h : e.Moved R e') :
    e.mapSpans f = e'.mapSpans g := by
  match h with
  | .literal h => exact congrArg Expr.literal (h.mapSpans_eq hR)
  | .identifier h => exact congrArg Expr.identifier (h.mapSpans_eq hR)
  | .call hf hargs hspan =>
    rw [Expr.mapSpans, Expr.mapSpans, hf.mapSpans_eq hR, hargs.mapSpans_eq hR, hR _ _ hspan]

theorem MovedExprs.mapSpans_eq (hR : Undo R f g) {es es' : List Expr} (h : MovedExprs R es es') :
    mapSpansOfExprs f es = mapSpansOfExprs g es' := by
  match h with
  | .nil => rfl
  | .cons h hrest => exact congrArg₂ List.cons (h.mapSpans_eq hR) (hrest.mapSpans_eq hR)

end

mutual

theorem Stmt.Moved.mapSpans_eq (hR : Undo R f g) {s s' : Stmt} (h : s.Moved R s') :
    s.mapSpans f = s'.mapSpans g := by
  match h with
  | .expression h => exact congrArg Stmt.expression (h.mapSpans_eq hR)
  | .assignment hxs h hspan =>
    rw [Stmt.mapSpans, Stmt.mapSpans, map_eq_of_forall₂ (fun _ _ h => h.mapSpans_eq hR) hxs,
      h.mapSpans_eq hR, hR _ _ hspan]
  | .declaration hxs hspan =>
    rw [Stmt.mapSpans, Stmt.mapSpans, map_eq_of_forall₂ (fun _ _ h => h.mapSpans_eq hR) hxs,
      hR _ _ hspan]
    rfl
  | .definition hxs h hspan =>
    rw [Stmt.mapSpans, Stmt.mapSpans, map_eq_of_forall₂ (fun _ _ h => h.mapSpans_eq hR) hxs,
      Option.map_some, Option.map_some, h.mapSpans_eq hR, hR _ _ hspan]
  | .function h hspan => exact congrArg₂ Stmt.function (h.mapSpans_eq hR) (hR _ _ hspan)
  | .ifThen he hbody hspan =>
    rw [Stmt.mapSpans, Stmt.mapSpans, he.mapSpans_eq hR, hbody.mapSpans_eq hR, hR _ _ hspan]
  | .switch he harms hspan =>
    rw [Stmt.mapSpans, Stmt.mapSpans, he.mapSpans_eq hR, harms.mapSpans_eq hR, hR _ _ hspan]
  | .forLoop hinit he hpost hbody hspan =>
    rw [Stmt.mapSpans, Stmt.mapSpans, hinit.mapSpans_eq hR, he.mapSpans_eq hR, hpost.mapSpans_eq hR,
      hbody.mapSpans_eq hR, hR _ _ hspan]
  | .breakLoop hspan => exact congrArg Stmt.breakLoop (hR _ _ hspan)
  | .continueLoop hspan => exact congrArg Stmt.continueLoop (hR _ _ hspan)
  | .leave hspan => exact congrArg Stmt.leave (hR _ _ hspan)
  | .block h => exact congrArg Stmt.block (h.mapSpans_eq hR)

theorem FunctionDef.Moved.mapSpans_eq (hR : Undo R f g) {d d' : FunctionDef} (h : d.Moved R d') :
    d.mapSpans f = d'.mapSpans g := by
  match h with
  | .mk hname hparameters hreturns h =>
    rw [FunctionDef.mapSpans, FunctionDef.mapSpans, hname.mapSpans_eq hR, h.mapSpans_eq hR,
      map_eq_of_forall₂ (fun _ _ h => h.mapSpans_eq hR) hparameters,
      map_eq_of_forall₂ (fun _ _ h => h.mapSpans_eq hR) hreturns]

/-- Moved code is the same up to places. -/
theorem Block.Moved.mapSpans_eq (hR : Undo R f g) {b b' : Block} (h : b.Moved R b') :
    b.mapSpans f = b'.mapSpans g := by
  match h with
  | .mk h hspan => rw [Block.mapSpans, Block.mapSpans, h.mapSpans_eq hR, hR _ _ hspan]

theorem MovedStmts.mapSpans_eq (hR : Undo R f g) {ss ss' : List Stmt} (h : MovedStmts R ss ss') :
    mapSpansOfStmts f ss = mapSpansOfStmts g ss' := by
  match h with
  | .nil => rfl
  | .cons h hrest => exact congrArg₂ List.cons (h.mapSpans_eq hR) (hrest.mapSpans_eq hR)

theorem MovedCases.mapSpans_eq (hR : Undo R f g) {arms arms' : List Case}
    (h : MovedCases R arms arms') : mapSpansOfCases f arms = mapSpansOfCases g arms' := by
  match h with
  | .nil => rfl
  | .default h hspan hrest =>
    rw [mapSpansOfCases, mapSpansOfCases, h.mapSpans_eq hR, hR _ _ hspan, hrest.mapSpans_eq hR]
    rfl
  | .value hl h hspan hrest =>
    rw [mapSpansOfCases, mapSpansOfCases, h.mapSpans_eq hR, hR _ _ hspan, hrest.mapSpans_eq hR,
      Option.map_some, Option.map_some, hl.mapSpans_eq hR]

end

def DataSection.mapSpans (f : Span → Span) (d : DataSection) : DataSection :=
  { d with span := f d.span }

mutual

/-- An object with all its parts at other places. -/
def Object.mapSpans (f : Span → Span) : Object → Object
  | ⟨name, code, objects, data, span⟩ =>
    ⟨name, code.mapSpans f, mapSpansOfObjects f objects, data.map (DataSection.mapSpans f), f span⟩

def mapSpansOfObjects (f : Span → Span) : List Object → List Object
  | [] => []
  | o :: rest => o.mapSpans f :: mapSpansOfObjects f rest

end

theorem DataSection.Moved.mapSpans_eq (hR : Undo R f g) {d d' : DataSection} (h : d.Moved R d') :
    d.mapSpans f = d'.mapSpans g := by
  obtain ⟨hname, hvalue, hspan⟩ := h
  rw [DataSection.mapSpans, hname, hvalue, hR _ _ hspan]
  rfl

mutual

theorem Object.Moved.mapSpans_eq (hR : Undo R f g) {o o' : Object} (h : o.Moved R o') :
    o.mapSpans f = o'.mapSpans g := by
  match h with
  | .mk hcode hobjects hdata hspan =>
    rw [Object.mapSpans, Object.mapSpans, hcode.mapSpans_eq hR, hobjects.mapSpans_eq hR,
      map_eq_of_forall₂ (fun _ _ h => h.mapSpans_eq hR) hdata, hR _ _ hspan]

theorem MovedObjects.mapSpans_eq (hR : Undo R f g) {os os' : List Object}
    (h : MovedObjects R os os') : mapSpansOfObjects f os = mapSpansOfObjects g os' := by
  match h with
  | .nil => rfl
  | .cons h hrest => exact congrArg₂ List.cons (h.mapSpans_eq hR) (hrest.mapSpans_eq hR)

end

end MapSpans

/-! ## Calls in moved code -/

section Calls

variable (p : Name → Bool)

mutual

theorem Expr.Moved.anyCall_eq {e e' : Expr} (h : e.Moved R e') : e.anyCall p = e'.anyCall p := by
  match h with
  | .literal _ | .identifier _ => rfl
  | .call hf hargs _ => rw [Expr.anyCall, Expr.anyCall, hargs.anyCall_eq, hf.name]

theorem MovedExprs.anyCall_eq {es es' : List Expr} (h : MovedExprs R es es') :
    anyCallOfExprs p es = anyCallOfExprs p es' := by
  match h with
  | .nil => rfl
  | .cons h hrest => exact congrArg₂ or h.anyCall_eq hrest.anyCall_eq

end

mutual

theorem Stmt.Moved.anyCall_eq {s s' : Stmt} (h : s.Moved R s') : s.anyCall p = s'.anyCall p := by
  match h with
  | .expression h => exact h.anyCall_eq p
  | .assignment _ h _ => exact h.anyCall_eq p
  | .definition _ h _ => exact h.anyCall_eq p
  | .declaration _ _ | .breakLoop _ | .continueLoop _ | .leave _ => rfl
  | .function h _ => exact h.anyCall_eq
  | .ifThen he hbody _ => exact congrArg₂ or (he.anyCall_eq p) hbody.anyCall_eq
  | .switch he harms _ => exact congrArg₂ or (he.anyCall_eq p) harms.anyCall_eq
  | .forLoop hinit he hpost hbody _ =>
    rw [Stmt.anyCall, Stmt.anyCall, hinit.anyCall_eq, he.anyCall_eq, hbody.anyCall_eq,
      hpost.anyCall_eq]
  | .block h => exact h.anyCall_eq

theorem FunctionDef.Moved.anyCall_eq {d d' : FunctionDef} (h : d.Moved R d') :
    d.anyCall p = d'.anyCall p := by
  match h with
  | .mk _ _ _ h => exact h.anyCall_eq

theorem Block.Moved.anyCall_eq {b b' : Block} (h : b.Moved R b') : b.anyCall p = b'.anyCall p := by
  match h with
  | .mk h _ => exact h.anyCall_eq

theorem MovedStmts.anyCall_eq {ss ss' : List Stmt} (h : MovedStmts R ss ss') :
    anyCallOfStmts p ss = anyCallOfStmts p ss' := by
  match h with
  | .nil => rfl
  | .cons h hrest => exact congrArg₂ or h.anyCall_eq hrest.anyCall_eq

theorem MovedCases.anyCall_eq {arms arms' : List Case} (h : MovedCases R arms arms') :
    anyCallOfCases p arms = anyCallOfCases p arms' := by
  match h with
  | .nil => rfl
  | .default h _ hrest => exact congrArg₂ or h.anyCall_eq hrest.anyCall_eq
  | .value _ h _ hrest => exact congrArg₂ or h.anyCall_eq hrest.anyCall_eq

end

end Calls

mutual

theorem Object.Moved.containsMsize_eq {o o' : Object} (h : o.Moved R o') :
    o.containsMsize = o'.containsMsize := by
  match h with
  | .mk hcode hobjects _ _ => exact congrArg₂ or (hcode.anyCall_eq _) hobjects.containsMsize_eq

theorem MovedObjects.containsMsize_eq {os os' : List Object} (h : MovedObjects R os os') :
    containsMsizeOfObjects os = containsMsizeOfObjects os' := by
  match h with
  | .nil => rfl
  | .cons h hrest => exact congrArg₂ or h.containsMsize_eq hrest.containsMsize_eq

end

/-! ## Names in moved objects -/

theorem Object.Moved.name_eq {o o' : Object} (h : o.Moved R o') : o.name = o'.name := by
  cases h
  rfl

mutual

theorem Object.Moved.dataNames_eq {o o' : Object} (h : o.Moved R o') :
    o.dataNames = o'.dataNames := by
  match h with
  | .mk _ hobjects hdata _ =>
    rw [Object.dataNames, Object.dataNames, hobjects.dataNames_eq,
      map_eq_of_forall₂ (fun _ _ h => h.name) hdata]

theorem MovedObjects.dataNames_eq {os os' : List Object} (h : MovedObjects R os os') :
    dataNamesOfObjects os = dataNamesOfObjects os' := by
  match h with
  | .nil => rfl
  | .cons h hrest =>
    rw [dataNamesOfObjects, dataNamesOfObjects, h.name_eq, h.dataNames_eq, hrest.dataNames_eq]

end

/-! ## Spans of moved code -/

theorem exists_of_mem_map_forall₂ {α : Type} {P : α → α → Prop} {span : α → Span}
    (h : ∀ a b, P a b → R (span a) (span b)) {as bs : List α} (hP : List.Forall₂ P as bs) :
    ∀ s ∈ as.map span, ∃ s', R s s' := by
  induction hP with
  | nil => exact List.forall_mem_nil _
  | cons hab _ ih => exact List.forall_mem_cons.mpr ⟨⟨_, h _ _ hab⟩, ih⟩

mutual

theorem Expr.Moved.exists_of_mem_spans {e e' : Expr} (h : e.Moved R e') :
    ∀ s ∈ e.spans, ∃ s', R s s' := by
  match h with
  | .literal h => exact List.forall_mem_singleton.mpr ⟨_, h.span⟩
  | .identifier h => exact List.forall_mem_singleton.mpr ⟨_, h.span⟩
  | .call hf hargs hspan =>
    rw [Expr.spans, List.forall_mem_cons, List.forall_mem_cons]
    exact ⟨⟨_, hspan⟩, ⟨_, hf.span⟩, hargs.exists_of_mem_spans⟩

theorem MovedExprs.exists_of_mem_spans {es es' : List Expr} (h : MovedExprs R es es') :
    ∀ s ∈ spansOfExprs es, ∃ s', R s s' := by
  match h with
  | .nil => exact List.forall_mem_nil _
  | .cons h hrest =>
    exact List.forall_mem_append.mpr ⟨h.exists_of_mem_spans, hrest.exists_of_mem_spans⟩

end

mutual

theorem Stmt.Moved.exists_of_mem_spans {s s' : Stmt} (h : s.Moved R s') :
    ∀ span ∈ s.spans, ∃ span', R span span' := by
  match h with
  | .expression h => exact h.exists_of_mem_spans
  | .assignment hxs h hspan =>
    rw [Stmt.spans, List.cons_append, List.forall_mem_cons, List.forall_mem_append]
    exact ⟨⟨_, hspan⟩, exists_of_mem_map_forall₂ (fun _ _ h => h.span) hxs, h.exists_of_mem_spans⟩
  | .declaration hxs hspan =>
    rw [Stmt.spans, List.forall_mem_cons]
    exact ⟨⟨_, hspan⟩, exists_of_mem_map_forall₂ (fun _ _ h => h.span) hxs⟩
  | .definition hxs h hspan =>
    rw [Stmt.spans, List.cons_append, List.forall_mem_cons, List.forall_mem_append]
    exact ⟨⟨_, hspan⟩, exists_of_mem_map_forall₂ (fun _ _ h => h.span) hxs, h.exists_of_mem_spans⟩
  | .function h hspan =>
    rw [Stmt.spans, List.forall_mem_cons]
    exact ⟨⟨_, hspan⟩, h.exists_of_mem_spans⟩
  | .ifThen he hbody hspan =>
    rw [Stmt.spans, List.cons_append, List.forall_mem_cons, List.forall_mem_append]
    exact ⟨⟨_, hspan⟩, he.exists_of_mem_spans, hbody.exists_of_mem_spans⟩
  | .switch he harms hspan =>
    rw [Stmt.spans, List.cons_append, List.forall_mem_cons, List.forall_mem_append]
    exact ⟨⟨_, hspan⟩, he.exists_of_mem_spans, harms.exists_of_mem_spans⟩
  | .forLoop hinit he hpost hbody hspan =>
    simp only [Stmt.spans, List.cons_append, List.append_assoc, List.forall_mem_cons,
      List.forall_mem_append]
    exact ⟨⟨_, hspan⟩, hinit.exists_of_mem_spans, he.exists_of_mem_spans,
      hpost.exists_of_mem_spans, hbody.exists_of_mem_spans⟩
  | .breakLoop hspan => exact List.forall_mem_singleton.mpr ⟨_, hspan⟩
  | .continueLoop hspan => exact List.forall_mem_singleton.mpr ⟨_, hspan⟩
  | .leave hspan => exact List.forall_mem_singleton.mpr ⟨_, hspan⟩
  | .block h => exact h.exists_of_mem_spans

theorem FunctionDef.Moved.exists_of_mem_spans {d d' : FunctionDef} (h : d.Moved R d') :
    ∀ span ∈ d.spans, ∃ span', R span span' := by
  match h with
  | .mk hname hparameters hreturns h =>
    simp only [FunctionDef.spans, List.cons_append, List.append_assoc, List.forall_mem_cons,
      List.forall_mem_append]
    exact ⟨⟨_, hname.span⟩, exists_of_mem_map_forall₂ (fun _ _ h => h.span) hparameters,
      exists_of_mem_map_forall₂ (fun _ _ h => h.span) hreturns, h.exists_of_mem_spans⟩

theorem Block.Moved.exists_of_mem_spans {b b' : Block} (h : b.Moved R b') :
    ∀ span ∈ b.spans, ∃ span', R span span' := by
  match h with
  | .mk h hspan => exact List.forall_mem_cons.mpr ⟨⟨_, hspan⟩, h.exists_of_mem_spans⟩

theorem MovedStmts.exists_of_mem_spans {ss ss' : List Stmt} (h : MovedStmts R ss ss') :
    ∀ span ∈ spansOfStmts ss, ∃ span', R span span' := by
  match h with
  | .nil => exact List.forall_mem_nil _
  | .cons h hrest =>
    exact List.forall_mem_append.mpr ⟨h.exists_of_mem_spans, hrest.exists_of_mem_spans⟩

theorem MovedCases.exists_of_mem_spans {arms arms' : List Case} (h : MovedCases R arms arms') :
    ∀ span ∈ spansOfCases arms, ∃ span', R span span' := by
  match h with
  | .nil => exact List.forall_mem_nil _
  | .default h hspan hrest =>
    rw [spansOfCases, List.cons_append, List.forall_mem_cons, List.forall_mem_append]
    exact ⟨⟨_, hspan⟩, h.exists_of_mem_spans, hrest.exists_of_mem_spans⟩
  | .value hl h hspan hrest =>
    rw [spansOfCases, List.cons_append, List.cons_append, List.forall_mem_cons,
      List.forall_mem_cons, List.forall_mem_append]
    exact ⟨⟨_, hspan⟩, ⟨_, hl.span⟩, h.exists_of_mem_spans, hrest.exists_of_mem_spans⟩

end

end Lists

end Yul
