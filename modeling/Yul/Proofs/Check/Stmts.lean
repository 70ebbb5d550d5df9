import Yul.Proofs.Check.Exprs

/-!
# Checking statements is exact

`stmt_decides`: checking a statement finds an error unless the statement is well-formed among the
names around it. It leads to a state that agrees with the names behind the statement, and does what
the tree of the statement says.
-/

namespace Yul

namespace Check

section Setting

variable (cfg : Setting) {here : Option BlockId} {home : Homes} {env : Env} {scope : Nat}

/-! ## Assignments -/

theorem targetType_decides (x : Identifier) :
    DecidesIn here home env scope (targetType cfg scope x)
      (fun o => ∃ type, o = some type ∧ Refers cfg env .write x type) {} :=
  typeOfUse_decides cfg x _ (targetType_silently cfg scope x).quietly rfl rfl rfl

theorem target_decides (x : Identifier) (given : Label) :
    DecidesIn here home env scope (target cfg scope x (some given))
      (fun _ => Refers cfg env .write x given) {} := by
  exact .expect (targetType_decides cfg x) (p := fun declared => .assignmentType given declared)
    (fun _ => rfl) rfl fun _ => rfl

theorem checkTargets_decides (seen : List Name) (xs : List Identifier) :
    DecidesIn here home env scope (checkTargets seen xs)
      (fun _ => (xs.map Identifier.name).Nodup ∧ ∀ x ∈ xs, x.name ∉ seen) {} := by
  induction xs generalizing seen with
  | nil => exact Decides.done.congr fun _ => by simp
  | cons x xs ih =>
    have hcons : ((x :: xs).map Identifier.name).Nodup ∧ (∀ y ∈ x :: xs, y.name ∉ seen) ↔
        x.name ∉ seen ∧ (xs.map Identifier.name).Nodup ∧ ∀ y ∈ xs, y.name ∉ x.name :: seen := by
      rw [List.map_cons, List.nodup_cons, List.forall_mem_cons]
      simp only [List.mem_cons, not_or, List.mem_map, not_exists, not_and]
      constructor
      · rintro ⟨⟨hx, hnodup⟩, hseen, hrest⟩
        exact ⟨hseen, hnodup, fun y hy => ⟨hx y hy, hrest y hy⟩⟩
      · rintro ⟨hseen, hnodup, hrest⟩
        exact ⟨⟨fun y hy => (hrest y hy).1, hnodup⟩, hseen, fun y hy => (hrest y hy).2⟩
    rw [checkTargets]
    dsimp only
    split
    · next h =>
      refine (Decides.error _ rfl (checkTargets_silently scope _ xs).quietly.reaches).congr fun _ => ?_
      rw [hcons]
      exact iff_of_false id fun hall => hall.1 (List.contains_iff_mem.mp h)
    · next h =>
      refine (ih (x.name :: seen)).congr fun _ => ?_
      rw [hcons, and_iff_right (mt List.contains_iff_mem.mpr h)]

theorem valueAt_decides {types : List Label} {index : Nat} (h : index < types.length) :
    DecidesIn here home env scope (valueAt (some types) index) (· = some types[index]) {} := by
  rw [valueAt, List.getElem?_eq_getElem h]
  exact .pure _

theorem targets_decides {types : List Label} {index : Nat} {xs : List Identifier}
    (h : index + xs.length = types.length) :
    DecidesIn here home env scope (targets cfg scope (some types) index xs)
      (fun _ => List.Forall₂ (Refers cfg env .write) xs (types.drop index)) {} := by
  induction xs generalizing index with
  | nil =>
    have hend : types.length ≤ index := Nat.le_of_eq h.symm
    refine Decides.done.congr fun _ => iff_of_true trivial ?_
    rw [List.drop_of_length_le hend]
    exact .nil
  | cons x xs ih =>
    rw [List.length_cons] at h
    have hlt : index < types.length := by omega
    have hrest := @ih (index + 1) (by omega)
    refine .bind_of (S := fun value _ => value = some types[index] ∧
        List.Forall₂ (Refers cfg env .write) (x :: xs) (types.drop index)) (b := {})
      (valueAt_decides hlt) ?_ ?_ (fun _ => ?_) rfl
    · intro value
      refine ((target_silently cfg scope x value).bind fun _ =>
        targets_silently cfg scope fun types' htypes => ?_).quietly.reaches
      obtain rfl := Option.some.inj htypes
      omega
    · rintro _ rfl
      refine .seq (target_decides cfg x _) hrest (fun _ => ?_) rfl
      rw [List.drop_eq_getElem_cons hlt, List.forall₂_cons, and_iff_right rfl]
    · exact ⟨fun h => ⟨_, rfl, rfl, h⟩, fun ⟨_, _, _, h⟩ => h⟩

theorem assignment_decides (xs : List Identifier) (value : Expr) (span : Span) :
    DecidesIn here home env scope (assignment cfg scope xs value span)
      (fun _ => (xs.map Identifier.name).Nodup ∧
        ∃ types, List.Forall₂ (Refers cfg env .write) xs types ∧ Yields cfg env value types)
      (value.account home) := by
  have hnone : Quietly scope (targets cfg scope none 0 xs) :=
    (targets_silently cfg scope fun _ h => absurd h (by simp)).quietly
  have hsome {types : List Label} (h : types.length = xs.length) :
      Quietly scope (targets cfg scope (some types) 0 xs) :=
    (targets_silently cfg scope fun types' htypes => by
      obtain rfl := Option.some.inj htypes
      omega).quietly
  refine .seq (checkTargets_decides [] xs) (.bind_of (S := fun o _ => ∃ types, o = some types ∧
      List.Forall₂ (Refers cfg env .write) xs types) (b := {})
    (T := fun _ => ∃ types, List.Forall₂ (Refers cfg env .write) xs types ∧
      Yields cfg env value types) (expression_decides cfg value) ?_ ?_ (fun _ => ?_)
      (Account.append_nil _).symm) (fun _ => by simp) rfl
  · intro o
    split
    · split
      · next h => exact (hsome h).reaches
      · exact ((Quietly.report _ _ rfl).bind fun _ => hnone).reaches
    · exact hnone.reaches
  · rintro _ ⟨types, rfl, -⟩
    dsimp only
    split
    · next h => exact (targets_decides cfg (by omega)).congr fun _ => by simp
    · next h =>
      refine (Decides.error _ rfl hnone.reaches).congr fun _ => iff_of_false id ?_
      rintro ⟨_, ⟨⟩, hrefers⟩
      exact h hrefers.length_eq.symm
  · constructor
    · exact fun ⟨types, hrefers, hyields⟩ => ⟨_, ⟨types, rfl, hyields⟩, types, rfl, hrefers⟩
    · rintro ⟨_, ⟨types, rfl, hyields⟩, _, ⟨⟩, hrefers⟩
      exact ⟨types, hrefers, hyields⟩

/-! ## Declarations -/

theorem declare_decides {what : Declared} {x : Identifier} {symbol : Symbol} {e : Entity}
    {home' : Homes}
    (hdeclare : ∀ r, Models here home env scope r → r.record.scopes.isTaken scope x.name = false →
      Models here home' (env.declare x.name e) scope (r.take (.declare scope x.name symbol))) :
    Decides (Models here home env scope) (Models here home' (env.declare x.name e) scope)
      (declare what scope x symbol) (fun _ => Allowed x.name ∧ x.name ∉ env.taken) {} := by
  refine .seq (S := fun _ => x.name ∉ env.taken) (b := {}) (reportAll_decides _ x.span)
    ⟨fun r => ?_, fun r hr => ?_⟩ (fun _ => by rw [Dialect.harmless_namingProblems]) rfl
  · refine .head ⟨.look scope x.name, rfl⟩ ?_
    rw [after_bind, after_bind, value_get, after_get, after_emit]
    split
    · exact reaches_report _ _ _
    · exact reaches_emit _ _
  · have hlook := hr.quiet (e := .look scope x.name) rfl
    refine .of_take hlook.ready.fault (fun g hg => absurd hg (by simp [Event.finding?])) rfl
      (n := if (r.take (.look scope x.name)).record.scopes.isTaken scope x.name
        then report (.alreadyTaken what x.name) x.span
        else emit (.declare scope x.name symbol)) rfl rfl ?_
    cases htaken : (r.take (.look scope x.name)).record.scopes.isTaken scope x.name with
    | true =>
      refine ((Decides.failure x.span rfl).decides _ hlook).congr fun _ => ?_
      exact iff_of_false id fun hnot => hnot ((hlook.taken _).mp htaken)
    | false =>
      have hnew := hdeclare _ hlook htaken
      have hfree : x.name ∉ env.taken := fun hmem =>
        Bool.false_ne_true (htaken.symm.trans ((hlook.taken _).mpr hmem))
      refine ⟨fun _ _ => ⟨hfree, hnew, .of_take rfl hnew.ready.fault (.refl _)⟩, fun _ _ hclean _ =>
        ⟨(Run.clean_take hnew.ready.fault).mpr ⟨hclean, fun _ h => ?_⟩, rfl⟩⟩
      exact absurd h (by simp [Event.finding?])

theorem declareVariable_decides (x : TypedName) (type : Label) :
    Decides (Models here home env scope) (Models here home (env.declare x.name (.variable type)) scope)
      (declareVariable scope x type) (fun _ => Allowed x.name ∧ x.name ∉ env.taken) {} :=
  declare_decides (x := ⟨x.name, x.span⟩) fun _ hr hfree => hr.declareVariable type hfree

theorem declareVariables_decides (xs : List TypedName) :
    Decides (Models here home env scope) (Models here home (env.declareAll (variablesOf cfg xs)) scope)
      (declareVariables scope xs (cfg.dialect.declaredLabels xs))
      (fun _ => env.Declarable (variablesOf cfg xs)) {} := by
  induction xs generalizing env with
  | nil => exact Decides.done
  | cons x xs ih => exact .seq (declareVariable_decides x _) ih (fun _ => Iff.rfl) rfl

theorem parameters_decides (f : FunctionDef) :
    Decides (Models here home env scope)
      (Models here home (env.declareAll (variablesOf cfg (f.parameters ++ f.returns))) scope)
      (parameters cfg scope f)
      (fun _ => env.Declarable (variablesOf cfg (f.parameters ++ f.returns))) {} := by
  have hforM : ∀ xs : List TypedName, declareVariables scope xs (cfg.dialect.declaredLabels xs) =
      xs.forM fun x => declareVariable scope x (cfg.dialect.declaredType x.type) := by
    intro xs
    induction xs with
    | nil => rfl
    | cons x xs ih => exact congrArg (declareVariable scope x _ >>= fun _ => ·) ih
  rw [parameters, ← hforM]
  exact declareVariables_decides cfg _

theorem declaredTypes_decides (xs : List TypedName) :
    DecidesIn here home env scope (declaredTypes cfg xs)
      (fun types => cfg.dialect.AnnotatesAll xs ∧ types = cfg.dialect.declaredLabels xs) {} := by
  induction xs with
  | nil =>
    refine (Decides.pure []).congr fun types => ?_
    simp [Dialect.AnnotatesAll, Dialect.declaredLabels]
  | cons x xs ih =>
    have hone : DecidesIn here home env scope
        (do
          reportAll (cfg.dialect.writtenProblems x.type) x.span
          return cfg.dialect.declaredType x.type)
        (fun type => cfg.dialect.Annotates x.type ∧ type = cfg.dialect.declaredType x.type) {} :=
      .seq (reportAll_decides _ _) (.pure _)
        (fun _ => by rw [Dialect.harmless_writtenProblems]) rfl
    rw [declaredTypes, List.mapM_cons]
    refine .bind hone (fun type => .bind (T := fun types => cfg.dialect.AnnotatesAll xs ∧
      types = type :: cfg.dialect.declaredLabels xs) ih (fun types => .pure _) (fun types => ?_) rfl)
      (fun types => ?_) rfl
    · constructor
      · rintro ⟨h, htypes⟩
        exact ⟨_, ⟨h, rfl⟩, htypes⟩
      · rintro ⟨_, ⟨h, rfl⟩, htypes⟩
        exact ⟨h, htypes⟩
    · rw [Dialect.AnnotatesAll, List.forall_mem_cons]
      constructor
      · rintro ⟨⟨hx, h⟩, htypes⟩
        exact ⟨_, ⟨hx, rfl⟩, h, htypes⟩
      · rintro ⟨_, ⟨hx, rfl⟩, h, htypes⟩
        exact ⟨⟨hx, h⟩, htypes⟩

theorem checkInitial_decides (xs : List TypedName) {declared given : List Label}
    (hdeclared : declared.length = xs.length) (hgiven : given.length = xs.length) :
    DecidesIn here home env scope (checkInitial xs declared given) (fun _ => given = declared) {} := by
  induction xs generalizing declared given with
  | nil =>
    rw [List.length_nil, List.length_eq_zero_iff] at hdeclared hgiven
    exact Decides.done.congr fun _ => by simp [hdeclared, hgiven]
  | cons x xs ih =>
    obtain ⟨d, ds, rfl⟩ := List.exists_cons_of_length_eq_add_one hdeclared
    obtain ⟨g, gs, rfl⟩ := List.exists_cons_of_length_eq_add_one hgiven
    have hrest := ih (Nat.succ.inj hdeclared) (Nat.succ.inj hgiven)
    rw [checkInitial]
    dsimp only
    split
    · next h => exact hrest.congr fun _ => by simp [h]
    · next h =>
      refine (Decides.error _ rfl hrest.reaches).congr fun _ => iff_of_false id ?_
      exact fun heq => h (List.cons.inj heq).1.symm

theorem initialValue_decides (xs : List TypedName) (value : Option Expr) (span : Span) :
    DecidesIn here home env scope
      (initialValue cfg scope xs (cfg.dialect.declaredLabels xs) value span)
      (fun _ => ∀ e, value = some e → Yields cfg env e (cfg.dialect.declaredLabels xs))
      ((value.map (·.account home)).getD {}) := by
  have hlength : (cfg.dialect.declaredLabels xs).length = xs.length := List.length_map _
  cases value with
  | none => exact Decides.done.congr fun _ => by simp
  | some value =>
    refine .bind_of (S := fun o _ => o = some (cfg.dialect.declaredLabels xs)) (b := {})
      (expression_decides cfg value) ?_ ?_ (fun _ => ?_) (Account.append_nil _).symm
    · intro o
      split
      · split
        · exact (checkInitial_silently scope _ _ _).quietly.reaches
        · exact reaches_report _ _
      · exact reaches_pure ()
    · rintro _ ⟨given, rfl, -⟩
      dsimp only
      split
      · next h => exact (checkInitial_decides xs hlength h).congr fun _ => by simp
      · next h =>
        refine (Decides.failure _ rfl).congr fun _ => iff_of_false id ?_
        rintro ⟨⟩
        exact h hlength
    · simp only [Option.some.injEq, forall_eq']
      constructor
      · exact fun hyields => ⟨_, ⟨_, rfl, hyields⟩, rfl⟩
      · rintro ⟨_, ⟨_, rfl, hyields⟩, ⟨⟩⟩
        exact hyields

/-- A declaration finds an error unless its annotations are types, its value yields one value for
each variable, and its names are free. -/
theorem declaration_decides (xs : List TypedName) (value : Option Expr) (span : Span) :
    Decides (Models here home env scope) (Models here home (env.declareAll (variablesOf cfg xs)) scope)
      (declaration cfg scope xs value span)
      (fun _ => cfg.dialect.AnnotatesAll xs ∧
        (∀ e, value = some e → Yields cfg env e (cfg.dialect.declaredLabels xs)) ∧
        env.Declarable (variablesOf cfg xs))
      ((value.map (·.account home)).getD {}) := by
  refine .bind_of (S := fun _ _ => (∀ e, value = some e →
      Yields cfg env e (cfg.dialect.declaredLabels xs)) ∧ env.Declarable (variablesOf cfg xs))
    (b := (value.map (·.account home)).getD {}) (declaredTypes_decides cfg xs) ?_ ?_ (fun _ => ?_) rfl
  · intro types
    exact (Walks.quietly_bind (initialValue_quietly cfg scope xs types value span) fun _ =>
      declareVariables_walks scope xs types).reaches
  · rintro _ ⟨-, rfl⟩
    exact .seq (initialValue_decides cfg xs value span) (declareVariables_decides cfg xs)
      (fun _ => Iff.rfl) (Account.append_nil _).symm
  · exact ⟨fun ⟨h, hrest⟩ => ⟨_, ⟨h, rfl⟩, hrest⟩, fun ⟨_, ⟨h, _⟩, hrest⟩ => ⟨h, hrest⟩⟩

theorem expressionStatement_decides (e : Expr) :
    DecidesIn here home env scope (expressionStatement cfg scope e)
      (fun _ => Yields cfg env e []) (e.account home) := by
  exact .expect (expression_decides cfg e) (p := fun types => .unusedValues types.length)
    (fun _ => rfl) rfl fun _ => rfl

theorem declareFunction_decides {id : BlockId} (f : FunctionDef) :
    Decides (Models (some id) home env scope)
      (Models (some id) (home.define id f.name.name) (env.declare f.name.name
        (.function id (cfg.dialect.declaredLabels f.parameters)
          (cfg.dialect.declaredLabels f.returns))) scope)
      (declareFunction cfg scope f)
      (fun _ => (cfg.dialect.AnnotatesAll f.parameters ∧ cfg.dialect.AnnotatesAll f.returns) ∧
        Allowed f.name.name ∧ f.name.name ∉ env.taken) {} := by
  refine .bind_of (S := fun _ _ => cfg.dialect.AnnotatesAll f.returns ∧
      Allowed f.name.name ∧ f.name.name ∉ env.taken) (b := {}) (declaredTypes_decides cfg f.parameters)
    ?_ ?_ (fun _ => ?_) rfl
  · intro types
    exact (Walks.quietly_bind (declaredTypes_silently cfg scope f.returns).quietly fun _ =>
      declare_walks scope _ _ _).reaches
  · rintro _ ⟨-, rfl⟩
    refine .bind_of (S := fun _ _ => Allowed f.name.name ∧ f.name.name ∉ env.taken) (b := {})
      (declaredTypes_decides cfg f.returns) (fun _ => (declare_walks scope _ _ _).reaches) ?_
      (fun _ => ?_) rfl
    · rintro _ ⟨-, rfl⟩
      exact declare_decides (x := f.name) fun _ hr hfree => hr.declareFunction _ _ hfree
    · exact ⟨fun ⟨h, hrest⟩ => ⟨_, ⟨h, rfl⟩, hrest⟩, fun ⟨_, ⟨h, _⟩, hrest⟩ => ⟨h, hrest⟩⟩
  · rw [and_assoc]
    exact ⟨fun ⟨h, hrest⟩ => ⟨_, ⟨h, rfl⟩, hrest⟩, fun ⟨_, ⟨h, _⟩, hrest⟩ => ⟨h, hrest⟩⟩

theorem functions_decides (id : BlockId) (statements : List Stmt) :
    Decides (Models (some id) home env scope)
      (Models (some id) (home.enter id statements) (env.inBlock cfg id statements) scope)
      ((functionsOf statements).forM (declareFunction cfg scope))
      (fun _ => env.OpensBlock cfg id statements) {} := by
  rw [Homes.enter]
  unfold Env.inBlock Env.OpensBlock signaturesOf
  generalize functionsOf statements = fs
  induction fs generalizing home env with
  | nil => exact Decides.done.congr fun _ => by simp [Env.Declarable]
  | cons f fs ih =>
    refine .seq (declareFunction_decides cfg f) ih (fun _ => ?_) rfl
    rw [List.forall_mem_cons]
    exact ⟨fun ⟨⟨hf, hfs⟩, hname, hnames⟩ => ⟨⟨hf, hname⟩, hfs, hnames⟩,
      fun ⟨⟨hf, hname⟩, hfs, hnames⟩ => ⟨⟨hf, hfs⟩, hname, hnames⟩⟩

end Setting

end Check

end Yul
