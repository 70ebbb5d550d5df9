import Yul.Proofs.Run.Walk

/-!
# What a part of an analysis notes

The events of a run are looked at one sort at a time: `p` picks out of an event, and the state in
which it comes, what is of interest, and `Run.notesOf` is all of it, in order. `Check.Notes p I J m xs`
is the specification of a part `m` of an analysis that adds exactly `xs` to it, and a beginning of
`xs` if the run comes to a fault in between. The rules of this logic join the lists as the parts are
joined (`Notes.bind`).

A part that takes no events but those with `E` adds nothing of any other sort (`Check.TakesOnly`).
-/

namespace Yul

namespace Run

variable {β : Type}

/-- From `r` the run goes along `es` to `r'`. A run that comes to a fault goes along the events before
it. -/
structure Along (r : Run) (es : List Event) (r' : Run) : Prop where
  ended : r.fault ≠ none → r' = r
  events : r'.events = r.events ++ es
  reached : r'.fault = none → r' = es.foldl take r

theorem stop_of_fault {r : Run} (h : r.fault ≠ none) (f : Fault) : r.stop f = r := by
  rw [stop, if_pos (Option.isSome_iff_ne_none.mpr h)]

theorem fault_stop (r : Run) (f : Fault) : (r.stop f).fault ≠ none := by
  rw [stop]
  split
  · next h => exact Option.isSome_iff_ne_none.mp h
  · exact Option.some_ne_none f

namespace Along

variable {r r₁ r₂ : Run} {es es' : List Event}

theorem refl (r : Run) : r.Along [] r :=
  ⟨fun _ => rfl, (List.append_nil _).symm, fun _ => rfl⟩

theorem trans (h : r.Along es r₁) (h' : r₁.Along es' r₂) : r.Along (es ++ es') r₂ where
  ended hr := by
    have hr₁ := h.ended hr
    rw [h'.ended (hr₁ ▸ hr), hr₁]
  events := by rw [h'.events, h.events, List.append_assoc]
  reached hr₂ := by
    have hr₁ : r₁.fault = none := by
      by_contra hover
      exact hover (h'.ended hover ▸ hr₂)
    rw [List.foldl_append, ← h.reached hr₁]
    exact h'.reached hr₂

theorem take (r : Run) (e : Event) :
    (r.take e).fault = none ∧ r.Along [e] (r.take e) ∨
      (r.take e).fault ≠ none ∧ r.Along [] (r.take e) := by
  by_cases hr : r.fault = none
  · cases hclash : r.clash e with
    | none =>
      have hstep := take_of_fits hr hclash
      refine .inl ⟨hstep ▸ (r.change_fault e).trans hr, fun hover => absurd hr hover, ?_, fun _ => rfl⟩
      rw [hstep]
      exact List.reverse_cons
    | some f =>
      rw [take_of_clash hr hclash]
      exact .inr ⟨Option.some_ne_none f, fun hover => absurd hr hover, (List.append_nil _).symm, nofun⟩
  · rw [take_of_fault hr]
    exact .inr ⟨hr, .refl r⟩

theorem stop (r : Run) (f : Fault) : r.Along [] (r.stop f) where
  ended hr := stop_of_fault hr f
  events := by
    rw [List.append_nil, Run.stop]
    split <;> rfl
  reached h := absurd h (r.fault_stop f)

end Along

/-! ## Notes -/

/-- What is noted of events that follow on a state. -/
def notesOf (p : Run → Event → Option β) (r : Run) : List Event → List β
  | [] => []
  | e :: es => (p r e).toList ++ (r.take e).notesOf p es

theorem notesOf_append (p : Run → Event → Option β) (r : Run) (es es' : List Event) :
    r.notesOf p (es ++ es') = r.notesOf p es ++ (es.foldl take r).notesOf p es' := by
  induction es generalizing r with
  | nil => rfl
  | cons e es ih => rw [List.cons_append, notesOf, notesOf, ih, List.append_assoc, List.foldl_cons]

theorem notesOf_eq_nil {p : Run → Event → Option β} {es : List Event}
    (h : ∀ e ∈ es, ∀ r, p r e = none) (r : Run) : r.notesOf p es = [] := by
  induction es generalizing r with
  | nil => rfl
  | cons e es ih =>
    rw [List.forall_mem_cons] at h
    rw [notesOf, h.1 r, ih h.2]
    rfl

theorem notesOf_filterMap {γ : Type} (p : Run → Event → Option β) (g : β → Option γ) (r : Run)
    (es : List Event) : (r.notesOf p es).filterMap g = r.notesOf (fun r e => (p r e).bind g) es := by
  induction es generalizing r with
  | nil => rfl
  | cons e es ih =>
    rw [notesOf, notesOf, List.filterMap_append, ih]
    cases p r e with
    | none => rfl
    | some note => cases hg : g note <;> simp [hg]

theorem notesOf_eq_filterMap (q : Event → Option β) (r : Run) (es : List Event) :
    r.notesOf (fun _ => q) es = es.filterMap q := by
  induction es generalizing r with
  | nil => rfl
  | cons e es ih =>
    rw [notesOf, ih, List.filterMap_cons]
    cases q e <;> rfl

end Run

namespace Check

variable {α β : Type}

/-! ## Events of one sort -/

/-- Whether a part of an analysis takes no events but those with `E`. -/
def TakesOnly (E : Event → Prop) (m : Check α) : Prop :=
  ∀ r : Run, ∃ es, r.Along es (m.after r) ∧ ∀ e ∈ es, E e

namespace TakesOnly

variable {E E' : Event → Prop}

theorem mono {m : Check α} (hm : TakesOnly E m) (hE : ∀ e, E e → E' e) : TakesOnly E' m := by
  intro r
  obtain ⟨es, hes, hall⟩ := hm r
  exact ⟨es, hes, fun e he => hE e (hall e he)⟩

theorem pure (a : α) : TakesOnly E (pure a : Check α) :=
  fun r => ⟨[], .refl r, List.forall_mem_nil _⟩

theorem get : TakesOnly E (get : Check Run) :=
  fun r => ⟨[], .refl r, List.forall_mem_nil _⟩

theorem bind {m : Check α} {f : α → Check β} (hm : TakesOnly E m) (hf : ∀ a, TakesOnly E (f a)) :
    TakesOnly E (m >>= f) := by
  intro r
  obtain ⟨es, hes, hall⟩ := hm r
  obtain ⟨es', hes', hall'⟩ := hf (m.value r) (m.after r)
  exact ⟨es ++ es', hes.trans hes', List.forall_mem_append.mpr ⟨hall, hall'⟩⟩

theorem emit {e : Event} (he : E e) : TakesOnly E (emit e) := by
  intro r
  rcases Run.Along.take r e with ⟨-, hadded⟩ | ⟨-, hsame⟩
  · exact ⟨[e], hadded, List.forall_mem_singleton.mpr he⟩
  · exact ⟨[], hsame, List.forall_mem_nil _⟩

theorem stop (f : Fault) : TakesOnly E (stop f) :=
  fun r => ⟨[], .stop r f, List.forall_mem_nil _⟩

theorem ite {c : Prop} [Decidable c] {m m' : Check α} (hm : TakesOnly E m) (hm' : TakesOnly E m') :
    TakesOnly E (if c then m else m') := by
  split
  · exact hm
  · exact hm'

theorem forM {xs : List α} {f : α → Check PUnit} (hf : ∀ x ∈ xs, TakesOnly E (f x)) :
    TakesOnly E (xs.forM f) := by
  induction xs with
  | nil => exact .pure _
  | cons x xs ih =>
    rw [List.forall_mem_cons] at hf
    exact .bind hf.1 fun _ => ih hf.2

theorem mapM {xs : List α} {f : α → Check β} (hf : ∀ x ∈ xs, TakesOnly E (f x)) :
    TakesOnly E (xs.mapM f) := by
  induction xs with
  | nil => exact .pure _
  | cons x xs ih =>
    rw [List.forall_mem_cons] at hf
    rw [List.mapM_cons]
    exact .bind hf.1 fun _ => .bind (ih hf.2) fun _ => .pure _

end TakesOnly

/-! ## Parts that note something -/

/-- Started from `r`, a part of an analysis adds `xs` to what is noted, and leads to a state with `J`.
If the run comes to a fault, it has added a beginning of `xs`. -/
def NotesAt (p : Run → Event → Option β) (J : Run → Prop) (r : Run) (m : Check α) (xs : List β) :
    Prop :=
  ∃ es, r.Along es (m.after r) ∧ r.notesOf p es <+: xs ∧
    ((m.after r).fault = none → J (m.after r) ∧ r.notesOf p es = xs)

/-- Started from any state with `I`, a part of an analysis adds `xs` to what is noted, and leads to a
state with `J`. -/
structure Notes (p : Run → Event → Option β) (I J : Run → Prop) (m : Check α) (xs : List β) :
    Prop where
  ended : ∀ r : Run, r.fault ≠ none → m.after r = r
  notes : ∀ r : Run, I r → NotesAt p J r m xs

namespace Notes

variable {γ : Type} {p : Run → Event → Option γ} {I I₁ J : Run → Prop} {xs ys zs : List γ}

theorem pure (a : α) (hJ : ∀ r, I r → J r) : Notes p I J (pure a : Check α) [] where
  ended _ _ := rfl
  notes r hI := ⟨[], .refl r, List.prefix_rfl, fun _ => ⟨hJ r hI, rfl⟩⟩

/-- What comes behind a part may rely on the value that the part gives. -/
theorem bind_of {m : Check α} {f : α → Check β} {P : α → Prop} (hvalue : ∀ r, P (m.value r))
    (hm : Notes p I I₁ m xs) (hf : ∀ a, P a → Notes p I₁ J (f a) ys) (hzs : zs = xs ++ ys) :
    Notes p I J (m >>= f) zs where
  ended r hr := by
    rw [after_bind, hm.ended r hr]
    exact (hf _ (hvalue r)).ended r hr
  notes r hI := by
    obtain ⟨es, hes, hbegins, hend⟩ := hm.notes r hI
    have hf := hf (m.value r) (hvalue r)
    rw [NotesAt, after_bind]
    by_cases hfault : (m.after r).fault = none
    · obtain ⟨hI₁, hxs⟩ := hend hfault
      obtain ⟨es', hes', hbegins', hend'⟩ := hf.notes _ hI₁
      have hnotes : r.notesOf p (es ++ es') = xs ++ (m.after r).notesOf p es' := by
        rw [Run.notesOf_append, hxs, ← hes.reached hfault]
      refine ⟨es ++ es', hes.trans hes', ?_, fun hlast => ⟨(hend' hlast).1, ?_⟩⟩
      · rw [hnotes, hzs]
        exact (List.prefix_append_right_inj xs).mpr hbegins'
      · rw [hnotes, (hend' hlast).2, hzs]
    · rw [hf.ended _ hfault]
      exact ⟨es, hes, hzs ▸ hbegins.trans (List.prefix_append xs ys), fun hlast => absurd hlast hfault⟩

theorem bind {m : Check α} {f : α → Check β} (hm : Notes p I I₁ m xs)
    (hf : ∀ a, Notes p I₁ J (f a) ys) (hzs : zs = xs ++ ys) : Notes p I J (m >>= f) zs :=
  hm.bind_of (P := fun _ => True) (fun _ => trivial) (fun a _ => hf a) hzs

theorem emit {e : Event} (hp : ∀ r, I r → (p r e).toList = xs)
    (hJ : ∀ r, I r → (r.take e).fault = none → J (r.take e)) : Notes p I J (emit e) xs where
  ended _ hr := Run.take_of_fault hr e
  notes r hI := by
    rw [NotesAt, after_emit]
    rcases Run.Along.take r e with ⟨-, hadded⟩ | ⟨hfault, hsame⟩
    · have hnotes : r.notesOf p [e] = xs := (List.append_nil _).trans (hp r hI)
      exact ⟨[e], hadded, hnotes ▸ List.prefix_rfl, fun hlast => ⟨hJ r hI hlast, hnotes⟩⟩
    · exact ⟨[], hsame, List.nil_prefix, fun hlast => absurd hlast hfault⟩

theorem ite {c : Prop} [Decidable c] {m m' : Check α} (hm : c → Notes p I J m xs)
    (hm' : ¬c → Notes p I J m' xs) : Notes p I J (if c then m else m') xs := by
  split
  · next h => exact hm h
  · next h => exact hm' h

theorem leading {m : Check α} (hm : Notes p I I₁ m xs)
    (hJ : ∀ r, I r → (m.after r).fault = none → J (m.after r)) : Notes p I J m xs where
  ended := hm.ended
  notes r hI := by
    obtain ⟨es, hes, hbegins, hend⟩ := hm.notes r hI
    exact ⟨es, hes, hbegins, fun hfault => ⟨hJ r hI hfault, (hend hfault).2⟩⟩

theorem opening {m : Check ScopeId} {e : Event} {f : ScopeId → Check β} {K : ScopeId → Run → Prop}
    (hm : ∀ r, m.after r = r.take e ∧ m.value r = r.record.scopes.size)
    (hp : ∀ r, p r e = none)
    (hK : ∀ r, I r → (r.take e).fault = none → K r.record.scopes.size (r.take e))
    (hf : ∀ s, Notes p (K s) J (f s) xs) : Notes p I J (m >>= f) xs where
  ended r hr := by
    rw [after_bind, (hm r).1, Run.take_of_fault hr]
    exact (hf _).ended r hr
  notes r hI := by
    rw [NotesAt, after_bind, (hm r).1, (hm r).2]
    have hf := hf r.record.scopes.size
    rcases Run.Along.take r e with ⟨hfault, hadded⟩ | ⟨hfault, hsame⟩
    · obtain ⟨es, hes, hbegins, hend⟩ := hf.notes _ (hK r hI hfault)
      have hnotes : r.notesOf p (e :: es) = (r.take e).notesOf p es := by
        rw [Run.notesOf, hp r]
        rfl
      exact ⟨e :: es, hadded.trans hes, hnotes ▸ hbegins,
        fun hlast => ⟨(hend hlast).1, hnotes.trans (hend hlast).2⟩⟩
    · rw [hf.ended _ hfault]
      exact ⟨[], hsame, List.nil_prefix, fun hlast => absurd hlast hfault⟩

theorem filterMap_events {q : Event → Option γ} {m : Check α} (hm : Notes (fun _ => q) I J m xs)
    {r : Run} (hI : I r) : ∃ ys, ys <+: xs ∧
      (m.after r).events.filterMap q = r.events.filterMap q ++ ys ∧
        ((m.after r).fault = none → ys = xs) := by
  obtain ⟨es, hes, hbegins, hend⟩ := hm.notes r hI
  rw [Run.notesOf_eq_filterMap] at hbegins hend
  exact ⟨es.filterMap q, hbegins, by rw [hes.events, List.filterMap_append],
    fun hfault => (hend hfault).2⟩

end Notes

theorem TakesOnly.notes {γ : Type} {E : Event → Prop} {p : Run → Event → Option γ} {I J : Run → Prop}
    {m : Check α} (hm : TakesOnly E m) (hp : ∀ r e, E e → p r e = none)
    (hJ : ∀ r, I r → (m.after r).fault = none → J (m.after r)) : Notes p I J m [] where
  ended r hr := by
    obtain ⟨_, hes, -⟩ := hm r
    exact hes.ended hr
  notes r hI := by
    obtain ⟨es, hes, hall⟩ := hm r
    have hnil := Run.notesOf_eq_nil (fun e he r => hp r e (hall e he)) r
    exact ⟨es, hes, hnil ▸ List.prefix_rfl, fun hfault => ⟨hJ r hI hfault, hnil⟩⟩

end Check

end Yul
