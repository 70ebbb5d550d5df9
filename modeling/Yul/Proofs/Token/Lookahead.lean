import Yul.Proofs.Token.Tiles

/-!
# Looking ahead

A reader is asked for items, for looks at the item that comes next, and for its source, in any order.
Looks neither lose nor repeat anything: what is taken out in the course of the calls, by reading or by
a look that comes upon a bad piece, are the items that reading alone hands out, from the first one
on (`Reader.log_faithful`). A token that a look shows is shown again until it is read.

The sequence that reading alone hands out is `Reader.nth`; a call leaves it as it is, or takes its
first item off.
-/

namespace Yul

namespace Reader

/-! ## Calls -/

/-- What a reader can be asked for. -/
inductive Call where
  | next
  | peek
  | source
deriving DecidableEq, Repr

inductive Answer where
  | item (i : Item)
  | text (source : String)
deriving DecidableEq, Repr

/-- The answer to a call, and the reader after it. -/
def answer (r : Reader) : Call → Answer × Reader
  | .next => (.item r.next.1, r.next.2)
  | .peek => (.item r.peek.1, r.peek.2)
  | .source => (.text r.source, r)

/-- A row of calls with their answers. -/
def log (r : Reader) : List Call → List (Call × Answer)
  | [] => []
  | c :: calls => (c, (r.answer c).1) :: (r.answer c).2.log calls

/-- The item that a call takes out: a look takes out a bad piece, but no token. -/
def taken? : Call × Answer → Option Item
  | (.next, .item i) => some i
  | (.peek, .item (.bad text span)) => some (.bad text span)
  | _ => none

/-- Looks change nothing about what is read from a source. -/
structure Faithful (source : String) (log : List (Call × Answer)) : Prop where
  /-- what is taken out are the first items that are read without looks -/
  taken : log.filterMap taken? =
    (List.range (log.filterMap taken?).length).map (ofSource source).nth
  /-- a token that is looked at is what the next read hands out, and what looks before it show -/
  kept : ∀ before l between c a after,
    log = before ++ (.peek, .item (.lexeme l)) :: (between ++ (c, a) :: after) →
    (∀ entry ∈ between, entry.1 ≠ .next) → c ≠ .source → a = .item (.lexeme l)
  source : ∀ entry ∈ log, entry.1 = .source → entry.2 = .text source

/-! ## What a look leaves behind -/

section Calls

variable {r : Reader} {l : Lexeme}

theorem next_of_peeked (h : r.peeked = some l) : r.next = (.lexeme l, { r with peeked := none }) := by
  rw [next, h]

theorem peek_of_peeked (h : r.peeked = some l) : r.peek = (.lexeme l, r) := by
  obtain ⟨source, pending, peeked⟩ := r
  obtain rfl : peeked = some l := h
  rfl

theorem peek_of_bad {text : String} {span : Span} (h : r.next.1 = .bad text span) :
    r.peek = r.next := by
  have hnext : r.next = (.bad text span, r.next.2) := Prod.ext h rfl
  rw [peek, hnext]

theorem peek_of_lexeme (h : r.next.1 = .lexeme l) :
    r.peek = (.lexeme l, { r.next.2 with peeked := some l }) := by
  rw [peek, show r.next = (.lexeme l, r.next.2) from Prod.ext h rfl]

theorem peeked_next (r : Reader) : r.next.2.peeked = none := by
  obtain ⟨source, pending, peeked⟩ := r
  cases peeked with
  | some l => rfl
  | none => cases pending <;> rfl

theorem source_next (r : Reader) : r.next.2.source = r.source := by
  obtain ⟨source, pending, peeked⟩ := r
  cases peeked with
  | some l => rfl
  | none => cases pending <;> rfl

theorem nth_peek_of_lexeme (h : r.next.1 = .lexeme l) : r.peek.2.nth = r.nth := by
  rw [peek_of_lexeme h]
  have hnext : Reader.next { r.next.2 with peeked := some l } = (.lexeme l, r.next.2) := by
    rw [next_of_peeked rfl, ← peeked_next r]
  funext n
  cases n with
  | zero => rw [nth, nth, hnext, h]
  | succ n => rw [nth, nth, hnext]

/-! ## One call -/

theorem source_answer (r : Reader) (c : Call) : (r.answer c).2.source = r.source := by
  cases c with
  | next => exact source_next r
  | source => rfl
  | peek =>
    cases hnext : r.next.1 with
    | lexeme l => rw [answer, peek_of_lexeme hnext, source_next]
    | bad text span => rw [answer, peek_of_bad hnext, source_next]

/-- A call takes off the first item of those that reading alone hands out, or none of them. -/
theorem nth_answer (r : Reader) (c : Call) :
    taken? (c, (r.answer c).1) = none ∧ (r.answer c).2.nth = r.nth ∨
      taken? (c, (r.answer c).1) = some (r.nth 0) ∧ ∀ n, (r.answer c).2.nth n = r.nth (n + 1) := by
  cases c with
  | next => exact .inr ⟨rfl, fun _ => rfl⟩
  | source => exact .inl ⟨rfl, rfl⟩
  | peek =>
    cases hnext : r.next.1 with
    | lexeme l =>
      refine .inl ⟨?_, nth_peek_of_lexeme hnext⟩
      rw [answer, peek_of_lexeme hnext]
      rfl
    | bad text span =>
      refine .inr ⟨?_, fun n => ?_⟩
      · rw [answer, peek_of_bad hnext, hnext, nth, hnext, taken?]
      · rw [answer, peek_of_bad hnext, nth]

theorem answer_of_peeked (h : r.peeked = some l) {c : Call} (hc : c ≠ .next) :
    (r.answer c).2.peeked = some l := by
  cases c with
  | next => exact absurd rfl hc
  | source => exact h
  | peek => rw [answer, peek_of_peeked h, h]

theorem shown_of_peeked (h : r.peeked = some l) {c : Call} (hc : c ≠ .source) :
    (r.answer c).1 = .item (.lexeme l) := by
  cases c with
  | next => rw [answer, next_of_peeked h]
  | source => exact absurd rfl hc
  | peek => rw [answer, peek_of_peeked h]

/-- A look that shows a token keeps it. -/
theorem peeked_of_shown (h : (r.answer .peek).1 = .item (.lexeme l)) :
    (r.answer .peek).2.peeked = some l := by
  cases hnext : r.next.1 with
  | lexeme k =>
    rw [answer, peek_of_lexeme hnext] at h ⊢
    obtain rfl := Item.lexeme.inj (Answer.item.inj h)
    rfl
  | bad text span =>
    rw [answer, peek_of_bad hnext, hnext] at h
    cases h

end Calls

/-! ## Rows of calls -/

theorem taken_log (r : Reader) (calls : List Call) :
    (r.log calls).filterMap taken? =
      (List.range ((r.log calls).filterMap taken?).length).map r.nth := by
  induction calls generalizing r with
  | nil => rfl
  | cons c calls ih =>
    rw [log]
    rcases nth_answer r c with ⟨htaken, hnth⟩ | ⟨htaken, hnth⟩
    · rw [List.filterMap_cons_none htaken, ← hnth]
      exact ih _
    · have hrest : (r.answer c).2.nth = r.nth ∘ Nat.succ := funext hnth
      rw [List.filterMap_cons_some htaken, List.length_cons, List.range_succ_eq_map, List.map_cons,
        List.map_map, ← hrest, ← ih]

theorem source_log (r : Reader) (calls : List Call) :
    ∀ entry ∈ r.log calls, entry.1 = .source → entry.2 = .text r.source := by
  induction calls generalizing r with
  | nil => exact List.forall_mem_nil _
  | cons c calls ih =>
    refine List.forall_mem_cons.mpr ⟨?_, ?_⟩
    · rintro rfl
      rfl
    · rw [← source_answer r c]
      exact ih _

theorem exists_log_of_append {r : Reader} {calls : List Call} {before rest : List (Call × Answer)}
    (h : r.log calls = before ++ rest) : ∃ r' calls', rest = log r' calls' := by
  induction before generalizing r calls with
  | nil => exact ⟨r, calls, h.symm⟩
  | cons entry before ih =>
    cases calls with
    | nil => cases h
    | cons c calls => exact ih (List.cons.inj h).2

theorem shown_of_log {r : Reader} {l : Lexeme} (h : r.peeked = some l) {calls : List Call}
    {between after : List (Call × Answer)} {c : Call} {a : Answer}
    (hlog : r.log calls = between ++ (c, a) :: after)
    (hbetween : ∀ entry ∈ between, entry.1 ≠ .next) (hc : c ≠ .source) : a = .item (.lexeme l) := by
  induction between generalizing r calls with
  | nil =>
    cases calls with
    | nil => cases hlog
    | cons d calls =>
      obtain ⟨rfl, rfl⟩ := Prod.mk.inj (List.cons.inj hlog).1
      exact shown_of_peeked h hc
  | cons entry between ih =>
    cases calls with
    | nil => cases hlog
    | cons d calls =>
      obtain ⟨hentry, hrest⟩ := List.cons.inj hlog
      rw [List.forall_mem_cons, ← hentry] at hbetween
      exact ih (answer_of_peeked h hbetween.1) hrest hbetween.2

/-! ## Main result -/

/-- Whatever a reader of a source is asked for, looks change nothing about what is read. -/
theorem log_faithful (source : String) (calls : List Call) :
    Faithful source ((ofSource source).log calls) where
  taken := taken_log _ calls
  source := source_log _ calls
  kept before l between c a after hlog hbetween hc := by
    obtain ⟨r, calls', hrest⟩ := exists_log_of_append hlog
    cases calls' with
    | nil => cases hrest
    | cons d calls' =>
      obtain ⟨hlook, hbehind⟩ := List.cons.inj hrest
      obtain ⟨rfl, hshown⟩ := Prod.mk.inj hlook
      exact shown_of_log (peeked_of_shown hshown.symm) hbehind.symm hbetween hc

/-- The first look takes out the bad piece, the second one shows the end behind it. -/
example : (ofSource "#").log [.peek, .peek, .next] =
    [(.peek, .item (.bad "#" ⟨0, 1⟩)), (.peek, .item (.lexeme ⟨.endOfInput, ⟨1, 1⟩⟩)),
      (.next, .item (.lexeme ⟨.endOfInput, ⟨1, 1⟩⟩))] := by
  decide +kernel

end Reader

end Yul
