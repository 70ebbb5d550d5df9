import Yul.Parse.Object
import Yul.Proofs.Parse.Grammar

/-!
# What a parser reads

`Gives p c a c'` says that the parser `p` at the cursor `c` succeeds with `a` and leads to `c'`.
`Reads c ts k c'` says that `c'` stands behind the tokens `ts` that start at `c`, and that `k` blocks
have been numbered in between. A parser is *sound* if all that it reads is derived from the grammar,
and *complete* if it reads what is derived, provided that no token behind it could go on.
-/

namespace Yul

/-! ## Items -/

/-- Items that stop at the end of the input. -/
inductive Ended : List Item → Prop where
  | last (span : Span) : Ended [.lexeme ⟨.endOfInput, span⟩]
  | cons {i : Item} {is : List Item} (h : ∀ span, i ≠ .lexeme ⟨.endOfInput, span⟩) (rest : Ended is) :
      Ended (i :: is)

theorem Ended.of_append {is : List Item} {i : Item} {rest : List Item} (h : Ended (is ++ i :: rest)) :
    Ended (i :: rest) := by
  induction is with
  | nil => exact h
  | cons j is ih =>
    generalize htail : is ++ i :: rest = tail at ih
    rw [List.cons_append, htail] at h
    cases h with
    | last => exact absurd htail (by simp)
    | cons _ hrest => exact ih hrest

/-- A token with some property comes first. -/
def Next (P : Token → Prop) (items : List Item) : Prop :=
  ∃ l rest, items = .lexeme l :: rest ∧ P l.token

theorem Next.mono {P Q : Token → Prop} {items : List Item} (h : Next P items)
    (hPQ : ∀ t, P t → Q t) : Next Q items := by
  obtain ⟨l, rest, hitems, hP⟩ := h
  exact ⟨l, rest, hitems, hPQ _ hP⟩

/-- Whether all strings among tokens denote bytes. -/
def AllDecode (ts : List Lexeme) : Prop :=
  ∀ l ∈ ts, l.token.Decodes

@[simp] theorem allDecode_nil : AllDecode [] :=
  List.forall_mem_nil _

@[simp] theorem allDecode_cons {l : Lexeme} {ts : List Lexeme} :
    AllDecode (l :: ts) ↔ l.token.Decodes ∧ AllDecode ts :=
  List.forall_mem_cons

@[simp] theorem allDecode_append {ts us : List Lexeme} :
    AllDecode (ts ++ us) ↔ AllDecode ts ∧ AllDecode us :=
  List.forall_mem_append

@[simp] theorem token_identifier (x : Identifier) : x.lexeme.token = .identifier x.name := rfl

@[simp] theorem token_punct (p : Punct) (span : Span) : (p.lexeme span).token = .punct p := rfl

@[simp] theorem token_keyword (k : Keyword) (span : Span) : (k.lexeme span).token = .keyword k := rfl

@[simp] theorem token_word (text : String) (span : Span) :
    (wordLexeme text span).token = .identifier text := rfl

@[simp] theorem decodes_identifier (name : Name) : (Token.identifier name).Decodes := trivial

@[simp] theorem decodes_punct (p : Punct) : (Token.punct p).Decodes := trivial

@[simp] theorem decodes_keyword (k : Keyword) : (Token.keyword k).Decodes := trivial

/-! ## Cursors -/

/-- The token at hand and the items behind it. -/
def Cursor.ahead (c : Cursor) : List Item :=
  .lexeme c.current :: c.rest

/-- From one cursor to another behind some tokens. -/
structure Reads (c : Cursor) (ts : List Lexeme) (k : Nat) (c' : Cursor) : Prop where
  ahead : c.ahead = ts.map Item.lexeme ++ c'.ahead
  previous : c'.previous = lastSpan c.previous ts
  nextBlock : c'.nextBlock = c.nextBlock + k

namespace Reads

variable {c c₁ c₂ : Cursor} {ts us : List Lexeme} {k m : Nat}

theorem refl (c : Cursor) : Reads c [] 0 c :=
  ⟨rfl, rfl, rfl⟩

theorem trans (h : Reads c ts k c₁) (h' : Reads c₁ us m c₂) : Reads c (ts ++ us) (k + m) c₂ where
  ahead := by rw [h.ahead, h'.ahead, List.map_append, List.append_assoc]
  previous := by rw [h'.previous, h.previous, lastSpan_append]
  nextBlock := by rw [h'.nextBlock, h.nextBlock, Nat.add_assoc]

theorem cast (h : Reads c ts k c₁) (hk : k = m) : Reads c ts m c₁ :=
  hk ▸ h

theorem nextBlock_eq (h : Reads c ts 0 c₁) : c₁.nextBlock = c.nextBlock :=
  h.nextBlock

theorem ended (h : Reads c ts k c₁) (hc : Ended c.ahead) : Ended c₁.ahead :=
  Ended.of_append (h.ahead ▸ hc)

theorem ahead_eq (h : Reads c ts k c₁) {after : List Item}
    (hahead : c.ahead = ts.map Item.lexeme ++ after) : c₁.ahead = after :=
  List.append_cancel_left (h.ahead.symm.trans hahead)

theorem spanOf_eq {l : Lexeme} (h : Reads c (l :: ts) k c₁) :
    l.span.merge c₁.previous = spanOf (l :: ts) := by
  rw [h.previous]
  rfl

theorem current_eq {l : Lexeme} (h : Reads c (l :: ts) k c₁) : c.current = l :=
  Item.lexeme.inj (List.cons.inj h.ahead).1

end Reads

namespace Parser

/-! ## Success -/

/-- A parser succeeds. -/
def Gives {α : Type} (p : Parser α) (c : Cursor) (a : α) (c' : Cursor) : Prop :=
  p.run c = .ok a c'

section Gives

variable {α β : Type} {c c' : Cursor}

theorem gives_of_run {p : Parser α} {a b : α} {c₁ : Cursor} (h : p.run c = .ok a c₁) :
    Gives p c b c' ↔ a = b ∧ c₁ = c' := by
  rw [Gives, h, EStateM.Result.ok.injEq]

theorem not_gives_of_run {p : Parser α} {e : SourceError} {a : α} {c₁ : Cursor}
    (h : p.run c = .error e c₁) : ¬Gives p c a c' := by
  rw [Gives, h]
  rintro ⟨⟩

@[simp] theorem gives_pure {a b : α} : Gives (pure a) c b c' ↔ a = b ∧ c = c' :=
  gives_of_run rfl

@[simp] theorem gives_bind {p : Parser α} {f : α → Parser β} {b : β} :
    Gives (p >>= f) c b c' ↔ ∃ a c₁, Gives p c a c₁ ∧ Gives (f a) c₁ b c' := by
  simp only [Gives, EStateM.run, bind, EStateM.bind]
  cases p c with
  | ok a c₁ =>
    constructor
    · exact fun h => ⟨a, c₁, rfl, h⟩
    · rintro ⟨_, _, ⟨⟩, h⟩
      exact h
  | error e c₁ => simp

@[simp] theorem gives_map {p : Parser α} {f : α → β} {b : β} :
    Gives (f <$> p) c b c' ↔ ∃ a, Gives p c a c' ∧ f a = b := by
  simp only [Gives, EStateM.run, Functor.map, EStateM.map]
  cases p c with
  | ok a c₁ =>
    constructor
    · rintro ⟨⟩
      exact ⟨a, rfl, rfl⟩
    · rintro ⟨_, ⟨⟩, rfl⟩
      rfl
  | error e c₁ => simp

@[simp] theorem gives_fail {cause : SourceError.Cause} {span : Span} {a : α} :
    Gives (fail cause span) c a c' ↔ False :=
  iff_false_intro (not_gives_of_run rfl)

@[simp] theorem gives_current {l : Lexeme} : Gives current c l c' ↔ l = c.current ∧ c = c' := by
  rw [eq_comm (a := l)]
  exact gives_of_run rfl

theorem gives_current_bind {p : Lexeme → Parser β} {b : β} :
    Gives (current >>= p) c b c' ↔ Gives (p c.current) c b c' :=
  .rfl

@[simp] theorem gives_unexpected {what : Expectation} {a : α} :
    Gives (unexpected what) c a c' ↔ False := by
  simp [unexpected]

@[simp] theorem gives_spanFrom {start span : Span} :
    Gives (spanFrom start) c span c' ↔ span = start.merge c.previous ∧ c = c' := by
  rw [eq_comm (a := span)]
  exact gives_of_run rfl

@[simp] theorem gives_bound {n : Nat} : Gives bound c n c' ↔ n = c.rest.length + 1 ∧ c = c' := by
  rw [eq_comm (a := n)]
  exact gives_of_run rfl

theorem gives_freshBlock {id : BlockId} :
    Gives freshBlock c id c' ↔ id = c.nextBlock ∧ { c with nextBlock := c.nextBlock + 1 } = c' := by
  rw [eq_comm (a := id)]
  exact gives_of_run rfl

theorem gives_remember {name : Name} {u : Unit} :
    Gives (remember name) c u c' ↔ { c with names := c.names.add name } = c' :=
  (gives_of_run rfl).trans (and_iff_right rfl)

theorem gives_advance {l : Lexeme} :
    Gives advance c l c' ↔ l = c.current ∧
      ((∃ next rest, c.rest = .lexeme next :: rest ∧
          { c with current := next, rest, previous := c.current.span } = c') ∨
        c.rest = [] ∧ { c with previous := c.current.span } = c') := by
  obtain ⟨current, rest, previous, nextBlock, names⟩ := c
  cases rest with
  | nil =>
    refine (gives_of_run rfl).trans ⟨?_, ?_⟩
    · rintro ⟨rfl, rfl⟩
      exact ⟨rfl, .inr ⟨rfl, rfl⟩⟩
    · rintro ⟨rfl, ⟨_, _, ⟨⟩, _⟩ | ⟨-, rfl⟩⟩
      exact ⟨rfl, rfl⟩
  | cons item rest =>
    cases item with
    | lexeme next =>
      refine (gives_of_run rfl).trans ⟨?_, ?_⟩
      · rintro ⟨rfl, rfl⟩
        exact ⟨rfl, .inl ⟨next, rest, rfl, rfl⟩⟩
      · rintro ⟨rfl, ⟨_, _, ⟨⟩, rfl⟩ | ⟨⟨⟩, _⟩⟩
        exact ⟨rfl, rfl⟩
    | bad text span =>
      refine iff_of_false (not_gives_of_run rfl) ?_
      rintro ⟨-, ⟨_, _, ⟨⟩, _⟩ | ⟨⟨⟩, _⟩⟩

/-! Parsers put together. -/

theorem Gives.pure {a : α} : Gives (pure a) c a c :=
  gives_pure.mpr ⟨rfl, rfl⟩

theorem Gives.bind {p : Parser α} {f : α → Parser β} {a : α} {b : β} {c₁ : Cursor}
    (h : Gives p c a c₁) (h' : Gives (f a) c₁ b c') : Gives (p >>= f) c b c' :=
  gives_bind.mpr ⟨a, c₁, h, h'⟩

theorem Gives.current : Gives current c c.current c :=
  gives_current.mpr ⟨rfl, rfl⟩

theorem Gives.bound : Gives bound c (c.rest.length + 1) c :=
  gives_bound.mpr ⟨rfl, rfl⟩

theorem Gives.remember {name : Name} :
    Gives (remember name) c () { c with names := c.names.add name } :=
  gives_remember.mpr rfl

theorem gives_spanOf {l : Lexeme} {ts : List Lexeme} {k : Nat} (h : Reads c (l :: ts) k c') :
    Gives (spanFrom l.span) c' (spanOf (l :: ts)) c' :=
  gives_spanFrom.mpr ⟨h.spanOf_eq.symm, rfl⟩

end Gives

/-! ## Soundness and completeness -/

section Specs

variable {α : Type}

/-- All that a parser reads is derived; `count` gives the number of blocks in it. -/
def Sound (p : Parser α) (R : Nat → List Lexeme → α → Prop) (count : α → Nat) : Prop :=
  ∀ c a c', Ended c.ahead → Gives p c a c' →
    ∃ ts, Reads c ts (count a) c' ∧ R c.nextBlock ts a ∧ AllDecode ts

/-- A parser reads all rows of up to `m` tokens that are derived, if the token behind the row is one
to stop at. -/
def Complete (m : Nat) (p : Parser α) (R : Nat → List Lexeme → α → Prop) (count : α → Nat)
    (stop : Token → Prop) : Prop :=
  ∀ c ts a after, ts.length ≤ m → R c.nextBlock ts a → c.ahead = ts.map Item.lexeme ++ after →
    Next stop after → ∃ c', Gives p c a c' ∧ Reads c ts (count a) c'

/-- The same for something without blocks. -/
def SoundPhrase (p : Parser α) (R : List Lexeme → α → Prop) : Prop :=
  ∀ c a c', Ended c.ahead → Gives p c a c' → ∃ ts, Reads c ts 0 c' ∧ R ts a ∧ AllDecode ts

def CompletePhrase (m : Nat) (p : Parser α) (R : List Lexeme → α → Prop)
    (stop : Token → Prop) : Prop :=
  ∀ c ts a after, ts.length ≤ m → R ts a → c.ahead = ts.map Item.lexeme ++ after →
    Next stop after → ∃ c', Gives p c a c' ∧ Reads c ts 0 c'

end Specs

/-! ## Single tokens -/

section Tokens

variable {c c' : Cursor} {l : Lexeme} {after : List Item} {t : Token}

theorem advance_sound (hc : Ended c.ahead) (h : Gives advance c l c')
    (hl : l.token ≠ .endOfInput) : Reads c [l] 0 c' := by
  obtain ⟨rfl, ⟨next, rest, hrest, rfl⟩ | ⟨hrest, rfl⟩⟩ := gives_advance.mp h
  · refine ⟨?_, rfl, rfl⟩
    rw [Cursor.ahead, hrest]
    rfl
  · rw [Cursor.ahead, hrest] at hc
    generalize c.current = l at hc hl
    cases hc with
    | last => exact absurd rfl hl
    | cons _ hnil => cases hnil

theorem advance_complete (hahead : c.ahead = .lexeme l :: after)
    (hnext : Next (fun _ => True) after) : ∃ c', Gives advance c l c' ∧ Reads c [l] 0 c' := by
  obtain ⟨next, rest, rfl, -⟩ := hnext
  obtain ⟨hl, hrest⟩ := List.cons.inj hahead
  obtain rfl := Item.lexeme.inj hl
  refine ⟨_, gives_advance.mpr ⟨rfl, .inl ⟨next, rest, hrest, rfl⟩⟩, ?_, rfl, rfl⟩
  rw [Cursor.ahead, hrest]
  rfl

theorem current_of_ahead (hahead : c.ahead = .lexeme l :: after) : c.current = l :=
  Item.lexeme.inj (List.cons.inj hahead).1

theorem accept_sound {b : Bool} (hc : Ended c.ahead) (h : Gives (accept t) c b c')
    (ht : t ≠ .endOfInput) :
    (b = true ∧ ∃ span, Reads c [⟨t, span⟩] 0 c') ∨ b = false ∧ c.current.token ≠ t ∧ c = c' := by
  simp only [accept, gives_bind, gives_current] at h
  obtain ⟨_, _, ⟨rfl, rfl⟩, h⟩ := h
  split at h
  · next htoken =>
    simp only [gives_bind, gives_pure] at h
    obtain ⟨l, _, hadvance, rfl, rfl⟩ := h
    obtain ⟨rfl, -⟩ := gives_advance.mp hadvance
    have hl : c.current = ⟨t, c.current.span⟩ := by rw [← htoken]
    exact .inl ⟨rfl, _, hl ▸ advance_sound hc hadvance (htoken ▸ ht)⟩
  · next htoken =>
    obtain ⟨rfl, rfl⟩ := gives_pure.mp h
    exact .inr ⟨rfl, htoken, rfl⟩

theorem accept_complete {span : Span} (hahead : c.ahead = .lexeme ⟨t, span⟩ :: after)
    (hnext : Next (fun _ => True) after) :
    ∃ c', Gives (accept t) c true c' ∧ Reads c [⟨t, span⟩] 0 c' := by
  obtain ⟨c₁, hadvance, hreads⟩ := advance_complete hahead hnext
  refine ⟨c₁, ?_, hreads⟩
  simp only [accept, gives_bind, gives_current]
  refine ⟨_, _, ⟨rfl, rfl⟩, ?_⟩
  rw [if_pos (by rw [current_of_ahead hahead])]
  exact gives_bind.mpr ⟨_, _, hadvance, gives_pure.mpr ⟨rfl, rfl⟩⟩

theorem accept_complete_of_ne (h : c.current.token ≠ t) : Gives (accept t) c false c := by
  simp only [accept, gives_bind, gives_current]
  refine ⟨_, _, ⟨rfl, rfl⟩, ?_⟩
  rw [if_neg h]
  exact gives_pure.mpr ⟨rfl, rfl⟩

theorem expect_sound {what : Expectation} (hc : Ended c.ahead) (h : Gives (expect t what) c l c')
    (ht : t ≠ .endOfInput) : ∃ span, l = ⟨t, span⟩ ∧ Reads c [⟨t, span⟩] 0 c' := by
  simp only [expect, gives_bind, gives_current] at h
  obtain ⟨_, _, ⟨rfl, rfl⟩, h⟩ := h
  split at h
  · next htoken =>
    obtain ⟨rfl, -⟩ := gives_advance.mp h
    have hl : c.current = ⟨t, c.current.span⟩ := by rw [← htoken]
    exact ⟨_, hl, hl ▸ advance_sound hc h (htoken ▸ ht)⟩
  · exact (gives_unexpected.mp h).elim

theorem expect_complete {what : Expectation} {span : Span}
    (hahead : c.ahead = .lexeme ⟨t, span⟩ :: after) (hnext : Next (fun _ => True) after) :
    ∃ c', Gives (expect t what) c ⟨t, span⟩ c' ∧ Reads c [⟨t, span⟩] 0 c' := by
  obtain ⟨c₁, hadvance, hreads⟩ := advance_complete hahead hnext
  refine ⟨c₁, ?_, hreads⟩
  simp only [expect, gives_bind, gives_current]
  refine ⟨_, _, ⟨rfl, rfl⟩, ?_⟩
  rwa [if_pos (by rw [current_of_ahead hahead])]

end Tokens

end Parser

end Yul
