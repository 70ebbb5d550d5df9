import Yul.Proofs.Prompt.Rows

/-!
# Parsers that fail at the first offending token

A parser is prompt for a language of rows if it stops in time. When it succeeds, it has taken a row
of the language, and it would have done so whatever stands behind the token at hand. When it fails
because of the order of the tokens, what it has taken can be completed to a row of the language, and
it fails as well whatever stands behind the token at hand (`PromptAt`).

The bounds of loops and of depths depend on how much stands behind, so a judgement is about a family
of parsers. Its members differ in their bounds only, and `room i` says how many items may stand behind
the token at hand for the bounds of the member `i` to be enough.
-/

namespace Yul

/-! ## Cursors and errors -/

/-- The same place with other items behind the token at hand. -/
def Cursor.onto (c : Cursor) (rest : List Item) : Cursor :=
  { c with rest }

/-- From a cursor to another one behind the tokens `ts`; `seen` are the tokens fetched on the way. The
items of the other cursor do not matter, those behind its token at hand are `after`. -/
structure Cursor.Takes (c : Cursor) (ts seen : List Lexeme) (after : List Item) (c' : Cursor) :
    Prop where
  rest : c.rest = seen.map Item.lexeme ++ after
  row : c.current :: seen = ts ++ [c'.current]
  previous : c'.previous = lastSpan c.previous ts

namespace Cursor.Takes

variable {c c₁ c₂ : Cursor} {ts us seen seen' : List Lexeme} {after rest : List Item}

theorem refl (c : Cursor) : c.Takes [] [] c.rest c :=
  ⟨rfl, rfl, rfl⟩

theorem trans (h : c.Takes ts seen after c₁) (h' : (c₁.onto after).Takes us seen' rest c₂) :
    c.Takes (ts ++ us) (seen ++ seen') rest c₂ where
  rest := by
    have hrest : after = seen'.map Item.lexeme ++ rest := h'.rest
    rw [h.rest, hrest, List.map_append, List.append_assoc]
  row := by
    have hrow : c₁.current :: seen' = us ++ [c₂.current] := h'.row
    rw [List.append_assoc, ← hrow, ← List.cons_append, h.row, List.append_assoc, List.singleton_append]
  previous := by
    have hprevious : c₂.previous = lastSpan c₁.previous us := h'.previous
    rw [hprevious, h.previous, lastSpan_append]

theorem length (h : c.Takes ts seen after c₁) : seen.length = ts.length := by
  have hrow := congrArg List.length h.row
  simpa using hrow

theorem onto (h : c.Takes ts seen after c₁) : c.onto (seen.map Item.lexeme ++ after) = c := by
  rw [← h.rest]
  rfl

theorem ahead (h : c.Takes ts seen after c₁) :
    c.ahead = ts.map Item.lexeme ++ (c₁.onto after).ahead := by
  have hrow := congrArg (List.map Item.lexeme) h.row
  rw [List.map_cons, List.map_append] at hrow
  rw [Cursor.ahead, h.rest, ← List.cons_append, hrow, List.append_assoc]
  rfl

end Cursor.Takes

/-- Why a token that is a string stands for no bytes. -/
def Token.Refuses : Token → Text.LiteralError → Prop
  | string raw, e => Text.decodeString raw.toList = .error e
  | hexString raw, e => Text.decodeHexString raw.toList = .error e
  | _, _ => False

/-- A lexical error among items: the first bad piece, or a literal in front of it. -/
inductive SourceError.Lexical : List Item → SourceError → Prop where
  | text (ts : List Lexeme) (text : String) (span : Span) (after : List Item) :
      Lexical (ts.map Item.lexeme ++ .bad text span :: after) ⟨.unexpectedText text, span⟩
  | literal (ts : List Lexeme) (l : Lexeme) (after : List Item) (e : Text.LiteralError)
      (hrefuses : l.token.Refuses e) :
      Lexical (ts.map Item.lexeme ++ .lexeme l :: after) ⟨.badLiteral e, l.span⟩

theorem SourceError.Lexical.behind {is : List Item} {e : SourceError} (h : Lexical is e)
    (ts : List Lexeme) : Lexical (ts.map Item.lexeme ++ is) e := by
  cases h with
  | text us text span after =>
    rw [← List.append_assoc, ← List.map_append]
    exact .text (ts ++ us) text span after
  | literal us l after e hrefuses =>
    rw [← List.append_assoc, ← List.map_append]
    exact .literal (ts ++ us) l after e hrefuses

/-- A syntactic error because of the token `l`, which stands behind the tokens `taken`, the last of
them at `previous`. Only a switch without arms is not reported at the token that comes instead. -/
structure SourceError.Blames (e : SourceError) (l : Lexeme) (taken : List Lexeme) (previous : Span) :
    Prop where
  stage : e.stage = .syntactic
  token : e.cause ≠ .switchWithoutCases → e.span = l.span
  switch : e.cause = .switchWithoutCases → ∃ start ∈ taken, e.span = start.span.merge previous

/-- Causes of syntactic errors that are reported at the token at hand. -/
def SourceError.Cause.IsAtHand (cause : Cause) : Prop :=
  cause.stage = .syntactic ∧ cause ≠ .switchWithoutCases

theorem SourceError.Cause.IsAtHand.expected (what : Expectation) (found : Token) :
    (Cause.expected what found).IsAtHand :=
  ⟨rfl, nofun⟩

theorem SourceError.Cause.IsAtHand.defaultNotLast : Cause.defaultNotLast.IsAtHand :=
  ⟨rfl, nofun⟩

theorem SourceError.Cause.IsAtHand.blames {cause : Cause} (h : cause.IsAtHand) (l : Lexeme)
    (taken : List Lexeme) (previous : Span) :
    SourceError.Blames ⟨cause, l.span⟩ l taken previous :=
  ⟨h.1, fun _ => rfl, fun hswitch => absurd hswitch h.2⟩

namespace Parser

/-! ## The judgement -/

section Judgement

variable {ι κ : Type} {α β : Type}

/-- All members of a family with enough room fail. -/
def Fails (room : ι → Nat) (P : ι → Parser α) (c : Cursor) (E : SourceError → Prop) : Prop :=
  ∀ i, c.rest.length < room i → ∃ e c', E e ∧ (P i).run c = .error e c'

/-- A family of parsers is prompt at a cursor, in front of which the tokens `before` were taken. -/
inductive PromptAt (room : ι → Nat) (P : ι → Parser α) (before : List Lexeme) (c : Cursor)
    (L : Language Lexeme) : Prop where
  | taken {ts seen : List Lexeme} {after : List Item} {a : α} {c' : Cursor}
      (htakes : c.Takes ts seen after c') (hrow : ts ∈ L)
      (hgives : ∀ i rest, (seen.map Item.lexeme ++ rest).length < room i →
        Gives (P i) (c.onto (seen.map Item.lexeme ++ rest)) a (c'.onto rest))
  | lexical {e : SourceError} (he : SourceError.Lexical c.ahead e) (hfails : Fails room P c (· = e))
  | stuck {ts seen us : List Lexeme} {after : List Item} {c' : Cursor} {e : SourceError}
      (htakes : c.Takes ts seen after c') (hrow : ts ++ us ∈ L)
      (hspell : Spellable us) (hblames : e.Blames c'.current (before ++ ts) c'.previous)
      (hfails : Fails room P c (· = e))
      (hothers : ∀ rest, Fails room P (c.onto (seen.map Item.lexeme ++ rest)) fun _ => True)

/-- A family of parsers is prompt wherever the tokens `past` were taken before and fewer than `n` items
stand behind a token `l` with `T l`. -/
def Prompt (past : List Lexeme) (n : Nat) (room : ι → Nat) (T : Lexeme → Prop) (P : ι → Parser α)
    (L : Language Lexeme) : Prop :=
  ∀ before c, past ⊆ before → Ended c.ahead → c.rest.length < n → T c.current →
    PromptAt room P before c L

variable {room room' : ι → Nat} {P Q : ι → Parser α} {F : ι → α → Parser β} {before : List Lexeme}
  {c : Cursor} {L M : Language Lexeme} {E : SourceError → Prop}

theorem run_bind_of_gives {p : Parser α} {f : α → Parser β} {a : α} {c' : Cursor} (h : Gives p c a c') :
    (p >>= f).run c = (f a).run c' := by
  rw [Gives] at h
  simp only [EStateM.run, bind, EStateM.bind] at h ⊢
  rw [h]

theorem run_bind_of_error {p : Parser α} {f : α → Parser β} {e : SourceError} {c' : Cursor}
    (h : p.run c = .error e c') : (p >>= f).run c = .error e c' := by
  simp only [EStateM.run, bind, EStateM.bind] at h ⊢
  rw [h]

theorem advance_cases (c : Cursor) : (∃ c', Gives Parser.advance c c.current c') ∨
    ∃ text span rest, c.rest = .bad text span :: rest ∧
      Parser.advance.run c = .error ⟨.unexpectedText text, span⟩ c := by
  obtain ⟨current, rest, previous, nextBlock, names⟩ := c
  cases rest with
  | nil => exact .inl ⟨_, rfl⟩
  | cons item rest =>
    cases item with
    | bad text span => exact .inr ⟨text, span, rest, rfl, rfl⟩
    | lexeme l => exact .inl ⟨_, rfl⟩

/-! ## Failures -/

namespace Fails

theorem bind (h : Fails room P c E) : Fails room (fun i => P i >>= F i) c E := by
  intro i hi
  obtain ⟨e, c', he, hrun⟩ := h i hi
  exact ⟨e, c', he, run_bind_of_error hrun⟩

theorem behind {a : α} {c' : Cursor} (hgives : ∀ i, c.rest.length < room i → Gives (P i) c a c')
    (hroom : ∀ i, c.rest.length < room i → c'.rest.length < room' i)
    (h : Fails room' (fun i => F i a) c' E) : Fails room (fun i => P i >>= F i) c E := by
  intro i hi
  obtain ⟨e, d, he, hrun⟩ := h i (hroom i hi)
  exact ⟨e, d, he, (run_bind_of_gives (hgives i hi)).trans hrun⟩

theorem reindex {room' : κ → Nat} (g : κ → ι) (hroom : ∀ j, room' j ≤ room (g j))
    (h : Fails room P c E) : Fails room' (fun j => P (g j)) c E :=
  fun j hj => h (g j) (Nat.lt_of_lt_of_le hj (hroom j))

theorem congr (h : Fails room Q c E)
    (hrun : ∀ i, c.rest.length < room i → (P i).run c = (Q i).run c) : Fails room P c E := by
  intro i hi
  rw [hrun i hi]
  exact h i hi

end Fails

/-! ## Rules at a cursor -/

namespace PromptAt

theorem mono (h : PromptAt room P before c L) (hLM : L ≤ M) : PromptAt room P before c M := by
  cases h with
  | taken htakes hrow hgives => exact .taken htakes (hLM hrow) hgives
  | lexical he hfails => exact .lexical he hfails
  | stuck htakes hrow hspell hblames hfails hothers =>
    exact .stuck htakes (hLM hrow) hspell hblames hfails hothers

theorem reindex {room' : κ → Nat} (g : κ → ι) (hroom : ∀ j, room' j ≤ room (g j))
    (h : PromptAt room P before c L) : PromptAt room' (fun j => P (g j)) before c L := by
  cases h with
  | taken htakes hrow hgives =>
    exact .taken htakes hrow fun j rest hj =>
      hgives (g j) rest (Nat.lt_of_lt_of_le hj (hroom j))
  | lexical he hfails => exact .lexical he (hfails.reindex g hroom)
  | stuck htakes hrow hspell hblames hfails hothers =>
    exact .stuck htakes hrow hspell hblames (hfails.reindex g hroom) fun rest =>
      (hothers rest).reindex g hroom

theorem congr (h : PromptAt room Q before c L)
    (hrun : ∀ i rest, rest.length < room i → (P i).run (c.onto rest) = (Q i).run (c.onto rest)) :
    PromptAt room P before c L := by
  cases h with
  | taken htakes hrow hgives =>
    exact .taken htakes hrow fun i rest hi => (hrun i _ hi).trans (hgives i rest hi)
  | lexical he hfails => exact .lexical he (hfails.congr fun i hi => hrun i c.rest hi)
  | stuck htakes hrow hspell hblames hfails hothers =>
    exact .stuck htakes hrow hspell hblames (hfails.congr fun i hi => hrun i c.rest hi)
      fun rest => (hothers rest).congr fun i hi => hrun i _ hi

theorem behind {ts seen : List Lexeme} {after : List Item} {a : α} {c' : Cursor}
    (htakes : c.Takes ts seen after c')
    (hgives : ∀ i rest, (seen.map Item.lexeme ++ rest).length < room i →
      Gives (P i) (c.onto (seen.map Item.lexeme ++ rest)) a (c'.onto rest))
    (hrow : ∀ us ∈ M, ts ++ us ∈ L)
    (h : PromptAt (fun i => room i - ts.length) (fun i => F i a) (before ++ ts) (c'.onto after) M) :
    PromptAt room (fun i => P i >>= F i) before c L := by
  have hroom {i : ι} {rest : List Item} (hi : (seen.map Item.lexeme ++ rest).length < room i) :
      rest.length < room i - ts.length := by
    rw [List.length_append, List.length_map, htakes.length] at hi
    omega
  have hgives' (i : ι) (hi : c.rest.length < room i) : Gives (P i) c a (c'.onto after) := by
    rw [htakes.rest] at hi
    exact htakes.onto ▸ hgives i after hi
  have hrest {i : ι} (hi : c.rest.length < room i) : after.length < room i - ts.length :=
    hroom (htakes.rest ▸ hi)
  -- what comes next decides; the tokens taken before it are put in front of those it takes
  cases h with
  | @taken us seen' rest b d htakes' hrow' hgives'' =>
    refine .taken (a := b) (htakes.trans htakes') (hrow us hrow')
      fun i rest hi => ?_
    rw [List.map_append, List.append_assoc] at hi ⊢
    exact .bind (hgives i _ hi) (hgives'' i rest (hroom hi))
  | lexical he hfails =>
    exact .lexical (htakes.ahead ▸ he.behind ts) (hfails.behind hgives' fun _ => hrest)
  | @stuck us seen' vs rest d e htakes' hrow' hspell hblames hfails hothers =>
    refine .stuck (htakes.trans htakes') ?_ hspell ?_
      (hfails.behind hgives' fun _ => hrest) fun rest => ?_
    · rw [List.append_assoc]
      exact hrow _ hrow'
    · rwa [List.append_assoc] at hblames
    · rw [List.map_append, List.append_assoc]
      exact (hothers rest).behind (fun i hi => hgives i _ hi) fun _ => hroom

/-- Parsers one after the other, where the rows of the first one have at least `k` tokens. -/
theorem bind {k : Nat} (h : PromptAt room P before c L) (hk : ∀ ts ∈ L, k ≤ ts.length)
    (hM : Fillable M)
    (hF : ∀ a ts c', c.ahead = ts.map Item.lexeme ++ c'.ahead → k ≤ ts.length →
      PromptAt (fun i => room i - k) (fun i => F i a) (before ++ ts) c' M) :
    PromptAt room (fun i => P i >>= F i) before c (L * M) := by
  cases h with
  | @taken ts seen after a c' htakes hrow hgives =>
    have hlen := hk ts hrow
    refine behind htakes hgives (fun us hus => Language.append_mem_mul hrow hus) ?_
    refine (hF a ts (c'.onto after) htakes.ahead hlen).reindex id fun i => ?_
    exact Nat.sub_le_sub_left hlen (room i)
  | lexical he hfails => exact .lexical he hfails.bind
  | @stuck ts seen us after c' e htakes hrow hspell hblames hfails hothers =>
    obtain ⟨vs, hvs, hspell'⟩ := hM
    refine .stuck htakes ?_ (hspell.append hspell') hblames hfails.bind fun rest =>
      (hothers rest).bind
    rw [← List.append_assoc]
    exact Language.append_mem_mul hrow hvs

theorem bad {G : ι → Lexeme → Parser β} {text : String} {span : Span} {rest : List Item}
    (hrest : c.rest = .bad text span :: rest)
    (herror : Parser.advance.run c = .error ⟨.unexpectedText text, span⟩ c) :
    PromptAt room (fun i => Parser.advance >>= G i) before c L := by
  have hfails : Fails room (fun i => Parser.advance >>= G i) c (· = ⟨.unexpectedText text, span⟩) :=
    fun _ _ => ⟨_, c, rfl, run_bind_of_error herror⟩
  refine .lexical ?_ hfails
  rw [Cursor.ahead, hrest]
  exact .text [c.current] text span rest

theorem advance {G : ι → Lexeme → Parser β} (hc : Ended c.ahead) (hl : c.current.token ≠ .endOfInput)
    (hrow : ∀ us ∈ M, c.current :: us ∈ L)
    (hG : ∀ c', c.ahead = .lexeme c.current :: c'.ahead →
      PromptAt (fun i => room i - 1) (fun i => G i c.current) (before ++ [c.current]) c' M) :
    PromptAt room (fun i => Parser.advance >>= G i) before c L := by
  obtain ⟨current, rest, previous, nextBlock, names⟩ := c
  cases rest with
  | nil =>
    cases hc with
    | last => exact absurd rfl hl
    | cons _ hnil => cases hnil
  | cons item rest =>
    cases item with
    | bad text span => exact .bad rfl rfl
    | lexeme l =>
      have htakes : Cursor.Takes ⟨current, .lexeme l :: rest, previous, nextBlock, names⟩ [current]
          [l] rest ⟨l, rest, current.span, nextBlock, names⟩ := ⟨rfl, rfl, rfl⟩
      exact behind (a := current) htakes (fun i rest _ => rfl) hrow
        (hG _ rfl)

theorem fail {cause : SourceError.Cause} {span : Span} (hL : Fillable L)
    (hblames : SourceError.Blames ⟨cause, span⟩ c.current before c.previous) :
    PromptAt room (fun _ => Parser.fail (α := α) cause span) before c L := by
  obtain ⟨us, hus, hspell⟩ := hL
  refine .stuck (.refl c) hus hspell ?_ (fun i _ => ⟨_, c, rfl, rfl⟩)
    fun rest i _ => ⟨_, c.onto rest, trivial, rfl⟩
  rwa [List.append_nil]

end PromptAt

/-! ## Rules for all cursors -/

/-- A parser that takes nothing and always succeeds. -/
def Silent (p : Parser α) : Prop :=
  ∀ c : Cursor, ∃ (a : α) (c' : Cursor), c'.current = c.current ∧ c'.previous = c.previous ∧
    ∀ rest, Gives p (c.onto rest) a (c'.onto rest)

theorem spanFrom_silent (start : Span) : Silent (spanFrom start) :=
  fun c => ⟨start.merge c.previous, c, rfl, rfl, fun _ => rfl⟩

theorem freshBlock_silent : Silent freshBlock :=
  fun c => ⟨c.nextBlock, { c with nextBlock := c.nextBlock + 1 }, rfl, rfl, fun _ => rfl⟩

theorem remember_silent (name : Name) : Silent (remember name) :=
  fun c => ⟨(), { c with names := c.names.add name }, rfl, rfl, fun _ => rfl⟩

namespace Prompt

variable {past past' : List Lexeme} {n n' : Nat} {T T' : Lexeme → Prop} {l : Lexeme}

theorem mono (h : Prompt past n room T P L) (hLM : L ≤ M) : Prompt past n room T P M :=
  fun before c hpast hc hn hT => (h before c hpast hc hn hT).mono hLM

theorem reindex {room' : κ → Nat} (h : Prompt past n room T P L) (g : κ → ι)
    (hroom : ∀ j, room' j ≤ room (g j)) : Prompt past n room' T (fun j => P (g j)) L :=
  fun before c hpast hc hn hT => (h before c hpast hc hn hT).reindex g hroom

theorem weaken (h : Prompt past n room T P L) (hpast : past ⊆ past') (hT : ∀ l, T' l → T l) :
    Prompt past' n room T' P L :=
  fun before c hpast' hc hn hT' => h before c (List.Subset.trans hpast hpast') hc hn (hT _ hT')

theorem past_cons (h : Prompt past n room T P L) : Prompt (l :: past) n room T P L :=
  h.weaken (List.subset_cons_self l past) fun _ => id

/-- A family that is prompt everywhere is prompt with less behind and less room. -/
theorem less (h : Prompt [] n room (fun _ => True) P L) (k : Nat) :
    Prompt past (n - k) (fun i => room i - k) T P L :=
  fun before c _ hc hn _ => (h before c (List.nil_subset _) hc (by omega) trivial).reindex id
    fun i => Nat.sub_le (room i) k

theorem congr (h : Prompt past n room T Q L)
    (hrun : ∀ i c, c.rest.length < room i → T c.current → (P i).run c = (Q i).run c) :
    Prompt past n room T P L :=
  fun before c hpast hc hn hT =>
    (h before c hpast hc hn hT).congr fun i rest hi => hrun i (c.onto rest) hi hT

theorem zero : Prompt past 0 room T P L :=
  fun _ _ _ _ hn => absurd hn (Nat.not_lt_zero _)

theorem opened {f : ι → Nat → Parser α} {bounds : ι → Nat} (hbounds : ∀ i, room i ≤ bounds i)
    (h : Prompt past n room T (fun i => f i (bounds i - 1 + 1)) L) :
    Prompt past n room T (fun i => f i (bounds i)) L := by
  refine h.congr fun i c hi _ => ?_
  rw [Nat.sub_add_cancel (Nat.lt_of_lt_of_le (Nat.zero_lt_of_lt hi) (hbounds i))]

theorem of_forall (h : ∀ l, T l → Prompt past n room (· = l) P L) : Prompt past n room T P L :=
  fun before c hpast hc hn hT => h c.current hT before c hpast hc hn rfl

theorem pure {a : α} (h : [] ∈ L) : Prompt past n room T (fun _ => pure a) L :=
  fun _ c _ _ _ _ => .taken (.refl c) h fun _ _ _ => .pure

theorem bind_of_le (k : Nat) (h : Prompt past n room T P L) (hk : ∀ ts ∈ L, k ≤ ts.length)
    (hM : Fillable M)
    (hF : ∀ a, Prompt past (n - k) (fun i => room i - k) (fun _ => True) (fun i => F i a) M) :
    Prompt past n room T (fun i => P i >>= F i) (L * M) := by
  intro before c hpast hc hn hT
  refine (h before c hpast hc hn hT).bind hk hM fun a ts c' hahead hlen => ?_
  have hlength := congrArg List.length hahead
  simp only [Cursor.ahead, List.length_cons, List.length_append, List.length_map] at hlength
  exact hF a _ c' (List.subset_append_of_subset_left ts hpast) (Ended.of_append (hahead ▸ hc))
    (by omega) trivial

theorem bind (h : Prompt past n room T P L) (hM : Fillable M)
    (hF : ∀ a, Prompt past n room (fun _ => True) (fun i => F i a) M) :
    Prompt past n room T (fun i => P i >>= F i) (L * M) :=
  h.bind_of_le 0 (fun _ _ => Nat.zero_le _) hM hF

theorem bind_next (h : Prompt past n room T P L) (hL : [] ∉ L) (hM : Fillable M)
    (hF : ∀ a, Prompt past (n - 1) (fun i => room i - 1) (fun _ => True) (fun i => F i a) M) :
    Prompt past n room T (fun i => P i >>= F i) (L * M) := by
  refine h.bind_of_le 1 (fun ts hts => List.length_pos_iff.mpr ?_) hM hF
  rintro rfl
  exact hL hts

theorem silent {p : Parser α} (hp : Silent p) (hF : ∀ a, Prompt past n room T (fun i => F i a) L) :
    Prompt past n room T (fun i => p >>= F i) L := by
  intro before c hpast hc hn hT
  obtain ⟨a, c', hcurrent, hprevious, hgives⟩ := hp c
  have htakes : c.Takes [] [] c.rest c' := ⟨rfl, by rw [hcurrent]; rfl, hprevious⟩
  refine .behind htakes (fun _ rest _ => hgives rest) (fun _ hus => hus) ?_
  refine hF a _ (c'.onto c.rest) (List.subset_append_of_subset_left [] hpast) ?_ hn (hcurrent ▸ hT)
  rwa [htakes.ahead] at hc

theorem current {F : ι → Lexeme → Parser β}
    (hF : ∀ l, T l → Prompt past n room (· = l) (fun i => F i l) L) :
    Prompt past n room T (fun i => Parser.current >>= F i) L := by
  refine of_forall fun l hl => (hF l hl).congr fun i c _ hc => ?_
  rw [run_bind_of_gives .current, hc]

/-- A bound that is taken from what stands behind is enough. -/
theorem bound {F : ι → Nat → Parser β}
    (hF : Prompt past n (fun j : ι × Nat => min (room j.1) j.2) T (fun j => F j.1 j.2) L) :
    Prompt past n room T (fun i => Parser.bound >>= F i) L := by
  intro before c hpast hc hn hT
  have hrun (i : ι) (c : Cursor) : (Parser.bound >>= F i).run c = (F i (c.rest.length + 1)).run c :=
    run_bind_of_gives .bound
  have hfails {c : Cursor} {E : SourceError → Prop}
      (h : Fails (fun j : ι × Nat => min (room j.1) j.2) (fun j => F j.1 j.2) c E) :
      Fails room (fun i => Parser.bound >>= F i) c E := by
    intro i hi
    rw [hrun]
    exact h (i, c.rest.length + 1) (Nat.lt_min.mpr ⟨hi, Nat.lt_succ_self _⟩)
  cases hF before c hpast hc hn hT with
  | @taken ts seen after a c' htakes hrow hgives =>
    refine .taken (a := a) htakes hrow fun i rest hi => (hrun i _).trans ?_
    exact hgives (i, _) rest (Nat.lt_min.mpr ⟨hi, Nat.lt_succ_self _⟩)
  | lexical he h => exact .lexical he (hfails h)
  | stuck htakes hrow hspell hblames h hothers =>
    exact .stuck htakes hrow hspell hblames (hfails h) fun rest => hfails (hothers rest)

theorem advance {G : ι → Lexeme → Parser β} (hl : l.token ≠ .endOfInput)
    (hrow : ∀ us ∈ M, l :: us ∈ L)
    (hG : Prompt (l :: past) (n - 1) (fun i => room i - 1) (fun _ => True) (fun i => G i l) M) :
    Prompt past n room (· = l) (fun i => Parser.advance >>= G i) L := by
  rintro before c hpast hc hn rfl
  refine .advance hc hl hrow fun c' hahead => ?_
  have hlength := congrArg List.length hahead
  simp only [Cursor.ahead, List.length_cons] at hlength
  rw [hahead, ← List.singleton_append] at hc
  have hpast' : c.current :: past ⊆ before ++ [c.current] :=
    List.cons_subset.mpr ⟨by simp, List.subset_append_of_subset_left _ hpast⟩
  exact hG _ c' hpast' hc.of_append (by omega) trivial

theorem fail {cause : SourceError.Cause} (hL : Fillable L) (hcause : cause.IsAtHand) :
    Prompt past n room (· = l) (fun _ => Parser.fail (α := α) cause l.span) L := by
  rintro before c _ _ _ rfl
  exact .fail hL (hcause.blames c.current before c.previous)

theorem unexpected (what : Expectation) (hL : Fillable L) :
    Prompt past n room T (fun _ => Parser.unexpected (α := α) what) L :=
  current fun l _ => fail hL (.expected what l.token)

/-- The token at hand is taken and found to be out of place. -/
theorem refuse {G : ι → Lexeme → Parser β} {cause : SourceError.Cause} (hL : Fillable L)
    (hcause : cause.IsAtHand) (hG : ∀ i c, (G i l).run c = .error ⟨cause, l.span⟩ c) :
    Prompt past n room (· = l) (fun i => Parser.advance >>= G i) L := by
  rintro before c _ _ _ rfl
  have hrun {c' d : Cursor} (i : ι) (hcurrent : d.current = c.current)
      (hgives : Gives Parser.advance d d.current c') :
      (Parser.advance >>= G i).run d = .error ⟨cause, c.current.span⟩ c' := by
    rw [run_bind_of_gives hgives, hcurrent, hG]
  -- the token is taken before it is looked at, so a bad piece behind it is reported in its place
  rcases advance_cases c with ⟨c', hgives⟩ | ⟨text, span, rest, hrest, herror⟩
  · obtain ⟨us, hus, hspell⟩ := hL
    refine .stuck (.refl c) hus hspell (hcause.blames _ _ _)
      (fun i _ => ⟨_, c', rfl, hrun i rfl hgives⟩) fun rest i _ => ?_
    rcases advance_cases (c.onto rest) with ⟨d, hgives⟩ | ⟨_, _, _, _, herror⟩
    · exact ⟨_, d, trivial, hrun i rfl hgives⟩
    · exact ⟨_, _, trivial, run_bind_of_error herror⟩
  · exact .bad hrest herror

theorem misspelled {G : ι → Lexeme → Parser β} {e : Text.LiteralError}
    (hrefuses : l.token.Refuses e) (hG : ∀ i c, (G i l).run c = .error ⟨.badLiteral e, l.span⟩ c) :
    Prompt past n room (· = l) (fun i => Parser.advance >>= G i) L := by
  rintro before c _ _ _ rfl
  rcases advance_cases c with ⟨c', hgives⟩ | ⟨text, span, rest, hrest, herror⟩
  · refine .lexical (.literal [] c.current c.rest e hrefuses) fun i _ => ⟨_, c', rfl, ?_⟩
    rw [run_bind_of_gives hgives, hG]
  · exact .bad hrest herror

end Prompt

end Judgement

end Parser

end Yul
