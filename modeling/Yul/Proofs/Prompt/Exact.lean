import Yul.Proofs.Parse.Exact
import Yul.Proofs.Parse.Numbering
import Yul.Proofs.Prompt.Objects

/-!
# Syntactic errors are found in time

A source that is rejected because of the order of its tokens is rejected at the first token with which
no source goes on that is accepted (`parse_prompt`). Only a switch without arms is reported where it
stands, in front of this token. A bad piece of the source is reported unless there is an error about
what stands in front of it.
-/

namespace Yul

variable {α : Type}

/-! ## Places of tokens -/

/-- A span that is not empty ends in front of another one. -/
def Span.Before (s t : Span) : Prop :=
  s.start < s.stop ∧ s.stop ≤ t.start

theorem items_apart (source : String) : (items source).Pairwise fun i j => i.span.Before j.span := by
  obtain ⟨is, hlocate, htiles⟩ := locate_tile [] source.toList
  have hitems : items source = is ++ [_] := hlocate
  have hlong : ∀ i ∈ is, i.span.start < i.span.stop ∧ i.span.stop ≤ Text.byteLength source.toList := by
    intro i hi
    obtain ⟨before, mine, rest, hsource, hstands⟩ := htiles.stands i hi
    refine ⟨hstands.nonempty, ?_⟩
    rw [hstands.span, hsource, ← List.append_assoc, Text.byteLength_append (before ++ mine)]
    exact Nat.le_add_right _ _
  rw [hitems, List.pairwise_append]
  refine ⟨htiles.pairwise.imp_of_mem fun hi _ h => ⟨(hlong _ hi).1, h⟩, List.pairwise_singleton _ _, ?_⟩
  intro i hi j hj
  rw [List.mem_singleton.mp hj]
  exact hlong i hi

section Places

variable {ts : List Lexeme} {l : Lexeme}

theorem lexemes_apart {source : String} {after : List Item}
    (h : items source = ts.map Item.lexeme ++ .lexeme l :: after) :
    (ts ++ [l]).Pairwise fun k l => k.span.Before l.span := by
  have hitems : items source = (ts ++ [l]).map Item.lexeme ++ after := by
    rw [h, List.map_append, List.append_assoc]
    rfl
  have happart := items_apart source
  rw [hitems, List.pairwise_append, List.pairwise_map] at happart
  exact happart.1

theorem start_lt_lastSpan (h : (ts ++ [l]).Pairwise fun k l => k.span.Before l.span) (before : Span) :
    ∀ k ∈ ts, k.span.start < (lastSpan before ts).stop := by
  induction ts generalizing before with
  | nil => exact List.forall_mem_nil _
  | cons k ts ih =>
    obtain ⟨hk, hts⟩ := List.pairwise_cons.mp h
    refine List.forall_mem_cons.mpr ⟨?_, ih hts k.span⟩
    cases ts with
    | nil => exact (hk l List.mem_cons_self).1
    | cons m ts =>
      have hm := hk m List.mem_cons_self
      exact (hm.1.trans_le hm.2).trans (ih hts k.span m List.mem_cons_self)

theorem exists_lastSpan (before : Span) (h : l ∈ ts) : ∃ m ∈ ts, lastSpan before ts = m.span := by
  cases ts with
  | nil => cases h
  | cons k ts =>
    rcases lastSpan_mem k.span ts with hlast | ⟨m, hm, hlast⟩
    · exact ⟨k, List.mem_cons_self, hlast⟩
    · exact ⟨m, List.mem_cons_of_mem k hm, hlast⟩

theorem merge_lastSpan (h : (ts ++ [l]).Pairwise fun k l => k.span.Before l.span) (before : Span)
    {start : Lexeme} (hstart : start ∈ ts) :
    (∀ k ∈ ts, k.span.start < (start.span.merge (lastSpan before ts)).stop) ∧
      (start.span.merge (lastSpan before ts)).stop ≤ l.span.start := by
  have hbehind : ∀ k ∈ ts, k.span.stop ≤ l.span.start := fun k hk =>
    ((List.pairwise_append.mp h).2.2 k hk l List.mem_cons_self).2
  obtain ⟨m, hm, hlast⟩ := exists_lastSpan before hstart
  refine ⟨fun k hk => Nat.lt_of_lt_of_le (start_lt_lastSpan h before k hk) (Nat.le_max_right _ _), ?_⟩
  rw [hlast]
  exact Nat.max_le.mpr ⟨hbehind start hstart, hbehind m hm⟩

end Places

theorem prefix_of_bad {ts before : List Lexeme} {is after : List Item} {text : String} {span : Span}
    (h : ts.map Item.lexeme ++ is = before.map Item.lexeme ++ .bad text span :: after) :
    ∃ more, before = ts ++ more ∧ is = more.map Item.lexeme ++ .bad text span :: after := by
  induction ts generalizing before with
  | nil => exact ⟨before, rfl, h⟩
  | cons l ts ih =>
    cases before with
    | nil => cases h
    | cons k before =>
      rw [List.map_cons, List.map_cons, List.cons_append, List.cons_append, List.cons.injEq] at h
      obtain rfl := Item.lexeme.inj h.1
      obtain ⟨more, rfl, his⟩ := ih h.2
      exact ⟨more, rfl, his⟩

theorem mem_of_bad {ts before : List Lexeme} {l : Lexeme} {is after : List Item} {text : String}
    {span : Span}
    (h : ts.map Item.lexeme ++ .lexeme l :: is = before.map Item.lexeme ++ .bad text span :: after) :
    ts ⊆ before ∧ l ∈ before := by
  obtain ⟨more, rfl, his⟩ := prefix_of_bad h
  cases more with
  | nil => cases his
  | cons m more =>
    obtain rfl := Item.lexeme.inj (List.cons.inj his).1
    exact ⟨List.subset_append_left _ _, List.mem_append_right _ List.mem_cons_self⟩

theorem Ended.exists_cons {is : List Item} (h : Ended is) : ∃ i rest, is = i :: rest := by
  cases h with
  | last span => exact ⟨_, _, rfl⟩
  | cons hne rest => exact ⟨_, _, rfl⟩

theorem Ended.ne_endOfInput {ts : List Lexeme} {i : Item} {is : List Item}
    (h : Ended (ts.map Item.lexeme ++ i :: is)) : ∀ l ∈ ts, l.token ≠ .endOfInput := by
  induction ts with
  | nil => exact List.forall_mem_nil _
  | cons l ts ih =>
    generalize hrest : ts.map Item.lexeme ++ i :: is = rest at ih
    rw [List.map_cons, List.cons_append, hrest] at h
    cases h with
    | last => exact absurd hrest (by simp)
    | cons hne hended =>
      refine List.forall_mem_cons.mpr ⟨fun htoken => hne l.span ?_, ih hended⟩
      rw [← htoken]

/-! ## Whole sources -/

/-- A source has these tokens and no bad piece, the end of the input counted as a token. -/
def HasTokens (source : String) (tokens : List Token) : Prop :=
  ∃ ls : List Lexeme, items source = ls.map Item.lexeme ∧ ls.map Lexeme.token = tokens

/-- Some source that is accepted begins with these tokens. -/
def Begins (parse : String → Except SourceError α) (tokens : List Token) : Prop :=
  ∃ source a more, parse source = .ok a ∧ HasTokens source (tokens ++ more)

/-- The errors of a source are reported at the first offending token. -/
structure ReportsPromptly (parse : String → Except SourceError α) (source : String) : Prop where
  /-- the tokens in front of one that is reported begin a source that is accepted, and together with
  this token they do not -/
  syntactic : ∀ e, parse source = .error e → e.stage = .syntactic →
    ∃ (before : List Lexeme) (l : Lexeme) (after : List Item),
      items source = before.map Item.lexeme ++ .lexeme l :: after ∧
      Begins parse (before.map Lexeme.token) ∧ ¬Begins parse ((before ++ [l]).map Lexeme.token) ∧
      (e.cause ≠ .switchWithoutCases → e.span = l.span) ∧
      (e.cause = .switchWithoutCases →
        (∀ k ∈ before, k.span.start < e.span.stop) ∧ e.span.stop ≤ l.span.start)
  /-- a bad piece is reported, or else a token or a switch in front of it -/
  lexical : ∀ (before : List Lexeme) (text : String) (span : Span) (after : List Item),
    items source = before.map Item.lexeme ++ .bad text span :: after →
    ∃ e, parse source = .error e ∧ (e = ⟨.unexpectedText text, span⟩ ∨
      (∃ l ∈ before, e.span = l.span) ∨
      e.cause = .switchWithoutCases ∧ ∃ k ∈ before, ∃ l ∈ before, e.span = k.span.merge l.span)

/-- The first token of a source. -/
def Cursor.start (names : NameTable) (l : Lexeme) (rest : List Item) : Cursor :=
  ⟨l, rest, ⟨0, 0⟩, 0, names⟩

namespace Parser

/-- Something with nothing behind it. -/
def whole (p : Parser α) : Parser α := do
  let a ← p
  endOfInput
  return a

section Whole

variable {p : Parser α} {names : NameTable} {source : String} {l : Lexeme} {rest : List Item}

theorem parse_of_items (h : items source = .lexeme l :: rest) :
    p.parse names source = match p.run (.start names l rest) with
      | .ok a c => .ok (a, c.names)
      | .error e _ => .error e := by
  rw [parse, Cursor.ofSource, h]
  rfl

theorem parse_of_gives {a : α} {c : Cursor} (h : items source = .lexeme l :: rest)
    (hgives : Gives p (.start names l rest) a c) : p.parse names source = .ok (a, c.names) := by
  rw [parse_of_items h, show p.run _ = _ from hgives]

theorem parse_of_error {e : SourceError} {c : Cursor} (h : items source = .lexeme l :: rest)
    (hrun : p.run (.start names l rest) = .error e c) : p.parse names source = .error e := by
  rw [parse_of_items h, hrun]

theorem gives_of_parse {x : α × NameTable} (h : items source = .lexeme l :: rest)
    (hparse : p.parse names source = .ok x) : ∃ a c, Gives p (.start names l rest) a c := by
  rw [parse_of_items h] at hparse
  cases hrun : p.run (.start names l rest) with
  | ok a c => exact ⟨a, c, hrun⟩
  | error e c =>
    rw [hrun] at hparse
    cases hparse

theorem parse_of_bad {text : String} {span : Span} (h : items source = .bad text span :: rest) :
    p.parse names source = .error ⟨.unexpectedText text, span⟩ := by
  rw [parse, Cursor.ofSource, h]
  rfl

/-- A parser that succeeds does so in front of the same tokens at other places. -/
theorem gives_of_moved {Q : α → α → Prop} (hp : Tracks (fun _ _ => True) Q p p) {is : List Item}
    {l' : Lexeme} {a : α} {c : Cursor} (h : Gives p (.start names l rest) a c)
    (hmoved : List.Forall₂ (Item.Moved fun _ _ => True) (.lexeme l :: rest) (.lexeme l' :: is)) :
    ∃ b c', Gives p (.start names l' is) b c' := by
  cases hmoved with
  | cons hl hrest =>
    cases hl with
    | lexeme hl =>
      have hstart : (Cursor.start names l rest).Moved (fun _ _ => True) (.start names l' is) :=
        ⟨hl, hrest, trivial, rfl, rfl⟩
      have hread := hp _ _ hstart
      rw [show p (Cursor.start names l rest) = .ok a c from h] at hread
      generalize hresult : p (Cursor.start names l' is) = result at hread
      cases hread with
      | ok _ _ => exact ⟨_, _, hresult⟩

theorem endOfInput_prompt {past : List Lexeme} {n : Nat} {room : Nat → Nat} {L : Language Lexeme}
    {a : α} (hL : Fillable L) : Prompt past n room (fun l => l.token ≠ .endOfInput)
      (fun _ : Nat => do endOfInput; return a) L := by
  refine (Prompt.unexpected .endOfInput hL).congr fun i c _ hc => ?_
  have hexpect : (expect .endOfInput .endOfInput).run c =
      .error ⟨.expected .endOfInput c.current.token, c.current.span⟩ c := by
    rw [expect, run_bind_of_gives .current, if_neg hc]
    rfl
  exact run_bind_of_error (run_bind_of_error hexpect)

/-- A prompt parser of whole sources succeeds or is stuck. -/
theorem whole_prompt {c : Cursor} {L : Language Lexeme} (hc : Ended c.ahead)
    (h : PromptAt id (fun _ : Nat => p) [] c L) :
    (∃ a c', Gives (whole p) c a c') ∨ PromptAt id (fun _ : Nat => whole p) [] c L := by
  cases h with
  | @taken ts seen after a c' htakes hrow hgives =>
    have hended : Ended (c'.onto after).ahead := Ended.of_append (htakes.ahead ▸ hc)
    by_cases hend : c'.current.token = .endOfInput
    · have hp : Gives p c a (c'.onto after) := by
        have hp := hgives _ after (Nat.lt_succ_self _)
        rwa [htakes.onto] at hp
      have hahead : (c'.onto after).ahead = [.lexeme ⟨.endOfInput, c'.current.span⟩] := by
        rw [Cursor.ahead, rest_of_endOfInput hended hend, ← hend]
        rfl
      obtain ⟨d, hd⟩ := endOfInput_complete hahead
      exact .inl ⟨a, d, .bind hp (.bind hd .pure)⟩
    · refine .inr (.behind (M := {us | ts ++ us ∈ L}) htakes hgives (fun _ hus => hus) ?_)
      have hnil : [] ∈ ({us | ts ++ us ∈ L} : Language Lexeme) := by
        show ts ++ [] ∈ L
        rwa [List.append_nil]
      exact endOfInput_prompt (.of_nil hnil) _ (c'.onto after) (List.nil_subset _) hended
        (Nat.lt_succ_self _) hend
  | lexical he hfails => exact .inr (.lexical he hfails.bind)
  | stuck htakes hrow hspell hblames hfails hothers =>
    exact .inr (.stuck htakes hrow hspell hblames hfails.bind fun rest => (hothers rest).bind)

end Whole

/-! ## Sources that begin alike -/

section Begins

variable {p : Parser α} {L : Language Lexeme} {Q : α → α → Prop} {names : NameTable}

/-- What a parser of whole sources has to be like to report errors promptly. -/
structure Predictive (p : Parser α) (L : Language Lexeme) (Q : α → α → Prop) : Prop where
  prompt : ∀ before c, Ended c.ahead → PromptAt id (fun _ : Nat => p) before c L
  complete : ∀ ts ∈ L, ∀ c span, c.nextBlock = 0 →
    c.ahead = ts.map Item.lexeme ++ [.lexeme ⟨.endOfInput, span⟩] → ∃ a c', Gives (whole p) c a c'
  lexes : ∀ names source x, (whole p).parse names source = .ok x → ∃ ts, Lexes source ts
  tracks : Tracks (fun _ _ => True) Q (whole p) (whole p)

variable (hp : Predictive p L Q)

include hp

theorem Predictive.begins {ts us : List Lexeme} (hrow : ts ++ us ∈ L)
    (hspell : Spellable us) (hoccurs : ∀ l ∈ ts, l.token.Occurs) :
    Begins ((whole p).parse names) (ts.map Lexeme.token) := by
  have hspelled : ∀ t ∈ (ts ++ us).map Lexeme.token, t.Occurs := by
    rw [List.forall_mem_map, List.forall_mem_append]
    exact ⟨hoccurs, hspell⟩
  obtain ⟨source, vs, ⟨span, hitems⟩, htokens⟩ := exists_source hspelled
  -- the row with the end of the input, where it was completed and where it was spelled
  have hmoved : List.Forall₂ (Item.Moved fun _ _ => True)
      ((ts ++ us).map Item.lexeme ++ [.lexeme ⟨.endOfInput, span⟩]) (items source) := by
    rw [hitems]
    exact List.rel_append (moved_of_tokens htokens.symm) (.cons (.lexeme ⟨rfl, trivial⟩) .nil)
  obtain ⟨l, rest, hahead⟩ : ∃ l rest, (ts ++ us).map Item.lexeme ++ [.lexeme ⟨.endOfInput, span⟩] =
      Item.lexeme l :: rest := by
    cases ts ++ us with
    | nil => exact ⟨_, _, rfl⟩
    | cons l ls => exact ⟨l, _, rfl⟩
  obtain ⟨l', rest', hitems'⟩ : ∃ l rest, items source = .lexeme l :: rest := by
    cases vs with
    | nil => exact ⟨_, _, hitems⟩
    | cons l ls => exact ⟨l, _, hitems⟩
  obtain ⟨a, c, hgives⟩ := hp.complete _ hrow (.start names l rest) span rfl hahead.symm
  rw [hahead, hitems'] at hmoved
  obtain ⟨b, d, hgives'⟩ := gives_of_moved hp.tracks hgives hmoved
  refine ⟨source, _, us.map Lexeme.token ++ [.endOfInput], parse_of_gives hitems' hgives',
    vs ++ [⟨.endOfInput, span⟩], ?_, ?_⟩
  · rw [hitems, List.map_append]
    rfl
  · rw [List.map_append, htokens, List.map_append, List.append_assoc]
    rfl

/-- No source that is accepted begins with tokens behind which every run fails. -/
theorem Predictive.not_begins {first l : Lexeme} {ts seen : List Lexeme}
    (hseen : first :: seen = ts ++ [l])
    (hfails : ∀ rest, ∃ e c, (whole p).run (.start names first (seen.map Item.lexeme ++ rest)) =
      .error e c) : ¬Begins ((whole p).parse names) ((ts ++ [l]).map Lexeme.token) := by
  rw [← hseen]
  rintro ⟨source, x, more, hparse, ls, hitems, htokens⟩
  obtain ⟨ms, ns, rfl, hms, -⟩ := List.map_eq_append_iff.mp htokens
  obtain ⟨first', seen', rfl, -, -⟩ := List.map_eq_cons_iff.mp hms
  obtain ⟨a, c, hgives⟩ := gives_of_parse hitems hparse
  have hsame : (first' :: seen' ++ ns).map Lexeme.token = (first :: seen ++ ns).map Lexeme.token := by
    rw [List.map_append, List.map_append, hms]
  have hmoved : List.Forall₂ (Item.Moved fun _ _ => True)
      (.lexeme first' :: (seen' ++ ns).map Item.lexeme)
      (.lexeme first :: (seen.map Item.lexeme ++ ns.map Item.lexeme)) := by
    rw [← List.map_append]
    exact moved_of_tokens hsame
  obtain ⟨b, d, hgives'⟩ := gives_of_moved hp.tracks hgives hmoved
  obtain ⟨e, d', herror⟩ := hfails (ns.map Item.lexeme)
  cases hgives'.symm.trans herror

/-- Why a source is rejected: for a lexical error, or because of a token that does not go on. -/
theorem Predictive.error_cases {source : String} {e : SourceError}
    (hparse : (whole p).parse names source = .error e) :
    SourceError.Lexical (items source) e ∨
    ∃ (ts : List Lexeme) (l : Lexeme) (after : List Item),
      items source = ts.map Item.lexeme ++ .lexeme l :: after ∧ e.Blames l ts (lastSpan ⟨0, 0⟩ ts) ∧
      Begins ((whole p).parse names) (ts.map Lexeme.token) ∧
      ¬Begins ((whole p).parse names) ((ts ++ [l]).map Lexeme.token) := by
  have hended := items_ended source
  obtain ⟨item, rest, hitems⟩ := hended.exists_cons
  cases item with
  | bad text span =>
    cases (parse_of_bad hitems).symm.trans hparse
    exact .inl (hitems ▸ .text [] text span rest)
  | lexeme first =>
    have hahead : (Cursor.start names first rest).ahead = items source := hitems.symm
    rw [← hahead] at hended
    have hroom (c : Cursor) : c.rest.length < id (c.rest.length + 1) := Nat.lt_succ_self _
    have hfailed {a : α} {c : Cursor} (h : Gives (whole p) (.start names first rest) a c) : False := by
      cases (parse_of_gives hitems h).symm.trans hparse
    rcases whole_prompt hended (hp.prompt [] _ hended) with ⟨a, c, hgives⟩ | h
    · exact (hfailed hgives).elim
    cases h with
    | @taken ts seen after a c htakes _ hgives =>
      -- then the source would be accepted
      have hgives := hgives _ after (Nat.lt_succ_self _)
      rw [htakes.onto] at hgives
      exact (hfailed hgives).elim
    | lexical he hfails =>
      obtain ⟨_, c, rfl, hrun⟩ := hfails _ (hroom _)
      cases (parse_of_error hitems hrun).symm.trans hparse
      exact .inl (hahead ▸ he)
    | @stuck ts seen us after c _ htakes hrow hspell hblames hfails hothers =>
      obtain ⟨_, d, rfl, hrun⟩ := hfails _ (hroom _)
      cases (parse_of_error hitems hrun).symm.trans hparse
      have hsource : items source = ts.map Item.lexeme ++ .lexeme c.current :: after :=
        hahead.symm.trans htakes.ahead
      have hoccurs : ∀ l ∈ ts, l.token.Occurs := fun l hl =>
        occurs_of_mem_items (hsource ▸ List.mem_append_left _ (List.mem_map_of_mem hl))
          (Ended.ne_endOfInput (hsource ▸ items_ended source) l hl)
      rw [htakes.previous] at hblames
      refine .inr ⟨ts, c.current, after, hsource, hblames, hp.begins hrow hspell hoccurs,
        hp.not_begins htakes.row fun rest => ?_⟩
      obtain ⟨e', d, -, hrun⟩ := hothers rest _ (hroom _)
      exact ⟨e', d, hrun⟩

theorem Predictive.reports (names : NameTable) (source : String) :
    ReportsPromptly ((whole p).parse names) source where
  syntactic e hparse hstage := by
    rcases hp.error_cases hparse with hlexical | ⟨ts, l, after, hsource, hblames, hbegins, hnot⟩
    · generalize items source = is at hlexical
      cases hlexical <;> cases hstage
    · refine ⟨ts, l, after, hsource, hbegins, hnot, hblames.token, fun hswitch => ?_⟩
      obtain ⟨start, hstart, hspan⟩ := hblames.switch hswitch
      rw [hspan]
      exact merge_lastSpan (lexemes_apart hsource) ⟨0, 0⟩ hstart
  lexical before text span after hsource := by
    cases hparse : (whole p).parse names source with
    | ok x =>
      obtain ⟨ts, place, hlexes⟩ := hp.lexes names source x hparse
      obtain ⟨more, -, hmore⟩ := prefix_of_bad (hlexes.symm.trans hsource)
      cases more with
      | nil => cases hmore
      | cons m more => exact absurd (List.cons.inj hmore).2 (by simp)
    | error e =>
      refine ⟨e, rfl, ?_⟩
      rcases hp.error_cases hparse with hlexical | ⟨ts, l, rest, hitems, hblames, -, -⟩
      · generalize hitems : items source = is at hlexical
        cases hlexical with
        | text ts text' span' rest =>
          obtain ⟨more, -, hmore⟩ := prefix_of_bad (hitems.symm.trans hsource)
          cases more with
          | nil =>
            cases hmore
            exact .inl rfl
          | cons m more => cases hmore
        | literal ts l rest e =>
          exact .inr (.inl ⟨l, (mem_of_bad (hitems.symm.trans hsource)).2, rfl⟩)
      · obtain ⟨hts, hl⟩ := mem_of_bad (hitems.symm.trans hsource)
        by_cases hswitch : e.cause = .switchWithoutCases
        · obtain ⟨start, hstart, hspan⟩ := hblames.switch hswitch
          obtain ⟨m, hm, hlast⟩ := exists_lastSpan ⟨0, 0⟩ hstart
          exact .inr (.inr ⟨hswitch, start, hts hstart, m, hts hm, hlast ▸ hspan⟩)
        · exact .inr (.inl ⟨l, hl, hblames.token hswitch⟩)

end Begins

theorem block_predictive :
    Predictive block (rows DerivesBlock) (Block.Moved fun _ _ => True) where
  prompt before c hc :=
    block_prompt (T := fun _ => True) before c (List.nil_subset _) hc (Nat.lt_succ_self _) trivial
  complete ts hts c span _ hahead := by
    obtain ⟨b, hb⟩ := hts c.nextBlock
    obtain ⟨c', hc'⟩ := wholeBlock_complete hahead hb
    exact ⟨b, c', hc'⟩
  lexes names source x hparse := by
    obtain ⟨ts, hlexes, -⟩ := (parseBlock_iff names source x.1).mp ⟨x.2, hparse⟩
    exact ⟨ts, hlexes⟩
  tracks := wholeBlock_tracks ⟨trivial, fun _ _ => trivial⟩

theorem objectOrBlock_predictive :
    Predictive objectOrBlock (phrases DerivesProgram) (Object.Moved fun _ _ => True) where
  prompt before c hc :=
    objectOrBlock_prompt (T := fun _ => True) before c (List.nil_subset _) hc (Nat.lt_succ_self _)
      trivial
  complete ts hts c span hfirst hahead := by
    obtain ⟨o, ho⟩ := hts
    obtain ⟨c', hc'⟩ := wholeObject_complete hfirst hahead ho
    exact ⟨o, c', hc'⟩
  lexes names source x hparse := by
    obtain ⟨ts, hlexes, -⟩ := (parseSource_iff names source x.1).mp ⟨x.2, hparse⟩
    exact ⟨ts, hlexes⟩
  tracks := wholeObject_tracks ⟨trivial, fun _ _ => trivial⟩

end Parser

/-! ## Main result -/

/-- Both parsers of sources report a syntactic error at the first token with which no source goes on
that they accept, or at the switch without arms in front of it. -/
theorem parse_prompt (names : NameTable) (source : String) :
    ReportsPromptly (parseBlock names) source ∧ ReportsPromptly (parseSource names) source :=
  ⟨Parser.block_predictive.reports names source, Parser.objectOrBlock_predictive.reports names source⟩

end Yul
