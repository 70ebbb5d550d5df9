import Yul.Proofs.Parse.CompleteBlocks
import Yul.Proofs.Parse.Lexing
import Yul.Proofs.Parse.Sound

/-!
# The parser and the grammar

A source is parsed if and only if it is a row of tokens that is derived from the grammar, with valid
escapes in its strings, and what comes out is the tree of the derivation. A row of tokens has no
second tree, since the parser finds all of them and has one answer.
-/

namespace Yul

/-! ## Cursors at the first token -/

theorem Cursor.of_ofSource {names : NameTable} {source : String} {c : Cursor}
    (h : ofSource names source = .ok c) : c.ahead = items source ∧ c.nextBlock = 0 := by
  have hended := items_ended source
  rw [ofSource] at h
  generalize items source = is at h hended
  cases hended with
  | last span =>
    cases h
    exact ⟨rfl, rfl⟩
  | @cons i is _ _ =>
    cases i with
    | lexeme l =>
      cases h
      exact ⟨rfl, rfl⟩
    | bad text span => cases h

theorem Cursor.exists_ofSource {source : String} {ts : List Lexeme} (h : Lexes source ts)
    (names : NameTable) : ∃ c, ofSource names source = .ok c := by
  obtain ⟨span, hitems⟩ := h
  rw [ofSource, hitems]
  cases ts with
  | nil => exact ⟨_, rfl⟩
  | cons l ts => exact ⟨_, rfl⟩

namespace Parser

variable {α : Type}

theorem parse_eq_ok_iff {p : Parser α} {names names' : NameTable} {source : String} {a : α} :
    p.parse names source = .ok (a, names') ↔
      ∃ c c', Cursor.ofSource names source = .ok c ∧ Gives p c a c' ∧ c'.names = names' := by
  cases hsource : Cursor.ofSource names source with
  | error e => simp [parse, hsource, bind, Except.bind]
  | ok c =>
    cases hrun : p.run c with
    | ok b c' =>
      simp only [parse, hsource, Gives, bind, Except.bind, hrun]
      constructor
      · rintro ⟨⟩
        exact ⟨c, c', rfl, hrun, rfl⟩
      · rintro ⟨_, _, ⟨⟩, hgives, rfl⟩
        cases hrun.symm.trans hgives
        rfl
    | error e c' =>
      simp only [parse, hsource, Gives, bind, Except.bind, hrun]
      constructor
      · rintro ⟨⟩
      · rintro ⟨_, _, ⟨⟩, hgives, _⟩
        cases hrun.symm.trans hgives

/-- A parser of whole sources is exact if it is sound and complete at their first tokens. -/
theorem parse_iff {p : Parser α} {R : List Lexeme → α → Prop} {names : NameTable} {source : String}
    (hsound : ∀ c a c', Ended c.ahead → c.nextBlock = 0 → Gives p c a c' →
      ∃ ts span, c.ahead = ts.map Item.lexeme ++ [.lexeme ⟨.endOfInput, span⟩] ∧ R ts a ∧
        AllDecode ts)
    (hcomplete : ∀ c ts a span, c.nextBlock = 0 →
      c.ahead = ts.map Item.lexeme ++ [.lexeme ⟨.endOfInput, span⟩] → R ts a →
        ∃ c', Gives p c a c') (a : α) :
    (∃ names', p.parse names source = .ok (a, names')) ↔
      ∃ ts, Lexes source ts ∧ ValidStrings ts ∧ R ts a := by
  simp only [parse_eq_ok_iff]
  constructor
  · rintro ⟨_, c, c', hsource, hgives, rfl⟩
    obtain ⟨hahead, hfirst⟩ := Cursor.of_ofSource hsource
    obtain ⟨ts, span, htokens, hR, hdecode⟩ :=
      hsound c a c' (hahead ▸ items_ended source) hfirst hgives
    have hlexes : Lexes source ts := ⟨span, hahead.symm.trans htokens⟩
    exact ⟨ts, hlexes, hdecode.validStrings, hR⟩
  · rintro ⟨ts, hlexes, -, hR⟩
    obtain ⟨c, hsource⟩ := Cursor.exists_ofSource hlexes names
    obtain ⟨hahead, hfirst⟩ := Cursor.of_ofSource hsource
    obtain ⟨span, hitems⟩ := hlexes
    obtain ⟨c', hgives⟩ := hcomplete c ts a span hfirst (hahead.trans hitems) hR
    exact ⟨c'.names, c, c', hsource, hgives, rfl⟩

theorem parseBlock_iff (names : NameTable) (source : String) (b : Block) :
    (∃ names', parseBlock names source = .ok (b, names')) ↔
      ∃ ts, Lexes source ts ∧ ValidStrings ts ∧ DerivesBlock 0 ts b := by
  refine parse_iff (R := DerivesBlock 0) (fun c b c' hc hfirst h => ?_)
    (fun c ts b span hfirst hahead hR => ?_) b
  · exact hfirst ▸ wholeBlock_sound hc h
  · exact wholeBlock_complete hahead (hfirst ▸ hR)

theorem parseSource_iff (names : NameTable) (source : String) (o : Object) :
    (∃ names', parseSource names source = .ok (o, names')) ↔
      ∃ ts, Lexes source ts ∧ ValidStrings ts ∧ DerivesProgram ts o :=
  parse_iff (R := DerivesProgram) (fun _ _ _ hc hfirst => wholeObject_sound hc hfirst)
    (fun _ _ _ _ hfirst hahead => wholeObject_complete hfirst hahead) o

end Parser

/-! ## Main result -/

/-- Parsing a source gives the tree of the one derivation of its tokens, and nothing if they are not
derived or some of the source is no token. -/
theorem parse_exact (names : NameTable) (source : String) :
    (∀ b, (∃ names', parseBlock names source = .ok (b, names')) ↔
      ∃ ts, Lexes source ts ∧ ValidStrings ts ∧ DerivesBlock 0 ts b) ∧
    (∀ o, (∃ names', parseSource names source = .ok (o, names')) ↔
      ∃ ts, Lexes source ts ∧ ValidStrings ts ∧ DerivesProgram ts o) ∧
    (∀ ts, Lexes source ts → ValidStrings ts →
      (∀ b b', DerivesBlock 0 ts b → DerivesBlock 0 ts b' → b = b') ∧
      ∀ o o', DerivesProgram ts o → DerivesProgram ts o' → o = o') := by
  refine ⟨Parser.parseBlock_iff names source, Parser.parseSource_iff names source,
    fun ts hlexes hvalid => ⟨?_, ?_⟩⟩
  · intro b b' h h'
    obtain ⟨_, hb⟩ := (Parser.parseBlock_iff names source b).mpr ⟨ts, hlexes, hvalid, h⟩
    obtain ⟨_, hb'⟩ := (Parser.parseBlock_iff names source b').mpr ⟨ts, hlexes, hvalid, h'⟩
    exact congrArg Prod.fst (Except.ok.inj (hb.symm.trans hb'))
  · intro o o' h h'
    obtain ⟨_, ho⟩ := (Parser.parseSource_iff names source o).mpr ⟨ts, hlexes, hvalid, h⟩
    obtain ⟨_, ho'⟩ := (Parser.parseSource_iff names source o').mpr ⟨ts, hlexes, hvalid, h'⟩
    exact congrArg Prod.fst (Except.ok.inj (ho.symm.trans ho'))

/-- A bare identifier ends in front of the next statement, although both start alike. -/
theorem parse_bareIdentifier :
    ∃ names', parseBlock ⟨#[]⟩ "\x7b x x := 1 \x7d" = .ok
      (⟨0, [.expression (.identifier ⟨"x", ⟨2, 3⟩⟩),
        .assignment [⟨"x", ⟨4, 5⟩⟩] (.literal ⟨.number "1", none, ⟨9, 10⟩⟩) ⟨4, 10⟩], ⟨0, 12⟩⟩,
        names') := by
  have hbare : DerivesStmt 1 [Identifier.lexeme ⟨"x", ⟨2, 3⟩⟩]
      (.expression (.identifier ⟨"x", ⟨2, 3⟩⟩)) :=
    .expression (.identifier (.mk _))
  have hassign : DerivesStmt 1
      [Identifier.lexeme ⟨"x", ⟨4, 5⟩⟩, Punct.assign.lexeme ⟨6, 8⟩, ⟨.decimalNumber "1", ⟨9, 10⟩⟩]
      (.assignment [⟨"x", ⟨4, 5⟩⟩] (.literal ⟨.number "1", none, ⟨9, 10⟩⟩) ⟨4, 10⟩) :=
    .assignment ⟨6, 8⟩ (.mk (.mk ⟨"x", ⟨4, 5⟩⟩) .nil)
      (.literal (.mk ⟨.decimalNumber "1", ⟨9, 10⟩⟩ (.decimalNumber "1") .none rfl)) rfl
  refine ((parse_exact ⟨#[]⟩ _).1 _).mpr ⟨_, ⟨⟨12, 12⟩, ?_⟩, ?_,
    .mk ⟨0, 1⟩ ⟨11, 12⟩ (.cons hbare (.cons hassign .nil)) rfl⟩
  · decide +kernel
  · simp [ValidStrings]

end Yul
